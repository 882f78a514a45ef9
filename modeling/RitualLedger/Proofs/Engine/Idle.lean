import RitualLedger.Proofs.Completion.Conduct
import RitualLedger.Proofs.Engine.Contract

/-!
# Operations that write nothing

Checks, look-ups and draws leave the store alone, whether they fail or not. So whatever a client has
promised, it is in the same phase afterwards, and only the others have moved the store.
-/

namespace RitualLedger

variable {γ α β : Type} {k : Contract γ} {g : γ} {s : Store}

namespace Operation

/-- An operation writes nothing, whether it fails or not. -/
def Idle (k : Contract γ) (g : γ) (o : Operation α) (s : Store) : Prop :=
  o.Keeps k (fun _ g' _ => g' = g) (fun _ g' s' => g' = g ∧ k.moves g s s') g s

namespace Idle

theorem pure (a : α) : Idle k g (pure a) s := ⟨rfl, k.moves_refl g s⟩

theorem throw (e : EngineError) : Idle k g (throw e : Operation α) s := rfl

theorem ofValidation (r : Except ValidationError α) : Idle k g (Operation.ofValidation r) s :=
  Keeps.ofValidation (fun _ _ => ⟨rfl, k.moves_refl g s⟩) fun _ _ => rfl

theorem ofExcept (r : Except EngineError α) : Idle k g (Operation.ofExcept r) s :=
  Keeps.ofExcept (fun _ _ => ⟨rfl, k.moves_refl g s⟩) fun _ _ => rfl

theorem now : Idle k g (liftM Request.now : Operation _) s :=
  Keeps.now.imp (fun _ _ _ h => h) fun _ _ _ h => ⟨h.1, h.2.1⟩

theorem freshId : Idle k g (liftM Request.freshId : Operation _) s :=
  Keeps.freshId.imp (fun _ _ _ h => h) fun _ _ _ h => h

theorem takePrompt (subject : String) :
    Idle k g (liftM (Request.takePrompt subject) : Operation _) s :=
  .lift fun _ _ hs => ⟨rfl, hs⟩

theorem readDocument? {δ : Type} [Document δ] (key : DocKey) :
    Idle k g (RitualLedger.readDocument? (α := δ) key) s :=
  Keeps.readDocument? (fun _ _ _ _ _ => rfl) fun _ hs => ⟨rfl, hs⟩

theorem queryDocuments {δ : Type} [Document δ] (q : Query) :
    Idle k g (RitualLedger.queryDocuments (α := δ) q) s :=
  Keeps.queryDocuments (fun _ _ _ => rfl) fun _ _ hs => ⟨rfl, hs⟩

theorem bind {o : Operation α} {f : α → Operation β} (h : Idle k g o s)
    (hf : ∀ a s', k.moves g s s' → Idle k g (f a) s') : Idle k g (o >>= f) s := by
  refine Keeps.bind h ?_
  rintro a _ s' ⟨rfl, hs⟩
  exact (hf a s' hs).imp (fun _ _ _ h => h) fun _ _ _ h => ⟨h.1, hs.trans h.2⟩

end Idle

end Operation

/-! ## Look-ups -/

open Operation (Idle)

namespace Ledger

theorem idle_idOr (key : Option String) : Idle k g (liftM (idOr key) : Operation String) s := by
  cases key with
  | some id => exact .pure id
  | none => exact .freshId

theorem idle_account (subject : String) : Idle k g (account subject) s := by
  refine .bind (.readDocument? _) ?_
  rintro (_ | a) s' -
  · exact .throw _
  · exact .pure a

end Ledger

namespace Ritual

theorem idle_drawTasks (order : Nat) (ts : List TaskDefinition) :
    Idle k g (liftM (drawTasks order ts) : Operation _) s := by
  refine Operation.Keeps.lift ?_
  induction ts generalizing order s with
  | nil => exact ⟨rfl, k.moves_refl g s⟩
  | cons t rest ih =>
    intro s' id hs
    change Program.Keeps _ _ ((drawTasks (order + 1) rest).bind _) _ _
    refine Program.Keeps.bind (ih (order + 1)) ?_
    rintro tasks _ s'' ⟨rfl, hs'⟩
    exact ⟨rfl, hs.trans hs'⟩

theorem idle_get (id : String) : Idle k g (get id) s := by
  refine .bind (.readDocument? _) ?_
  rintro (_ | r) s' -
  · exact .throw _
  · exact .pure r

theorem idle_evaluate (id : String) (t : Trigger) : Idle k g (evaluate id t) s :=
  .bind (idle_get id) fun _ _ _ => .pure _

end Ritual

theorem Assignment.idle_currentTask? (subject : String) : Idle k g (currentTask? subject) s := by
  refine .bind (.readDocument? _) ?_
  rintro (_ | a) s' -
  · exact .pure none
  · dsimp only
    split
    · exact .pure none
    · refine .bind (Ritual.idle_get _) ?_
      intro r s'' _
      split
      · exact .pure none
      · exact .pure _

theorem Completion.idle_assignmentOf (step : Step) : Idle k g (assignmentOf step) s := by
  refine .bind (.readDocument? _) ?_
  rintro (_ | a) s' -
  · exact .throw _
  · dsimp only
    split
    · exact .pure a
    · exact .throw _

end RitualLedger
