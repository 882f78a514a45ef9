import RitualLedger.Proofs.Engine.Discipline
import RitualLedger.Proofs.Engine.World

/-!
# Conflicts and prompts stay inside

A conflict is the business of the optimistic loop, and a prompt that of the question for a mood and
of the reply to it. `Program.Always` says what a program ends with *whatever* the answers to its
requests are, and that it leaves the prompts alone unless it may touch them. A query that fails is
at fault itself; nothing else is known of the answers.

All calls follow this discipline (`Discipline.discreet`). So no call comes to a conflict and none
tells of an action that did (`Call.Discreet`), in any setting and in any run; and a call that is not
about prompts leaves them as they were (`Call.prompts_run`).
-/

namespace RitualLedger

variable {α β : Type}

/-- A commit has met a conflict. -/
def EngineError.IsConflict (e : EngineError) : Prop := ∃ key, e = .store (.conflict key)

theorem EngineError.IsOwn.not_isConflict {e : EngineError} (h : e.IsOwn) : ¬ e.IsConflict := by
  rintro ⟨key, rfl⟩
  exact h

/-! ## Programs -/

namespace Program

/-- Whatever the answers to its requests are, a program touches prompts only if it may, and ends
with a property. -/
def Always (prompts : Prop) (post : α → Prop) : Program α → Prop
  | finish result => post result
  | read _ next => ∀ doc, Always prompts post (next doc)
  | commit _ _ next => ∀ answer, Always prompts post (next answer)
  | append _ _ next => ∀ id, Always prompts post (next id)
  | query _ next => ∀ found, ComesTo StoreError.IsQueryFault (fun _ => True) found →
    Always prompts post (next found)
  | openPrompt _ next => prompts ∧ Always prompts post next
  | takePrompt _ next => prompts ∧ ∀ prompt, Always prompts post (next prompt)
  | now next => ∀ time, Always prompts post (next time)
  | freshId next => ∀ id, Always prompts post (next id)

namespace Always

variable {prompts : Prop} {post : α → Prop} {p : Program α}

theorem bind {post' : β → Prop} {f : α → Program β} (hp : p.Always prompts post)
    (hf : ∀ a, post a → (f a).Always prompts post') : (p.bind f).Always prompts post' := by
  induction p with
  | finish a => exact hf a hp
  | query q next ih => exact fun found hfound => ih found (hp found hfound)
  | openPrompt prompt next ih => exact ⟨hp.1, ih hp.2⟩
  | takePrompt subject next ih => exact ⟨hp.1, fun prompt => ih prompt (hp.2 prompt)⟩
  | read _ _ ih | commit _ _ _ ih | append _ _ _ ih | now _ ih | freshId _ ih =>
    exact fun a => ih a (hp a)

/-- What holds whatever the answers are still holds after one of them. -/
theorem serve (hp : p.Always prompts post) (scene : Scene) (chance : Chance) :
    (p.serve scene chance).1.Always prompts post := by
  cases p with
  | finish a => exact hp
  | query q next => exact hp _ ((q.comesTo_run scene.store).imp fun _ _ => trivial)
  | openPrompt prompt next => exact hp.2
  | takePrompt subject next => exact hp.2 _
  | read _ _ | commit _ _ _ | append _ _ _ | now _ | freshId _ => exact hp _

/-- It holds of the result of a run. -/
theorem run (hp : p.Always prompts post) (s : Setting) : post (p.run s).1 := by
  induction p generalizing s with
  | finish a => exact hp
  | query q next ih => exact ih _ (hp _ ((q.comesTo_run s.store).imp fun _ _ => trivial)) s
  | openPrompt prompt next ih => exact ih hp.2 _
  | takePrompt subject next ih => exact ih _ (hp.2 _) _
  | read _ _ ih | commit _ _ _ ih | append _ _ _ ih | now _ ih | freshId _ ih => exact ih _ (hp _) _

end Always

end Program

/-! ### Prompts -/

theorem Setting.prompts_commit (s : Setting) (stamps : List Stamp) (ws : List Write) :
    (s.commit stamps ws).2.prompts = s.prompts := by
  have hintrude : s.intrude.2.prompts = s.prompts := by
    rw [Setting.intrude]
    split
    · rfl
    · rfl
    · split <;> rfl
  rw [Setting.commit, ← hintrude]
  split
  · rename_i hsome
    rw [hsome]
  · rename_i hsome
    rw [hsome]
    split <;> rfl

/-- **Prompts stay** where a program runs that may not touch them. -/
theorem Program.Always.prompts_run {post : α → Prop} {p : Program α} (hp : p.Always False post)
    (s : Setting) : (p.run s).2.prompts = s.prompts := by
  induction p generalizing s with
  | finish => rfl
  | openPrompt | takePrompt => exact hp.1.elim
  | query q next ih => exact ih _ (hp _ ((q.comesTo_run s.store).imp fun _ _ => trivial)) s
  | read _ _ ih | append _ _ _ ih | now _ ih | freshId _ ih => exact ih _ (hp _) _
  | commit stamps ws next ih => exact (ih _ (hp _) _).trans (s.prompts_commit stamps ws)

/-! ## The discipline -/

/-- Something is decided, or it fails for another reason than a conflict. -/
abbrev Unconflicted (r : Except EngineError α) : Prop := Decides (fun e => ¬ e.IsConflict) r

theorem not_isConflict_serialization {reason : String} :
    ¬ (EngineError.store (.serialization reason)).IsConflict := by
  rintro ⟨key, h⟩
  cases h

namespace Snapshot

variable {snapshot : Snapshot}

/-- A document that cannot be read is not a conflict. -/
theorem offers (snapshot : Snapshot) : snapshot.Offers fun e => ¬ e.IsConflict where
  own _ h := h.not_isConflict
  get id := by
    rw [Snapshot.get]
    split
    · exact .ok trivial
    · split
      · exact .ok trivial
      · exact .error not_isConflict_serialization

end Snapshot

namespace Program.Always

variable {prompts : Prop}

theorem bind_operation {o : Operation α} {f : α → Operation β}
    (ho : o.program.Always prompts Unconflicted)
    (hf : ∀ a, (f a).program.Always prompts Unconflicted) :
    (o >>= f).program.Always prompts Unconflicted := by
  refine bind ho ?_
  rintro (e | a) hanswer
  · exact hanswer
  · exact hf a

theorem readDocument? [Document α] (key : DocKey) :
    (RitualLedger.readDocument? (α := α) key).program.Always prompts Unconflicted := by
  refine bind_operation (fun _ => trivial) ?_
  rintro (_ | doc)
  · trivial
  · dsimp only
    split
    · trivial
    · exact not_isConflict_serialization

theorem unconflicted_decodeAll [Document α] (found : List (String × Json)) :
    Unconflicted (decodeAll (α := α) found) := by
  induction found with
  | nil => exact .ok trivial
  | cons d rest ih =>
    rw [decodeAll]
    split
    · exact .error not_isConflict_serialization
    · exact ih.bind fun _ _ => .ok trivial

theorem queryDocuments [Document α] (q : Query) :
    (RitualLedger.queryDocuments (α := α) q).program.Always prompts Unconflicted := by
  intro found hfound
  cases found with
  | error e =>
    obtain ⟨reason, rfl⟩ := hfound
    rintro ⟨key, hkey⟩
    cases hkey
  | ok found => exact unconflicted_decodeAll found

theorem extend (s : Snapshot) (keys : List DocKey) :
    (s.extend keys).Always prompts fun _ => True := by
  induction keys generalizing s with
  | nil => trivial
  | cons key rest ih =>
    rw [Snapshot.extend]
    split
    · exact ih s
    · exact fun doc => ih _

/-- **The loop keeps conflicts to itself.** -/
theorem tries {keys : List DocKey} {decision : Snapshot → Except EngineError (Plan α)}
    (h : ∀ snapshot, Unconflicted (decision snapshot)) (left made : Nat) :
    (tries keys decision left made).Always prompts Unconflicted := by
  -- By induction on the attempts that are left.
  induction left generalizing made with
  | zero =>
    rintro ⟨key, hkey⟩
    cases hkey
  | succ left ih =>
    rw [tries_succ]
    refine bind (extend _ keys) fun snapshot _ => ?_
    have hdecision := h snapshot
    rw [conclude]
    cases hdecided : decision snapshot with
    | error e =>
      rw [hdecided] at hdecision
      exact hdecision
    | ok plan =>
      dsimp only
      split
      · trivial
      · rintro (e | _)
        · cases e with
          | conflict _ => exact ih (made + 1)
          | retriesExhausted _ | openFailed _ _ | queryFailed _ | locked | serialization _
          | poisoned =>
            rintro ⟨key, hkey⟩
            cases hkey
        · trivial

end Program.Always

/-- **Conflicts stay inside**, and so do prompts unless they may be touched. -/
def Discipline.discreet (policy : RetryPolicy) (prompts : Prop) : Discipline policy where
  holds post p := p.Always prompts post
  fails e := ¬ e.IsConflict
  prompts := prompts
  own _ h := h.not_isConflict
  finish h := h
  bind hp hf := hp.bind hf
  now _ := trivial
  freshId _ := trivial
  append _ _ _ := trivial
  openPrompt _ h := ⟨h, trivial⟩
  takePrompt _ h := ⟨h, fun _ => trivial⟩
  read _ := .readDocument? _
  query _ _ := .queryDocuments _
  transact _ _ h _ := .tries (fun snapshot => h snapshot snapshot.offers) policy.limit 0

/-! ## Calls -/

namespace Call

/-- Whether an answer to a call is no conflict, and tells of no action that failed for one. -/
def Discreet (c : Call) (answer : Except EngineError c.Result) : Prop :=
  ComesTo (fun e => ¬ e.IsConflict) (fun a => AllFailBy (fun e => ¬ e.IsConflict) (c.results a))
    answer

theorem always_discreet (c : Call) (policy : RetryPolicy) :
    (c.operation policy).program.Always True c.Discreet :=
  c.operation_follows (.discreet policy True) fun _ => trivial

/-- **A call that is not about prompts leaves them alone.** -/
theorem prompts_run {c : Call} (hc : c.isAboutPrompts = false) (policy : RetryPolicy)
    (s : Setting) : ((c.operation policy).run s).2.prompts = s.prompts := by
  refine Program.Always.prompts_run (c.operation_follows (.discreet policy False) fun h => ?_) s
  rw [hc] at h
  cases h

end Call

end RitualLedger
