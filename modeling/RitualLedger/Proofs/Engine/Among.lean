import RitualLedger.Proofs.Engine.Turns

/-!
# Clients among others

`Contract.among` is the contract of a client of which nothing is asked: it relies on how the others
move the store, and it is told for which reasons the store may refuse a commit. So it is kept by
every program (`Program.Keeps.anyhow`), and all that is left to prove of a program is what holds of
its answer, and of the store, when it has finished.

What holds then may be carried through a whole run (`World.keeps_among`), if it is something that
the others cannot take back.
-/

namespace RitualLedger

/-- Others move the store in some way, and nothing is asked of the client's own writes. -/
def Contract.among (R : Rely) (refuses : StoreError → Prop) : Contract Unit where
  rely _ := R
  refuses := refuses
  known := R.moves
  gives _ _ _ _ := True

variable {α : Type} {R : Rely} {refuses : StoreError → Prop} {s : Store}

theorem Contract.lax_among : (Contract.among R refuses).Lax R fun _ => True where
  moves := id
  known := id
  gives _ _ _ _ := ⟨(), trivial, trivial⟩

theorem Program.Keeps.along {post : α → Unit → Store → Prop} {p : Program α}
    (h : p.Keeps (.among R refuses) post () s) :
    p.Keeps (.among R refuses) (fun a g s' => post a g s' ∧ R.moves s s') () s :=
  h.moving Contract.lax_among

namespace Operation

variable {fails : EngineError → Unit → Store → Prop} {post : α → Unit → Store → Prop}

theorem Keeps.along {o : Operation α} (h : o.Keeps (.among R refuses) fails post () s) :
    o.Keeps (.among R refuses) fails (fun a g s' => post a g s' ∧ R.moves s s') () s := by
  refine Program.Keeps.imp (Program.Keeps.along h) ?_
  rintro (e | a) g' s' ⟨hpost, hs⟩
  · exact hpost
  · exact ⟨hpost, hs⟩

/-- An operation of which nothing is known ends where the others have led. -/
theorem Keeps.among (o : Operation α) :
    o.Keeps (.among R refuses) (fun _ _ _ => True) (fun _ _ s' => R.moves s s') () s := by
  refine Program.Keeps.imp (Program.Keeps.anyhow Contract.lax_among o.program trivial s) ?_
  rintro (e | a) g' s' ⟨-, hs⟩
  · trivial
  · exact hs

end Operation

/-- Whether the store refused commits for certain reasons only. -/
def Event.Refused (refuses : StoreError → Prop) (es : List Event) : Prop :=
  ∀ i chance, .served i chance ∈ es → ∀ e ∈ chance.refusal, refuses e

namespace World

variable {ttl : Int} {es later : List Event} {i : Nat} {c : Client}
  {post : (call : Call) → Except EngineError call.Result → Store → Prop}

/-- What every event does to the store is done by runs as well. -/
theorem moves_after
    (hmoves : ∀ {w : World}, w.Sound → w.store.Regular → ∀ e, R.moves w.store (w.step e).store)
    (ttl : Int) (es later : List Event) :
    R.moves ((initial ttl).after es).store ((initial ttl).after (es ++ later)).store := by
  induction later using List.reverseRecOn with
  | nil =>
    rw [List.append_nil]
    exact R.refl _
  | append_singleton later e ih =>
    rw [← List.append_assoc, after_concat]
    exact R.trans ih (hmoves (sound_after ttl _) (regular_after ttl _) e)

/-- **What calls end with that come in after some moment holds of every client that has come in
since and has finished**, whatever overlaps. -/
theorem keeps_since
    (hmoves : ∀ {w : World}, w.Sound → w.store.Regular → ∀ e, R.moves w.store (w.step e).store)
    (hcalls : ∀ (policy : RetryPolicy) (call : Call) (s : Store), s.Regular →
      R.moves ((initial ttl).after es).store s →
      (call.operation policy).program.Keeps (.among R refuses)
        (fun answer _ => post call answer) () s)
    (hstable : ∀ call answer {s t}, s.Regular → R.moves s t → post call answer s →
      post call answer t)
    (hrefused : Event.Refused refuses later)
    (hnew : ((initial ttl).after es).clients[i]? = none)
    (hc : ((initial ttl).after (es ++ later)).clients[i]? = some c) :
    c.rest.Keeps (.among R refuses) (fun answer _ => post c.call answer) ()
      ((initial ttl).after (es ++ later)).store := by
  induction later using List.reverseRecOn generalizing c with
  | nil =>
    rw [List.append_nil] at hc
    cases hnew.symm.trans hc
  | append_singleton later e ih =>
    have hsound := sound_after ttl (es ++ later)
    have hregular := regular_after ttl (es ++ later)
    have hrefusedBefore : Event.Refused refuses later :=
      fun j chance hmem => hrefused j chance (List.mem_append_left _ hmem)
    rw [← List.append_assoc, after_concat] at hc ⊢
    cases hbefore : ((initial ttl).after (es ++ later)).clients[i]? with
    | none =>
      obtain ⟨policy, call, rfl, hstore⟩ := entered hbefore hc
      rw [hstore]
      exact hcalls policy call _ hregular (moves_after hmoves ttl es later)
    | some c₀ =>
      have hmoved := hmoves hsound hregular e
      obtain ⟨c', g', hc', -, hkeeps, -⟩ := hsound.keeps_step
        (fun call answer _ => post call answer) hbefore (ih hrefusedBefore hbefore) e
        (fun chance he => hrefused i chance (List.mem_append_right _ (by simp [he])))
        (fun _ => hmoved) fun _ => ⟨hmoved, fun answer => hstable _ answer hregular hmoved⟩
      cases hc'.symm.trans hc
      exact hkeeps

/-- **What every call ends with holds of every client that has finished**, whatever overlaps. -/
theorem keeps_among
    (hmoves : ∀ {w : World}, w.Sound → w.store.Regular → ∀ e, R.moves w.store (w.step e).store)
    (hcalls : ∀ (policy : RetryPolicy) (call : Call) (s : Store), s.Regular →
      (call.operation policy).program.Keeps (.among R refuses)
        (fun answer _ => post call answer) () s)
    (hstable : ∀ call answer {s t}, s.Regular → R.moves s t → post call answer s →
      post call answer t)
    (hrefused : Event.Refused refuses es)
    (hc : ((initial ttl).after es).clients[i]? = some c) :
    c.rest.Keeps (.among R refuses) (fun answer _ => post c.call answer) ()
      ((initial ttl).after es).store := by
  have hnobody : ((initial ttl).after []).clients[i]? = none := rfl
  exact keeps_since hmoves (fun policy call s hs _ => hcalls policy call s hs) hstable hrefused
    hnobody hc

end World

end RitualLedger
