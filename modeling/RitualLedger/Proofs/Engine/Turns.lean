import RitualLedger.Proofs.Engine.Regular

/-!
# The turns of a client

An event of a world is a turn of one client, or it is none of its business: someone else is served,
or a new call comes in. `World.Turn` tells the cases apart for a client, and
`World.Sound.keeps_step` carries the contract of a client through any event.
-/

namespace RitualLedger

namespace World

variable {w : World} {i : Nat} {e : Event}

/-- What an event is to the client at a place. -/
inductive Turn (w : World) (i : Nat) (e : Event) : Prop
  /-- The client is where it was, if there is one. -/
  | pause (hclient : (w.step e).clients[i]? = w.clients[i]?)
    (hstore : ∀ chance, e = .served i chance → (w.step e).store = w.store)
  /-- The client has come in. -/
  | entry (policy : RetryPolicy) (call : Call) (hnone : w.clients[i]? = none)
    (hclient : (w.step e).clients[i]? = some ⟨call, [], (call.operation policy).program⟩)
    (hstore : (w.step e).store = w.store) (he : e = .called policy call)
  /-- The client was served. -/
  | served (chance : Chance) (c : Client) (he : e = .served i chance)
    (hc : w.clients[i]? = some c) (hnow : Fits chance.now)
    (hclient : (w.step e).clients[i]? = some (c.serve w.scene chance).1)
    (hstore : (w.step e).store = (c.rest.serve w.scene chance).2.store)

/-- Nothing comes of the turn of a client that is not there. -/
theorem step_of_absent (h : w.clients[i]? = none) (chance : Chance) :
    w.step (.served i chance) = w := by
  rw [step]
  split
  · exact happen_of_absent h chance
  · rfl

/-- Every event is one of these to a client. -/
theorem turn (w : World) (i : Nat) (e : Event) : w.Turn i e := by
  by_cases hpossible : w.Possible e
  · have hstep : w.step e = w.happen e := if_pos hpossible
    cases e with
    | called policy call =>
      rcases Nat.lt_trichotomy i w.clients.length with hi | rfl | hi
      · refine .pause ?_ nofun
        rw [hstep]
        exact List.getElem?_append_left hi
      · refine .entry policy call (List.getElem?_eq_none (le_refl _)) ?_ ?_ rfl
        · rw [hstep]
          exact List.getElem?_concat_length
        · rw [hstep]
          rfl
      · refine .pause ?_ nofun
        rw [hstep, List.getElem?_eq_none hi.le]
        refine List.getElem?_eq_none ?_
        simp only [happen, List.length_append, List.length_singleton]
        omega
    | served j chance =>
      cases hc : w.clients[j]? with
      | none =>
        have hsame := step_of_absent hc chance
        refine .pause ?_ ?_
        · rw [hsame]
        · intro _ _
          rw [hsame]
      | some c =>
        have hafter : w.step (.served j chance) =
            ⟨(c.serve w.scene chance).2, w.clients.set j (c.serve w.scene chance).1⟩ :=
          hstep.trans (happen_served hc chance)
        by_cases hij : i = j
        · subst hij
          refine .served chance c rfl hc hpossible.1 ?_ ?_
          · rw [hafter]
            exact List.getElem?_set_self (List.getElem?_eq_some_iff.1 hc).1
          · rw [hafter]
            rfl
        · refine .pause ?_ ?_
          · rw [hafter]
            exact List.getElem?_set_ne (Ne.symm hij)
          · rintro chance' ⟨⟩
            exact absurd rfl hij
  · have hstep : w.step e = w := if_neg hpossible
    refine .pause ?_ ?_
    · rw [hstep]
    · intro _ _
      rw [hstep]

/-- When a call comes in nothing is stored. -/
theorem store_called (w : World) (policy : RetryPolicy) (call : Call) :
    (w.step (.called policy call)).store = w.store := by
  rw [step]
  split <;> rfl

/-- The turn of one client leaves the others where they are. -/
theorem client_of_other {j : Nat} (hij : i ≠ j) (chance : Chance) :
    (w.step (.served j chance)).clients[i]? = w.clients[i]? := by
  cases w.turn i (.served j chance) with
  | pause hclient => exact hclient
  | entry _ _ _ _ _ he => cases he
  | served _ _ he =>
    cases he
    exact absurd rfl hij

variable {c : Client}

/-- Clients stay where they are. -/
theorem client_step (hc : w.clients[i]? = some c) (e : Event) :
    (w.step e).clients[i]? = some c ∨
      ∃ chance, (w.step e).clients[i]? = some (c.serve w.scene chance).1 := by
  cases w.turn i e with
  | pause hclient => exact .inl (hclient.trans hc)
  | entry _ _ hnone => cases hnone.symm.trans hc
  | served chance c' _ hc' _ hclient =>
    cases hc.symm.trans hc'
    exact .inr ⟨chance, hclient⟩

/-- No client goes away, and each keeps to its call. -/
theorem client_stays (hc : w.clients[i]? = some c) (e : Event) :
    ∃ c', (w.step e).clients[i]? = some c' ∧ c'.call = c.call := by
  rcases client_step hc e with hsame | ⟨chance, hserved⟩
  · exact ⟨c, hsame, rfl⟩
  · exact ⟨_, hserved, rfl⟩

theorem absent_of_step (h : (w.step e).clients[i]? = none) : w.clients[i]? = none := by
  cases hbefore : w.clients[i]? with
  | none => rfl
  | some c =>
    obtain ⟨c', hc', -⟩ := client_stays hbefore e
    cases h.symm.trans hc'

/-- A client that was not there before has just come in. -/
theorem entered (hnone : w.clients[i]? = none) (hc : (w.step e).clients[i]? = some c) :
    ∃ policy call, c = ⟨call, [], (call.operation policy).program⟩ ∧
      (w.step e).store = w.store := by
  cases w.turn i e with
  | pause hclient => cases (hclient.trans hnone).symm.trans hc
  | served _ _ _ hc₀ => cases hnone.symm.trans hc₀
  | entry policy call _ hclient hstore =>
    cases hc.symm.trans hclient
    exact ⟨policy, call, rfl, hstore⟩

/-- The turns of a client in a run are those in its beginning, and the last event may be one. -/
theorem turn_of_concat {es before later : List Event} {chance : Chance}
    (h : es ++ [e] = before ++ .served i chance :: later) :
    (∃ behind, es = before ++ .served i chance :: behind) ∨
      es = before ∧ e = .served i chance := by
  rcases List.eq_nil_or_concat later with rfl | ⟨later, last, rfl⟩
  · obtain ⟨rfl, hlast⟩ := List.append_inj' h rfl
    exact .inr ⟨rfl, List.cons.inj hlast |>.1⟩
  · have hsame : es ++ [e] = (before ++ .served i chance :: later) ++ [last] := by
      rw [h]
      simp
    exact .inl ⟨later, (List.append_inj' hsame rfl).1⟩

/-- Whether an event is not a turn of a client. -/
def IsElsewhere (i : Nat) (e : Event) : Prop := ∀ chance, e ≠ .served i chance

variable {γ : Type} {k : Contract γ} {g : γ}

/-- **A client keeps its contract through every event.** In a turn of its own it gives what it has
to; in between the others move the store as it relies on. -/
theorem Sound.keeps_turn (h : w.Sound) {call : Call} {own : List String}
    {rest : Program (Except EngineError call.Result)}
    {post : Except EngineError call.Result → γ → Store → Prop}
    (hc : w.clients[i]? = some ⟨call, own, rest⟩) (hkeeps : rest.Keeps k post g w.store) (e : Event)
    (hrefuses : ∀ chance, e = .served i chance → ∀ err ∈ chance.refusal, k.refuses err)
    (hknown : w.store.Proceeds (w.step e).store → k.known w.store (w.step e).store)
    (hmoves : IsElsewhere i e → k.moves g w.store (w.step e).store ∧
      ∀ answer, post answer g w.store → post answer g (w.step e).store) :
    ∃ own' rest' g', (w.step e).clients[i]? = some ⟨call, own', rest'⟩ ∧
      rest'.Keeps k post g' (w.step e).store ∧
      (g' = g ∧ ((w.step e).store = w.store ∨ IsElsewhere i e) ∨
        (∃ chance, e = .served i chance) ∧ k.gives g w.store g' (w.step e).store) := by
  cases w.turn i e with
  | entry policy call hnone _ _ _ =>
    rw [hc] at hnone
    cases hnone
  | pause hclient hstore =>
    rw [hc] at hclient
    by_cases helsewhere : IsElsewhere i e
    · obtain ⟨hmoves, hpost⟩ := hmoves helsewhere
      exact ⟨own, rest, g, hclient, hkeeps.moved hmoves hpost, .inl ⟨rfl, .inr helsewhere⟩⟩
    · obtain ⟨chance, he⟩ := not_forall_not.1 helsewhere
      have hsame := hstore chance he
      refine ⟨own, rest, g, hclient, ?_, .inl ⟨rfl, .inl hsame⟩⟩
      rw [hsame]
      exact hkeeps
  | served chance c' he hc' hnow hclient hstore =>
    cases hc.symm.trans hc'
    have hproceeds := hknown (h.proceeds e)
    rw [hstore] at hproceeds
    obtain ⟨g', hnext, hgives⟩ := hkeeps.serve hnow (hrefuses chance he) hproceeds
    rw [← hstore] at hnext hgives
    refine ⟨_, _, g', hclient, hnext, ?_⟩
    rcases hgives with ⟨hsame, rfl⟩ | hgives
    · exact .inl ⟨rfl, .inl hsame⟩
    · exact .inr ⟨⟨chance, he⟩, hgives⟩

/-- The same, when there is one statement for all calls. -/
theorem Sound.keeps_step (h : w.Sound)
    (post : (call : Call) → Except EngineError call.Result → γ → Store → Prop)
    (hc : w.clients[i]? = some c) (hkeeps : c.rest.Keeps k (post c.call) g w.store) (e : Event)
    (hrefuses : ∀ chance, e = .served i chance → ∀ err ∈ chance.refusal, k.refuses err)
    (hknown : w.store.Proceeds (w.step e).store → k.known w.store (w.step e).store)
    (hmoves : IsElsewhere i e → k.moves g w.store (w.step e).store ∧
      ∀ answer, post c.call answer g w.store → post c.call answer g (w.step e).store) :
    ∃ c' g', (w.step e).clients[i]? = some c' ∧ c'.call = c.call ∧
      c'.rest.Keeps k (post c'.call) g' (w.step e).store ∧
      (g' = g ∧ ((w.step e).store = w.store ∨ IsElsewhere i e) ∨
        (∃ chance, e = .served i chance) ∧ k.gives g w.store g' (w.step e).store) := by
  obtain ⟨own, rest, g', hclient, hnext, hgives⟩ :=
    h.keeps_turn hc hkeeps e hrefuses hknown hmoves
  exact ⟨⟨c.call, own, rest⟩, g', hclient, rfl, hnext, hgives⟩

end World

end RitualLedger
