import RitualLedger.Proofs.Completion.Decision
import RitualLedger.Proofs.Engine.Alone

/-!
# Open steps

A step is open in a store, for some evidence, when it is the one that the subject's assignment
points to and its task takes the evidence. In a regular store that is enough: neither the step nor
its evidence can be on record already (`Open.allowed`). So a client that is alone takes the step if
it is open, and changes nothing if it is not (`keeps_takeStep_alone`).
-/

namespace RitualLedger.Completion

variable {s t : Store} {step : Step} {evidence : Evidence}

/-- A step that a subject can take with some evidence. -/
structure Open (s : Store) (step : Step) (evidence : Evidence) (r : Ritual) (a : Assignment)
    (task : Task) : Prop where
  ritual : s.get? Ritual (Ritual.key step.ritual) = some r
  assignment : s.get? Assignment (Assignment.key step.subject) = some a
  assigned : a.ritualId = step.ritual
  current : staleness? step a = none
  taken : r.task? step.index = some task
  accepted : task.evidenceKind.accepts evidence = true

/-- Whether a step can be taken with some evidence. -/
def IsOpen (s : Store) (step : Step) (evidence : Evidence) : Prop :=
  ∃ r a task, Open s step evidence r a task

variable {r : Ritual} {a : Assignment} {task : Task} {now : Instant}

/-- **An open step may be taken.** The records of a ritual end before its pointer. -/
theorem Open.allowed (h : Open s step evidence r a task) (hs : s.Regular) (hnow : Fits now) :
    SteppingAllowed s step r a task evidence now := by
  obtain ⟨hid, hsubject, hindex, -⟩ := hs.mirrored.follows_of_current hs.wellTyped h.ritual
    h.assignment h.assigned h.current
  have hmirror := hs.mirrored.isMirrored hs.wellTyped h.ritual
  have hbehind : ¬ step.index.toNat < r.currentTaskIndex.toNat := by
    rw [hindex]
    exact lt_irrefl _
  have hrecord := hmirror.records step.index
  have hevidence := hmirror.evidence step.index.toNat task h.taken
  rw [if_neg hbehind, hid, hsubject] at hrecord
  rw [if_neg hbehind, hsubject] at hevidence
  exact ⟨hnow, h.ritual, h.assignment, h.assigned, h.current, h.taken, h.accepted, hrecord,
    hevidence⟩

/-- The step of a change was open. -/
theorem open_of_makes (h : (Change.stepping step r a task evidence now).Makes s t) :
    Open s step evidence r a task :=
  ⟨h.allowed.ritual, h.allowed.assignment, h.allowed.assigned, h.allowed.current, h.allowed.taken,
    h.allowed.accepted⟩

/-- What is decided on an open step goes through. -/
theorem Open.decide (h : Open s step evidence r a task) (hs : s.Regular) (hnow : Fits now) :
    ∃ plan t, Completion.decide step task.id evidence now
        (Snapshot.atOnce s (stepKeys step task.id)) = .ok plan ∧ plan.writes ≠ [] ∧
      s.apply plan.writes = .ok t ∧ plan.result = recordOf step r task now ∧
      (Change.stepping step r a task evidence now).Makes s t := by
  have hallowed := h.allowed hs hnow
  have hritual : ritualIn (Snapshot.atOnce s (stepKeys step task.id)) step.ritual = .ok r := by
    rw [ritualIn_atOnce hs.wellTyped (by simp [stepKeys]), h.ritual]
  have hassignment : Action.assignmentIn (Snapshot.atOnce s (stepKeys step task.id)) step.ritual
      step.subject = .ok a := by
    rw [Action.assignmentIn_atOnce hs.wellTyped (by simp [stepKeys]), h.assignment]
    exact if_pos h.assigned
  have hhas : (Snapshot.atOnce s (stepKeys step task.id)).has step.key = false := by
    rw [Snapshot.has_atOnce (by simp [stepKeys]), hallowed.new]
    rfl
  let c := recordOf step r task now
  let writes : List Write := [
    .put (Ritual.key step.ritual) (encode (advance r c)),
    .put (Assignment.key step.subject) (encode (advanceAssignment a c)),
    .insert step.key (encode c),
    .insert (evidenceKey task.id step.subject) (encode (evidenceOf step task evidence now))]
  have hdecide : Completion.decide step task.id evidence now
      (Snapshot.atOnce s (stepKeys step task.id)) = .ok ⟨c, writes⟩ := by
    rw [Completion.decide, hritual]
    change (Action.assignmentIn _ _ _).bind _ = _
    rw [hassignment]
    simp only [Except.bind, h.current, hhas, taskOf_of_task h.taken]
    rfl
  have hkeys : (writes.map (·.key)).Nodup := by
    simp [writes, Write.key, Ritual.key, Assignment.key, Step.key, evidenceKey]
  obtain ⟨t, ht⟩ := Store.apply_of_new writes hkeys (s := s) (by
    intro key body hmem
    simp only [writes, List.mem_cons, List.not_mem_nil, or_false, reduceCtorEq, false_or,
      Write.insert.injEq] at hmem
    rcases hmem with ⟨rfl, -⟩ | ⟨rfl, -⟩
    · exact hallowed.new
    · exact hallowed.newEvidence)
  exact ⟨⟨c, writes⟩, t, hdecide, List.cons_ne_nil _ _, ht, rfl, hallowed,
    Store.apply_eq_putAll ht⟩

section

variable {γ : Type} {k : Contract γ} {g : γ} {policy : RetryPolicy}
  {fails : EngineError → γ → Store → Prop}

/-- The assignment to the ritual of a step is found, or the subject has another ritual. -/
theorem keeps_assignmentOf (htyped : ∀ t, k.moves g s t → t.WellTyped)
    (hother : ∀ t, k.moves g s t → (∀ a, t.get? Assignment (Assignment.key step.subject) = some a →
      a.ritualId ≠ step.ritual) → fails (.notFound .assignment step.subject) g t) :
    (assignmentOf step).Keeps k fails (fun a g' t => g' = g ∧ k.moves g s t ∧
      t.get? Assignment (Assignment.key step.subject) = some a ∧ a.ritualId = step.ritual) g s := by
  have hfind : (Assignment.find? step.subject).Keeps k fails (fun x g' t => g' = g ∧
      k.moves g s t ∧ x = t.get? Assignment (Assignment.key step.subject)) g s :=
    .readRecord? htyped fun t ht => ⟨rfl, ht, rfl⟩
  refine .bind hfind ?_
  rintro x g t ⟨rfl, ht, hx⟩
  cases x with
  | none =>
    refine .throw (hother t ht fun a ha => ?_)
    cases hx.trans ha
  | some a =>
    dsimp only
    split
    · rename_i hassigned
      exact .pure ⟨rfl, ht, hx.symm, hassigned⟩
    · rename_i hne
      refine .throw (hother t ht fun a' ha' => ?_)
      cases hx.trans ha'
      exact hne

/-- **A client that is alone takes a step if it is open.** -/
theorem keeps_takeStep_alone {post : CompletionRecord → γ → Store → Prop} (hk : k.Alone g)
    (hs : s.Regular) (hclosed : ¬ IsOpen s step evidence → ∀ e, fails e g s)
    (hopen : ∀ r a task now t, (Change.stepping step r a task evidence now).Makes s t →
      ∃ g', k.gives g s g' t ∧ post (recordOf step r task now) g' t) :
    (takeStep policy step evidence).Keeps k fails post g s := by
  have htyped : ∀ t, k.moves g s t → t.WellTyped := by
    intro t ht
    rw [hk.still ht]
    exact hs.wellTyped
  have hunknown : ∀ t e, k.moves g s t → t.get? Ritual (Ritual.key step.ritual) = none →
      fails e g t := by
    intro t e ht hnone
    obtain rfl := hk.still ht
    refine hclosed ?_ e
    rintro ⟨r, a, task, h⟩
    cases hnone.symm.trans h.ritual
  refine .bind (Ritual.keeps_get hunknown) ?_
  rintro r g t ⟨rfl, ht, hr⟩
  obtain rfl := hk.still ht
  have hunassigned : ∀ u, k.moves g t u → (∀ a,
      u.get? Assignment (Assignment.key step.subject) = some a → a.ritualId ≠ step.ritual) →
        fails (.notFound .assignment step.subject) g u := by
    intro u hu hother
    obtain rfl := hk.still hu
    refine hclosed ?_ _
    rintro ⟨r, a, task, h⟩
    exact hother a h.assignment h.assigned
  refine .bind (keeps_assignmentOf htyped hunassigned) ?_
  rintro a g u ⟨rfl, hu, ha, hassigned⟩
  obtain rfl := hk.still hu
  have haccept : (Operation.ofExcept (accept step evidence r a)).Keeps k fails
      (fun task g' v => g' = g ∧ v = u ∧ Open u step evidence r a task) g u := by
    refine .ofExcept ?_ ?_
    · intro task htask
      obtain ⟨hcurrent, htaken, haccepted⟩ := accept_eq_ok_iff.1 htask
      exact ⟨rfl, rfl, hr, ha, hassigned, hcurrent, htaken, haccepted⟩
    · intro e he
      refine hclosed ?_ e
      rintro ⟨r', a', task, h⟩
      cases hr.symm.trans h.ritual
      cases ha.symm.trans h.assignment
      have haccepted := accept_eq_ok_iff.2 ⟨h.current, h.taken, h.accepted⟩
      cases he.symm.trans haccepted
  refine .bind haccept ?_
  rintro task g u ⟨rfl, rfl, h⟩
  refine .bind .now ?_
  rintro now g v ⟨rfl, hmoves, hnow⟩
  obtain rfl := hk.still hmoves
  obtain ⟨plan, t, hdecide, hwrites, ht, hresult, hmakes⟩ := h.decide hs hnow
  refine .transact_alone hk ?_ ?_
  · intro e he
    cases hdecide.symm.trans he
  · intro plan' hplan'
    cases hdecide.symm.trans hplan'
    obtain ⟨g', hgives, hpost⟩ := hopen r a task now t hmakes
    refine ⟨t, g', ht, ?_, hresult ▸ hpost⟩
    rw [if_neg hwrites]
    exact hgives

end

end RitualLedger.Completion
