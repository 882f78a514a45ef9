import RitualLedger.Proofs.Completion.Course
import RitualLedger.Proofs.Engine.Marking

/-!
# Racing for a step

Any number of clients may complete the same step at the same time. Each of them checks the
submission, reads a snapshot and commits; in between others may have taken the step, or have given
the subject another ritual. Whatever a client finds then, at whichever of its requests, it has
missed the step for one of three reasons (`Missed`).

Among racers alone, which want nothing but this step, whoever misses it is told that it is stale
(`keeps_complete_racing`). Its second attempt at the latest sees what the winner has written, which
is why two attempts are enough. Among clients of all kinds a racer may also find that the subject
has another ritual, or run out of attempts, or out of luck with the store
(`keeps_complete_among`).
-/

namespace RitualLedger

open Program.Keeps (Between)

namespace Completion

variable {γ : Type} {k : Contract γ} {g : γ} {s₀ s t u : Store} {step : Step} {evidence : Evidence}
  {policy : RetryPolicy} {r₀ : Ritual} {a₀ : Assignment} {task₀ : Task} {e : EngineError}

/-! ## Missing a step -/

/-- The answer to a submission for a step that is not current. -/
def IsStale (step : Step) (e : EngineError) : Prop :=
  ∃ current, e = .staleTask step.ritual step.index.toNat current

theorem isStale_of_staleness? {a : Assignment} (h : staleness? step a = some e) :
    IsStale step e := by
  rw [staleness?] at h
  split at h
  · cases h
    exact ⟨_, rfl⟩
  · cases h

/-- Why a racer has missed a step, by what it has found in one of several stores. -/
inductive Missed (P : Store → Prop) (step : Step) (e : EngineError) : Prop
  /-- The subject has another ritual. -/
  | unassigned (u : Store) (hu : P u)
    (hother : ∀ a, u.get? Assignment (Assignment.key step.subject) = some a →
      a.ritualId ≠ step.ritual)
    (he : e = .notFound .assignment step.subject)
  /-- The assignment is at another step, or over. -/
  | stale (u : Store) (a : Assignment) (hu : P u)
    (ha : u.get? Assignment (Assignment.key step.subject) = some a)
    (h : staleness? step a = some e)
  /-- The step is on record. -/
  | recorded (u : Store) (hu : P u) (h : u.read? step.key ≠ none) (he : IsStale step e)

/-- A ritual that is stored keeps its terms. -/
theorem ritual_of_proceeds (hopen : Open s₀ step evidence r₀ a₀ task₀) (h : s₀.Proceeds s) :
    ∃ r, s.get? Ritual (Ritual.key step.ritual) = some r ∧ r₀.terms = r.terms := by
  obtain ⟨r, hr, hterms⟩ := h.evolves.rituals _ r₀ hopen.ritual
  exact ⟨r, hr, hterms.symm⟩

/-- The task of a step is the same under the same terms. -/
theorem task_of_terms (hopen : Open s₀ step evidence r₀ a₀ task₀) {r : Ritual}
    (hterms : r₀.terms = r.terms) : ∃ task, r.task? step.index = some task ∧ task.id = task₀.id ∧
      task.evidenceKind.accepts evidence = true := by
  obtain ⟨task, htask, hsame⟩ := Ritual.task?_of_terms hterms hopen.taken
  obtain ⟨hid, -, hkind, -⟩ := Task.of_terms hsame
  exact ⟨task, htask, hid.symm, hkind ▸ hopen.accepted⟩

/-- What an attempt has found of the assignment stood in one of the stores. -/
theorem assignment_of_gathered (step : Step) {P : Store → Prop} {keys : List DocKey}
    {snapshot : Snapshot} (hgathered : snapshot.Gathered P keys)
    (hkey : Assignment.key step.subject ∈ keys) (hP : ∀ u, P u → u.WellTyped) : ∃ u, P u ∧
      ((∃ a, Action.assignmentIn snapshot step.ritual step.subject = .ok a ∧
          u.get? Assignment (Assignment.key step.subject) = some a ∧ a.ritualId = step.ritual) ∨
        Action.assignmentIn snapshot step.ritual step.subject =
            .error (.notFound .assignment step.subject) ∧
          ∀ a, u.get? Assignment (Assignment.key step.subject) = some a →
            a.ritualId ≠ step.ritual) := by
  obtain ⟨u, hu, hassignment⟩ := hgathered.get (α := Assignment) step.subject hkey hP
  have hget : snapshot.get (α := Assignment) (Assignment.key step.subject) =
      .ok (u.get? Assignment (Assignment.key step.subject)) := hassignment
  refine ⟨u, hu, ?_⟩
  rw [Action.assignmentIn, hget]
  cases u.get? Assignment (Assignment.key step.subject) with
  | none =>
    refine .inr ⟨rfl, ?_⟩
    rintro _ ⟨⟩
  | some a =>
    by_cases hassigned : a.ritualId = step.ritual
    · exact .inl ⟨a, if_pos hassigned, rfl, hassigned⟩
    · refine .inr ⟨if_neg hassigned, ?_⟩
      rintro _ ⟨⟩
      exact hassigned

/-- An attempt that refuses to take a step has missed it. -/
theorem missed_of_decide {P : Store → Prop} {now : Instant} {snapshot : Snapshot} (hs₀ : s₀.Regular)
    (hopen : Open s₀ step evidence r₀ a₀ task₀) (hP : ∀ u, P u → s₀.Proceeds u)
    (hgathered : snapshot.Gathered P (stepKeys step task₀.id))
    (h : decide step task₀.id evidence now snapshot = .error e) : Missed P step e := by
  have htyped : ∀ u, P u → u.WellTyped := fun u hu => ((hP u hu).regular hs₀).wellTyped
  obtain ⟨u, hu, hritual⟩ := hgathered.get (α := Ritual) step.ritual
    (by simp [stepKeys, Ritual.key, Record.collection]) htyped
  obtain ⟨u', hu', hassignment⟩ := assignment_of_gathered step hgathered (by simp [stepKeys]) htyped
  obtain ⟨r, hr, hterms⟩ := ritual_of_proceeds hopen (hP u hu)
  have hritualIn : ritualIn snapshot step.ritual = .ok r := by
    have hget : snapshot.get (α := Ritual) (Ritual.key step.ritual) = _ := hritual
    rw [ritualIn, hget]
    change Except.bind (.ok (u.get? Ritual (Ritual.key step.ritual))) _ = _
    rw [hr]
    rfl
  cases refused_of_decide h with
  | ritual hmissing => cases hritualIn.symm.trans hmissing
  | assignment hmissing =>
    rcases hassignment with ⟨a, ha, -⟩ | ⟨hnone, hother⟩
    · cases ha.symm.trans hmissing
    · cases hnone.symm.trans hmissing
      exact .unassigned u' hu' hother rfl
  | stale a ha hstale =>
    rcases hassignment with ⟨a', ha', hstored, -⟩ | ⟨hnone, -⟩
    · cases ha'.symm.trans ha
      exact .stale u' a hu' hstored hstale
    · cases hnone.symm.trans ha
  | recorded a ha hcurrent hhas he =>
    have hkey : step.key ∈ stepKeys step task₀.id := by simp [stepKeys]
    obtain ⟨v, hv, hdoc⟩ := hgathered.doc? hkey
    refine .recorded v hv ?_ ⟨_, he⟩
    rw [← hdoc]
    exact fun hnone => by simp [Snapshot.has, hnone] at hhas
  | task r' hr' hmissing =>
    cases hritualIn.symm.trans hr'
    obtain ⟨task, htask, -⟩ := task_of_terms hopen hterms
    cases (taskOf_of_task htask).symm.trans hmissing

/-- **A racer misses the step, or goes on to its transaction.** -/
theorem keeps_takeStep_of {fails : EngineError → γ → Store → Prop}
    {post : CompletionRecord → γ → Store → Prop} (hs₀ : s₀.Regular)
    (hopen : Open s₀ step evidence r₀ a₀ task₀) (hs : s₀.Proceeds s)
    (hmoves : ∀ {t u}, k.moves g t u → t.Proceeds u)
    (hmissed : ∀ e t, k.moves g s t → Missed (Between k g s t) step e → fails e g t)
    (hrest : ∀ now t, Fits now → k.moves g s t →
      (transact policy (stepKeys step task₀.id) (decide step task₀.id evidence now)).Keeps k fails
        post g t) :
    (takeStep policy step evidence).Keeps k fails post g s := by
  have hproceeds : ∀ t, k.moves g s t → s₀.Proceeds t :=
    fun t ht => Rely.engine.trans hs (hmoves ht)
  have hfound : ∀ t, k.moves g s t →
      ∃ r, t.get? Ritual (Ritual.key step.ritual) = some r := by
    intro t ht
    obtain ⟨r, hr, -⟩ := ritual_of_proceeds hopen (hproceeds t ht)
    exact ⟨r, hr⟩
  refine .bind (Ritual.keeps_get_found hfound) ?_
  rintro r g t ⟨rfl, hst, hr⟩
  have hunassigned : ∀ u, k.moves g t u → (∀ a,
      u.get? Assignment (Assignment.key step.subject) = some a → a.ritualId ≠ step.ritual) →
        fails (.notFound .assignment step.subject) g u := by
    intro u htu hother
    have hsu := hst.trans htu
    exact hmissed _ u hsu (.unassigned u ⟨hsu, k.moves_refl g u⟩ hother rfl)
  refine .bind (keeps_assignmentOf (fun u hu =>
    ((hproceeds u (hst.trans hu)).regular hs₀).wellTyped) hunassigned) ?_
  rintro a g u ⟨rfl, htu, ha, -⟩
  have hsu := hst.trans htu
  -- The ritual was read before, but under the same terms.
  obtain ⟨r', hr', hterms⟩ := ritual_of_proceeds hopen (hproceeds t hst)
  cases hr.symm.trans hr'
  obtain ⟨task, htask, hid, haccepts⟩ := task_of_terms hopen hterms
  have haccept : (Operation.ofExcept (accept step evidence r a)).Keeps k fails
      (fun task g' u' => g' = g ∧ u' = u ∧ task.id = task₀.id) g u := by
    refine .ofExcept ?_ ?_
    · intro task' htask'
      obtain ⟨-, htaken, -⟩ := accept_eq_ok_iff.1 htask'
      cases htask.symm.trans htaken
      exact ⟨rfl, rfl, hid⟩
    · intro e he
      refine hmissed e u hsu ?_
      cases hcurrent : staleness? step a with
      | some e' =>
        rw [accept, hcurrent] at he
        cases he
        exact .stale u a ⟨hsu, k.moves_refl g u⟩ ha hcurrent
      | none =>
        have hok := accept_eq_ok_iff.2 ⟨hcurrent, htask, haccepts⟩
        cases he.symm.trans hok
  refine .bind haccept ?_
  rintro task' g u ⟨rfl, rfl, hid'⟩
  refine .bind .now ?_
  rintro now g v ⟨rfl, huv, hnow⟩
  rw [hid']
  exact hrest now v hnow (hsu.trans huv)

/-! ## Racers alone -/

/-- A step that someone has taken: the subject still has the ritual, and is past the step. -/
structure Over (step : Step) (s : Store) : Prop where
  regular : s.Regular
  recorded : s.read? step.key ≠ none
  assignment : ∃ a, s.get? Assignment (Assignment.key step.subject) = some a ∧
    a.ritualId = step.ritual ∧ staleness? step a ≠ none

theorem Open.not_over (h : Open s step evidence r₀ a₀ task₀) : ¬ Over step s := by
  intro hover
  obtain ⟨a, ha, -, hstale⟩ := hover.assignment
  cases h.assignment.symm.trans ha
  exact hstale h.current

theorem OnTheWay.over (h : OnTheWay s step evidence u) (hs : s.Regular) : Over step u := by
  obtain ⟨r, a, task, now, hopen, htaken⟩ := h.taken hs
  obtain ⟨a', ha', hritual, hindex, -⟩ := htaken.assignment
  refine ⟨htaken.proceeds.regular hs, Store.present_of_get? htaken.record, a', ha', hritual, ?_⟩
  intro hcurrent
  have hsame : step.index + 1 = step.index :=
    hindex.symm.trans (staleness?_eq_none_iff.1 hcurrent).2
  have hnext := (hs.mirrored.progress _ r hopen.ritual).toNat_next hopen.taken
  rw [hsame] at hnext
  omega

/-- Whoever misses a step among racers finds that it is over. -/
theorem Missed.stale_of_racing {P : Store → Prop} (h : Missed P step e)
    (hP : ∀ u, P u → u = s₀ ∨ Over step u) (hopen : Open s₀ step evidence r₀ a₀ task₀)
    (hs₀ : s₀.Regular) : IsStale step e ∧ ∃ u, P u ∧ Over step u := by
  have hover : ∀ u, P u → u ≠ s₀ → Over step u := fun u hu hne => (hP u hu).resolve_left hne
  cases h with
  | unassigned u hu hother he =>
    exfalso
    rcases hP u hu with rfl | ⟨-, -, a, ha, hassigned, -⟩
    · exact hother a₀ hopen.assignment hopen.assigned
    · exact hother a ha hassigned
  | stale u a hu ha h =>
    refine ⟨isStale_of_staleness? h, u, hu, hover u hu ?_⟩
    rintro rfl
    cases hopen.assignment.symm.trans ha
    cases hopen.current.symm.trans h
  | recorded u hu h he =>
    refine ⟨he, u, hu, hover u hu ?_⟩
    rintro rfl
    have hnow : Instant.IsNameable ⟨0, 0⟩ := by decide
    exact h (hopen.allowed hs₀ hnow).new

end Completion

open Completion (Over IsStale OnTheWay Completes)

/-- Racers leave the store as it is, or take the step and do what follows. -/
def Rely.racing (step : Step) : Rely where
  moves s t := t = s ∨ s.Proceeds t ∧ Over step t
  refl _ := .inl rfl
  trans := by
    rintro s t u (rfl | ⟨hst, hover⟩) (rfl | ⟨htu, hover'⟩)
    · exact .inl rfl
    · exact .inr ⟨htu, hover'⟩
    · exact .inr ⟨hst, hover⟩
    · exact .inr ⟨Rely.engine.trans hst htu, hover'⟩
  le := by
    rintro s t (rfl | ⟨hst, -⟩)
    · exact le_refl t
    · exact hst.evolves.le

/-- What a racer relies on and keeps to. It takes the step where nobody else has, and from then on
it is alone. -/
def Contract.racing (s₀ : Store) (step : Step) (evidence : Evidence) : Contract Bool where
  rely
    | false => .racing step
    | true => .nobody
  refuses _ := False
  known := Store.Proceeds
  gives won s won' t := won' = true ∧ (won = false → s = s₀) ∧ OnTheWay s₀ step evidence t

namespace Completion

section

variable (hs₀ : s₀.Regular) (hopen : Open s₀ step evidence r₀ a₀ task₀)

theorem alone_racing : (Contract.racing s₀ step evidence).Alone true := ⟨id, fun _ => id⟩

theorem proceeds_of_racing (h : (Contract.racing s₀ step evidence).moves false s t) :
    s.Proceeds t := by
  rcases h with rfl | ⟨hproceeds, -⟩
  · exact Rely.engine.refl t
  · exact hproceeds

/-- What is over stays over. -/
theorem Over.moved (hover : Over step s)
    (h : (Contract.racing s₀ step evidence).moves false s t) : Over step t := by
  rcases h with rfl | ⟨-, hover'⟩
  · exact hover
  · exact hover'

include hs₀ hopen

/-- Whoever misses a step among racers is told that it is stale, and it is over. -/
theorem Missed.over
    (hmissed : Missed (Between (.racing s₀ step evidence) false s t) step e)
    (hs : (Contract.racing s₀ step evidence).moves false s₀ s) : IsStale step e ∧ Over step t := by
  have hP : ∀ u, Between (.racing s₀ step evidence) false s t u → u = s₀ ∨ Over step u :=
    fun u hu => (hs.trans hu.1).imp id And.right
  obtain ⟨hstale, u, hu, hover⟩ := hmissed.stale_of_racing hP hopen hs₀
  exact ⟨hstale, hover.moved hu.2⟩

/-- An attempt that refuses to take the step tells that it is stale, and it is over. -/
theorem over_of_decide_error {now : Instant} {snapshot : Snapshot}
    (hs : (Contract.racing s₀ step evidence).moves false s₀ s)
    (hgathered : snapshot.Gathered (Between (.racing s₀ step evidence) false s t)
      (stepKeys step task₀.id))
    (h : decide step task₀.id evidence now snapshot = .error e) : IsStale step e ∧ Over step t :=
  (missed_of_decide hs₀ hopen (fun _ hu => proceeds_of_racing (hs.trans hu.1)) hgathered h).over hs₀
    hopen hs

omit hs₀ hopen in
/-- Where a step is over no attempt decides to take it. -/
theorem not_over_of_decide_ok {now : Instant} {snapshot : Snapshot} {plan : Plan CompletionRecord}
    {taskId : String}
    (hgathered : snapshot.Gathered (Between (.racing s₀ step evidence) false s t)
      (stepKeys step taskId))
    (h : decide step taskId evidence now snapshot = .ok plan) : ¬ Over step s := by
  intro hover
  obtain ⟨r, a, task, hdecided⟩ := decided_of_decide h
  obtain ⟨u, hu, hassignment⟩ := assignment_of_gathered step hgathered (by simp [stepKeys])
    fun u hu => (hover.moved hu.1).regular.wellTyped
  obtain ⟨a', ha', hassigned, hstale⟩ := (hover.moved hu.1).assignment
  rcases hassignment with ⟨a'', hfound, ha'', -⟩ | ⟨-, hother⟩
  · cases hdecided.assignment.symm.trans hfound
    cases ha'.symm.trans ha''
    exact hstale hdecided.current
  · exact hother a' ha' hassigned

/-- **A racer that starts over finds the step taken.** -/
theorem keeps_attempts_over {now : Instant} {left made : Nat}
    {post : CompletionRecord → Bool → Store → Prop}
    (hs : (Contract.racing s₀ step evidence).moves false s₀ s) (hover : Over step s) :
    (tries (stepKeys step task₀.id) (decide step task₀.id evidence now) (left + 1) made).Keeps
      (.racing s₀ step evidence)
      (Operation.either (fun e won u => won = false ∧ IsStale step e ∧ Over step u) post) false
      s := by
  refine .attempt ?_ ?_ ?_ ?_
  · intro snapshot t e _ hgathered hdecision
    exact ⟨rfl, over_of_decide_error hs₀ hopen hs hgathered hdecision⟩
  · intro snapshot t plan _ hgathered hdecision _
    exact absurd hover (not_over_of_decide_ok hgathered hdecision)
  · intro snapshot t plan u e _ hgathered hdecision
    exact absurd hover (not_over_of_decide_ok hgathered hdecision)
  · intro t plan u hst hcommits _
    obtain ⟨r, a, task, hdecided, -, ha, hassigned, -⟩ := decided_of_commits hcommits
    obtain ⟨a', ha', -, hstale⟩ := (hover.moved hst).assignment
    cases ha.symm.trans ha'
    exact absurd hdecided.current hstale

/-- **A racer takes the step where nobody else has, or is told that it is stale.** -/
theorem keeps_transact_racing {now : Instant} (hnow : Fits now) (hpolicy : 2 ≤ policy.maxAttempts)
    (hs : (Contract.racing s₀ step evidence).moves false s₀ s) :
    (transact policy (stepKeys step task₀.id) (decide step task₀.id evidence now)).Keeps
      (.racing s₀ step evidence) (fun e won u => won = false ∧ IsStale step e ∧ Over step u)
      (fun c won t => won = true ∧ ∃ r a task, c = recordOf step r task now ∧
        (Change.stepping step r a task evidence now).Makes s₀ t) false s := by
  have hlimit : policy.limit = policy.limit - 2 + 1 + 1 := by
    rw [RetryPolicy.limit]
    omega
  change Program.Keeps _ (Operation.either _ _)
    (tries (stepKeys step task₀.id) (decide step task₀.id evidence now) policy.limit 0) false s
  rw [hlimit]
  refine .attempt ?_ ?_ ?_ ?_
  · intro snapshot t e _ hgathered hdecision
    exact ⟨rfl, over_of_decide_error hs₀ hopen hs hgathered hdecision⟩
  · intro snapshot t plan _ _ hdecision hwrites
    obtain ⟨r, a, task, hdecided⟩ := decided_of_decide hdecision
    rw [hdecided.writes] at hwrites
    cases hwrites
  · intro snapshot t plan u e hst hgathered hdecision htu he
    have hsu := hs.trans (hst.trans htu)
    have hcommit := he.resolve_left id
    -- On the store as it was the commit would have gone through, so someone has taken the step.
    have hover : Over step u := by
      rcases hsu with rfl | ⟨-, hover⟩
      · have hsame : ∀ v, (Contract.racing u step evidence).moves false s v →
            (Contract.racing u step evidence).moves false v u → v = u := by
          intro v hsv hvu
          exact (hs.trans hsv).resolve_right fun h => hopen.not_over (h.2.moved hvu)
        have hsnapshot := hgathered.eq_atOnce fun v hv => hsame v hv.1 (hv.2.trans htu)
        obtain ⟨plan', v, hdecide, -, hv, -⟩ := hopen.decide hs₀ hnow
        rw [hsnapshot] at hdecision hcommit
        cases hdecision.symm.trans hdecide
        rw [Store.commit_atOnce, hv] at hcommit
        cases hcommit
      · exact hover
    obtain ⟨text, rfl⟩ := Store.commit_error hcommit
    exact keeps_attempts_over hs₀ hopen hsu hover
  · intro t plan u hst hcommits _
    have hproceeds := proceeds_of_racing (hs.trans hst)
    obtain ⟨r, a, task, hmakes, hresult⟩ := stepping_of_decide hnow hopen.taken hopen.accepted
      (fun r hr => by
        obtain ⟨r', hr', hterms⟩ := ritual_of_proceeds hopen hproceeds
        cases hr.symm.trans hr'
        exact hterms) hcommits
    have hsame : t = s₀ := (hs.trans hst).resolve_right fun h =>
      (open_of_makes hmakes).not_over h.2
    subst hsame
    exact ⟨true, ⟨rfl, fun _ => rfl, r, a, task, now, u, hmakes, .refl u _⟩, rfl, r, a, task,
      hresult, hmakes⟩

/-- **A racer completes the step where nobody else has, or is told that it is stale.** -/
theorem keeps_complete_racing (hpolicy : 2 ≤ policy.maxAttempts)
    (hs : (Contract.racing s₀ step evidence).moves false s₀ s) :
    (complete policy step evidence).Keeps (.racing s₀ step evidence)
      (fun e won u => won = false ∧ IsStale step e ∧ Over step u)
      (fun outcome won u => won = true ∧ Completes s₀ step evidence outcome.results u) false s := by
  have hstep : (takeStep policy step evidence).Keeps (.racing s₀ step evidence)
      (fun e won u => won = false ∧ IsStale step e ∧ Over step u)
      (fun c won t => won = true ∧ ∃ r a task now, c = recordOf step r task now ∧
        (Change.stepping step r a task evidence now).Makes s₀ t) false s := by
    refine keeps_takeStep_of hs₀ hopen (proceeds_of_racing hs) proceeds_of_racing ?_ ?_
    · exact fun e t _ hmissed => ⟨rfl, hmissed.over hs₀ hopen hs⟩
    · intro now t hnow hst
      refine (keeps_transact_racing hs₀ hopen hnow hpolicy (hs.trans hst)).imp (fun _ _ _ h => h) ?_
      rintro c won u ⟨hwon, r, a, task, hc, hmakes⟩
      exact ⟨hwon, r, a, task, now, hc, hmakes⟩
  refine .bind hstep ?_
  rintro _ _ t ⟨rfl, r, a, task, now, rfl, hmakes⟩
  have hr := (taken_of_course hs₀ hmakes (.done t)).ritual
  refine (keeps_followUp_alone alone_racing (hmakes.regular hs₀) hr ?_).imp
    (fun _ _ _ h => h.elim) ?_
  · exact fun u v hunder => ⟨rfl, nofun, r, a, task, now, t, hmakes, hunder⟩
  · rintro outcome _ u ⟨rfl, hfollowed⟩
    exact ⟨rfl, r, a, task, now, t, hmakes, hfollowed.course⟩

end

/-! ## Racers among others -/

/-- A step is put on record. -/
def Records (step : Step) (s t : Store) : Prop :=
  s.read? step.key = none ∧ t.read? step.key ≠ none

/-- How a racer may end that has not taken the step. -/
inductive Loses (step : Step) : EngineError → Prop
  | stale {e : EngineError} (h : IsStale step e) : Loses step e
  | unassigned : Loses step (.notFound .assignment step.subject)
  | exhausted (made : Nat) : Loses step (.store (.retriesExhausted made))
  | locked : Loses step (.store .locked)

theorem Missed.loses {P : Store → Prop} (h : Missed P step e) : Loses step e := by
  cases h with
  | unassigned u hu hother he => exact he ▸ .unassigned
  | stale u a hu ha h => exact .stale (isStale_of_staleness? h)
  | recorded u hu h he => exact .stale he

/-- **A racer records the step, or has written nothing and is told why.** -/
theorem keeps_complete_among (hs₀ : s₀.Regular) (hopen : Open s₀ step evidence r₀ a₀ task₀)
    (hs : s₀.Proceeds s) :
    (complete policy step evidence).Keeps (.marking .engine (· = .locked) (Records step))
      (fun e marked _ => marked = false ∧ Loses step e) (fun _ marked _ => marked = true)
      false s := by
  have hstep : (takeStep policy step evidence).Keeps
      (.marking .engine (· = .locked) (Records step))
      (fun e marked _ => marked = false ∧ Loses step e)
      (fun c marked t => marked = true ∧ t.Regular ∧
        ∃ r, t.get? Ritual (Ritual.key c.ritualId) = some r) false s := by
    refine keeps_takeStep_of hs₀ hopen hs id (fun e t _ hmissed => ⟨rfl, hmissed.loses⟩) ?_
    intro now t hnow hst
    have hproceeds : s₀.Proceeds t := Rely.engine.trans hs hst
    refine .transact ?_ ?_ ?_ ?_
    · intro snapshot u e htu hgathered hdecision
      refine ⟨rfl, Missed.loses (missed_of_decide hs₀ hopen ?_ hgathered hdecision)⟩
      exact fun v hv => Rely.engine.trans hproceeds hv.1
    · rintro u e - (rfl | ⟨made, rfl⟩)
      · exact ⟨rfl, .locked⟩
      · exact ⟨rfl, .exhausted made⟩
    · intro snapshot u plan _ _ hdecision hwrites
      obtain ⟨r, a, task, hdecided⟩ := decided_of_decide hdecision
      rw [hdecided.writes] at hwrites
      cases hwrites
    · intro u plan v htu hcommits hknown
      obtain ⟨r, a, task, hdecided, hr, -, -, habsent, hpresent⟩ := decided_of_commits hcommits
      obtain ⟨r', hr', -⟩ := Evolves.rituals (Store.Proceeds.evolves hknown) _ r hr
      have hregular := Store.Proceeds.regular hknown
        ((Rely.engine.trans hproceeds htu).regular hs₀)
      refine ⟨true, ⟨rfl, fun _ => ⟨habsent, hpresent⟩⟩, rfl, hregular, r', ?_⟩
      rw [hdecided.result]
      exact hr'
  refine .bind hstep ?_
  rintro c marked t ⟨hmarked, ht, r, hr⟩
  exact (keeps_followUp_within (Contract.lax_marking.admits _ _) ht hr
    ⟨hmarked, Rely.engine.refl t⟩).imp (fun _ _ _ h => h.elim) fun _ _ _ h => h.2.1

end Completion

end RitualLedger
