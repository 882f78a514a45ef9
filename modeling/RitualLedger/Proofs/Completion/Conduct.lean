import RitualLedger.Proofs.Ritual.Conduct
import RitualLedger.Proofs.Rule.Conduct

/-!
# What the completion of a task does to the store

A step is checked against the ritual and the assignment before it is committed, and the evidence is
checked there only. That is enough: the terms of a ritual last, so the task that is committed is the
one that has taken the evidence.

What follows a step runs in the scopes of the step. The record of the step lasts, and so do the
conditions of the ritual; so every action is due where it is executed.
-/

namespace RitualLedger.Completion

open Batch (MayRun)

variable {may : Change → Prop} {v : View} {policy : RetryPolicy}

/-! ## Taking a step -/

theorem task_of_taskOf {s : Step} {r : Ritual} {task : Task} (h : taskOf s r = .ok task) :
    r.task? s.index = some task := by
  rw [taskOf] at h
  split at h
  · rename_i htask
    cases h
    exact htask
  · cases h

theorem taskOf_of_task {s : Step} {r : Ritual} {task : Task} (h : r.task? s.index = some task) :
    taskOf s r = .ok task := by
  rw [taskOf, h]

/-- An accepted submission is for the current task, which takes the evidence. -/
theorem accept_eq_ok_iff {s : Step} {evidence : Evidence} {r : Ritual} {a : Assignment}
    {task : Task} : accept s evidence r a = .ok task ↔
      staleness? s a = none ∧ r.task? s.index = some task ∧
        task.evidenceKind.accepts evidence = true := by
  rw [accept]
  cases hcurrent : staleness? s a with
  | some e => exact ⟨nofun, fun h => by cases h.1⟩
  | none =>
    constructor
    · intro h
      obtain ⟨task', htask, h⟩ := ok_of_bind h
      split at h
      · rename_i haccepts
        cases h
        exact ⟨rfl, task_of_taskOf htask, haccepts⟩
      · cases h
    · rintro ⟨-, htask, haccepts⟩
      simp only [taskOf_of_task htask]
      exact if_pos haccepts

/-- In a typed store the ritual is found, or it is missing. -/
theorem ritualIn_atOnce {store : Store} {ks : List DocKey} {ritual : String}
    (hs : store.WellTyped) (hkey : Ritual.key ritual ∈ ks) :
    ritualIn (Snapshot.atOnce store ks) ritual =
      match store.get? Ritual (Ritual.key ritual) with
      | some r => .ok r
      | none => .error (.notFound .ritual ritual) := by
  have hget : (Snapshot.atOnce store ks).get (α := Ritual) (Ritual.key ritual) = _ :=
    hs.get_atOnce (α := Ritual) hkey
  rw [ritualIn, hget]
  rfl

theorem ritual_of_ritualIn {store : Store} {ks : List DocKey} {ritual : String} {r : Ritual}
    (hkey : Ritual.key ritual ∈ ks) (h : ritualIn (Snapshot.atOnce store ks) ritual = .ok r) :
    store.get? Ritual (Ritual.key ritual) = some r := by
  obtain ⟨x, hget, hx⟩ := ok_of_bind h
  cases x with
  | none => cases hx
  | some r' =>
    cases hx
    exact (Snapshot.get_atOnce hkey hget).1.symm

/-- What a decision to take a step is. The task was looked up before; its id and the evidence that
it takes are terms of the ritual. -/
theorem stepping_of_decide {s : Step} {evidence : Evidence} {now : Instant} {store t : Store}
    {r₀ : Ritual} {task₀ : Task} {plan : Plan CompletionRecord} (hfits : Fits now)
    (htask₀ : r₀.task? s.index = some task₀)
    (haccepts : task₀.evidenceKind.accepts evidence = true)
    (hterms : ∀ r, store.get? Ritual (Ritual.key s.ritual) = some r → r₀.terms = r.terms)
    (h : Commits (stepKeys s task₀.id) (decide s task₀.id evidence now) store plan t) :
    ∃ r a task, (Change.stepping s r a task evidence now).Makes store t ∧
      plan.result = recordOf s r task now := by
  obtain ⟨r, hritual, hdecided⟩ := ok_of_bind h.decided
  obtain ⟨a, hassignment, hdecided⟩ := ok_of_bind hdecided
  have hr := ritual_of_ritualIn (by simp [stepKeys]) hritual
  obtain ⟨ha, hassigned⟩ := Action.assignment_of_assignmentIn (by simp [stepKeys]) hassignment
  cases hcurrent : staleness? s a with
  | some e =>
    rw [hcurrent] at hdecided
    cases hdecided
  | none =>
    rw [hcurrent] at hdecided
    simp only at hdecided
    split at hdecided
    · cases hdecided
    · obtain ⟨task, htask, hdecided⟩ := ok_of_bind hdecided
      have htask := task_of_taskOf htask
      -- The task has the terms of the one that took the evidence.
      obtain ⟨task', htask', hsame⟩ := Ritual.task?_of_terms (hterms r hr) htask₀
      cases htask.symm.trans htask'
      obtain ⟨hid, -, hkind, -⟩ := Task.of_terms hsame
      rw [hid] at hdecided
      cases hdecided
      have hnew := Store.absent_of_insert h.applied
        (List.mem_cons_of_mem _ (List.mem_cons_of_mem _ List.mem_cons_self))
      have hnewEvidence := Store.absent_of_insert h.applied
        (List.mem_cons_of_mem _ (List.mem_cons_of_mem _ (List.mem_cons_of_mem _
          List.mem_cons_self)))
      exact ⟨r, a, task, ⟨⟨hfits, hr, ha, hassigned, hcurrent, htask, hkind ▸ haccepts, hnew,
        hnewEvidence⟩, Store.apply_eq_putAll h.applied⟩, rfl⟩

theorem assignmentOf_ensures {s : Step} :
    (assignmentOf s).Ensures may (fun _ v' => v.LeadsTo v') v := by
  have hfind : (Assignment.find? s.subject).Ensures may (fun _ v' => v.LeadsTo v') v :=
    .readDocument? fun v' hv => hv
  refine .bind hfind ?_
  rintro (_ | a) v' hv
  · exact .throw _
  · dsimp only
    split
    · exact .pure hv
    · exact .throw _

/-- A step that was taken is on record. -/
theorem takeStep_ensures {s : Step} {evidence : Evidence}
    (hmay : ∀ r a task now, may (.stepping s r a task evidence now)) :
    (takeStep policy s evidence).Ensures may
      (fun c v' => c.step = s ∧ Recorded v'.store s c) v := by
  refine .bind Ritual.get_ensures ?_
  rintro r₀ v₁ ⟨-, hr₀⟩
  refine .bind assignmentOf_ensures ?_
  intro a₀ v₂ hv₂
  have haccept : (Operation.ofExcept (accept s evidence r₀ a₀)).Ensures may
      (fun task v' => accept s evidence r₀ a₀ = .ok task ∧ v₂ = v') v₂ :=
    .ofExcept fun task htask => ⟨htask, rfl⟩
  refine .bind haccept ?_
  rintro task₀ _ ⟨haccepted, rfl⟩
  obtain ⟨-, htask₀, haccepts⟩ := accept_eq_ok_iff.1 haccepted
  refine .bind .now ?_
  rintro now v₃ ⟨hv₃, hnow⟩
  -- A step always writes, so it is never taken on the strength of a torn snapshot.
  have hwrites : ∀ snapshot plan, decide s task₀.id evidence now snapshot = .ok plan →
      plan.writes ≠ [] := by
    intro snapshot plan hplan
    obtain ⟨r, -, hplan⟩ := ok_of_bind hplan
    obtain ⟨a, -, hplan⟩ := ok_of_bind hplan
    split at hplan
    · cases hplan
    · split at hplan
      · cases hplan
      · obtain ⟨task, -, hplan⟩ := ok_of_bind hplan
        cases hplan
        exact List.cons_ne_nil _ _
  refine .transact (fun snapshot plan _ hplan hnone _ => absurd hnone (hwrites _ _ hplan)) ?_
  intro u plan t hu hcommits
  have hterms : ∀ r, u.store.get? Ritual (Ritual.key s.ritual) = some r → r₀.terms = r.terms := by
    intro r hr
    have hle := ((hv₂.trans hv₃).trans hu).evolves
    obtain ⟨r', hr', hsame⟩ := hle.rituals _ r₀ hr₀
    cases hr.symm.trans hr'
    exact hsame.symm
  obtain ⟨r, a, task, hmakes, hresult⟩ :=
    stepping_of_decide hnow htask₀ haccepts hterms hcommits
  refine ⟨⟨_, hmay r a task now, nofun, hmakes⟩, ?_⟩
  rw [hresult]
  refine ⟨rfl, ?_, rfl⟩
  exact hmakes.get?_written (by simp [Change.writes]) hnow

/-! ## What follows a step -/

/-- What a client may do that applies what follows a step. -/
structure MayFollow (may : Change → Prop) (step : Step) : Prop where
  reward : MayRun may (.reward step)
  completion : MayRun may (.completion step)
  ritualCompletion : MayRun may (.ritualCompletion step)

theorem payReward_ensures {c : CompletionRecord} (hrecorded : Recorded v.store c.step c)
    (hmay : MayRun may (.reward c.step)) :
    (payReward policy c).Ensures may (fun _ _ => True) v := by
  rw [payReward]
  split
  · exact trivial
  · refine Program.Ensures.bind (Batch.run_ensures_of_due rfl hmay ?_) fun _ _ _ => trivial
    intro j a ha
    cases j with
    | zero =>
      cases ha
      exact ⟨rfl, rfl, rfl, c, hrecorded, rfl⟩
    | succ j => cases ha

/-- The actions of a trigger are due, when what the conditions ask for is. -/
theorem fire_ensures {c : CompletionRecord} {trigger : Trigger} {scope : Scope}
    (hmay : MayRun may scope)
    (hdue : ∀ v', v.LeadsTo v' → ∀ j a, Asked v'.store c.ritualId trigger j a →
      Due v'.store scope j c.ritualId c.subjectId a) :
    (fire policy c trigger scope).Ensures may (fun _ _ => True) v := by
  refine .bind Ritual.evaluate_ensures ?_
  rintro actions v' ⟨hv, hasked⟩
  exact .lift (Batch.run_ensures_of_due rfl hmay fun j a ha => hdue v' hv j a (hasked j a ha))

/-- **What follows a step is due.** The record of the step and the terms of its ritual last. -/
theorem followUp_ensures {c : CompletionRecord} (hrecorded : Recorded v.store c.step c)
    (hmay : MayFollow may c.step) : (followUp policy c).Ensures may (fun _ _ => True) v := by
  refine .bind (.later (.lift (payReward_ensures hrecorded hmay.reward))) ?_
  rintro reward v₁ ⟨-, hv₁⟩
  -- The record is still there when the actions of the completion are executed.
  have hrecorded₁ := hrecorded.mono hv₁
  have hcompletion : (fire policy c (.completion c.taskIndex) (.completion c.step)).Ensures may
      (fun _ _ => True) v₁ := by
    refine fire_ensures hmay.completion ?_
    intro v' hv j a hasked
    exact ⟨rfl, rfl, ⟨c, hrecorded₁.mono hv.evolves⟩, hasked⟩
  refine .bind hcompletion.later ?_
  rintro log v₂ ⟨-, hv₂⟩
  have hrecorded₂ := hrecorded₁.mono hv₂
  split
  · rename_i hlast
    have hritual : (fire policy c .ritualCompletion (.ritualCompletion c.step)).Ensures may
        (fun _ _ => True) v₂ := by
      refine fire_ensures hmay.ritualCompletion ?_
      intro v' hv j a hasked
      exact ⟨rfl, rfl, ⟨c, hrecorded₂.mono hv.evolves, hlast⟩, hasked⟩
    exact hritual.followed fun _ _ => .pure trivial
  · exact .pure trivial

/-! ## Operations -/

theorem complete_ensures {s : Step} {evidence : Evidence}
    (hmay : ∀ r a task now, may (.stepping s r a task evidence now))
    (hfollow : MayFollow may s) :
    (complete policy s evidence).Ensures may (fun _ _ => True) v := by
  refine .bind (takeStep_ensures hmay) ?_
  rintro c v' ⟨rfl, hrecorded⟩
  exact followUp_ensures hrecorded hfollow

/-- A replay acts for the step of the record that it finds, which has the id of the step that was
asked for. -/
theorem replay_ensures {s : Step} (hfollow : ∀ step : Step, step.id = s.id → MayFollow may step) :
    (replay policy s).Ensures may (fun _ _ => True) v := by
  have hfind : (find? s).Ensures may
      (fun x v' => v'.store.get? CompletionRecord s.key = x) v := .readDocument? fun v' _ => rfl
  refine .bind hfind ?_
  rintro (_ | c) v' hget
  · exact .throw _
  · have hid : c.step.id = s.id := (v'.wellTyped.named (α := CompletionRecord) hget).2
    have hkey : c.step.key = s.key := congrArg Collection.completions.key hid
    exact followUp_ensures ⟨hkey ▸ hget, rfl⟩ (hfollow c.step hid)

end RitualLedger.Completion
