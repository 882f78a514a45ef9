import RitualLedger.Proofs.Completion.Conduct

/-!
# The decision to take a step

An attempt to take a step looks at the ritual, the assignment and the record of the step, in this
order. Here is what it has found when it decides to take the step, and what when it refuses.
-/

namespace RitualLedger

/-- What was written is there. -/
theorem Store.present_of_mem {s t : Store} {ws : List Write} {w : Write} (h : s.apply ws = .ok t)
    (hmem : w ∈ ws) : t.read? w.key ≠ none := by
  induction ws generalizing s with
  | nil => cases hmem
  | cons first rest ih =>
    obtain ⟨s', hwrite, hrest⟩ := apply_cons h
    rcases List.mem_cons.1 hmem with rfl | hmem
    · rw [write_eq_put hwrite] at hrest
      refine present_of_le (le_apply hrest) ?_
      rw [read?_put_self]
      exact nofun
    · exact ih hrest hmem

theorem Assignment.isComplete_eq_false {a : Assignment} :
    a.isComplete = false ↔ a.status = .active := by
  rw [Assignment.isComplete]
  cases a.status with
  | active => exact ⟨fun _ => rfl, fun _ => rfl⟩
  | completed => exact ⟨nofun, nofun⟩

namespace Completion

/-- A submission is not stale when the assignment is active and points to the step. -/
theorem staleness?_eq_none_iff {step : Step} {a : Assignment} :
    staleness? step a = none ↔ a.status = .active ∧ a.currentTaskIndex = step.index := by
  rw [staleness?, ← Assignment.isComplete_eq_false]
  split
  · rename_i hstale
    refine ⟨nofun, fun ⟨hactive, hindex⟩ => ?_⟩
    rcases hstale with hcomplete | hother
    · cases hactive.symm.trans hcomplete
    · exact absurd hindex hother
  · rename_i hfresh
    obtain ⟨hactive, hindex⟩ := not_or.1 hfresh
    exact ⟨fun _ => ⟨Bool.eq_false_of_not_eq_true hactive, not_not.1 hindex⟩, fun _ => rfl⟩

variable {s : Step} {taskId : String} {evidence : Evidence} {now : Instant} {snapshot : Snapshot}

/-- What an attempt has found that decides to take a step, and what it is going to write. -/
structure Decided (s : Step) (taskId : String) (evidence : Evidence) (now : Instant)
    (snapshot : Snapshot) (plan : Plan CompletionRecord) (r : Ritual) (a : Assignment)
    (task : Task) : Prop where
  ritual : ritualIn snapshot s.ritual = .ok r
  assignment : Action.assignmentIn snapshot s.ritual s.subject = .ok a
  current : staleness? s a = none
  new : snapshot.has s.key = false
  taken : taskOf s r = .ok task
  result : plan.result = recordOf s r task now
  writes : plan.writes = [
    .put (Ritual.key s.ritual) (encode (advance r (recordOf s r task now))),
    .put (Assignment.key s.subject) (encode (advanceAssignment a (recordOf s r task now))),
    .insert s.key (encode (recordOf s r task now)),
    .insert (evidenceKey taskId s.subject) (encode (evidenceOf s task evidence now))]

theorem decided_of_decide {plan : Plan CompletionRecord}
    (h : decide s taskId evidence now snapshot = .ok plan) :
    ∃ r a task, Decided s taskId evidence now snapshot plan r a task := by
  obtain ⟨r, hr, h⟩ := ok_of_bind h
  obtain ⟨a, ha, h⟩ := ok_of_bind h
  cases hcurrent : staleness? s a with
  | some e =>
    rw [hcurrent] at h
    cases h
  | none =>
    rw [hcurrent] at h
    cases hnew : snapshot.has s.key with
    | true =>
      simp only [hnew] at h
      cases h
    | false =>
      simp only [hnew] at h
      obtain ⟨task, htask, h⟩ := ok_of_bind h
      cases h
      exact ⟨r, a, task, hr, ha, hcurrent, hnew, htask, rfl, rfl⟩

/-- What stands in a store where the step is committed. -/
theorem decided_of_commits {store t : Store} {plan : Plan CompletionRecord}
    (h : Commits (stepKeys s taskId) (decide s taskId evidence now) store plan t) :
    ∃ r a task, Decided s taskId evidence now (Snapshot.atOnce store (stepKeys s taskId)) plan r a
        task ∧ store.get? Ritual (Ritual.key s.ritual) = some r ∧
      store.get? Assignment (Assignment.key s.subject) = some a ∧ a.ritualId = s.ritual ∧
      store.read? s.key = none ∧ t.read? s.key ≠ none := by
  obtain ⟨r, a, task, hdecided⟩ := decided_of_decide h.decided
  obtain ⟨ha, hassigned⟩ :=
    Action.assignment_of_assignmentIn (by simp [stepKeys]) hdecided.assignment
  have hmem : .insert s.key (encode (recordOf s r task now)) ∈ plan.writes := by
    rw [hdecided.writes]
    simp
  exact ⟨r, a, task, hdecided, ritual_of_ritualIn (by simp [stepKeys]) hdecided.ritual, ha,
    hassigned, Store.absent_of_insert h.applied hmem, Store.present_of_mem h.applied hmem⟩

/-- Why an attempt refuses: something is missing, or the step is not current, or is on record. -/
inductive Refused (s : Step) (snapshot : Snapshot) (e : EngineError) : Prop
  | ritual (h : ritualIn snapshot s.ritual = .error e)
  | assignment (h : Action.assignmentIn snapshot s.ritual s.subject = .error e)
  | stale (a : Assignment) (ha : Action.assignmentIn snapshot s.ritual s.subject = .ok a)
    (h : staleness? s a = some e)
  | recorded (a : Assignment) (ha : Action.assignmentIn snapshot s.ritual s.subject = .ok a)
    (hcurrent : staleness? s a = none) (h : snapshot.has s.key = true)
    (he : e = .staleTask s.ritual s.index.toNat a.currentTaskIndex.toNat)
  | task (r : Ritual) (hr : ritualIn snapshot s.ritual = .ok r) (h : taskOf s r = .error e)

theorem refused_of_decide {e : EngineError}
    (h : decide s taskId evidence now snapshot = .error e) : Refused s snapshot e := by
  rcases error_of_bind h with h | ⟨r, hr, h⟩
  · exact .ritual h
  rcases error_of_bind h with h | ⟨a, ha, h⟩
  · exact .assignment h
  cases hcurrent : staleness? s a with
  | some e' =>
    rw [hcurrent] at h
    cases h
    exact .stale a ha hcurrent
  | none =>
    rw [hcurrent] at h
    cases hnew : snapshot.has s.key with
    | true =>
      simp only [hnew, if_true] at h
      cases h
      exact .recorded a ha hcurrent hnew rfl
    | false =>
      simp only [hnew] at h
      rcases error_of_bind h with h | ⟨task, -, h⟩
      · exact .task r hr h
      · cases h

end Completion

end RitualLedger
