import RitualLedger.Proofs.Engine.Change

/-!
# Progress in a ritual

A ritual points at the task that comes next. `Ritual.InProgress` says that the pointer, the status
and the tasks agree; a new ritual is in progress, and so is one that has moved on by a step.

The assignment of a subject, the record of a step and the evidence for a task each repeat a part of
this. What they have to say of the ritual is `Follows`, `Reports` and `Proves`; a record and an
evidence stay right when the ritual moves ahead.
-/

namespace RitualLedger

/-! ## Progress within a ritual -/

/-- A task is done, or it is not. -/
def Task.IsDone (t : Task) (done : Prop) [Decidable done] : Prop :=
  if done then t.status = .completed ∧ t.completedAt ≠ none
  else t.status = .pending ∧ t.completedAt = none

/-- The tasks before the pointer of a ritual are done, and no others. -/
structure Ritual.InProgress (r : Ritual) : Prop where
  nonempty : 1 ≤ r.tasks.length
  few : r.tasks.length < 2 ^ 63
  pointer : r.currentTaskIndex.toNat ≤ r.tasks.length
  status : r.status = .completed ↔ r.currentTaskIndex.toNat = r.tasks.length
  tasks : ∀ (j : Nat) t, r.tasks[j]? = some t →
    t.order.toNat = j ∧ t.IsDone (j < r.currentTaskIndex.toNat)

/-- The tasks of a new ritual are numbered, and none of them is done. -/
theorem Ritual.getElem?_begun {order : Nat} {ts : List TaskDefinition} {ids : List String} {j : Nat}
    {t : Task} (h : (begun order ts ids)[j]? = some t) :
    t.order = UInt64.ofNat (order + j) ∧ t.status = .pending ∧ t.completedAt = none := by
  rw [begun, List.getElem?_map] at h
  obtain ⟨x, hx, rfl⟩ := Option.map_eq_some_iff.1 h
  rw [List.getElem?_zipIdx] at hx
  obtain ⟨y, -, rfl⟩ := Option.map_eq_some_iff.1 hx
  exact ⟨rfl, rfl, rfl⟩

/-- A new ritual is in progress, at its beginning. -/
theorem CreationAllowed.inProgress {s : Store} {d : Definition} {r : Ritual} {activity : String}
    {now : Instant} (h : CreationAllowed s d r activity now) : r.InProgress := by
  have hlength := h.count
  have hfew := h.few
  have hnonempty : d.tasks.length ≠ 0 := fun hzero =>
    (Definition.accepted_of_validate h.valid).nonempty (List.length_eq_zero_iff.1 hzero)
  have hpointer : r.currentTaskIndex.toNat = 0 := by
    rw [h.start]
    rfl
  have hstatus : r.status = .active := by
    rw [h.start]
    rfl
  refine ⟨by omega, by omega, by omega, ?_, ?_⟩
  · rw [hstatus, hpointer, hlength]
    exact ⟨nofun, fun hzero => absurd hzero.symm hnonempty⟩
  · intro j t ht
    have hj : j < r.tasks.length := (List.getElem?_eq_some_iff.1 ht).1
    rw [h.tasks] at ht
    obtain ⟨horder, hpending, hnone⟩ := Ritual.getElem?_begun ht
    have hsmall : j < UInt64.size := lt_trans (by omega : j < 2 ^ 63) (by decide)
    constructor
    · rw [horder, Nat.zero_add]
      exact UInt64.toNat_ofNat_of_lt hsmall
    · rw [Task.IsDone, if_neg (by omega)]
      exact ⟨hpending, hnone⟩

namespace Ritual.InProgress

variable {r : Ritual} {step : Step} {index : UInt64} {task : Task}

theorem index_lt (htask : r.task? index = some task) : index.toNat < r.tasks.length :=
  (List.getElem?_eq_some_iff.1 htask).1

/-- The index behind that of a task does not wrap. -/
theorem toNat_next (h : r.InProgress) (htask : r.task? index = some task) :
    (index + 1).toNat = index.toNat + 1 := by
  have hlt := index_lt htask
  have hfew := h.few
  rw [UInt64.toNat_add, UInt64.toNat_one]
  exact Nat.mod_eq_of_lt (by omega)

/-- The record of a step says whether it was the last one. -/
theorem ritualCompleted_iff (h : r.InProgress) (htask : r.task? step.index = some task)
    (now : Instant) : (Completion.recordOf step r task now).ritualCompleted = true ↔
      step.index.toNat + 1 = r.tasks.length := by
  have hlt := index_lt htask
  change decide (r.tasks.length ≤ (step.index + 1).toNat) = true ↔ _
  rw [decide_eq_true_iff, h.toNat_next htask]
  omega

/-- A step at the pointer leaves a ritual in progress. -/
theorem advance (h : r.InProgress) (hindex : r.currentTaskIndex = step.index)
    (htask : r.task? step.index = some task) (now : Instant) :
    (Completion.advance r (Completion.recordOf step r task now)).InProgress := by
  have hlt := index_lt htask
  have hnext := h.toNat_next htask
  have hlength : (Completion.advance r (Completion.recordOf step r task now)).tasks.length =
      r.tasks.length := List.length_modify ..
  refine ⟨hlength ▸ h.nonempty, hlength ▸ h.few, ?_, ?_, ?_⟩
  · rw [hlength]
    change (step.index + 1).toNat ≤ _
    omega
  · rw [hlength]
    change Completion.statusAfter (Completion.recordOf step r task now) = _ ↔
      (step.index + 1).toNat = _
    rw [hnext, ← h.ritualCompleted_iff htask now, Completion.statusAfter]
    split
    · rename_i hlast
      exact ⟨fun _ => hlast, fun _ => rfl⟩
    · rename_i hmore
      exact ⟨fun hactive => absurd hactive (by decide), fun hlast => absurd hlast hmore⟩
  · intro j t ht
    simp only [Completion.advance, List.getElem?_modify] at ht
    obtain ⟨t₀, ht₀, rfl⟩ := Option.map_eq_some_iff.1 ht
    obtain ⟨horder, hdone⟩ := h.tasks j t₀ ht₀
    rw [hindex] at hdone
    change _ ∧ Task.IsDone _ (j < (step.index + 1).toNat)
    rw [hnext]
    split
    · rename_i hj
      change step.index.toNat = j at hj
      refine ⟨horder, ?_⟩
      rw [Task.IsDone, if_pos (by omega)]
      exact ⟨rfl, Option.some_ne_none _⟩
    · rename_i hj
      change ¬ step.index.toNat = j at hj
      refine ⟨horder, ?_⟩
      rw [Task.IsDone] at hdone ⊢
      by_cases hbefore : j < step.index.toNat
      · rw [if_pos hbefore] at hdone
        rwa [if_pos (by omega)]
      · rw [if_neg hbefore] at hdone
        rwa [if_neg (by omega)]

end Ritual.InProgress

/-! ## Copies of the progress -/

/-- A ritual is as far as another with the same terms, or further. -/
structure Ritual.Ahead (r r' : Ritual) : Prop where
  terms : r.terms = r'.terms
  pointer : r.currentTaskIndex.toNat ≤ r'.currentTaskIndex.toNat

theorem Ritual.Ahead.refl (r : Ritual) : r.Ahead r := ⟨rfl, le_refl _⟩

/-- A record reports a step that was taken in a ritual. -/
structure CompletionRecord.Reports (c : CompletionRecord) (r : Ritual) : Prop where
  ritual : c.ritualId = r.id
  subject : c.subjectId = r.subjectId
  taken : c.taskIndex.toNat < r.currentTaskIndex.toNat
  next : c.nextTaskIndex.toNat = c.taskIndex.toNat + 1
  last : c.ritualCompleted = true ↔ c.taskIndex.toNat + 1 = r.tasks.length
  task : ∃ task, r.task? c.taskIndex = some task ∧ c.taskId = task.id ∧
    c.tokenReward = task.tokenReward

/-- An evidence was taken for a task of a ritual that is done. -/
structure EvidenceRecord.Proves (e : EvidenceRecord) (r : Ritual) (j : Nat) : Prop where
  ritual : e.ritualId = r.id
  subject : e.subjectId = r.subjectId
  taken : j < r.currentTaskIndex.toNat
  task : ∃ task, r.tasks[j]? = some task ∧ e.taskId = task.id ∧
    task.evidenceKind.accepts e.evidence = true

/-- An assignment says of a ritual what the ritual says of itself. -/
structure Assignment.Follows (a : Assignment) (r : Ritual) : Prop where
  ritual : a.ritualId = r.id
  subject : a.subjectId = r.subjectId
  owner : a.ownerId = r.ownerId
  pointer : a.currentTaskIndex = r.currentTaskIndex
  status : a.status = r.status

/-- The parties of a ritual are among its terms. -/
theorem Ritual.Ahead.parties {r r' : Ritual} (h : r.Ahead r') :
    r.id = r'.id ∧ r.subjectId = r'.subjectId := by
  have hid := congrArg Ritual.id h.terms
  have hsubject := congrArg Ritual.subjectId h.terms
  exact ⟨hid, hsubject⟩

theorem Ritual.Ahead.length {r r' : Ritual} (h : r.Ahead r') :
    r.tasks.length = r'.tasks.length := Ritual.length_of_terms h.terms

/-- What was reported of a ritual stays true of it. -/
theorem CompletionRecord.Reports.ahead {c : CompletionRecord} {r r' : Ritual} (h : c.Reports r)
    (hahead : r.Ahead r') : c.Reports r' := by
  obtain ⟨task, htask, hid, hreward⟩ := h.task
  obtain ⟨task', htask', hsame⟩ := Ritual.task?_of_terms hahead.terms htask
  obtain ⟨hid', -, -, hreward'⟩ := Task.of_terms hsame
  refine ⟨?_, ?_, lt_of_lt_of_le h.taken hahead.pointer, h.next, ?_, ?_⟩
  · exact h.ritual.trans hahead.parties.1
  · exact h.subject.trans hahead.parties.2
  · rw [← hahead.length]
    exact h.last
  · exact ⟨task', htask', hid.trans hid', hreward.trans hreward'⟩

theorem EvidenceRecord.Proves.ahead {e : EvidenceRecord} {r r' : Ritual} {j : Nat}
    (h : e.Proves r j) (hahead : r.Ahead r') : e.Proves r' j := by
  obtain ⟨task, htask, hid, haccepts⟩ := h.task
  obtain ⟨task', htask', hsame⟩ := Ritual.getElem?_of_terms hahead.terms htask
  obtain ⟨hid', -, hkind, -⟩ := Task.of_terms hsame
  refine ⟨?_, ?_, lt_of_lt_of_le h.taken hahead.pointer, task', htask', hid.trans hid', ?_⟩
  · exact h.ritual.trans hahead.parties.1
  · exact h.subject.trans hahead.parties.2
  · rw [← hkind]
    exact haccepts

end RitualLedger
