import RitualLedger.Proofs.Engine.World
import RitualLedger.Proofs.Ritual.Progress

/-!
# Progress is the same wherever it is kept

How far a subject has come in a ritual is kept four times: by the pointer and the tasks of the
ritual, by the assignment of the subject, by the records of the steps, and by the evidence.
`Mirrored` says that a store keeps them in step, together with what makes that last: the ids of
rituals and tasks are random identifiers, no two rituals share a task, and every record is about a
stored ritual. Only a step moves progress, and it moves all four at once; a new ritual begins with
none, and takes over the assignment of its subject.

In `progress_mirrored` this holds in every run, whatever calls overlap and however they end.
-/

namespace RitualLedger

/-! ## Stores whose progress is mirrored -/

/-- Progress is the same wherever it is kept. -/
structure Mirrored (s : Store) : Prop where
  uuid : ∀ id r, s.get? Ritual (Ritual.key id) = some r →
    Text.IsUuid r.id ∧ ∀ t ∈ r.tasks.map (·.id), Text.IsUuid t
  distinct : ∀ id r, s.get? Ritual (Ritual.key id) = some r → (r.tasks.map (·.id)).Nodup
  /-- Rituals do not share tasks. -/
  apart : ∀ id id' r r', s.get? Ritual (Ritual.key id) = some r →
    s.get? Ritual (Ritual.key id') = some r' →
    ∀ t ∈ r.tasks.map (·.id), t ∈ r'.tasks.map (·.id) → id = id'
  progress : ∀ id r, s.get? Ritual (Ritual.key id) = some r → r.InProgress
  records : ∀ id c, s.get? CompletionRecord (Collection.completions.key id) = some c →
    ∃ r, s.get? Ritual (Ritual.key c.ritualId) = some r ∧ c.Reports r
  recorded : ∀ id r, s.get? Ritual (Ritual.key id) = some r →
    ∀ j : UInt64, j.toNat < r.currentTaskIndex.toNat →
      ∃ c, s.get? CompletionRecord (Step.key ⟨r.id, r.subjectId, j⟩) = some c
  proofs : ∀ id e, s.get? EvidenceRecord (Collection.evidence.key id) = some e →
    ∃ r j, s.get? Ritual (Ritual.key e.ritualId) = some r ∧ e.Proves r j
  proved : ∀ id r, s.get? Ritual (Ritual.key id) = some r →
    ∀ (j : Nat) task, r.tasks[j]? = some task → j < r.currentTaskIndex.toNat →
      ∃ e, s.get? EvidenceRecord (evidenceKey task.id r.subjectId) = some e
  assigned : ∀ subject a, s.get? Assignment (Assignment.key subject) = some a →
    ∃ r, s.get? Ritual (Ritual.key a.ritualId) = some r ∧ a.Follows r

theorem mirrored_empty : Mirrored .empty where
  uuid := nofun
  distinct := nofun
  apart := nofun
  progress := nofun
  records := nofun
  recorded := nofun
  proofs := nofun
  proved := nofun
  assigned := nofun

/-- Unlocking a task changes one assignment. -/
theorem Change.Makes.assignment_of_unlocking {s t : Store} {a : Assignment} {index : UInt64}
    {now : Instant} (h : (Change.unlocking a index now).Makes s t) (hs : s.WellTyped)
    (subject : String) : t.get? Assignment (Assignment.key subject) =
      if subject = a.subjectId then some (a.unlocked index now)
      else s.get? Assignment (Assignment.key subject) := by
  obtain ⟨hnow, -, hget⟩ := h.allowed
  have hfits : Fits (a.unlocked index now) := ⟨(hs.named (α := Assignment) hget).1.1, hnow⟩
  exact h.get?_eq_of_single rfl hfits subject

/-- A new ritual takes over the assignment of its subject. -/
theorem Change.Makes.assignment_of_creating {s t : Store} {d : Definition} {r : Ritual}
    {activity : String} {now : Instant} (h : (Change.creating d r activity now).Makes s t)
    (subject : String) : t.get? Assignment (Assignment.key subject) =
      if subject = r.subjectId then some (Ritual.firstAssignment r now)
      else s.get? Assignment (Assignment.key subject) := by
  have hfits : Fits (Ritual.firstAssignment r now) := ⟨h.allowed.fits, h.allowed.fits⟩
  refine h.get?_eq (by simp [Change.writes, Assignment.key]) hfits ?_ subject
  simp [Change.writes, Ritual.key, Assignment.key, Collection.key, Collection.name]

namespace CreationAllowed

variable {s : Store} {d : Definition} {r r' : Ritual} {activity : String} {now : Instant}

/-- The tasks of a new ritual are in no ritual that is stored. -/
theorem not_mem_tasks (h : CreationAllowed s d r activity now) {id i : String}
    (hget : s.get? Ritual (Ritual.key id) = some r') (hi : i ∈ r.tasks.map (·.id)) :
    i ∉ r'.tasks.map (·.id) := by
  intro hi'
  obtain ⟨task, htask, rfl⟩ := List.mem_map.1 hi'
  exact (h.unused _ (List.mem_cons_of_mem _ hi)).2.task _ r' hget task htask rfl

/-- The first assignment to a new ritual follows it. -/
theorem firstAssignment_follows (h : CreationAllowed s d r activity now) :
    (Ritual.firstAssignment r now).Follows r := by
  refine ⟨rfl, rfl, rfl, ?_, ?_⟩
  · rw [h.start]
    rfl
  · rw [h.start]
    rfl

end CreationAllowed

namespace Mirrored

variable {s t : Store} {ch : Change}

/-- Where rituals, records and evidence are the same, only the assignments need a look. -/
theorem of_assigned (h : Mirrored s)
    (hr : ∀ id, t.get? Ritual (Ritual.key id) = s.get? Ritual (Ritual.key id))
    (hc : ∀ id, t.get? CompletionRecord (Collection.completions.key id) =
      s.get? CompletionRecord (Collection.completions.key id))
    (he : ∀ id, t.get? EvidenceRecord (Collection.evidence.key id) =
      s.get? EvidenceRecord (Collection.evidence.key id))
    (ha : ∀ subject a, t.get? Assignment (Assignment.key subject) = some a →
      ∃ r, s.get? Ritual (Ritual.key a.ritualId) = some r ∧ a.Follows r) : Mirrored t where
  uuid := by simpa only [hr] using h.uuid
  distinct := by simpa only [hr] using h.distinct
  apart := by simpa only [hr] using h.apart
  progress := by simpa only [hr] using h.progress
  records := by simpa only [hr, hc] using h.records
  recorded := by simpa only [hr, Step.key, hc] using h.recorded
  proofs := by simpa only [hr, he] using h.proofs
  proved := by simpa only [hr, evidenceKey, he] using h.proved
  assigned := by simpa only [hr] using ha

/-- A change that touches no copy of the progress keeps them in step. -/
theorem of_untouched (h : Mirrored s) (hmakes : ch.Makes s t)
    (hrituals : Collection.rituals ∉ ch.collections)
    (hassignments : Collection.assignments ∉ ch.collections)
    (hcompletions : Collection.completions ∉ ch.collections)
    (hevidence : Collection.evidence ∉ ch.collections) : Mirrored t := by
  refine h.of_assigned (hmakes.get?_untouched hrituals) (hmakes.get?_untouched hcompletions)
    (hmakes.get?_untouched hevidence) ?_
  intro subject a hget
  exact h.assigned subject a ((hmakes.get?_untouched hassignments subject).symm.trans hget)

/-- Unlocking a task moves no progress. -/
theorem unlocking (h : Mirrored s) (hs : s.WellTyped) {a : Assignment} {index : UInt64}
    {now : Instant} (hmakes : (Change.unlocking a index now).Makes s t) : Mirrored t := by
  obtain ⟨-, -, hget⟩ := hmakes.allowed
  have ha := hmakes.assignment_of_unlocking hs
  refine h.of_assigned (hmakes.get?_untouched ?_) (hmakes.get?_untouched ?_)
    (hmakes.get?_untouched ?_) ?_
  · simp [Change.collections]
  · simp [Change.collections]
  · simp [Change.collections]
  · intro subject a' ha'
    rw [ha] at ha'
    split at ha'
    · cases ha'
      obtain ⟨r, hget', hfollows⟩ := h.assigned _ a hget
      refine ⟨r, hget', ?_⟩
      exact ⟨hfollows.ritual, hfollows.subject, hfollows.owner, hfollows.pointer, hfollows.status⟩
    · exact h.assigned _ a' ha'

/-- What is read after a ritual has been created. -/
structure Created (s t : Store) (r : Ritual) (a : Assignment) : Prop where
  new : s.read? (Ritual.key r.id) = none
  ritual : ∀ id, t.get? Ritual (Ritual.key id) =
    if id = r.id then some r else s.get? Ritual (Ritual.key id)
  assignment : ∀ subject, t.get? Assignment (Assignment.key subject) =
    if subject = r.subjectId then some a else s.get? Assignment (Assignment.key subject)
  completion : ∀ id, t.get? CompletionRecord (Collection.completions.key id) =
    s.get? CompletionRecord (Collection.completions.key id)
  evidence : ∀ id, t.get? EvidenceRecord (Collection.evidence.key id) =
    s.get? EvidenceRecord (Collection.evidence.key id)

namespace Created

variable {r r' : Ritual} {a : Assignment} {id : String}

/-- A ritual that is stored after another has been created is that one, or it was stored before. -/
theorem ritual_cases (h : Created s t r a) (hget : t.get? Ritual (Ritual.key id) = some r') :
    (id = r.id ∧ r' = r) ∨ s.get? Ritual (Ritual.key id) = some r' := by
  rw [h.ritual] at hget
  split at hget
  · rename_i hid
    exact .inl ⟨hid, (Option.some.inj hget).symm⟩
  · exact .inr hget

theorem stored (h : Created s t r a) : t.get? Ritual (Ritual.key r.id) = some r :=
  (h.ritual r.id).trans (if_pos rfl)

theorem kept (h : Created s t r a) (hget : s.get? Ritual (Ritual.key id) = some r') :
    t.get? Ritual (Ritual.key id) = some r' := by
  rw [h.ritual, if_neg, hget]
  rintro rfl
  exact Store.present_of_get? hget h.new

end Created

theorem created_of_makes {d : Definition} {r : Ritual} {activity : String} {now : Instant}
    (hmakes : (Change.creating d r activity now).Makes s t) :
    Created s t r (Ritual.firstAssignment r now) where
  new := hmakes.allowed.new
  ritual := by
    refine hmakes.get?_eq (by simp [Change.writes, Ritual.key]) hmakes.allowed.fitsRitual ?_
    simp [Change.writes, Ritual.key, Assignment.key, Collection.key, Collection.name]
  assignment := hmakes.assignment_of_creating
  completion := hmakes.get?_untouched (by simp [Change.collections])
  evidence := hmakes.get?_untouched (by simp [Change.collections])

/-- A new ritual has ids of its own, begins with no progress, and takes over the assignment of its
subject. -/
theorem creating (h : Mirrored s) {d : Definition} {r : Ritual} {activity : String} {now : Instant}
    (hmakes : (Change.creating d r activity now).Makes s t) : Mirrored t := by
  have hallowed := hmakes.allowed
  have hcreated := created_of_makes hmakes
  -- No task is done yet, so there is nothing to be on record.
  have hpointer : r.currentTaskIndex.toNat = 0 := by
    rw [hallowed.start]
    rfl
  constructor
  case uuid =>
    intro id r' hget
    rcases hcreated.ritual_cases hget with ⟨-, rfl⟩ | hget
    · exact ⟨(hallowed.unused _ List.mem_cons_self).1,
        fun i hi => (hallowed.unused i (List.mem_cons_of_mem _ hi)).1⟩
    · exact h.uuid id r' hget
  case distinct =>
    intro id r' hget
    rcases hcreated.ritual_cases hget with ⟨-, rfl⟩ | hget
    · exact (List.nodup_cons.1 hallowed.distinct).2
    · exact h.distinct id r' hget
  case apart =>
    intro id id' r₁ r₂ hget₁ hget₂ i hi₁ hi₂
    rcases hcreated.ritual_cases hget₁ with ⟨rfl, rfl⟩ | hget₁
    · rcases hcreated.ritual_cases hget₂ with ⟨rfl, -⟩ | hget₂
      · rfl
      · exact absurd hi₂ (hallowed.not_mem_tasks hget₂ hi₁)
    · rcases hcreated.ritual_cases hget₂ with ⟨rfl, rfl⟩ | hget₂
      · exact absurd hi₁ (hallowed.not_mem_tasks hget₁ hi₂)
      · exact h.apart id id' r₁ r₂ hget₁ hget₂ i hi₁ hi₂
  case progress =>
    intro id r' hget
    rcases hcreated.ritual_cases hget with ⟨-, rfl⟩ | hget
    · exact hallowed.inProgress
    · exact h.progress id r' hget
  case records =>
    intro id c hget
    rw [hcreated.completion] at hget
    obtain ⟨r', hget', hreports⟩ := h.records id c hget
    exact ⟨r', hcreated.kept hget', hreports⟩
  case recorded =>
    intro id r' hget j hj
    rw [Step.key, hcreated.completion]
    rcases hcreated.ritual_cases hget with ⟨-, rfl⟩ | hget
    · omega
    · exact h.recorded id r' hget j hj
  case proofs =>
    intro id e hget
    rw [hcreated.evidence] at hget
    obtain ⟨r', j, hget', hproves⟩ := h.proofs id e hget
    exact ⟨r', j, hcreated.kept hget', hproves⟩
  case proved =>
    intro id r' hget j task htask hj
    rw [evidenceKey, hcreated.evidence]
    rcases hcreated.ritual_cases hget with ⟨-, rfl⟩ | hget
    · omega
    · exact h.proved id r' hget j task htask hj
  case assigned =>
    intro subject a hget
    rw [hcreated.assignment] at hget
    split at hget
    · cases hget
      exact ⟨r, hcreated.stored, hallowed.firstAssignment_follows⟩
    · obtain ⟨r', hget', hfollows⟩ := h.assigned subject a hget
      exact ⟨r', hcreated.kept hget', hfollows⟩

/-- An assignment to a ritual follows it. -/
theorem follows (h : Mirrored s) {id subject : String} {r : Ritual} {a : Assignment}
    (hritual : s.get? Ritual (Ritual.key id) = some r)
    (hassignment : s.get? Assignment (Assignment.key subject) = some a)
    (hassigned : a.ritualId = id) : a.Follows r := by
  obtain ⟨r', hget', hfollows⟩ := h.assigned _ a hassignment
  rw [hassigned] at hget'
  cases hget'.symm.trans hritual
  exact hfollows

/-- The assignment of a current step is at the pointer of the ritual of the step. -/
theorem follows_of_current (h : Mirrored s) (hs : s.WellTyped) {step : Step} {r : Ritual}
    {a : Assignment} (hritual : s.get? Ritual (Ritual.key step.ritual) = some r)
    (hassignment : s.get? Assignment (Assignment.key step.subject) = some a)
    (hassigned : a.ritualId = step.ritual) (hcurrent : Completion.staleness? step a = none) :
    r.id = step.ritual ∧ r.subjectId = step.subject ∧ r.currentTaskIndex = step.index ∧
      a.Follows r := by
  have hfollows := h.follows hritual hassignment hassigned
  have hid : r.id = step.ritual := (hs.named (α := Ritual) hritual).2
  have hsubject : a.subjectId = step.subject := (hs.named (α := Assignment) hassignment).2
  rw [Completion.staleness?] at hcurrent
  split at hcurrent
  · cases hcurrent
  · rename_i hfresh
    have hpointer : a.currentTaskIndex = step.index := by
      by_contra hne
      exact hfresh (.inr hne)
    exact ⟨hid, hfollows.subject.symm.trans hsubject, hfollows.pointer.symm.trans hpointer,
      hfollows⟩

theorem follows_of_stepping (h : Mirrored s) (hs : s.WellTyped) {step : Step} {r : Ritual}
    {a : Assignment} {task : Task} {evidence : Evidence} {now : Instant}
    (hallowed : SteppingAllowed s step r a task evidence now) :
    r.id = step.ritual ∧ r.subjectId = step.subject ∧ r.currentTaskIndex = step.index ∧
      a.Follows r :=
  h.follows_of_current hs hallowed.ritual hallowed.assignment hallowed.assigned hallowed.current

/-- What is read after a step. -/
structure Stepped (s t : Store) (step : Step) (r' : Ritual) (a' : Assignment) (c : CompletionRecord)
    (e : EvidenceRecord) : Prop where
  ritual : ∀ id, t.get? Ritual (Ritual.key id) =
    if id = step.ritual then some r' else s.get? Ritual (Ritual.key id)
  assignment : ∀ subject, t.get? Assignment (Assignment.key subject) =
    if subject = step.subject then some a' else s.get? Assignment (Assignment.key subject)
  completion : ∀ id, t.get? CompletionRecord (Collection.completions.key id) =
    if id = step.id then some c else s.get? CompletionRecord (Collection.completions.key id)
  evidence : ∀ id, t.get? EvidenceRecord (Collection.evidence.key id) =
    if id = e.taskId ++ ":" ++ e.subjectId then some e
    else s.get? EvidenceRecord (Collection.evidence.key id)

namespace Stepped

variable {step : Step} {r r' : Ritual} {a' : Assignment} {c : CompletionRecord} {e : EvidenceRecord}

/-- A ritual that is stored after a step is the one of the step, or it was stored before. -/
theorem ritual_cases (h : Stepped s t step r' a' c e)
    (hget : s.get? Ritual (Ritual.key step.ritual) = some r) {id : String} {r₁ : Ritual}
    (hget₁ : t.get? Ritual (Ritual.key id) = some r₁) :
    ∃ r₀, s.get? Ritual (Ritual.key id) = some r₀ ∧ (r₀ = r ∧ r₁ = r' ∨ r₁ = r₀) := by
  rw [h.ritual] at hget₁
  split at hget₁
  · rename_i hstep
    cases hget₁
    exact ⟨r, hstep ▸ hget, .inl ⟨rfl, rfl⟩⟩
  · exact ⟨r₁, hget₁, .inr rfl⟩

theorem stored (h : Stepped s t step r' a' c e) :
    t.get? Ritual (Ritual.key step.ritual) = some r' :=
  (h.ritual step.ritual).trans (if_pos rfl)

/-- A stored ritual stays stored, and is as far as before or further. -/
theorem ahead (h : Stepped s t step r' a' c e)
    (hget : s.get? Ritual (Ritual.key step.ritual) = some r) (hahead : r.Ahead r') {id : String}
    {r₀ : Ritual} (hget₀ : s.get? Ritual (Ritual.key id) = some r₀) :
    ∃ r₁, t.get? Ritual (Ritual.key id) = some r₁ ∧ r₀.Ahead r₁ := by
  rw [h.ritual]
  split
  · rename_i hstep
    rw [hstep] at hget₀
    cases hget₀.symm.trans hget
    exact ⟨r', rfl, hahead⟩
  · exact ⟨r₀, hget₀, .refl r₀⟩

/-- A step leaves all ids as they are. -/
theorem ids (h : Stepped s t step r' a' c e)
    (hget : s.get? Ritual (Ritual.key step.ritual) = some r) (hahead : r.Ahead r') {id : String}
    {r₁ : Ritual} (hget₁ : t.get? Ritual (Ritual.key id) = some r₁) :
    ∃ r₀, s.get? Ritual (Ritual.key id) = some r₀ ∧ r₀.id = r₁.id ∧
      r₀.tasks.map (·.id) = r₁.tasks.map (·.id) := by
  obtain ⟨r₀, hget₀, ⟨rfl, rfl⟩ | rfl⟩ := h.ritual_cases hget hget₁
  · exact ⟨r₀, hget₀, Ritual.ids_of_terms hahead.terms⟩
  · exact ⟨r₁, hget₀, rfl, rfl⟩

theorem stillRecorded (h : Stepped s t step r' a' c e) {id : String} {c₀ : CompletionRecord}
    (hget₀ : s.get? CompletionRecord (Collection.completions.key id) = some c₀) :
    ∃ c₁, t.get? CompletionRecord (Collection.completions.key id) = some c₁ := by
  rw [h.completion]
  split
  · exact ⟨c, rfl⟩
  · exact ⟨c₀, hget₀⟩

theorem stillProved (h : Stepped s t step r' a' c e) {id : String} {e₀ : EvidenceRecord}
    (hget₀ : s.get? EvidenceRecord (Collection.evidence.key id) = some e₀) :
    ∃ e₁, t.get? EvidenceRecord (Collection.evidence.key id) = some e₁ := by
  rw [h.evidence]
  split
  · exact ⟨e, rfl⟩
  · exact ⟨e₀, hget₀⟩

end Stepped

theorem stepped_of_makes (hs : s.WellTyped) {step : Step} {r : Ritual} {a : Assignment}
    {task : Task} {evidence : Evidence} {now : Instant}
    (hmakes : (Change.stepping step r a task evidence now).Makes s t) :
    Stepped s t step (Completion.advance r (Completion.recordOf step r task now))
      (Completion.advanceAssignment a (Completion.recordOf step r task now))
      (Completion.recordOf step r task now) (Completion.evidenceOf step task evidence now) := by
  have hallowed := hmakes.allowed
  have hfitsR := (hs.named (α := Ritual) hallowed.ritual).1
  have hfitsA := (hs.named (α := Assignment) hallowed.assignment).1
  have hfitsR' := Completion.fits_advance (c := Completion.recordOf step r task now) hfitsR
    hallowed.fits
  have hfitsA' : Fits (Completion.advanceAssignment a (Completion.recordOf step r task now)) :=
    ⟨hfitsA.1, hallowed.fits⟩
  have hfitsC : Fits (Completion.recordOf step r task now) := hallowed.fits
  have hfitsE : Fits (Completion.evidenceOf step task evidence now) := hallowed.fits
  refine ⟨hmakes.get?_eq (by simp [Change.writes, Ritual.key]) hfitsR' ?_,
    hmakes.get?_eq (by simp [Change.writes, Assignment.key]) hfitsA' ?_,
    hmakes.get?_eq (by simp [Change.writes, Step.key]) hfitsC ?_,
    hmakes.get?_eq (by simp [Change.writes, evidenceKey, Completion.evidenceOf]) hfitsE ?_⟩
  all_goals
    simp [Change.writes, Ritual.key, Assignment.key, Step.key, evidenceKey, Collection.key,
      Collection.name, Completion.evidenceOf]

/-- What a step writes agrees with itself. -/
structure Agrees (step : Step) (r r' : Ritual) (a' : Assignment) (c : CompletionRecord)
    (e : EvidenceRecord) : Prop where
  ahead : r.Ahead r'
  progress : r'.InProgress
  pointer : r'.currentTaskIndex.toNat = step.index.toNat + 1
  reports : c.Reports r'
  proves : e.Proves r' step.index.toNat
  follows : a'.Follows r'

theorem agrees_of_stepping (h : Mirrored s) (hs : s.WellTyped) {step : Step} {r : Ritual}
    {a : Assignment} {task : Task} {evidence : Evidence} {now : Instant}
    (hallowed : SteppingAllowed s step r a task evidence now) :
    Agrees step r (Completion.advance r (Completion.recordOf step r task now))
      (Completion.advanceAssignment a (Completion.recordOf step r task now))
      (Completion.recordOf step r task now) (Completion.evidenceOf step task evidence now) := by
  obtain ⟨hid, hsubject, hindex, hfollows⟩ := h.follows_of_stepping hs hallowed
  have hprogress := h.progress _ r hallowed.ritual
  have hnext := hprogress.toNat_next hallowed.taken
  have hterms := Completion.terms_advance r (Completion.recordOf step r task now)
  obtain ⟨task', htask', hsame⟩ := Ritual.task?_of_terms hterms.symm hallowed.taken
  obtain ⟨htaskId, -, hkind, hreward⟩ := Task.of_terms hsame
  have hlength : (Completion.advance r (Completion.recordOf step r task now)).tasks.length =
      r.tasks.length := List.length_modify ..
  have htaken : step.index.toNat < (step.index + 1).toNat := by omega
  refine ⟨⟨hterms.symm, ?_⟩, hprogress.advance hindex hallowed.taken now, hnext, ?_, ?_, ?_⟩
  · rw [hindex]
    exact htaken.le
  · refine ⟨hid.symm, hsubject.symm, htaken, hnext, ?_, task', htask', htaskId, hreward⟩
    rw [hlength]
    exact hprogress.ritualCompleted_iff hallowed.taken now
  · refine ⟨hid.symm, hsubject.symm, htaken, task', htask', htaskId, ?_⟩
    rw [← hkind]
    exact hallowed.accepted
  · exact ⟨hfollows.ritual, hfollows.subject, hfollows.owner, rfl, rfl⟩

section Step

variable {step : Step} {r r' : Ritual} {a' : Assignment} {c : CompletionRecord} {e : EvidenceRecord}

/-- The steps before the pointer are on record, also the one that has moved it. -/
theorem recorded_of_stepped (h : Mirrored s) (hstepped : Stepped s t step r' a' c e)
    (hget : s.get? Ritual (Ritual.key step.ritual) = some r) (hid : r.id = step.ritual)
    (hsubject : r.subjectId = step.subject) (hindex : r.currentTaskIndex = step.index)
    (hagrees : Agrees step r r' a' c e) {j : UInt64} (hj : j.toNat < r'.currentTaskIndex.toNat) :
    ∃ c₁, t.get? CompletionRecord (Step.key ⟨r'.id, r'.subjectId, j⟩) = some c₁ := by
  have hpointer := hagrees.pointer
  obtain ⟨hsameId, hsameSubject⟩ := hagrees.ahead.parties
  rw [← hsameId, ← hsameSubject]
  by_cases hlast : j = step.index
  · refine ⟨c, ?_⟩
    rw [Step.key, hstepped.completion, if_pos]
    rw [hid, hsubject, hlast]
  · have hne : j.toNat ≠ step.index.toNat := fun heq => hlast (UInt64.toNat_inj.1 heq)
    obtain ⟨c₀, hc₀⟩ := h.recorded _ r hget j (by rw [hindex]; omega)
    exact hstepped.stillRecorded hc₀

/-- There is evidence for the tasks before the pointer, also for the one that has moved it. -/
theorem proved_of_stepped (h : Mirrored s) (hstepped : Stepped s t step r' a' c e)
    (hget : s.get? Ritual (Ritual.key step.ritual) = some r)
    (hindex : r.currentTaskIndex = step.index) (hagrees : Agrees step r r' a' c e) {j : Nat}
    {task : Task} (htask : r'.tasks[j]? = some task) (hj : j < r'.currentTaskIndex.toNat) :
    ∃ e₁, t.get? EvidenceRecord (evidenceKey task.id r'.subjectId) = some e₁ := by
  have hpointer := hagrees.pointer
  by_cases hlast : j = step.index.toNat
  · obtain ⟨task', htask', htaskId, -⟩ := hagrees.proves.task
    rw [hlast] at htask
    cases htask.symm.trans htask'
    refine ⟨e, ?_⟩
    rw [evidenceKey, hstepped.evidence, if_pos]
    rw [htaskId, hagrees.proves.subject]
  · obtain ⟨task₀, htask₀, hsame⟩ := Ritual.getElem?_of_terms hagrees.ahead.terms.symm htask
    obtain ⟨e₀, he₀⟩ := h.proved _ r hget j task₀ htask₀ (by rw [hindex]; omega)
    rw [(Task.of_terms hsame).1, ← hagrees.ahead.parties.2]
    exact hstepped.stillProved he₀

/-- A step moves all copies of the progress at once. -/
theorem of_stepped (h : Mirrored s) (hs : s.WellTyped) (hstepped : Stepped s t step r' a' c e)
    (hget : s.get? Ritual (Ritual.key step.ritual) = some r)
    (hsubject : r.subjectId = step.subject) (hindex : r.currentTaskIndex = step.index)
    (hagrees : Agrees step r r' a' c e) : Mirrored t := by
  have hahead := hagrees.ahead
  have hid : r.id = step.ritual := (hs.named (α := Ritual) hget).2
  have hid' : r'.id = step.ritual := hahead.parties.1.symm.trans hid
  constructor
  case uuid =>
    intro id r₁ hget₁
    obtain ⟨r₀, hget₀, hsame, hsames⟩ := hstepped.ids hget hahead hget₁
    rw [← hsame, ← hsames]
    exact h.uuid id r₀ hget₀
  case distinct =>
    intro id r₁ hget₁
    obtain ⟨r₀, hget₀, -, hsames⟩ := hstepped.ids hget hahead hget₁
    rw [← hsames]
    exact h.distinct id r₀ hget₀
  case apart =>
    intro id id' r₁ r₂ hget₁ hget₂ i hi₁ hi₂
    obtain ⟨r₀, hget₀, -, hsames⟩ := hstepped.ids hget hahead hget₁
    obtain ⟨r₀', hget₀', -, hsames'⟩ := hstepped.ids hget hahead hget₂
    exact h.apart id id' r₀ r₀' hget₀ hget₀' i (hsames ▸ hi₁) (hsames' ▸ hi₂)
  case progress =>
    intro id r₁ hget₁
    obtain ⟨r₀, hget₀, ⟨-, rfl⟩ | rfl⟩ := hstepped.ritual_cases hget hget₁
    · exact hagrees.progress
    · exact h.progress id r₁ hget₀
  case records =>
    intro id c₁ hget₁
    rw [hstepped.completion] at hget₁
    split at hget₁
    · cases hget₁
      refine ⟨r', ?_, hagrees.reports⟩
      rw [hagrees.reports.ritual, hid']
      exact hstepped.stored
    · obtain ⟨r₀, hget₀, hreports₀⟩ := h.records id c₁ hget₁
      obtain ⟨r₁, hget₁, hahead₁⟩ := hstepped.ahead hget hahead hget₀
      exact ⟨r₁, hget₁, hreports₀.ahead hahead₁⟩
  case recorded =>
    intro id r₁ hget₁ j hj
    obtain ⟨r₀, hget₀, ⟨rfl, rfl⟩ | rfl⟩ := hstepped.ritual_cases hget hget₁
    · exact h.recorded_of_stepped hstepped hget hid hsubject hindex hagrees hj
    · obtain ⟨c₀, hc₀⟩ := h.recorded id r₁ hget₀ j hj
      exact hstepped.stillRecorded hc₀
  case proofs =>
    intro id e₁ hget₁
    rw [hstepped.evidence] at hget₁
    split at hget₁
    · cases hget₁
      refine ⟨r', step.index.toNat, ?_, hagrees.proves⟩
      rw [hagrees.proves.ritual, hid']
      exact hstepped.stored
    · obtain ⟨r₀, j, hget₀, hproves₀⟩ := h.proofs id e₁ hget₁
      obtain ⟨r₁, hget₁, hahead₁⟩ := hstepped.ahead hget hahead hget₀
      exact ⟨r₁, j, hget₁, hproves₀.ahead hahead₁⟩
  case proved =>
    intro id r₁ hget₁ j task htask hj
    obtain ⟨r₀, hget₀, ⟨rfl, rfl⟩ | rfl⟩ := hstepped.ritual_cases hget hget₁
    · exact h.proved_of_stepped hstepped hget hindex hagrees htask hj
    · obtain ⟨e₀, he₀⟩ := h.proved id r₁ hget₀ j task htask hj
      exact hstepped.stillProved he₀
  case assigned =>
    intro subject a₁ hget₁
    rw [hstepped.assignment] at hget₁
    split at hget₁
    · cases hget₁
      refine ⟨r', ?_, hagrees.follows⟩
      rw [hagrees.follows.ritual, hid']
      exact hstepped.stored
    · rename_i hother
      obtain ⟨r₀, hget₀, hfollows₀⟩ := h.assigned subject a₁ hget₁
      refine ⟨r₀, ?_, hfollows₀⟩
      rw [hstepped.ritual, if_neg, hget₀]
      -- The ritual of the step has one subject only.
      intro hritual
      rw [hritual] at hget₀
      cases hget₀.symm.trans hget
      have hname : a₁.subjectId = subject := (hs.named (α := Assignment) hget₁).2
      exact hother (hname.symm.trans (hfollows₀.subject.trans hsubject))

end Step

/-- **Every change keeps the copies of the progress in step.** -/
theorem preserved (h : Mirrored s) (hs : s.WellTyped) (hmakes : ch.Makes s t) : Mirrored t := by
  cases ch with
  | unlocking a index now => exact h.unlocking hs hmakes
  | creating d r activity now => exact h.creating hmakes
  | stepping step r a task evidence now =>
    obtain ⟨-, hsubject, hindex, -⟩ := h.follows_of_stepping hs hmakes.allowed
    exact h.of_stepped hs (stepped_of_makes hs hmakes) hmakes.allowed.ritual hsubject hindex
      (h.agrees_of_stepping hs hmakes.allowed)
  | opening a | booking r id now parties origin | queueing n origin | marking n | logging id e =>
    refine h.of_untouched hmakes ?_ ?_ ?_ ?_
    all_goals simp [Change.collections]

end Mirrored

theorem mirrored_after (ttl : Int) (es : List Event) :
    Mirrored ((World.initial ttl).after es).store := by
  refine World.induction_on_changes ttl es mirrored_empty ?_
  intro s t c ch hs _ hmirrored _ _ hmakes
  exact hmirrored.preserved hs hmakes

/-! ## The mirror -/

namespace Mirrored

variable {s : Store} {id : String} {r : Ritual}

/-- The record under the key of a step is about that step. -/
theorem step_of_get? (h : Mirrored s) (hs : s.WellTyped) {step : Step} {c : CompletionRecord}
    (hritual : Text.IsUuid step.ritual) (hget : s.get? CompletionRecord step.key = some c) :
    c.step = step := by
  obtain ⟨r, hr, hreports⟩ := h.records _ c hget
  have huuid : Text.IsUuid c.step.ritual := by
    change Text.IsUuid c.ritualId
    rw [hreports.ritual]
    exact (h.uuid _ r hr).1
  exact Step.id_injective huuid hritual (hs.named (α := CompletionRecord) hget).2

/-- The record of a step in a ritual reports that step. -/
theorem reports_of_get? (h : Mirrored s) (hs : s.WellTyped)
    (hr : s.get? Ritual (Ritual.key id) = some r) {subject : String} {j : UInt64}
    {c : CompletionRecord} (hget : s.get? CompletionRecord (Step.key ⟨r.id, subject, j⟩) = some c) :
    c.step = ⟨r.id, subject, j⟩ ∧ c.Reports r := by
  have hstep : c.step = ⟨r.id, subject, j⟩ := h.step_of_get? hs (h.uuid id r hr).1 hget
  obtain ⟨r₀, hr₀, hreports⟩ := h.records _ c hget
  have hid : r.id = id := (hs.named (α := Ritual) hr).2
  have hritual : c.ritualId = id := (congrArg Step.ritual hstep).trans hid
  rw [hritual] at hr₀
  cases hr₀.symm.trans hr
  exact ⟨hstep, hreports⟩

/-- The evidence under the key of a task was taken for that task. -/
theorem proves_of_get? (h : Mirrored s) (hs : s.WellTyped)
    (hr : s.get? Ritual (Ritual.key id) = some r) {subject : String} {j : Nat} {task : Task}
    (htask : r.tasks[j]? = some task) {e : EvidenceRecord}
    (hget : s.get? EvidenceRecord (evidenceKey task.id subject) = some e) : e.Proves r j := by
  obtain ⟨r₀, j₀, hr₀, hproves⟩ := h.proofs _ e hget
  obtain ⟨task₀, htask₀, htaskId, -⟩ := hproves.task
  have hmem : task.id ∈ r.tasks.map (·.id) := List.mem_map_of_mem (List.mem_of_getElem? htask)
  have hmem₀ : task₀.id ∈ r₀.tasks.map (·.id) :=
    List.mem_map_of_mem (List.mem_of_getElem? htask₀)
  have huuid : Text.IsUuid task.id := (h.uuid id r hr).2 _ hmem
  have huuid₀ : Text.IsUuid task₀.id := (h.uuid _ r₀ hr₀).2 _ hmem₀
  have hname : e.taskId ++ ":" ++ e.subjectId = task.id ++ ":" ++ subject :=
    (hs.named (α := EvidenceRecord) hget).2
  rw [htaskId] at hname
  -- The ids of tasks contain no colon, so the key tells which task it is.
  obtain ⟨hsame, -⟩ := Text.cut_left huuid₀.noColon huuid.noColon hname
  rw [hsame] at hmem₀
  -- A task belongs to one ritual, and there to one place.
  obtain rfl := h.apart id _ r r₀ hr hr₀ _ hmem hmem₀
  cases hr.symm.trans hr₀
  have hplace : (r.tasks.map (·.id))[j₀]? = (r.tasks.map (·.id))[j]? := by
    rw [List.getElem?_map, List.getElem?_map, htask, htask₀, Option.map_some, Option.map_some,
      hsame]
  have hlt : j₀ < (r.tasks.map (·.id)).length := by
    rw [List.length_map]
    exact (List.getElem?_eq_some_iff.1 htask₀).1
  have hindex : j₀ = j := (List.getElem?_inj hlt (h.distinct _ r hr)).1 hplace
  rw [← hindex]
  exact hproves

end Mirrored

/-- A store and a ritual agree on the ritual's progress. -/
structure Ritual.IsMirrored (s : Store) (r : Ritual) : Prop where
  nonempty : 1 ≤ r.tasks.length
  pointer : r.currentTaskIndex.toNat ≤ r.tasks.length
  status : r.status = .completed ↔ r.currentTaskIndex.toNat = r.tasks.length
  /-- Tasks are numbered; those before the pointer are completed, the others pending. -/
  tasks : ∀ (j : Nat) task, r.tasks[j]? = some task →
    task.order.toNat = j ∧ task.IsDone (j < r.currentTaskIndex.toNat)
  /-- The steps before the pointer are on record, and no others. -/
  records : ∀ j : UInt64,
    if j.toNat < r.currentTaskIndex.toNat then
      ∃ c task, s.get? CompletionRecord (Step.key ⟨r.id, r.subjectId, j⟩) = some c ∧
        c.step = ⟨r.id, r.subjectId, j⟩ ∧ r.task? j = some task ∧ c.taskId = task.id ∧
        c.tokenReward = task.tokenReward ∧ c.nextTaskIndex.toNat = j.toNat + 1 ∧
        (c.ritualCompleted = true ↔ j.toNat + 1 = r.tasks.length)
    else s.read? (Step.key ⟨r.id, r.subjectId, j⟩) = none
  /-- There is evidence for the tasks before the pointer, of a kind that they take, and for no
  others. -/
  evidence : ∀ (j : Nat) task, r.tasks[j]? = some task →
    if j < r.currentTaskIndex.toNat then
      ∃ e, s.get? EvidenceRecord (evidenceKey task.id r.subjectId) = some e ∧
        task.evidenceKind.accepts e.evidence = true
    else s.read? (evidenceKey task.id r.subjectId) = none

theorem Mirrored.isMirrored {s : Store} (h : Mirrored s) (hs : s.WellTyped) {id : String}
    {r : Ritual} (hr : s.get? Ritual (Ritual.key id) = some r) : r.IsMirrored s := by
  have hprogress := h.progress id r hr
  refine ⟨hprogress.nonempty, hprogress.pointer, hprogress.status, hprogress.tasks,
    ?_, ?_⟩
  · intro j
    split
    · rename_i hj
      obtain ⟨c, hget⟩ := h.recorded id r hr j hj
      obtain ⟨hstep, hreports⟩ := h.reports_of_get? hs hr hget
      obtain ⟨task, htask, htaskId, hreward⟩ := hreports.task
      have hindex : c.taskIndex = j := congrArg Step.index hstep
      have hnext := hreports.next
      have hlast := hreports.last
      rw [hindex] at htask hnext hlast
      exact ⟨c, task, hget, hstep, htask, htaskId, hreward, hnext, hlast⟩
    · rename_i hj
      by_contra hpresent
      obtain ⟨c, hget⟩ := hs.readable (α := CompletionRecord) hpresent
      obtain ⟨hstep, hreports⟩ := h.reports_of_get? hs hr hget
      have hindex : c.taskIndex = j := congrArg Step.index hstep
      exact hj (hindex ▸ hreports.taken)
  · intro j task htask
    split
    · rename_i hj
      obtain ⟨e, hget⟩ := h.proved id r hr j task htask hj
      obtain ⟨task', htask', -, haccepts⟩ := (h.proves_of_get? hs hr htask hget).task
      cases htask.symm.trans htask'
      exact ⟨e, hget, haccepts⟩
    · rename_i hj
      by_contra hpresent
      obtain ⟨e, hget⟩ := hs.readable (α := EvidenceRecord) hpresent
      exact hj (h.proves_of_get? hs hr htask hget).taken

/-- **Progress is the same wherever it is kept.** Whatever has happened, all rituals and assignments
can be read, each under its own id or subject. Every ritual agrees with its tasks, the records of
its steps and the evidence for its tasks, and every assignment with the ritual that it names. -/
theorem progress_mirrored (ttl : Int) (es : List Event) :
    ∃ (rituals : List Ritual) (assignments : List Assignment),
      decodeAll (((World.initial ttl).after es).store.inCollection Collection.rituals.name) =
        .ok rituals ∧
      rituals.map (·.id) =
        (((World.initial ttl).after es).store.inCollection Collection.rituals.name).map (·.1) ∧
      decodeAll (((World.initial ttl).after es).store.inCollection Collection.assignments.name) =
        .ok assignments ∧
      assignments.map (·.subjectId) =
        (((World.initial ttl).after es).store.inCollection Collection.assignments.name).map (·.1) ∧
      (∀ r ∈ rituals, r.IsMirrored ((World.initial ttl).after es).store) ∧
      ∀ a ∈ assignments, ∃ r ∈ rituals, a.Follows r := by
  have hsound := World.sound_after ttl es
  have hmirrored := mirrored_after ttl es
  generalize (World.initial ttl).after es = w at hsound hmirrored ⊢
  have hs : w.store.WellTyped := hsound.wellTyped
  have hkeys : w.store.HasDistinctKeys := hsound.distinctKeys
  refine ⟨w.store.all Ritual, w.store.all Assignment, hs.decodeAll_eq hkeys,
    hs.map_all (α := Ritual) hkeys fun _ _ h => h, hs.decodeAll_eq hkeys,
    hs.map_all (α := Assignment) hkeys fun _ _ h => h, ?_, ?_⟩
  · intro r hr
    obtain ⟨id, hget⟩ := (Store.mem_all hkeys).1 hr
    exact hmirrored.isMirrored hs hget
  · intro a ha
    obtain ⟨subject, hget⟩ := (Store.mem_all hkeys).1 ha
    obtain ⟨r, hr, hfollows⟩ := hmirrored.assigned subject a hget
    exact ⟨r, (Store.mem_all hkeys).2 ⟨_, hr⟩, hfollows⟩

end RitualLedger
