import RitualLedger.Proofs.Document.Faithful

/-!
# Accepted definitions

What `Definition.validate` promises of the rituals that are created: they have tasks, and their
conditions have known operators and triggers, so that the rituals can be stored.
-/

namespace RitualLedger

/-- Checks in a row have all passed, when the last one has. -/
theorem ok_of_bind {ε α β : Type} {x : Except ε α} {next : α → Except ε β} {b : β}
    (h : x.bind next = .ok b) : ∃ a, x = .ok a ∧ next a = .ok b := by
  cases x with
  | error e => cases h
  | ok a => exact ⟨a, rfl, h⟩

/-- Of checks in a row that fail, the first fails, or the others fail after it. -/
theorem error_of_bind {ε α β : Type} {x : Except ε α} {next : α → Except ε β} {e : ε}
    (h : x.bind next = .error e) : x = .error e ∨ ∃ a, x = .ok a ∧ next a = .error e := by
  cases x with
  | error e' =>
    cases h
    exact .inl rfl
  | ok a => exact .inr ⟨a, rfl, h⟩

namespace Condition

theorem operator_ne_unknown {c : Condition} {count : Nat} (h : c.fault? count = none)
    (spelling : String) : c.operator ≠ .unknown spelling := by
  intro hoperator
  rw [fault?, hoperator] at h
  cases h

theorem isKnown_trigger {c : Condition} {count : Nat} (h : c.fault? count = none) :
    c.trigger.isKnown = true := by
  cases htrigger : c.trigger with
  | completion | mood | streak | ritualCompletion => rfl
  | other spelling =>
    have hkind : c.trigger.valueKind? = none := by rw [htrigger]; rfl
    rw [fault?, hkind] at h
    cases hoperator : c.operator <;> (rw [hoperator] at h; cases h)

theorem fits_of_validate {c : Condition} {index count : Nat}
    (h : c.validate index count = .ok ()) : Fits c := by
  rw [validate] at h
  cases hfault : c.fault? count with
  | some reason =>
    rw [hfault] at h
    cases h
  | none =>
    refine ⟨fun spelling htrigger => ?_, fun spelling hoperator => ?_⟩
    · have hknown := isKnown_trigger hfault
      rw [htrigger] at hknown
      cases hknown
    · exact absurd hoperator (operator_ne_unknown hfault spelling)

end Condition

namespace Definition

theorem fits_of_validateConditions {count : Nat} {conditions : List Condition} {i : Nat}
    (h : validateConditions count i conditions = .ok ()) : Fits conditions := by
  induction conditions generalizing i with
  | nil => exact nofun
  | cons c rest ih =>
    obtain ⟨_, hc, hrest⟩ := ok_of_bind h
    intro c' hc'
    rcases List.mem_cons.1 hc' with rfl | hc'
    · exact Condition.fits_of_validate hc
    · exact ih hrest c' hc'

/-- The checks of an accepted definition. -/
structure Accepted (d : Definition) : Prop where
  owner : requireText "owner_id" d.ownerId = .ok ()
  subject : requireText "subject_id" d.subjectId = .ok ()
  title : requireText "title" d.title = .ok ()
  nonempty : d.tasks ≠ []
  tasks : validateTasks 0 d.tasks = .ok ()
  conditions : validateConditions d.tasks.length 0 d.conditions = .ok ()

theorem accepted_of_validate {d : Definition} (h : d.validate = .ok ()) : d.Accepted := by
  obtain ⟨_, howner, h⟩ := ok_of_bind h
  obtain ⟨_, hsubject, h⟩ := ok_of_bind h
  obtain ⟨_, htitle, h⟩ := ok_of_bind h
  cases htasks : d.tasks with
  | nil =>
    rw [htasks] at h
    cases h
  | cons first rest =>
    rw [htasks] at h
    obtain ⟨_, hchecked, hconditions⟩ := ok_of_bind h
    exact ⟨howner, hsubject, htitle, by simp [htasks], by rw [htasks, hchecked],
      by rw [htasks, hconditions]⟩

end Definition

end RitualLedger
