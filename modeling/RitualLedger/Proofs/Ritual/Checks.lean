import Mathlib.Data.List.TakeWhile
import RitualLedger.Proofs.Rule.Acceptance

/-!
# Well-formed definitions

The checks of a definition as a list, in the order in which a definition is written down: its
texts, that it has tasks, the tasks, and the conditions with their actions. Each check says whether
it is broken and how that is reported. `Definition.validate` reports the first broken check
(`Definition.validate_eq_report`); no check is broken exactly when the definition is well formed
(`Definition.validate_eq_ok_iff`), and a condition is reported as the first that is not
(`Definition.firstInvalid_of_validate`).
-/

namespace RitualLedger

/-! ## Lists of checks -/

/-- A check: whether it is broken, and how that is reported. -/
structure Check (ε : Type) where
  broken : Bool
  error : ε

namespace Check

variable {ε ε' : Type}

/-- The same check, reported in another way. -/
def map (f : ε → ε') (c : Check ε) : Check ε' := ⟨c.broken, f c.error⟩

/-- How the first broken check is reported, if one is broken. -/
def first? (checks : List (Check ε)) : Option ε := (checks.find? (·.broken)).map (·.error)

/-- Reports the first broken check. -/
def report (checks : List (Check ε)) : Except ε Unit :=
  match first? checks with
  | some e => .error e
  | none => .ok ()

@[simp] theorem first?_nil : first? ([] : List (Check ε)) = none := rfl

@[simp] theorem first?_cons (c : Check ε) (checks : List (Check ε)) :
    first? (c :: checks) = if c.broken then some c.error else first? checks := by
  cases hbroken : c.broken <;> simp [first?, hbroken]

@[simp] theorem first?_append (as bs : List (Check ε)) :
    first? (as ++ bs) = (first? as).or (first? bs) := by
  simp [first?, List.find?_append, Option.map_or]

theorem first?_flatMap {α : Type} (l : List α) (f : α → List (Check ε)) :
    first? (l.flatMap f) = l.findSome? fun x => first? (f x) := by
  induction l with
  | nil => rfl
  | cons x rest ih =>
    rw [List.flatMap_cons, first?_append, ih, List.findSome?_cons]
    cases first? (f x) <;> rfl

@[simp] theorem first?_map (f : ε → ε') (checks : List (Check ε)) :
    first? (checks.map (map f)) = (first? checks).map f := by
  induction checks with
  | nil => rfl
  | cons c rest ih => cases hbroken : c.broken <;> simp [map, hbroken, ih]

theorem first?_eq_none_iff {checks : List (Check ε)} :
    first? checks = none ↔ ∀ c ∈ checks, c.broken = false := by
  simp [first?]

theorem first?_cons_eq_none_iff {c : Check ε} {checks : List (Check ε)} :
    first? (c :: checks) = none ↔ c.broken = false ∧ first? checks = none := by
  cases hbroken : c.broken <;> simp [hbroken]

/-- A check is the first that is broken. -/
def IsFirst (checks : List (Check ε)) (e : ε) : Prop :=
  ∃ before c later, checks = before ++ c :: later ∧ (∀ b ∈ before, b.broken = false) ∧
    c.broken = true ∧ c.error = e

theorem first?_eq_some_iff {checks : List (Check ε)} {e : ε} :
    first? checks = some e ↔ IsFirst checks e := by
  simp only [first?, Option.map_eq_some_iff, List.find?_eq_some_iff_append, IsFirst,
    Bool.not_eq_eq_eq_not, Bool.not_true]
  constructor
  · rintro ⟨c, ⟨hbroken, before, later, hsplit, hbefore⟩, herror⟩
    exact ⟨before, c, later, hsplit, hbefore, hbroken, herror⟩
  · rintro ⟨before, c, later, hsplit, hbefore, hbroken, herror⟩
    exact ⟨c, ⟨hbroken, before, later, hsplit, hbefore⟩, herror⟩

/-- One list is reported after the other. -/
theorem report_append (as bs : List (Check ε)) :
    report (as ++ bs) = (report as).bind fun _ => report bs := by
  rw [report, report, first?_append]
  cases first? as <;> rfl

theorem report_eq_ok_iff {checks : List (Check ε)} :
    report checks = .ok () ↔ ∀ c ∈ checks, c.broken = false := by
  rw [← first?_eq_none_iff, report]
  cases first? checks <;> simp

theorem report_eq_error_iff {checks : List (Check ε)} {e : ε} :
    report checks = .error e ↔ IsFirst checks e := by
  rw [← first?_eq_some_iff, report]
  cases first? checks <;> simp

end Check

/-! ## Blank text -/

/-- A text is blank when nothing is left of it without the white space at its ends. -/
theorem Text.isBlank_iff_trim (s : String) : isBlank s = true ↔ trim s = "" := by
  have hstart : ∀ cs, (trimStart cs).all isBlankChar = cs.all isBlankChar := by
    intro cs
    have hskipped : (cs.takeWhile isBlankChar).all isBlankChar = true :=
      List.all_eq_true.2 fun c hc => by simpa using List.mem_takeWhile_imp hc
    conv_rhs => rw [← List.takeWhile_append_dropWhile (p := isBlankChar) (l := cs), List.all_append,
      hskipped, Bool.true_and]
    rfl
  rw [trim, String.ofList_eq_empty_iff, trimEnd, List.reverse_eq_nil_iff, trimStart_eq_nil_iff,
    List.all_reverse, hstart, isBlank]

/-! ## Conditions -/

/-- Whether the operator is one of the comparisons. -/
def Operator.isKnown : Operator → Bool
  | .unknown _ => false
  | _ => true

/-- Whether the scalar is a number below zero. -/
def Scalar.isNegative : Scalar → Bool
  | .number n => decide (n.toInt < 0)
  | _ => false

/-- The checks of an action in a ritual of some number of tasks. -/
def Action.checks (count : Nat) (a : Action) : List (Check String) :=
  match a with
  | .reward amount | .penalty amount =>
    [⟨amount = 0, a.typeName ++ " amount must be positive"⟩,
      ⟨Condition.largestAmount < amount.toNat, s!"{a.typeName} amount {amount} is too large"⟩]
  | .unlockTask index =>
    [⟨count ≤ index.toNat, s!"unlock_task refers to task {index} but the ritual has {count}"⟩]
  | .notify message => [⟨Text.isBlank message, "notify message is empty"⟩]

theorem Action.first?_checks (count : Nat) (a : Action) :
    Check.first? (a.checks count) = Condition.actionFault? count a := by
  cases a with
  | reward amount | penalty amount => simp [checks, Condition.actionFault?, Condition.amountFault?]
  | unlockTask index | notify message => simp [checks, Condition.actionFault?]

namespace Condition

/-- The name of the kind of values that a trigger carries. -/
def expectedName (c : Condition) : String := (c.trigger.valueKind?.map (·.name)).getD ""

/-- The checks of a comparand, given its trigger and its operator. -/
def comparandReasons (c : Condition) : List (Check String) :=
  [⟨c.trigger.valueKind? ≠ some c.comparand.kind,
      c.trigger.text ++ " trigger needs a " ++ c.expectedName ++ " comparand, got "
        ++ c.comparand.kind.name⟩,
    ⟨c.operator.isOrdinal && c.comparand.kind ≠ .number,
      "operator '" ++ c.operator.text ++ "' is not defined for " ++ c.expectedName ++ " values"⟩,
    ⟨c.comparand.isNegative, "comparand " ++ c.comparand.display ++ " must not be negative"⟩]

/-- The checks of a condition in a ritual of some number of tasks. -/
def reasons (count : Nat) (c : Condition) : List (Check String) :=
  [⟨!c.operator.isKnown, s!"unknown operator '{c.operator.text}'"⟩,
    ⟨c.trigger.valueKind? = none, "unknown trigger '" ++ c.trigger.text ++ "'"⟩] ++
  c.comparandReasons ++
  ⟨c.actions.isEmpty, "condition has no actions"⟩ :: c.actions.flatMap (·.checks count)

theorem first?_comparandReasons {c : Condition} {expected : Scalar.Kind}
    (h : c.trigger.valueKind? = some expected) :
    Check.first? c.comparandReasons = c.comparandFault? expected := by
  have hname : c.expectedName = expected.name := by simp [expectedName, h]
  by_cases hkind : c.comparand.kind = expected
  · subst hkind
    by_cases hordinal : c.operator.isOrdinal = true ∧ c.comparand.kind ≠ .number
    · simp [comparandReasons, comparandFault?, h, hname, hordinal]
    · have hordered : (c.operator.isOrdinal && decide (c.comparand.kind ≠ .number)) = false := by
        simpa using hordinal
      simp only [comparandReasons, comparandFault?, Check.first?_cons, h, hordered, if_neg hordinal]
      cases c.comparand <;> simp [Scalar.isNegative, Scalar.display]
  · have hne : ¬ expected = c.comparand.kind := fun h => hkind h.symm
    simp [comparandReasons, comparandFault?, h, hname, hkind, hne]

/-- The fault of a condition is that of its first broken check. -/
theorem first?_reasons (count : Nat) (c : Condition) :
    Check.first? (c.reasons count) = c.fault? count := by
  rw [fault?]
  split
  · rename_i s hoperator
    simp [reasons, hoperator, Operator.isKnown, Operator.text]
  · rename_i hnot
    have hknown : c.operator.isKnown = true := by
      cases hoperator : c.operator with
      | unknown s => exact absurd hoperator (hnot s)
      | eq | ne | gt | lt | ge | le => rfl
    split
    · rename_i htrigger
      simp [reasons, hknown, htrigger]
    · rename_i expected hexpected
      simp only [reasons, Check.first?_append, Check.first?_cons, Check.first?_flatMap,
        first?_comparandReasons hexpected, Action.first?_checks, hknown, hexpected]
      cases c.comparandFault? expected <;> simp

/-- What a condition must be to be accepted in a ritual of some number of tasks. -/
structure WellFormed (c : Condition) (count : Nat) : Prop where
  operator : ∀ spelling, c.operator ≠ .unknown spelling
  trigger : ∀ spelling, c.trigger ≠ .other spelling
  comparand : c.trigger.valueKind? = some c.comparand.kind
  ordinal : c.operator.isOrdinal = true → c.comparand.kind = .number
  nonnegative : ∀ n, c.comparand = .number n → 0 ≤ n.toInt
  nonempty : c.actions ≠ []
  actions : ∀ a ∈ c.actions, a.IsSound count

theorem isNegative_eq_false_iff {x : Scalar} :
    x.isNegative = false ↔ ∀ n, x = .number n → 0 ≤ n.toInt := by
  cases x <;> simp [Scalar.isNegative]

/-- A condition has no fault when it is well formed. -/
theorem fault?_eq_none_iff {c : Condition} {count : Nat} :
    c.fault? count = none ↔ c.WellFormed count := by
  have hoperator : (!c.operator.isKnown) = false ↔ ∀ spelling, c.operator ≠ .unknown spelling := by
    cases c.operator <;> simp [Operator.isKnown]
  have htrigger : decide (c.trigger.valueKind? = none) = false ↔
      ∀ spelling, c.trigger ≠ .other spelling := by
    cases c.trigger <;> simp [TriggerKind.valueKind?]
  have hcomparand : decide (c.trigger.valueKind? ≠ some c.comparand.kind) = false ↔
      c.trigger.valueKind? = some c.comparand.kind := by
    simp
  have hordinal : (c.operator.isOrdinal && decide (c.comparand.kind ≠ .number)) = false ↔
      (c.operator.isOrdinal = true → c.comparand.kind = .number) := by
    cases c.operator.isOrdinal <;> simp
  rw [← first?_reasons]
  simp only [reasons, comparandReasons, List.cons_append, List.nil_append,
    Check.first?_cons_eq_none_iff, Check.first?_flatMap, List.findSome?_eq_none_iff,
    Action.first?_checks, actionFault?_eq_none_iff, hoperator, htrigger, hcomparand, hordinal,
    isNegative_eq_false_iff, List.isEmpty_eq_false_iff]
  exact ⟨fun ⟨h₁, h₂, h₃, h₄, h₅, h₆, h₇⟩ => ⟨h₁, h₂, h₃, h₄, h₅, h₆, h₇⟩,
    fun ⟨h₁, h₂, h₃, h₄, h₅, h₆, h₇⟩ => ⟨h₁, h₂, h₃, h₄, h₅, h₆, h₇⟩⟩

end Condition

/-! ## Definitions -/

namespace Definition

/-- The check of a text in a field. -/
def textCheck (field text : String) : Check ValidationError :=
  ⟨Text.isBlank text, .invalidValue field "must not be empty"⟩

/-- The checks of a task, given its place. -/
def taskChecks (index : Nat) (t : TaskDefinition) : List (Check ValidationError) :=
  [⟨Text.isBlank t.title, .invalidValue "tasks" s!"task {index} has an empty title"⟩,
    ⟨Condition.largestAmount < t.tokenReward.toNat,
      .invalidValue "tasks" s!"task {index} reward {t.tokenReward} is too large"⟩]

/-- The checks of a condition, given its place and the number of tasks. -/
def conditionChecks (count index : Nat) (c : Condition) : List (Check ValidationError) :=
  (c.reasons count).map (Check.map (.invalidCondition index))

/-- The checks of a definition, in its order. -/
def checks (d : Definition) : List (Check ValidationError) :=
  [textCheck "owner_id" d.ownerId, textCheck "subject_id" d.subjectId, textCheck "title" d.title,
    ⟨d.tasks.isEmpty, .emptyCollection "tasks"⟩] ++
  d.tasks.zipIdx.flatMap (fun (t, i) => taskChecks i t) ++
  d.conditions.zipIdx.flatMap (fun (c, i) => conditionChecks d.tasks.length i c)

theorem requireText_eq_report (field text : String) :
    requireText field text = Check.report [textCheck field text] := by
  cases hblank : Text.isBlank text <;> simp [requireText, Check.report, textCheck, hblank]

theorem validateTask_eq_report (index : Nat) (t : TaskDefinition) :
    validateTask index t = Check.report (taskChecks index t) := by
  rw [validateTask, Check.report, taskChecks]
  by_cases hblank : Text.isBlank t.title = true
  · simp [hblank]
  · by_cases hlarge : Condition.largestAmount < t.tokenReward.toNat <;> simp [hblank, hlarge]

theorem validateTasks_eq_report (index : Nat) (ts : List TaskDefinition) :
    validateTasks index ts =
      Check.report ((ts.zipIdx index).flatMap fun (t, i) => taskChecks i t) := by
  induction ts generalizing index with
  | nil => rfl
  | cons t rest ih =>
    rw [List.zipIdx_cons, List.flatMap_cons, Check.report_append, ← ih,
      ← validateTask_eq_report]
    rfl

theorem validate_condition_eq_report (count index : Nat) (c : Condition) :
    c.validate index count = Check.report (conditionChecks count index c) := by
  rw [Condition.validate, Check.report, conditionChecks, Check.first?_map,
    Condition.first?_reasons]
  cases c.fault? count <;> rfl

theorem validateConditions_eq_report (count index : Nat) (cs : List Condition) :
    validateConditions count index cs =
      Check.report ((cs.zipIdx index).flatMap fun (c, i) => conditionChecks count i c) := by
  induction cs generalizing index with
  | nil => rfl
  | cons c rest ih =>
    rw [List.zipIdx_cons, List.flatMap_cons, Check.report_append, ← ih,
      ← validate_condition_eq_report]
    rfl

/-- A definition is reported by its first broken check. -/
theorem validate_eq_report (d : Definition) : d.validate = Check.report d.checks := by
  have hchecks : d.checks = [textCheck "owner_id" d.ownerId] ++
      ([textCheck "subject_id" d.subjectId] ++ ([textCheck "title" d.title] ++
        ([⟨d.tasks.isEmpty, .emptyCollection "tasks"⟩] ++
          (d.tasks.zipIdx.flatMap (fun (t, i) => taskChecks i t) ++
            d.conditions.zipIdx.flatMap fun (c, i) => conditionChecks d.tasks.length i c)))) := by
    simp [checks]
  rw [hchecks]
  simp only [Check.report_append, ← requireText_eq_report, ← validateTasks_eq_report,
    ← validateConditions_eq_report]
  rw [validate]
  cases d.tasks.isEmpty <;> rfl

/-! ### What is accepted -/

/-- What a definition must be to be accepted. -/
structure WellFormed (d : Definition) : Prop where
  owner : Text.trim d.ownerId ≠ ""
  subject : Text.trim d.subjectId ≠ ""
  title : Text.trim d.title ≠ ""
  nonempty : d.tasks ≠ []
  titles : ∀ t ∈ d.tasks, Text.trim t.title ≠ ""
  rewards : ∀ t ∈ d.tasks, t.tokenReward.toNat ≤ 2 ^ 63 - 1
  conditions : ∀ c ∈ d.conditions, c.WellFormed d.tasks.length

theorem forall_mem_zipIdx {α : Type} {l : List α} {k : Nat} {P : α → Prop} :
    (∀ p ∈ l.zipIdx k, P p.1) ↔ ∀ x ∈ l, P x := by
  constructor
  · intro h x hx
    obtain ⟨i, hi⟩ := List.mem_iff_getElem?.1 hx
    exact h (x, k + i) (List.mk_add_mem_zipIdx_iff_getElem?.2 hi)
  · intro h p hp
    exact h p.1 (List.fst_mem_of_mem_zipIdx hp)

theorem textCheck_eq_false_iff {field text : String} :
    (textCheck field text).broken = false ↔ Text.trim text ≠ "" := by
  rw [ne_eq, ← Text.isBlank_iff_trim, Bool.not_eq_true]
  rfl

theorem first?_taskChecks {index : Nat} {t : TaskDefinition} :
    Check.first? (taskChecks index t) = none ↔
      Text.trim t.title ≠ "" ∧ t.tokenReward.toNat ≤ 2 ^ 63 - 1 := by
  have hlargest : Condition.largestAmount = ((2 ^ 63 - 1 : Nat) : Int) := rfl
  rw [ne_eq, ← Text.isBlank_iff_trim, Bool.not_eq_true, taskChecks]
  simp only [Check.first?_cons_eq_none_iff, decide_eq_false_iff_not, hlargest]
  simp

/-- A definition passes when it is well formed. -/
theorem validate_eq_ok_iff {d : Definition} : d.validate = .ok () ↔ d.WellFormed := by
  rw [validate_eq_report, Check.report_eq_ok_iff, ← Check.first?_eq_none_iff, checks]
  simp only [List.cons_append, List.nil_append, Check.first?_cons_eq_none_iff,
    Check.first?_append, Option.or_eq_none_iff, Check.first?_flatMap, List.findSome?_eq_none_iff,
    textCheck_eq_false_iff, first?_taskChecks, List.isEmpty_eq_false_iff, conditionChecks,
    Check.first?_map, Option.map_eq_none_iff, Condition.first?_reasons,
    Condition.fault?_eq_none_iff]
  rw [forall_mem_zipIdx (P := fun t : TaskDefinition =>
      Text.trim t.title ≠ "" ∧ t.tokenReward.toNat ≤ 2 ^ 63 - 1),
    forall_mem_zipIdx (P := fun c : Condition => c.WellFormed d.tasks.length)]
  constructor
  · rintro ⟨howner, hsubject, htitle, hnonempty, htasks, hconditions⟩
    exact ⟨howner, hsubject, htitle, hnonempty, fun t ht => (htasks t ht).1,
      fun t ht => (htasks t ht).2, hconditions⟩
  · rintro ⟨howner, hsubject, htitle, hnonempty, htitles, hrewards, hconditions⟩
    exact ⟨howner, hsubject, htitle, hnonempty, fun t ht => ⟨htitles t ht, hrewards t ht⟩,
      hconditions⟩

/-! ### What is reported of the conditions -/

/-- A condition is the first that is not well formed. -/
structure FirstInvalid (d : Definition) (index : Nat) : Prop where
  invalid : ∃ c, d.conditions[index]? = some c ∧ ¬ c.WellFormed d.tasks.length
  before : ∀ i < index, ∀ c, d.conditions[i]? = some c → c.WellFormed d.tasks.length

theorem exists_of_validateConditions {count start : Nat} {cs : List Condition}
    {e : ValidationError} (h : validateConditions count start cs = .error e) :
    ∃ i c reason, cs[i]? = some c ∧ c.fault? count = some reason ∧
      e = .invalidCondition (start + i) reason ∧
      ∀ j < i, ∀ c', cs[j]? = some c' → c'.fault? count = none := by
  induction cs generalizing start with
  | nil => cases h
  | cons c rest ih =>
    rcases error_of_bind h with hc | ⟨_, hc, hrest⟩
    · rw [Condition.validate] at hc
      cases hfault : c.fault? count with
      | none => rw [hfault] at hc; cases hc
      | some reason =>
        rw [hfault] at hc
        cases hc
        exact ⟨0, c, reason, rfl, hfault, rfl, fun j hj => absurd hj (Nat.not_lt_zero j)⟩
    · rw [Condition.validate] at hc
      cases hfault : c.fault? count with
      | some reason => rw [hfault] at hc; cases hc
      | none =>
        obtain ⟨i, c', reason, hc', hreason, rfl, hbefore⟩ := ih hrest
        refine ⟨i + 1, c', reason, hc', hreason, by rw [Nat.add_right_comm, Nat.add_assoc], ?_⟩
        intro j hj d hd
        cases j with
        | zero => cases hd; exact hfault
        | succ j => exact hbefore j (Nat.lt_of_succ_lt_succ hj) d hd

/-- A condition is reported as the first that is not well formed. -/
theorem firstInvalid_of_validate {d : Definition} {index : Nat} {reason : String}
    (h : d.validate = .error (.invalidCondition index reason)) : d.FirstInvalid index := by
  rw [validate_eq_report, checks, Check.report_append] at h
  rcases error_of_bind h with h | ⟨_, -, h⟩
  · -- The checks before the conditions are reported in other ways.
    obtain ⟨before, c, later, hsplit, -, -, herror⟩ := Check.report_eq_error_iff.1 h
    have hc : c ∈ before ++ c :: later := by simp
    rw [← hsplit] at hc
    have hother : ∀ i reason, c.error ≠ .invalidCondition i reason := by
      rcases List.mem_append.1 hc with hc | hc
      · simp only [List.mem_cons, List.not_mem_nil, or_false] at hc
        rcases hc with rfl | rfl | rfl | rfl <;> exact nofun
      · obtain ⟨p, -, hc⟩ := List.mem_flatMap.1 hc
        simp only [taskChecks, List.mem_cons, List.not_mem_nil, or_false] at hc
        rcases hc with rfl | rfl <;> exact nofun
    exact absurd herror (hother index reason)
  · rw [← validateConditions_eq_report] at h
    obtain ⟨i, c, reason, hc, hfault, herror, hbefore⟩ := exists_of_validateConditions h
    cases herror
    rw [Nat.zero_add]
    refine ⟨⟨c, hc, fun hform => ?_⟩, fun j hj c' hc' =>
      Condition.fault?_eq_none_iff.1 (hbefore j hj c' hc')⟩
    rw [Condition.fault?_eq_none_iff.2 hform] at hfault
    cases hfault

end Definition

end RitualLedger
