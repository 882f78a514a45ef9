import RitualLedger.Proofs.Engine.World

/-!
# Accepted rules

What is checked when a ritual is created is what its rules need later. An accepted condition can be
tested on every event that it listens for: its operator is known, its comparand is of the kind that
the event carries, and an order is asked for on numbers only (`Condition.Accepted.test_ok`). An
accepted action asks for an amount that the ledger takes, or for a task that the ritual has
(`Action.IsSound`).

A step does not touch the rules of a ritual. So every stored ritual is governed by rules that were
accepted for it (`World.isGoverned_after`).
-/

namespace RitualLedger

/-! ## Testing -/

/-- A trigger of one of the events of a ritual's life. -/
inductive Trigger.IsEvent : Trigger → Prop
  | completion (index : UInt64) : IsEvent (.completion index)
  | mood (text : String) : IsEvent (.mood text)
  | streak (count : UInt32) : IsEvent (.streak count)
  | ritualCompletion : IsEvent .ritualCompletion

/-- An event carries a value of the kind that is announced for it. -/
theorem Trigger.IsEvent.valueKind? {t : Trigger} (h : t.IsEvent) :
    t.kind.valueKind? = some t.value.kind := by
  cases h with
  | completion index | mood text | streak count | ritualCompletion => rfl

/-- A known operator can be applied to scalars of one kind, of numbers if it needs an order. -/
theorem Operator.test_ok {o : Operator} {lhs rhs : Scalar} (hknown : ∀ s, o ≠ .unknown s)
    (hkind : lhs.kind = rhs.kind) (hordinal : o.isOrdinal = true → rhs.kind = .number) :
    ∃ passed, o.test lhs rhs = .ok passed := by
  cases o with
  | unknown s => exact absurd rfl (hknown s)
  | eq | ne =>
    cases lhs <;> cases rhs <;> first | exact ⟨_, rfl⟩ | cases hkind
  | gt | lt | ge | le =>
    have hnumber := hordinal rfl
    cases rhs with
    | flag b | text s => cases hnumber
    | number b =>
      cases lhs with
      | flag a | text s => cases hkind
      | number a => exact ⟨_, rfl⟩

/-! ## Actions -/

/-- An action that may be asked for in a ritual of some number of tasks. -/
def Action.IsSound (count : Nat) : Action → Prop
  | .reward amount | .penalty amount =>
    amount ≠ 0 ∧ (amount.toNat : Int) ≤ Condition.largestAmount
  | .unlockTask index => index.toNat < count
  | .notify message => Text.isBlank message = false

namespace Condition

theorem amountFault?_eq_none_iff {type : String} {amount : UInt64} :
    amountFault? type amount = none ↔ amount ≠ 0 ∧ (amount.toNat : Int) ≤ largestAmount := by
  rw [amountFault?]
  split
  · rename_i hzero
    exact iff_of_false (Option.some_ne_none _) fun h => h.1 hzero
  · rename_i hpositive
    split
    · rename_i hlarge
      exact iff_of_false (Option.some_ne_none _) fun h => Int.not_lt.2 h.2 hlarge
    · rename_i hsmall
      exact iff_of_true rfl ⟨hpositive, Int.not_lt.1 hsmall⟩

/-- An action has no fault when it is sound. -/
theorem actionFault?_eq_none_iff {count : Nat} {a : Action} :
    actionFault? count a = none ↔ a.IsSound count := by
  cases a with
  | reward amount | penalty amount => exact amountFault?_eq_none_iff
  | unlockTask index =>
    rw [actionFault?, Action.IsSound]
    split
    · rename_i hbehind
      exact iff_of_false (Option.some_ne_none _) (Nat.not_lt.2 hbehind)
    · rename_i hbefore
      exact iff_of_true rfl (Nat.not_le.1 hbefore)
  | notify message =>
    rw [actionFault?, Action.IsSound]
    cases Text.isBlank message with
    | true => exact iff_of_false (Option.some_ne_none _) Bool.true_eq_false.mp
    | false => exact iff_of_true rfl rfl

/-! ## Conditions -/

/-- What the checks of a condition come to, in a ritual of some number of tasks. -/
structure Accepted (c : Condition) (count : Nat) : Prop where
  known : ∀ spelling, c.operator ≠ .unknown spelling
  kind : c.trigger.valueKind? = some c.comparand.kind
  ordered : c.operator.isOrdinal = true → c.comparand.kind = .number
  actions : ∀ a ∈ c.actions, a.IsSound count

variable {c : Condition} {index count : Nat}

/-- A comparand that is in order is of the kind in question, and a number under an order. -/
theorem kind_of_comparandFault? {expected : Scalar.Kind}
    (h : c.comparandFault? expected = none) :
    c.comparand.kind = expected ∧ (c.operator.isOrdinal = true → expected = .number) := by
  rw [comparandFault?] at h
  split at h
  · cases h
  · rename_i hkind
    split at h
    · cases h
    · rename_i hordinal
      exact ⟨not_not.1 hkind, fun ho => not_not.1 fun hne => hordinal ⟨ho, hne⟩⟩

theorem accepted_of_fault? (h : c.fault? count = none) : c.Accepted count := by
  have hknown := operator_ne_unknown h
  rw [fault?] at h
  split at h
  · cases h
  · split at h
    · cases h
    · rename_i expected hexpected
      split at h
      · cases h
      · rename_i hfault
        obtain ⟨rfl, hordered⟩ := kind_of_comparandFault? hfault
        refine ⟨hknown, hexpected, hordered, fun a ha => ?_⟩
        split at h
        · cases h
        · exact actionFault?_eq_none_iff.1 (List.findSome?_eq_none_iff.1 h a ha)

theorem accepted_of_validate (h : c.validate index count = .ok ()) : c.Accepted count := by
  rw [validate] at h
  cases hfault : c.fault? count with
  | some reason =>
    rw [hfault] at h
    cases h
  | none => exact accepted_of_fault? hfault

/-- **An accepted condition can be tested on every event that it listens for.** -/
theorem Accepted.test_ok {t : Trigger} (h : c.Accepted count) (ht : t.IsEvent)
    (hlistens : c.listensFor t.kind = true) : ∃ passed, c.test t.value = .ok passed := by
  have htrigger : c.trigger = t.kind := eq_of_beq hlistens
  have hkind := h.kind
  rw [htrigger, ht.valueKind?] at hkind
  exact Operator.test_ok h.known (Option.some.inj hkind) h.ordered

/-- Accepted conditions ask for sound actions. -/
theorem isSound_of_mem_matchingActions {cs : List Condition} {t : Trigger} {a : Action}
    (h : ∀ c ∈ cs, c.Accepted count) (ha : a ∈ matchingActions cs t) : a.IsSound count := by
  obtain ⟨c, hc, ha⟩ := List.mem_flatMap.1 ha
  exact (h c (List.mem_filter.1 hc).1).actions a ha

end Condition

/-! ## Definitions -/

namespace Definition

theorem reward_of_validateTasks {tasks : List TaskDefinition} {i : Nat}
    (h : validateTasks i tasks = .ok ()) :
    ∀ t ∈ tasks, (t.tokenReward.toNat : Int) ≤ Condition.largestAmount := by
  induction tasks generalizing i with
  | nil => exact nofun
  | cons first rest ih =>
    obtain ⟨_, hfirst, hrest⟩ := ok_of_bind h
    intro t ht
    rcases List.mem_cons.1 ht with rfl | ht
    · rw [validateTask] at hfirst
      split at hfirst
      · cases hfirst
      · split at hfirst
        · cases hfirst
        · rename_i hsmall
          exact Int.not_lt.1 hsmall
    · exact ih hrest t ht

theorem accepted_of_validateConditions {count : Nat} {conditions : List Condition} {i : Nat}
    (h : validateConditions count i conditions = .ok ()) :
    ∀ c ∈ conditions, c.Accepted count := by
  induction conditions generalizing i with
  | nil => exact nofun
  | cons first rest ih =>
    obtain ⟨_, hfirst, hrest⟩ := ok_of_bind h
    intro c hc
    rcases List.mem_cons.1 hc with rfl | hc
    · exact Condition.accepted_of_validate hfirst
    · exact ih hrest c hc

end Definition

/-! ## Stored rituals -/

namespace Ritual

/-- The rules of a ritual were accepted for its tasks. -/
structure Governed (r : Ritual) : Prop where
  conditions : ∀ c ∈ r.conditions, c.Accepted r.tasks.length
  rewards : ∀ t ∈ r.tasks, (t.tokenReward.toNat : Int) ≤ Condition.largestAmount

/-- A task that has begun has the reward of its definition. -/
theorem reward_of_mem_begun {order : Nat} {ts : List TaskDefinition} {ids : List String}
    {task : Task} (h : task ∈ begun order ts ids) : ∃ t ∈ ts, task.tokenReward = t.tokenReward := by
  obtain ⟨⟨⟨t, id⟩, place⟩, hplace, rfl⟩ := List.mem_map.1 h
  have hzip : (t, id) ∈ ts.zip ids := List.fst_mem_of_mem_zipIdx hplace
  exact ⟨t, (List.of_mem_zip hzip).1, rfl⟩

theorem governed_of_creation {s : Store} {d : Definition} {r : Ritual} {activity : String}
    {now : Instant} (h : CreationAllowed s d r activity now) : r.Governed := by
  have haccepted := Definition.accepted_of_validate h.valid
  constructor
  · rw [h.count, h.start]
    exact Definition.accepted_of_validateConditions haccepted.conditions
  · intro task htask
    rw [h.tasks] at htask
    obtain ⟨t, ht, hreward⟩ := reward_of_mem_begun htask
    rw [hreward]
    exact Definition.reward_of_validateTasks haccepted.tasks t ht

/-- Rules are terms. -/
theorem Governed.of_terms {r r' : Ritual} (h : r.Governed) (hterms : r.terms = r'.terms) :
    r'.Governed := by
  constructor
  · rw [← conditions_of_terms hterms, ← length_of_terms hterms]
    exact h.conditions
  · intro task htask
    obtain ⟨j, hj⟩ := List.mem_iff_getElem?.1 htask
    obtain ⟨task', htask', hsame⟩ := getElem?_of_terms hterms.symm hj
    rw [(Task.of_terms hsame).2.2.2]
    exact h.rewards task' (List.mem_of_getElem? htask')

end Ritual

/-- Every stored ritual is governed by rules that were accepted for it. -/
def Store.IsGoverned (s : Store) : Prop :=
  ∀ id r, s.get? Ritual (Ritual.key id) = some r → r.Governed

/-- Changes leave every stored ritual governed. -/
theorem Change.Makes.isGoverned {s t : Store} {ch : Change} (h : ch.Makes s t) (hs : s.WellTyped)
    (hgoverned : s.IsGoverned) : t.IsGoverned := by
  intro id r hget
  rcases h.ritual_cases hs hget with hsame | ⟨d, activity, now, rfl, rfl⟩ |
    ⟨step, r₀, a, task, evidence, now, rfl, rfl, rfl⟩
  · exact hgoverned id r hsame
  · exact Ritual.governed_of_creation h.allowed
  · exact (hgoverned _ r₀ h.allowed.ritual).of_terms (Completion.terms_advance _ _).symm

/-- **In every run the stored rituals are governed by accepted rules.** -/
theorem World.isGoverned_after (ttl : Int) (es : List Event) :
    ((initial ttl).after es).store.IsGoverned := by
  refine induction_on_changes ttl es nofun ?_
  intro s t c ch hs _ hgoverned _ _ hmakes
  exact hmakes.isGoverned hs hgoverned

end RitualLedger
