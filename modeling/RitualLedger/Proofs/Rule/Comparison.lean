import RitualLedger.Proofs.Completion.Preview
import RitualLedger.Proofs.Ritual.Checks

/-!
# Comparisons with an index

A completion carries the index of its task as a signed word of the same bits, and the comparand of
an accepted condition is a signed word that is not negative. So a condition on completions relates
the number that is carried to its comparand (`Trigger.carried`): the index itself below `2 ^ 63`,
and the index less `2 ^ 64` from there on. Numbers of the second kind are negative, and stand below
every comparand. So an order is tested as that of the indices exactly up to `2 ^ 63`, while whether
two numbers are equal is tested for all indices (`Condition.ComparesWith`).

As the number that is carried grows, what a lower bound asks for is kept, and what an upper bound
asks for is given up (`Condition.advances_of_carried_le`).
-/

namespace RitualLedger

/-! ## Operators as relations -/

namespace Operator

/-- The relation that an operator names. -/
def Relates {α : Type} [LT α] [LE α] (o : Operator) (a b : α) : Prop :=
  match o with
  | .eq => a = b
  | .ne => a ≠ b
  | .gt => b < a
  | .lt => a < b
  | .ge => b ≤ a
  | .le => a ≤ b
  | .unknown _ => False

/-- The operators that bound a value from below. -/
def isLower : Operator → Bool
  | .gt | .ge => true
  | _ => false

/-- The operators that bound a value from above. -/
def isUpper : Operator → Bool
  | .lt | .le => true
  | _ => false

variable {o : Operator}

/-- A number is tested against numbers only, as the numbers that the words stand for. -/
theorem test_number_iff {a : Int64} {rhs : Scalar} :
    o.test (.number a) rhs = .ok true ↔
      ∃ b : Int64, rhs = .number b ∧ o.Relates a.toInt b.toInt := by
  cases rhs with
  | text s | flag b => cases o <;> simp [test]
  | number b =>
    cases o with
    | unknown s => simp [test, Relates]
    | eq | ne => simp [test, Relates, Int64.toInt_inj]
    | gt | lt => simp [test, Relates, Int64.lt_iff_toInt_lt]
    | ge | le => simp [test, Relates, Int64.le_iff_toInt_le]

theorem relates_natCast {a b : Nat} : o.Relates (a : Int) (b : Int) ↔ o.Relates a b := by
  cases o <;> simp [Relates]

/-- What lies above a lower bound still does when it grows. -/
theorem Relates.of_le {a b n : Int} (ho : o.isLower = true) (h : o.Relates a n) (hab : a ≤ b) :
    o.Relates b n := by
  cases o with
  | gt | ge => exact le_trans h hab
  | eq | ne | lt | le | unknown s => cases ho

/-- What lies below an upper bound still does when it shrinks. -/
theorem Relates.of_ge {a b n : Int} (ho : o.isUpper = true) (h : o.Relates b n) (hab : a ≤ b) :
    o.Relates a n := by
  cases o with
  | lt => exact lt_of_le_of_lt hab h
  | le => exact le_trans hab h
  | eq | ne | gt | ge | unknown s => cases ho

end Operator

/-! ## What a trigger carries -/

namespace Trigger

/-- The number that a completion carries for an index. -/
def carried (index : UInt64) : Int :=
  if index.toNat < 2 ^ 63 then index.toNat else index.toNat - 2 ^ 64

variable {i j : UInt64}

theorem toInt_toInt64 (index : UInt64) : index.toInt64.toInt = carried index := by
  rw [← Int64.toInt_toBitVec, UInt64.toBitVec_toInt64, BitVec.toInt_eq_toNat_cond,
    UInt64.toNat_toBitVec, carried]
  split <;> split <;> omega

theorem carried_of_lt (h : i.toNat < 2 ^ 63) : carried i = i.toNat := if_pos h

/-- From `2 ^ 63` on a negative number is carried. -/
theorem carried_neg (h : 2 ^ 63 ≤ i.toNat) : carried i < 0 := by
  have hbound := i.toNat_lt
  rw [carried, if_neg (Nat.not_lt.2 h)]
  omega

/-- Larger indices carry larger numbers, up to `2 ^ 63` and from there on. -/
theorem carried_le (hij : i ≤ j) (hside : i.toNat < 2 ^ 63 → j.toNat < 2 ^ 63) :
    carried i ≤ carried j := by
  have hnat := UInt64.le_iff_toNat_le.1 hij
  rw [carried, carried]
  split <;> split <;> omega

/-- At `2 ^ 63` the numbers fall below all that were carried before. -/
theorem carried_lt_of_crossing (hi : i.toNat < 2 ^ 63) (hj : 2 ^ 63 ≤ j.toNat) :
    carried j < carried i := by
  have hneg := carried_neg hj
  rw [carried_of_lt hi]
  omega

/-- A streak carries its length. -/
theorem toInt_streak (length : UInt32) : length.toUInt64.toInt64.toInt = length.toNat := by
  have hbound := length.toNat_lt
  have hsame : length.toUInt64.toNat = length.toNat := UInt32.toNat_toUInt64 length
  rw [toInt_toInt64, carried_of_lt (by omega), hsame]

end Trigger

/-- The number that is carried stands to a comparand as the index does exactly if the index is below
`2 ^ 63` or no order is asked for. -/
theorem Operator.relates_carried_iff {o : Operator} {index : UInt64} {n : Nat} (hn : n < 2 ^ 63) :
    (o.Relates (Trigger.carried index) n ↔ o.Relates index.toNat n) ↔
      (index.toNat < 2 ^ 63 ∨ o.isOrdinal = false) := by
  by_cases hsmall : index.toNat < 2 ^ 63
  · rw [Trigger.carried_of_lt hsmall]
    exact iff_of_true relates_natCast (.inl hsmall)
  · -- The comparand lies between the number that is carried and the index.
    have hbelow : Trigger.carried index < n := by
      have := Trigger.carried_neg (Nat.not_lt.1 hsmall)
      omega
    have habove : n < index.toNat := hn.trans_le (Nat.not_lt.1 hsmall)
    cases o with
    | unknown s => exact iff_of_true Iff.rfl (.inr rfl)
    | eq => exact iff_of_true (iff_of_false hbelow.ne habove.ne') (.inr rfl)
    | ne => exact iff_of_true (iff_of_true hbelow.ne habove.ne') (.inr rfl)
    | gt => exact iff_of_false (fun h => hbelow.asymm (h.2 habove)) (not_or.2 ⟨hsmall, nofun⟩)
    | ge => exact iff_of_false (fun h => hbelow.not_ge (h.2 habove.le)) (not_or.2 ⟨hsmall, nofun⟩)
    | lt => exact iff_of_false (fun h => habove.asymm (h.1 hbelow)) (not_or.2 ⟨hsmall, nofun⟩)
    | le => exact iff_of_false (fun h => habove.not_ge (h.1 hbelow.le)) (not_or.2 ⟨hsmall, nofun⟩)

/-! ## Conditions -/

namespace Condition

variable {c : Condition} {cs : List Condition} {place count : Nat}

theorem wellFormed_of_validate (h : c.validate place count = .ok ()) : c.WellFormed count := by
  rw [validate] at h
  cases hfault : c.fault? count with
  | none => exact fault?_eq_none_iff.1 hfault
  | some reason =>
    rw [hfault] at h
    cases h

/-- The comparand of an accepted condition on numbers is a word that is not negative. -/
theorem WellFormed.exists_number (h : c.WellFormed count)
    (hkind : c.trigger.valueKind? = some .number) :
    ∃ n : Nat, n < 2 ^ 63 ∧ c.comparand = .number (Int64.ofNat n) := by
  have hnumber : some Scalar.Kind.number = some c.comparand.kind := hkind.symm.trans h.comparand
  cases hcomparand : c.comparand with
  | text s | flag b =>
    rw [hcomparand] at hnumber
    cases hnumber
  | number w =>
    have hnonnegative := h.nonnegative w hcomparand
    have hbound := w.toInt_lt
    have hsmall : w.toInt.toNat < 2 ^ 63 := by omega
    have hword : Int64.ofNat w.toInt.toNat = w := by
      rw [← Int64.toInt_inj, Int64.toInt_ofNat_of_lt hsmall, Int.toNat_of_nonneg hnonnegative]
    exact ⟨w.toInt.toNat, hsmall, by rw [hword]⟩

/-- On a trigger with a number, a condition fires that is about such events and relates the number
to its comparand. -/
theorem fires_number_iff {t : Trigger} {a : Int64} (hvalue : t.value = .number a) :
    c.fires t = true ↔ c.trigger = t.kind ∧
      ∃ b : Int64, c.comparand = .number b ∧ c.operator.Relates a.toInt b.toInt := by
  rw [fires_iff, test, hvalue, Operator.test_number_iff]

theorem fires_completion_iff {index : UInt64} :
    c.fires (.completion index) = true ↔ c.trigger = .completion ∧
      ∃ b : Int64, c.comparand = .number b ∧
        c.operator.Relates (Trigger.carried index) b.toInt := by
  rw [fires_number_iff (a := index.toInt64) rfl, Trigger.toInt_toInt64]
  rfl

/-- On a trigger of its kind with a number, a condition with a number fires if it relates them. -/
theorem fires_iff_relates {t : Trigger} {a : Int64} {n : Nat} (htrigger : c.trigger = t.kind)
    (hvalue : t.value = .number a) (hcomparand : c.comparand = .number (Int64.ofNat n))
    (hn : n < 2 ^ 63) : c.fires t = true ↔ c.operator.Relates a.toInt n := by
  rw [fires_number_iff hvalue, and_iff_right htrigger, hcomparand]
  simp only [Scalar.number.injEq, exists_eq_left', Int64.toInt_ofNat_of_lt hn]

/-- A condition on completions compares indices with a number.

What is related to the number is what a completion carries. This decides as the index itself would
exactly if the index is below `2 ^ 63` or the operator asks for no order. -/
structure ComparesWith (c : Condition) (n : Nat) : Prop where
  comparand : c.comparand = .number (Int64.ofNat n)
  bound : n < 2 ^ 63
  carried : ∀ index,
    c.fires (.completion index) = true ↔ c.operator.Relates (Trigger.carried index) n
  faithful : ∀ index : UInt64,
    (c.fires (.completion index) = true ↔ c.operator.Relates index.toNat n) ↔
      (index.toNat < 2 ^ 63 ∨ c.operator.isOrdinal = false)

/-- **An accepted condition on completions compares indices** with its comparand. -/
theorem WellFormed.exists_comparesWith (h : c.WellFormed count)
    (htrigger : c.trigger = .completion) : ∃ n, c.ComparesWith n := by
  obtain ⟨n, hn, hcomparand⟩ := h.exists_number (by rw [htrigger]; rfl)
  have hcarried : ∀ index, c.fires (.completion index) = true ↔
      c.operator.Relates (Trigger.carried index) n := by
    intro index
    rw [fires_iff_relates (a := index.toInt64) htrigger rfl hcomparand hn, Trigger.toInt_toInt64]
  refine ⟨n, hcomparand, hn, hcarried, fun index => ?_⟩
  rw [hcarried]
  exact Operator.relates_carried_iff hn

/-- **An accepted condition on streaks compares their lengths**, all of them as they are. -/
theorem WellFormed.exists_fires_streak_iff (h : c.WellFormed count)
    (htrigger : c.trigger = .streak) :
    ∃ n : Nat, c.comparand = .number (Int64.ofNat n) ∧
      ∀ length, c.fires (.streak length) = true ↔ c.operator.Relates length.toNat n := by
  obtain ⟨n, hn, hcomparand⟩ := h.exists_number (by rw [htrigger]; rfl)
  refine ⟨n, hcomparand, fun length => ?_⟩
  rw [fires_iff_relates (a := length.toUInt64.toInt64) htrigger rfl hcomparand hn,
    Trigger.toInt_streak, Operator.relates_natCast]

/-! ## Bounds -/

/-- From one trigger to another, all that lower bounds ask for is kept, in order and with
repetitions, and nothing is added to what upper bounds ask for. -/
structure Advances (cs : List Condition) (t t' : Trigger) : Prop where
  lower : List.Sublist (matchingActions (cs.filter (·.operator.isLower)) t)
    (matchingActions (cs.filter (·.operator.isLower)) t')
  upper : List.Sublist (matchingActions (cs.filter (·.operator.isUpper)) t')
    (matchingActions (cs.filter (·.operator.isUpper)) t)

/-- If those of certain conditions that fire on one trigger fire on another, then what they ask for
on the one they ask for on the other. -/
theorem matchingActions_sublist {p : Condition → Bool} {t t' : Trigger}
    (h : ∀ c, p c = true → c.fires t = true → c.fires t' = true) :
    List.Sublist (matchingActions (cs.filter p) t) (matchingActions (cs.filter p) t') := by
  rw [matchingActions, matchingActions, List.filter_filter, List.filter_filter]
  refine List.Sublist.flatMap (List.monotone_filter_right cs fun c hc => ?_) _
  obtain ⟨hfires, hp⟩ := Bool.and_eq_true_iff.1 hc
  exact Bool.and_eq_true_iff.2 ⟨h c hp hfires, hp⟩

/-- **Bounds follow the numbers that are carried.** -/
theorem advances_of_carried_le {i j : UInt64} (h : Trigger.carried i ≤ Trigger.carried j) :
    Advances cs (.completion i) (.completion j) := by
  constructor
  · refine matchingActions_sublist fun c hlower hfires => ?_
    obtain ⟨htrigger, b, hb, hrelates⟩ := fires_completion_iff.1 hfires
    exact fires_completion_iff.2 ⟨htrigger, b, hb, hrelates.of_le hlower h⟩
  · refine matchingActions_sublist fun c hupper hfires => ?_
    obtain ⟨htrigger, b, hb, hrelates⟩ := fires_completion_iff.1 hfires
    exact fires_completion_iff.2 ⟨htrigger, b, hb, hrelates.of_ge hupper h⟩

end Condition

end RitualLedger
