import RitualLedger.Proofs.Rule.Keys
import RitualLedger.Text.Decimal

/-!
# What is read as a number

The readers of numbers go through a text from left to right and stop at the first fault. What they
accept can be said without them: the digits of a number, perhaps behind a plus sign, whose value is
within the bound (`Text.readNat_eq_ok_iff`). A number that is printed is read again.
-/

namespace RitualLedger.Text

variable {s : String} {n m bound : Nat} {cs : List Char}

/-- A text writes a number: it is digits of that value, perhaps behind a plus sign. -/
def Writes (s : String) (n : Nat) : Prop :=
  ∃ digits : List Char, digits ≠ [] ∧ (∀ c ∈ digits, c.isDigit = true) ∧
    (s.toList = digits ∨ s.toList = '+' :: digits) ∧ Nat.ofDigitChars 10 digits 0 = n

theorem writes_toString (n : Nat) : Writes (toString n) n :=
  ⟨Nat.toDigits 10 n, Nat.toDigits_ne_nil,
    fun _ => Nat.isDigit_of_mem_toDigits (by decide) (by decide), .inl (toList_number n),
    Nat.ofDigitChars_ten_toDigits⟩

/-- A sign is no digit, so a text writes one number at most. -/
theorem Writes.unique (hn : Writes s n) (hm : Writes s m) : n = m := by
  obtain ⟨ds, -, hds, hs, rfl⟩ := hn
  obtain ⟨es, -, hes, ht, rfl⟩ := hm
  have hsign : ∀ l : List Char, ¬ ∀ c ∈ '+' :: l, c.isDigit = true := fun l h =>
    absurd (h '+' List.mem_cons_self) (by decide)
  rcases hs with hs | hs <;> rcases ht with ht | ht <;> rw [hs] at ht
  · rw [ht]
  · exact absurd (ht ▸ hds) (hsign es)
  · exact absurd (ht ▸ hes) (hsign ds)
  · rw [(List.cons.inj ht).2]

/-- Further digits do not make a number smaller. -/
theorem le_ofDigitChars (cs : List Char) (value : Nat) : value ≤ Nat.ofDigitChars 10 cs value := by
  induction cs generalizing value with
  | nil => exact Nat.le_refl value
  | cons c rest ih =>
    rw [Nat.ofDigitChars_cons]
    have := ih (10 * value + (c.toNat - '0'.toNat))
    omega

/-- Digits are read on as long as the value stays within the bound. -/
theorem readDigits_eq_ok_iff {value : Nat} (hvalue : value ≤ bound) :
    readDigits bound value cs = .ok n ↔
      (∀ c ∈ cs, c.isDigit = true) ∧ Nat.ofDigitChars 10 cs value = n ∧ n ≤ bound := by
  induction cs generalizing value with
  | nil =>
    simp only [readDigits, Except.ok.injEq, List.not_mem_nil, false_implies, implies_true,
      true_and, Nat.ofDigitChars_nil]
    exact ⟨fun h => ⟨h, h ▸ hvalue⟩, And.left⟩
  | cons c rest ih =>
    rw [readDigits, digitValue?, Nat.ofDigitChars_cons, List.forall_mem_cons]
    by_cases hc : c.isDigit
    · simp only [hc, if_true, true_and]
      split
      · next hle => exact ih hle
      · next hle =>
        have hgrows := le_ofDigitChars rest (10 * value + (c.toNat - '0'.toNat))
        refine ⟨nofun, ?_⟩
        rintro ⟨-, rfl, h⟩
        exact absurd (hgrows.trans h) hle
    · simp [hc]

/-- **A number is read from a text that writes it, if it is within the bound**, and from no other
text. -/
theorem readNat_eq_ok_iff : readNat bound s = .ok n ↔ Writes s n ∧ n ≤ bound := by
  -- The text without its sign decides; a sign that is left is no digit.
  have hdigits : ∀ digits : List Char, digits ≠ [] →
      (s.toList = '+' :: digits ∨ s.toList = digits ∧ digits.head? ≠ some '+') →
      (readDigits bound 0 digits = .ok n ↔ Writes s n ∧ n ≤ bound) := by
    intro digits hne hs
    rw [readDigits_eq_ok_iff (Nat.zero_le bound), ← and_assoc]
    refine and_congr_left fun _ => ⟨fun ⟨hall, hvalue⟩ => ⟨digits, hne, hall, ?_, hvalue⟩, ?_⟩
    · exact hs.elim .inr fun h => .inl h.1
    · rintro ⟨others, -, hall, hothers, hvalue⟩
      have heq : others = digits := by
        rcases hs with hs | ⟨hs, hsign⟩ <;> rcases hothers with ho | ho <;> rw [hs] at ho
        · exact absurd (hall '+' (ho ▸ List.mem_cons_self)) (by decide)
        · exact (List.cons.inj ho).2.symm
        · exact ho.symm
        · exact absurd (congrArg List.head? ho) hsign
      exact heq ▸ ⟨hall, hvalue⟩
  rw [readNat]
  split
  · next hs =>
    refine ⟨nofun, ?_⟩
    rintro ⟨⟨digits, hne, -, hs' | hs', -⟩, -⟩ <;> rw [hs] at hs'
    · exact absurd hs'.symm hne
    · cases hs'
  · next hs =>
    refine ⟨nofun, ?_⟩
    rintro ⟨⟨digits, hne, hall, hs' | hs', -⟩, -⟩ <;> rw [hs] at hs'
    · exact absurd (hall '+' (hs' ▸ List.mem_cons_self)) (by decide)
    · exact absurd (List.cons.inj hs').2.symm hne
  · next digits hone hs => exact hdigits digits hone (.inl hs)
  · next hempty _ hsign =>
    refine hdigits _ hempty (.inr ⟨rfl, fun h => ?_⟩)
    obtain ⟨rest, hrest⟩ := List.head?_eq_some_iff.1 h
    exact hsign rest hrest

theorem readWord_eq_ok_iff {w : UInt64} : readWord s = .ok w ↔ Writes s w.toNat := by
  have hw := w.toNat_lt
  have hnat : readNat (UInt64.size - 1) s = .ok w.toNat ↔ Writes s w.toNat :=
    readNat_eq_ok_iff.trans (and_iff_left (Nat.le_sub_one_of_lt hw))
  rw [readWord, ← hnat]
  cases h : readNat (UInt64.size - 1) s with
  | error fault => simp [Except.map]
  | ok n =>
    have hn : n < UInt64.size := Nat.lt_of_le_sub_one (by decide) (readNat_eq_ok_iff.1 h).2
    simp only [Except.map, Except.ok.injEq]
    exact ⟨fun h => h ▸ (UInt64.toNat_ofNat_of_lt hn).symm, fun h => h ▸ UInt64.ofNat_toNat⟩

end RitualLedger.Text
