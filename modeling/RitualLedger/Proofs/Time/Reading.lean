import RitualLedger.Proofs.Time.Text

/-!
# What is read is an instant that a date can name

The reader of instants is lenient about the text, not about the instant. It takes no date that
cannot be named, a fraction is less than a second, a sixtieth second is the leap second behind the
last second of its minute, and a zone is a matter of whole minutes. So whatever is read can be
written again, in the one form that instants are written in.
-/

namespace RitualLedger.Instant

/-- Digits write a number that is as short as they are. -/
theorem ofDigitChars_lt {digits : List Char} (h : ∀ c ∈ digits, c.isDigit = true) (before : Nat) :
    Nat.ofDigitChars 10 digits before < (before + 1) * 10 ^ digits.length := by
  induction digits generalizing before with
  | nil => simp
  | cons c rest ih =>
    have hc := Char.isDigit_iff_toNat.1 (h c List.mem_cons_self)
    have hzero : '0'.toNat = 48 := rfl
    have hdigit : 10 * before + (c.toNat - '0'.toNat) + 1 ≤ (before + 1) * 10 := by
      have h₁ : c.toNat ≤ 57 := hc.2
      omega
    have hrest := ih (fun d hd => h d (List.mem_cons_of_mem _ hd))
      (10 * before + (c.toNat - '0'.toNat))
    rw [Nat.ofDigitChars_cons, List.length_cons, Nat.pow_succ, Nat.mul_comm (10 ^ rest.length),
      ← Nat.mul_assoc]
    exact lt_of_lt_of_le hrest (Nat.mul_le_mul_right _ hdigit)

/-- A number is read from digits in front, no more than the width. -/
theorem digits_of_number {width n : Nat} {cs rest : List Char}
    (h : number width cs = some (n, rest)) :
    n < 10 ^ (cs.length - rest.length) ∧ cs.length - rest.length ≤ width := by
  rw [number] at h
  generalize hdigits : (cs.take width).takeWhile Char.isDigit = digits at h
  split at h
  · cases h
  · cases h
    have hall : ∀ c ∈ digits, c.isDigit = true := by
      intro c hc
      rw [← hdigits] at hc
      exact List.all_eq_true.1 List.all_takeWhile c hc
    have hlength : digits.length ≤ min width cs.length := by
      rw [← hdigits, ← List.length_take]
      exact (List.takeWhile_sublist _).length_le
    have hused : cs.length - (cs.drop digits.length).length = digits.length := by
      rw [List.length_drop]
      omega
    have hlt := ofDigitChars_lt hall 0
    rw [Nat.zero_add, Nat.one_mul] at hlt
    rw [hused]
    exact ⟨hlt, by omega⟩

/-- A fraction is less than a second. -/
theorem fraction_lt {cs rest : List Char} {nanos : Nat} (h : fraction cs = some (nanos, rest)) :
    nanos < nanosPerSecond := by
  unfold fraction at h
  split at h
  · rename_i digits
    obtain ⟨⟨n, after⟩, hnumber, h⟩ := Option.bind_eq_some_iff.1 h
    cases h
    obtain ⟨hlt, hwidth⟩ := digits_of_number hnumber
    have hpower : 10 ^ (digits.length - after.length) * 10 ^ (9 - (digits.length - after.length)) =
        nanosPerSecond := by
      rw [← Nat.pow_add, Nat.add_sub_cancel' hwidth]
      rfl
    rw [← hpower]
    exact Nat.mul_lt_mul_of_pos_right hlt (Nat.pow_pos (by decide))
  · cases h
    decide

/-- A leap second follows the last second of a minute. -/
theorem leap_of_timeOfDay {cs rest : List Char} {second nanos : Nat}
    (h : timeOfDay cs = some ((second, nanos), rest)) :
    nanos < 2 * nanosPerSecond ∧ (nanosPerSecond ≤ nanos → second % 60 = 59) := by
  obtain ⟨⟨hour, _⟩, -, h⟩ := Option.bind_eq_some_iff.1 h
  obtain ⟨_, -, h⟩ := Option.bind_eq_some_iff.1 h
  obtain ⟨⟨minute, _⟩, -, h⟩ := Option.bind_eq_some_iff.1 h
  obtain ⟨_, -, h⟩ := Option.bind_eq_some_iff.1 h
  obtain ⟨⟨s, _⟩, -, h⟩ := Option.bind_eq_some_iff.1 h
  obtain ⟨⟨fraction, _⟩, hfraction, h⟩ := Option.bind_eq_some_iff.1 h
  have hlt := fraction_lt hfraction
  dsimp only at h
  split at h
  · cases h
    omega
  · cases h
    omega

/-- A zone is ahead by whole minutes. -/
theorem minutes_of_zone {cs rest : List Char} {ahead : Int} (h : zone cs = some (ahead, rest)) :
    ahead % 60 = 0 := by
  have hoffset : ∀ (sign : Int) (cs : List Char),
      ((twoDigits cs).bind fun hours =>
        (twoDigits (hours.2.dropWhile fun c => c = ':' || Text.isBlankChar c)).bind fun minutes =>
          if hours.1 < 24 ∧ minutes.1 < 60 then
            some (sign * (hours.1 * 3600 + minutes.1 * 60), minutes.2) else none) =
        some (ahead, rest) → ahead % 60 = 0 := by
    intro sign cs h
    obtain ⟨hours, -, h⟩ := Option.bind_eq_some_iff.1 h
    obtain ⟨minutes, -, h⟩ := Option.bind_eq_some_iff.1 h
    split at h
    · cases h
      have hminutes : (60 : Int) ∣ hours.1 * 3600 + minutes.1 * 60 := by omega
      exact Int.emod_eq_zero_of_dvd (Int.dvd_trans hminutes (Int.dvd_mul_left ..))
    · cases h
  unfold zone at h
  split at h
  · split at h
    · cases h
      rfl
    · split at h
      · cases h
        rfl
      · cases h
        rfl
      · exact hoffset 1 _ h
      · exact hoffset (-1) _ h
      · exact hoffset (-1) _ h
      · cases h
  · cases h
    rfl
  · cases h
    rfl
  · cases h

/-- **Whatever is read, a date can name.** -/
theorem isNameable_of_read? {s : String} {t : Instant} (h : read? s = some t) : t.IsNameable := by
  obtain ⟨⟨day, cs⟩, -, h⟩ := Option.bind_eq_some_iff.1 h
  dsimp only at h
  split at h
  · split at h
    · obtain ⟨⟨⟨second, nanos⟩, _⟩, htime, h⟩ := Option.bind_eq_some_iff.1 h
      obtain ⟨⟨ahead, _⟩, hzone, h⟩ := Option.bind_eq_some_iff.1 h
      dsimp only at h
      split at h
      · split at h
        · cases h
        · rename_i hrange
          cases h
          rw [Bool.not_eq_true, Bool.or_eq_false_iff, decide_eq_false_iff_not] at hrange
          obtain ⟨hnanos, hleap⟩ := leap_of_timeOfDay htime
          have hminutes := minutes_of_zone hzone
          refine ⟨hrange.1, Int.not_lt.1 hrange.2, hnanos, fun hlong => ?_⟩
          have hlast := hleap hlong
          simp only [secondsPerDay]
          omega
      · cases h
    · cases h
  · cases h

/-- Every UTC instant of the years 0 to 9999 can be named, and every leap second among them. -/
theorem isNameable_of_year {t : Instant}
    (hfirst : 0 ≤ (Date.ofDayNumber (t.seconds / secondsPerDay)).year)
    (hlast : (Date.ofDayNumber (t.seconds / secondsPerDay)).year ≤ 9999)
    (hnanos : t.nanos < 2 * nanosPerSecond)
    (hleap : nanosPerSecond ≤ t.nanos → t.seconds % 60 = 59) : t.IsNameable := by
  have hday := Date.dayNumber_ofDayNumber (t.seconds / secondsPerDay)
  have hvalid := Date.isValid_ofDayNumber (t.seconds / secondsPerDay)
  generalize Date.ofDayNumber (t.seconds / secondsPerDay) = d at hfirst hlast hday hvalid
  -- The days of these years are far from the first and the last day.
  have hbounds : -96465292 < t.seconds / secondsPerDay ∧ t.seconds / secondsPerDay < 95026236 := by
    simp only [Date.isValid, decide_eq_true_eq] at hvalid
    have hmonth := Date.daysInMonth_le d.year d.month
    simp only [Date.dayNumber, Date.daysBefore] at hday
    omega
  have hearliest : earliest.seconds = -96465292 * 86400 := by decide
  have hlatest : latest.seconds = 95026236 * 86400 + 86399 := by decide
  simp only [secondsPerDay] at hbounds
  refine ⟨?_, by omega, hnanos, hleap⟩
  simp only [before, Bool.or_eq_false_iff, decide_eq_false_iff_not, Bool.and_eq_false_iff,
    beq_eq_false_iff_ne]
  omega

end RitualLedger.Instant
