import RitualLedger.Proofs.Time.Calendar
import RitualLedger.Time.Instant

/-!
# The text of an instant reads back

An instant that a date can name is written in one form, and the reader takes that form back to the
same instant. Each part of the text is read by its own reader, which stops where the part ends, so
the proof goes through the text from left to right: year, month, day, hour, minute, second,
fraction, zone.
-/

namespace RitualLedger

/-! ## Padded numbers -/

namespace Text

theorem toList_padded (width n : Nat) :
    (padded width n).toList =
      List.replicate (width - (Nat.toDigits 10 n).length) '0' ++ Nat.toDigits 10 n := by
  simp only [padded, Nat.toString_eq_ofList_toDigits, String.toList_append, String.toList_ofList,
    String.length_ofList]

theorem isDigit_of_mem_padded {width n : Nat} {c : Char} (h : c ∈ (padded width n).toList) :
    c.isDigit = true := by
  rw [toList_padded, List.mem_append] at h
  rcases h with h | h
  · rw [List.eq_of_mem_replicate h]
    rfl
  · exact Nat.isDigit_of_mem_toDigits (by decide) (by decide) h

theorem ofDigitChars_padded (width n : Nat) :
    Nat.ofDigitChars 10 (padded width n).toList 0 = n := by
  rw [toList_padded, Nat.ofDigitChars_append, Nat.ofDigitChars_replicate_zero, Nat.mul_zero,
    Nat.ofDigitChars_ten_toDigits]

theorem length_padded {width n : Nat} (hw : 0 < width) (h : n < 10 ^ width) :
    (padded width n).toList.length = width := by
  have := (Nat.length_toDigits_le_iff (by decide : 1 < 10) hw).2 h
  rw [toList_padded, List.length_append, List.length_replicate]
  omega

theorem padded_ne_nil (width n : Nat) : (padded width n).toList ≠ [] := by
  rw [toList_padded]
  exact fun h => Nat.toDigits_ne_nil (List.append_eq_nil_iff.1 h).2

/-- A digit is not white space. -/
theorem isBlankChar_of_isDigit {c : Char} (h : c.isDigit = true) : isBlankChar c = false := by
  rw [Char.isDigit_iff_toNat] at h
  have h₀ : 48 ≤ c.toNat := h.1
  have h₁ : c.toNat ≤ 57 := h.2
  simp [isBlankChar, inRanges, blankRanges]
  omega

/-- Text that begins with something else than white space is trimmed already. -/
theorem trimStart_cons {c : Char} (h : isBlankChar c = false) (cs : List Char) :
    trimStart (c :: cs) = c :: cs := by
  simp [trimStart, h]

theorem trimStart_padded (width n : Nat) (rest : List Char) :
    trimStart ((padded width n).toList ++ rest) = (padded width n).toList ++ rest := by
  have hdigit : ∀ c ∈ (padded width n).toList, c.isDigit = true := fun _ => isDigit_of_mem_padded
  cases h : (padded width n).toList with
  | nil => exact absurd h (padded_ne_nil width n)
  | cons c cs =>
    rw [h] at hdigit
    exact trimStart_cons (isBlankChar_of_isDigit (hdigit c List.mem_cons_self)) _

end Text

namespace Instant

/-! ## The readers of the parts -/

/-- What stands behind a number: nothing, or something else than a digit. -/
def EndsNumber (rest : List Char) : Prop := ∀ c ∈ rest.head?, c.isDigit = false

/-- Digits are read as the number that they write, up to a width or to what ends the number. -/
theorem number_digits {width : Nat} {digits rest : List Char}
    (hdigit : ∀ c ∈ digits, c.isDigit = true) (hne : digits ≠ []) (hle : digits.length ≤ width)
    (hend : digits.length = width ∨ EndsNumber rest) :
    number width (digits ++ rest) = some (Nat.ofDigitChars 10 digits 0, rest) := by
  have htake : ((digits ++ rest).take width).takeWhile Char.isDigit = digits := by
    rw [List.take_append, List.take_of_length_le hle, List.takeWhile_append_of_pos hdigit]
    rcases hend with h | h
    · simp [h]
    · cases hrest : rest.take (width - digits.length) with
      | nil => simp
      | cons c cs =>
        have hc : c.isDigit = false := by
          apply h
          cases rest with
          | nil => simp at hrest
          | cons d ds =>
            obtain ⟨k, hk⟩ : ∃ k, width - digits.length = k + 1 := by
              cases hw : width - digits.length with
              | zero => simp [hw] at hrest
              | succ k => exact ⟨k, rfl⟩
            simp [hk] at hrest
            simp [hrest.1]
        simp [hc]
  simp only [number, htake, List.isEmpty_iff, hne, if_false, List.drop_left]

/-- A number at its full width is read whatever follows it. -/
theorem number_padded {width n : Nat} (hw : 0 < width) (h : n < 10 ^ width) (rest : List Char) :
    number width ((Text.padded width n).toList ++ rest) = some (n, rest) := by
  rw [number_digits (fun _ => Text.isDigit_of_mem_padded) (Text.padded_ne_nil width n)
    (Nat.le_of_eq (Text.length_padded hw h)) (.inl (Text.length_padded hw h)),
    Text.ofDigitChars_padded]

/-- A number of any width is read up to what ends it. -/
theorem longNumber_padded (width n : Nat) {rest : List Char} (h : EndsNumber rest) :
    longNumber ((Text.padded width n).toList ++ rest) = some (n, rest) := by
  rw [longNumber, number_digits (fun _ => Text.isDigit_of_mem_padded) (Text.padded_ne_nil width n)
    (by simp) (.inr h), Text.ofDigitChars_padded]

theorem field_padded {least most n : Nat} (h₀ : least ≤ n) (h₁ : n ≤ most) (hn : n < 100)
    (rest : List Char) :
    field least most ((Text.padded 2 n).toList ++ rest) = some (n, rest) := by
  rw [field, Text.trimStart_padded, number_padded (by decide) hn]
  simp [h₀, h₁]

theorem separator_cons {c : Char} (h : Text.isBlankChar c = false) (rest : List Char) :
    separator c (c :: rest) = some rest := by
  simp [separator, Text.trimStart_cons h]

/-- A year is read up to the dash behind it. -/
theorem year_yearText (y : Int) (rest : List Char) :
    year ((yearText y).toList ++ '-' :: rest) = some (y, '-' :: rest) := by
  have hdash : EndsNumber ('-' :: rest) := by
    intro c hc
    obtain rfl : '-' = c := by simpa using hc
    rfl
  have hminus : ∀ cs, year ('-' :: cs) = (longNumber cs).map fun r => (-(r.1 : Int), r.2) := by
    intro cs
    simp [year, Text.trimStart_cons (c := '-') (by decide)]
  have hplus : ∀ cs, year ('+' :: cs) = (longNumber cs).map fun r => ((r.1 : Int), r.2) := by
    intro cs
    simp [year, Text.trimStart_cons (c := '+') (by decide)]
  rw [yearText]
  split
  case isTrue h =>
    have hlt : y.toNat < 10 ^ 4 := by omega
    have hread := number_padded (by decide) hlt ('-' :: rest)
    have hdigit : ∀ c ∈ (Text.padded 4 y.toNat).toList, c.isDigit = true :=
      fun _ => Text.isDigit_of_mem_padded
    rw [year, Text.trimStart_padded]
    cases hcs : (Text.padded 4 y.toNat).toList with
    | nil => exact absurd hcs (Text.padded_ne_nil _ _)
    | cons c cs =>
      rw [hcs] at hdigit hread
      have hc := hdigit c List.mem_cons_self
      have hminus : c ≠ '-' := by rintro rfl; exact absurd hc (by decide)
      have hplus : c ≠ '+' := by rintro rfl; exact absurd hc (by decide)
      have hy : (y.toNat : Int) = y := by omega
      rw [List.cons_append] at hread ⊢
      simp [hminus, hplus, hread, hy]
  case isFalse h =>
    split
    · have hsign : "-".toList = ['-'] := rfl
      rw [String.toList_append, hsign, List.append_assoc, List.singleton_append, hminus,
        longNumber_padded _ _ hdash]
      simp only [Option.map_some, Option.some.injEq, Prod.mk.injEq, and_true]
      omega
    · have hsign : "+".toList = ['+'] := rfl
      rw [String.toList_append, hsign, List.append_assoc, List.singleton_append, hplus,
        longNumber_padded _ _ hdash]
      simp only [Option.map_some, Option.some.injEq, Prod.mk.injEq, and_true]
      omega

/-- A fraction is read as the nanoseconds that it writes. -/
theorem fraction_fractionText {nanos : Nat} (h : nanos < nanosPerSecond) (rest : List Char) :
    fraction ((fractionText nanos).toList ++ 'Z' :: rest) = some (nanos, 'Z' :: rest) := by
  have hstop : EndsNumber ('Z' :: rest) := by
    intro c hc
    obtain rfl : 'Z' = c := by simpa using hc
    rfl
  have hlt : nanos < 1000000000 := h
  have hread : ∀ width n, 0 < width → width ≤ 9 → n < 10 ^ width →
      fraction ('.' :: ((Text.padded width n).toList ++ 'Z' :: rest))
        = some (n * 10 ^ (9 - width), 'Z' :: rest) := by
    intro width n hw hw₉ hn
    have hlen := Text.length_padded hw hn
    have hnumber := @number_digits 9 _ ('Z' :: rest)
      (fun _ => Text.isDigit_of_mem_padded) (Text.padded_ne_nil width n) (by omega) (.inr hstop)
    rw [Text.ofDigitChars_padded] at hnumber
    simp [fraction, hnumber, hlen]
  have hpoint : ".".toList = ['.'] := rfl
  rw [fractionText]
  split
  case isTrue hzero =>
    subst hzero
    rfl
  case isFalse hzero =>
    split
    case isTrue hthree =>
      rw [String.toList_append, hpoint, List.append_assoc, List.singleton_append]
      have hvalue : nanos / 1000000 * 10 ^ (9 - 3) = nanos := by omega
      rw [hread 3 (nanos / 1000000) (by decide) (by decide) (by omega), hvalue]
    case isFalse hthree =>
      split
      case isTrue hsix =>
        rw [String.toList_append, hpoint, List.append_assoc, List.singleton_append]
        have hvalue : nanos / 1000 * 10 ^ (9 - 6) = nanos := by omega
        rw [hread 6 (nanos / 1000) (by decide) (by decide) (by omega), hvalue]
      case isFalse hsix =>
        rw [String.toList_append, hpoint, List.append_assoc, List.singleton_append,
          hread 9 nanos (by decide) (by decide) hlt, Nat.sub_self, Nat.pow_zero, Nat.mul_one]

/-! ## Dates and times of day -/

theorem date_text {d : Date} (hvalid : d.isValid = true) (hleast : -262143 ≤ d.year)
    (hmost : d.year ≤ 262142) (rest : List Char) :
    date ((yearText d.year).toList ++ '-' :: ((Text.padded 2 d.month).toList
      ++ '-' :: ((Text.padded 2 d.day).toList ++ rest))) = some (d, rest) := by
  obtain ⟨hm₁, hm₁₂, hd₁, hd⟩ : 1 ≤ d.month ∧ d.month ≤ 12 ∧ 1 ≤ d.day ∧
      d.day ≤ Date.daysInMonth d.year d.month := by
    simpa [Date.isValid] using hvalid
  have hd₃₁ : d.day ≤ 31 := hd.trans (Date.daysInMonth_le d.year d.month)
  simp only [date, year_yearText, Option.bind_eq_bind, Option.bind_some,
    separator_cons (c := '-') (by decide), field_padded hm₁ hm₁₂ (by omega),
    field_padded hd₁ hd₃₁ (by omega)]
  simp [hvalid, hleast, hmost]

theorem timeOfDay_text {h m s nanos : Nat} (hh : h ≤ 23) (hm : m ≤ 59) (hs : s ≤ 60)
    (hn : nanos < nanosPerSecond) (rest : List Char) :
    timeOfDay ((Text.padded 2 h).toList ++ ':' :: ((Text.padded 2 m).toList
      ++ ':' :: ((Text.padded 2 s).toList ++ ((fractionText nanos).toList ++ 'Z' :: rest))))
      = some (if s = 60 then (h * 3600 + m * 60 + 59, nanosPerSecond + nanos)
          else (h * 3600 + m * 60 + s, nanos), 'Z' :: rest) := by
  simp only [timeOfDay, Option.bind_eq_bind, Option.bind_some,
    separator_cons (c := ':') (by decide), field_padded (Nat.zero_le _) hh (by omega),
    field_padded (Nat.zero_le _) hm (by omega), field_padded (Nat.zero_le _) hs (by omega),
    fraction_fractionText hn]
  split <;> rfl

/-! ## Instants -/

/-- The instants that a date can name; a leap second follows the last second of a minute. -/
structure IsNameable (t : Instant) : Prop where
  notBefore : t.before earliest = false
  notAfter : t.seconds ≤ latest.seconds
  nanos_lt : t.nanos < 2 * nanosPerSecond
  leap : nanosPerSecond ≤ t.nanos → t.seconds % 60 = 59

instance (t : Instant) : Decidable t.IsNameable :=
  decidable_of_iff (t.before earliest = false ∧ t.seconds ≤ latest.seconds
      ∧ t.nanos < 2 * nanosPerSecond ∧ (nanosPerSecond ≤ t.nanos → t.seconds % 60 = 59))
    ⟨fun h => ⟨h.1, h.2.1, h.2.2.1, h.2.2.2⟩, fun h => ⟨h.1, h.2, h.3, h.4⟩⟩

/-- The first and the last day that a date can name. -/
theorem IsNameable.day_bounds {t : Instant} (h : t.IsNameable) :
    -96465292 ≤ t.seconds / secondsPerDay ∧ t.seconds / secondsPerDay ≤ 95026236 := by
  have hfirst : earliest.seconds = -96465292 * 86400 := by decide
  have hlast : latest.seconds = 95026236 * 86400 + 86399 := by decide
  have hbefore := h.notBefore
  have hafter := h.notAfter
  simp only [before, Bool.or_eq_false_iff, decide_eq_false_iff_not, hfirst] at hbefore
  rw [hlast] at hafter
  simp only [secondsPerDay]
  omega

/-- The years of the days that a date can name. -/
theorem year_bounds {n : Int} (h₀ : -96465292 ≤ n) (h₁ : n ≤ 95026236) :
    -262143 ≤ (Date.ofDayNumber n).year ∧ (Date.ofDayNumber n).year ≤ 262142 := by
  obtain ⟨c, g, y, t, h⟩ := @Date.exists_place ((n + 719468) % 146097) (by omega) (by omega)
  rw [Date.ofDayNumber_eq h]
  obtain ⟨heq, hc₀, hc₃, hg₀, hg₁, hy₀, hy₃, ht₀, ht₁, -, -⟩ := h
  have hn : n + 719468 = 146097 * ((n + 719468) / 146097) + (n + 719468) % 146097 := by omega
  generalize (n + 719468) / 146097 = era at *
  rw [heq] at hn
  clear heq
  simp only
  split
  · omega
  · -- January and February of the last year lie in the March year before it
    refine ⟨by omega, ?_⟩
    by_contra hlate
    have hera : 655 ≤ era := by omega
    have hdays : 36524 * c + 1461 * g + 365 * y + t
        = 365 * (100 * c + 4 * g + y) + (24 * c + g) + t := by omega
    have hextra : 63569 ≤ 97 * era + (24 * c + g) := by
      rcases eq_or_lt_of_le hera with h | h
      · have : 1 ≤ c := by omega
        rcases eq_or_lt_of_le this with h | h
        · have : 10 ≤ g := by omega
          omega
        · omega
      · omega
    omega

/-- The parts of the text of an instant. -/
theorem toList_text (t : Instant) :
    let d := Date.ofDayNumber (t.seconds / secondsPerDay)
    let second := (t.seconds % secondsPerDay).toNat
    let leap := decide (nanosPerSecond ≤ t.nanos)
    t.text.toList = (yearText d.year).toList ++ '-' :: ((Text.padded 2 d.month).toList
      ++ '-' :: ((Text.padded 2 d.day).toList
      ++ 'T' :: ((Text.padded 2 (second / 3600)).toList
      ++ ':' :: ((Text.padded 2 (second / 60 % 60)).toList
      ++ ':' :: ((Text.padded 2 (second % 60 + if leap then 1 else 0)).toList
      ++ ((fractionText (if leap then t.nanos - nanosPerSecond else t.nanos)).toList
      ++ ['Z'])))))) := by
  have hdash : "-".toList = ['-'] := rfl
  have hcolon : ":".toList = [':'] := rfl
  have hT : "T".toList = ['T'] := rfl
  have hZ : "Z".toList = ['Z'] := rfl
  simp only [text, String.toList_append, hdash, hcolon, hT, hZ, List.append_assoc,
    List.cons_append, List.nil_append]

/-- An instant is read from a date, a time of day and the zone of UTC. -/
theorem read?_of_parts {s : String} {d : Date} {cs : List Char} {second nanos : Nat} {t : Instant}
    (hdate : date s.toList = some (d, 'T' :: cs))
    (htime : timeOfDay cs = some ((second, nanos), ['Z']))
    (ht : t = ⟨d.dayNumber * secondsPerDay + second, nanos⟩) (hname : t.IsNameable) :
    read? s = some t := by
  have hzone : zone (Text.trimStart ['Z']) = some (0, []) := rfl
  have hblank : Text.trimStart [] = [] := rfl
  have hrange : (t.before earliest || decide (latest.seconds < t.seconds)) = false := by
    rw [hname.notBefore, Bool.false_or, decide_eq_false_iff_not, Int.not_lt]
    exact hname.notAfter
  subst ht
  simp only [read?, hdate, htime, hzone, hblank, Option.bind_eq_bind, Option.bind_some, true_or,
    if_true, Int.sub_zero, hrange, Bool.false_eq_true, if_false]

/-- The text of an instant that a date can name reads back as that instant. -/
theorem read?_text {t : Instant} (h : t.IsNameable) : read? t.text = some t := by
  obtain ⟨hday₀, hday₁⟩ := h.day_bounds
  obtain ⟨hyear₀, hyear₁⟩ := year_bounds hday₀ hday₁
  have hnumber := Date.dayNumber_ofDayNumber (t.seconds / secondsPerDay)
  have hvalid := Date.isValid_ofDayNumber (t.seconds / secondsPerDay)
  have hnanos := h.nanos_lt
  have hnanosPerSecond : nanosPerSecond = 1000000000 := rfl
  have hday : t.seconds / secondsPerDay * secondsPerDay
      + ((t.seconds % secondsPerDay).toNat : Int) = t.seconds := by
    simp only [secondsPerDay]
    omega
  have hminute : ((t.seconds % secondsPerDay).toNat % 60 : Nat) = t.seconds % 60 := by
    simp only [secondsPerDay]
    omega
  have hlt : (t.seconds % secondsPerDay).toNat < 86400 := by
    simp only [secondsPerDay]
    omega
  have hdate := date_text hvalid hyear₀ hyear₁
  have htext := toList_text t
  generalize (t.seconds % secondsPerDay).toNat = second at *
  have hclock : second / 3600 * 3600 + second / 60 % 60 * 60 + second % 60 = second := by omega
  have htime := fun (s nanos : Nat) (h₁ : s ≤ 60) (h₂ : nanos < nanosPerSecond) =>
    @timeOfDay_text (second / 3600) (second / 60 % 60) s nanos (by omega) (by omega) h₁ h₂ []
  by_cases hl : nanosPerSecond ≤ t.nanos
  · -- a leap second is written as the sixtieth second
    have hlast := h.leap hl
    have hsixty : second % 60 + 1 = 60 := by omega
    simp only [hl, decide_true, if_true, hsixty] at htext
    have htime := htime 60 (t.nanos - nanosPerSecond) (by omega) (by omega)
    rw [if_pos rfl] at htime
    refine read?_of_parts (by rw [htext]; exact hdate _) htime ?_ h
    rw [hnumber]
    have hsecond : second / 3600 * 3600 + second / 60 % 60 * 60 + 59 = second := by omega
    have hnano : nanosPerSecond + (t.nanos - nanosPerSecond) = t.nanos := by omega
    rw [hsecond, hnano, hday]
  · simp only [hl, decide_false, Bool.false_eq_true, if_false, Nat.add_zero] at htext
    have hne : second % 60 ≠ 60 := by omega
    have htime := htime (second % 60) t.nanos (by omega) (by omega)
    rw [if_neg hne] at htime
    refine read?_of_parts (by rw [htext]; exact hdate _) htime ?_ h
    rw [hnumber, hclock, hday]

end Instant

end RitualLedger
