import Mathlib.Algebra.Group.Nat.Defs
import RitualLedger.Proofs.Rule.Keys
import RitualLedger.Proofs.Toml.Text
import RitualLedger.Toml.Parser

/-!
# Lines of TOML read back

What a line says: a bare name between brackets opens a table, and a bare name in front of an equals
sign gives a value to a key (`Toml.statement_header`, `Toml.statement_line`). The values that are
written are texts and whole numbers of TOML.
-/

namespace RitualLedger.Toml

variable {cs rest digits : List Char} {n : Nat} {name : String} {v : Json}

/-! ## Whole numbers -/

/-- Digits write less than the power of ten for their number. -/
theorem ofDigitChars_lt (hdigit : ∀ c ∈ digits, c.isDigit = true) (init : Nat) :
    Nat.ofDigitChars 10 digits init < (init + 1) * 10 ^ digits.length := by
  induction digits generalizing init with
  | nil => simp
  | cons c digits ih =>
    have hc := hdigit c List.mem_cons_self
    have hvalue : c.toNat - '0'.toNat ≤ 9 :=
      Nat.sub_le_sub_right (Char.isDigit_iff_toNat.1 hc).2 '0'.toNat
    rw [Nat.ofDigitChars_cons, List.length_cons, Nat.pow_succ]
    refine lt_of_lt_of_le (ih (fun d hd => hdigit d (List.mem_cons_of_mem c hd)) _) ?_
    calc (10 * init + (c.toNat - '0'.toNat) + 1) * 10 ^ digits.length
        ≤ ((init + 1) * 10) * 10 ^ digits.length := Nat.mul_le_mul_right _ (by omega)
      _ = (init + 1) * (10 ^ digits.length * 10) := by
        rw [Nat.mul_assoc, Nat.mul_comm 10 (10 ^ digits.length)]

/-- A number is written without zeros in front. -/
theorem toDigits_ne_zero_cons {c : Char} : Nat.toDigits 10 n ≠ '0' :: c :: cs := by
  intro h
  have hdigit : ∀ d ∈ c :: cs, d.isDigit = true := fun d hd =>
    Nat.isDigit_of_mem_toDigits (by decide) (by decide) (h ▸ List.mem_cons_of_mem '0' hd)
  have hvalue : Nat.ofDigitChars 10 (c :: cs) 0 = n := by
    have hn := Nat.ofDigitChars_ten_toDigits (n := n)
    rw [h, Nat.ofDigitChars_cons] at hn
    exact hn
  have hlt : n < 10 ^ (c :: cs).length := by
    have := ofDigitChars_lt hdigit 0
    rw [hvalue] at this
    simpa using this
  have hshort := (Nat.length_toDigits_le_iff (by decide) (by simp)).2 hlt
  rw [h, List.length_cons] at hshort
  exact Nat.not_succ_le_self _ hshort

theorem plainDigits?_eq (hdigit : ∀ c ∈ digits, c.isDigit = true) (hne : digits ≠ []) :
    plainDigits? Char.isDigit digits = some digits := by
  induction digits with
  | nil => exact absurd rfl hne
  | cons c digits ih =>
    have hc := hdigit c List.mem_cons_self
    cases digits with
    | nil => rw [plainDigits?, if_pos hc]
    | cons d digits =>
      have hd := hdigit d (List.mem_cons_of_mem c List.mem_cons_self)
      rw [plainDigits?, if_pos hc, ih (fun e he => hdigit e (List.mem_cons_of_mem c he))
        (List.cons_ne_nil d digits)]
      · rfl
      · exact nofun
      · rintro behind h
        rw [(List.cons.inj h).1] at hd
        cases hd

/-- A number is written as a digit with further digits behind it. -/
theorem exists_toDigits_eq_cons (n : Nat) :
    ∃ c ds, Nat.toDigits 10 n = c :: ds ∧ c.isDigit = true := by
  cases h : Nat.toDigits 10 n with
  | nil => exact absurd h Nat.toDigits_ne_nil
  | cons c ds =>
    exact ⟨c, ds, rfl, Nat.isDigit_of_mem_toDigits (by decide) (by decide)
      (h ▸ List.mem_cons_self)⟩

theorem wholeDigits?_toDigits : wholeDigits? (Nat.toDigits 10 n) = some (Nat.toDigits 10 n) := by
  rw [wholeDigits?, plainDigits?_eq (fun c => Nat.isDigit_of_mem_toDigits (by decide) (by decide))
    Nat.toDigits_ne_nil]
  split
  · next c ds h => exact absurd (Option.some.inj h) toDigits_ne_zero_cons
  · rfl

theorem sign_digit {c : Char} (hc : c.isDigit = true) : sign (c :: cs) = (none, c :: cs) := by
  rw [sign]
  · rintro _ h
    cases h
    cases hc
  · rintro _ h
    cases h
    cases hc

theorem integer?_number (hn : n < 2 ^ 63) :
    integer? (Nat.toDigits 10 n) = some (.int n) := by
  have hword : word? false n = some (.int n) := by
    have hleast : Int64.minValue.toInt = -9223372036854775808 := by decide
    have hmost : Int64.maxValue.toInt = 9223372036854775807 := by decide
    change (if Int64.minValue.toInt ≤ (n : Int) ∧ (n : Int) ≤ Int64.maxValue.toInt then
      some (Json.int n) else none) = _
    rw [hleast, hmost, if_pos (by omega)]
  obtain ⟨c, ds, hds, hc⟩ := exists_toDigits_eq_cons n
  rw [integer?.eq_def]
  split
  · next h => exact absurd h toDigits_ne_zero_cons
  · next h => exact absurd h toDigits_ne_zero_cons
  · next h => exact absurd h toDigits_ne_zero_cons
  · have hsign : sign (Nat.toDigits 10 n) = (none, Nat.toDigits 10 n) := by
      rw [hds, sign_digit hc]
    rw [hsign]
    simp only
    rw [wholeDigits?_toDigits]
    change word? false (Nat.ofDigitChars 10 (Nat.toDigits 10 n) 0) = _
    rw [Nat.ofDigitChars_ten_toDigits, hword]

theorem tokenValue?_number (hn : n < 2 ^ 63) :
    tokenValue? (Nat.toDigits 10 n) = some (.int n) := by
  obtain ⟨c, ds, hds, hc⟩ := exists_toDigits_eq_cons n
  have hword : ∀ letter letters, letter.isDigit = false →
      Nat.toDigits 10 n ≠ letter :: letters := by
    intro letter letters hletter h
    obtain rfl : c = letter := (List.cons.inj (hds.symm.trans h)).1
    rw [hc] at hletter
    cases hletter
  rw [tokenValue?, if_neg (hword _ _ (by decide)), if_neg (hword _ _ (by decide)),
    integer?_number hn]

theorem spanToken_number :
    spanToken (Nat.toDigits 10 n ++ '\n' :: rest) = (Nat.toDigits 10 n, '\n' :: rest) := by
  have htoken : ∀ c ∈ Nat.toDigits 10 n, isTokenChar c = true := by
    intro c hc
    have hdigit : c.isDigit = true := Nat.isDigit_of_mem_toDigits (by decide) (by decide) hc
    simp [isTokenChar, Char.isAlphanum, hdigit]
  have hspan : (Nat.toDigits 10 n ++ '\n' :: rest).span isTokenChar =
      (Nat.toDigits 10 n, '\n' :: rest) := by
    rw [List.span_eq_takeWhile_dropWhile, List.takeWhile_append_of_pos htoken,
      List.dropWhile_append_of_pos htoken]
    simp [isTokenChar]
  simp only [spanToken, hspan]
  rfl

/-! ## Values -/

/-- Characters that are read as a value at the end of a line. -/
structure Means (source : List Char) (v : Json) : Prop where
  starts : ∃ c cs, source = c :: cs ∧ c ≠ ' ' ∧ c ≠ '\t'
  value : ∀ depth steps rest,
    value depth (steps + 1) (source ++ '\n' :: rest) = some (v, '\n' :: rest)

/-- What neither quotes nor brackets begin is a token. -/
theorem value_token {c : Char} (hquote : c ≠ '"') (hapostrophe : c ≠ '\'') (hbracket : c ≠ '[')
    (hbrace : c ≠ '\x7b') (depth steps : Nat) : value depth (steps + 1) (c :: cs) =
      (tokenValue? (spanToken (c :: cs)).1).map fun v => (v, (spanToken (c :: cs)).2) := by
  rw [value]
  · exact fun _ h => hquote (List.cons.inj h).1
  · exact fun _ h => hapostrophe (List.cons.inj h).1
  · exact fun _ h => hbracket (List.cons.inj h).1
  · exact fun _ h => hbrace (List.cons.inj h).1

/-- A whole number is read from its digits, if TOML has it. -/
theorem means_number (hn : n < 2 ^ 63) : Means (toString n).toList (.int n) := by
  rw [Text.toList_number]
  obtain ⟨c, ds, hds, hc⟩ := exists_toDigits_eq_cons n
  have hne : ∀ d : Char, d.isDigit = false → c ≠ d := by
    rintro d hd rfl
    rw [hc] at hd
    cases hd
  refine ⟨⟨c, ds, hds, hne _ (by decide), hne _ (by decide)⟩, fun depth steps rest => ?_⟩
  rw [hds, List.cons_append, value_token (hne _ (by decide)) (hne _ (by decide))
    (hne _ (by decide)) (hne _ (by decide)) depth steps, ← List.cons_append, ← hds,
    spanToken_number, tokenValue?_number hn]
  rfl

/-- What is written for a text begins with a quote. -/
theorem exists_writeText (cs : List Char) :
    ∃ more, writeText cs = '"' :: more ∨ writeText cs = '\'' :: more := by
  rw [writeText]
  cases (traits cs).form with
  | basic => exact ⟨_, .inl rfl⟩
  | literal => exact ⟨_, .inr rfl⟩
  | basicLines => exact ⟨_, .inl rfl⟩
  | literalLines => exact ⟨_, .inr rfl⟩

/-- A text is read from what is written for it. -/
theorem means_text (s : String) : Means (writeText s.toList) (.str s) := by
  have hread : ∀ rest, readText (writeText s.toList ++ '\n' :: rest) =
      some (s.toList, '\n' :: rest) := fun rest =>
    readText_writeText s.toList (by simp) (by simp)
  obtain ⟨more, h | h⟩ := exists_writeText s.toList <;> rw [h] at hread ⊢
  · refine ⟨⟨_, _, rfl, by decide, by decide⟩, fun depth steps rest => ?_⟩
    rw [List.cons_append, value, ← List.cons_append, hread]
    simp
  · refine ⟨⟨_, _, rfl, by decide, by decide⟩, fun depth steps rest => ?_⟩
    rw [List.cons_append, value, ← List.cons_append, hread]
    simp

/-! ## Keys -/

/-- Whether a name needs no quotes. -/
def IsBare (name : String) : Prop :=
  name.toList ≠ [] ∧ ∀ c ∈ name.toList, isBareKeyChar c = true

instance : Decidable (IsBare name) :=
  decidable_of_iff (name.toList ≠ [] ∧ name.toList.all isBareKeyChar = true) <| by
    rw [IsBare, List.all_eq_true]

/-- What is none of the characters of bare names. -/
theorem IsBare.starts (h : IsBare name) : ∃ c cs, name.toList = c :: cs ∧
    ∀ d : Char, isBareKeyChar d = false → c ≠ d := by
  cases hname : name.toList with
  | nil => exact absurd hname h.1
  | cons c cs =>
    refine ⟨c, cs, rfl, ?_⟩
    rintro d hd rfl
    rw [h.2 c (hname ▸ List.mem_cons_self)] at hd
    cases hd

/-- What stands behind the name of a key, or behind the blank that follows it. -/
theorem skipBlanks_cons {c : Char} (h : c ≠ ' ') (htab : c ≠ '\t') :
    skipBlanks (c :: cs) = c :: cs := by
  simp [skipBlanks, h, htab]

theorem IsBare.skipBlanks_append (h : IsBare name) :
    skipBlanks (name.toList ++ rest) = name.toList ++ rest := by
  obtain ⟨c, cs, hname, hne⟩ := h.starts
  rw [hname]
  exact skipBlanks_cons (hne _ (by decide)) (hne _ (by decide))

/-- A bare name is read up to something else. -/
theorem IsBare.keyPart_append (h : IsBare name)
    (hrest : ∀ c ∈ rest.head?, isBareKeyChar c = false) :
    keyPart (name.toList ++ rest) = some (name, rest) := by
  obtain ⟨c, cs, hname, hne⟩ := h.starts
  have hquote : readLineText (name.toList ++ rest) = none := by
    rw [hname, List.cons_append, readLineText]
    · exact fun _ hc => hne '"' (by decide) (List.cons.inj hc).1
    · exact fun _ hc => hne '\'' (by decide) (List.cons.inj hc).1
  have hspan : (name.toList ++ rest).span isBareKeyChar = (name.toList, rest) := by
    rw [List.span_eq_takeWhile_dropWhile, List.takeWhile_append_of_pos h.2,
      List.dropWhile_append_of_pos h.2]
    cases rest with
    | nil => simp
    | cons d ds => simp [hrest d rfl]
  simp only [keyPart, hquote, hspan]
  rw [if_neg (by simpa using h.1), String.ofList_toList]

/-- A key of one bare name is read, with the blanks behind it, up to something else than a point. -/
theorem IsBare.key_append (h : IsBare name) (hrest : ∀ c ∈ rest.head?, isBareKeyChar c = false)
    (hpoint : (skipBlanks rest).head? ≠ some '.') :
    key (name.toList ++ rest) = some ([name], skipBlanks rest) := by
  change keyParts (78 + 1) _ = _
  rw [keyParts, h.skipBlanks_append, h.keyPart_append hrest]
  simp only [Option.bind_eq_bind, Option.bind_some]
  split
  · next hrest => exact absurd (by rw [hrest]; rfl) hpoint
  · rfl

/-! ## Lines -/

/-- A line that gives a value to a key. -/
structure Line where
  name : String
  source : List Char
  value : Json

/-- The characters of a line, with its end. -/
def Line.text (l : Line) : List Char := l.name.toList ++ ' ' :: '=' :: ' ' :: (l.source ++ ['\n'])

/-- A line whose name needs no quotes and whose value is what its characters mean. -/
structure Line.Sound (l : Line) : Prop where
  bare : IsBare l.name
  means : Means l.source l.value

/-- The pair of a line. -/
def Line.pair (l : Line) : Pair := ⟨[], l.name, l.value⟩

/-- A line that opens a table. -/
def headerText (name : String) : List Char := '[' :: (name.toList ++ [']', '\n'])

/-- A line with something on it is not skipped. -/
theorem skipLines_of_head {c : Char} (steps : Nat)
    (h : c ≠ ' ' ∧ c ≠ '\t' ∧ c ≠ '#' ∧ c ≠ '\n' ∧ c ≠ '\r') :
    skipLines (steps + 1) (c :: cs) = some (c :: cs) := by
  obtain ⟨hblank, htab, hcomment, hline, hreturn⟩ := h
  have htrailing : skipTrailing (c :: cs) = some (c :: cs) := by
    rw [skipTrailing, skipBlanks_cons hblank htab]
    split
    · next h => exact absurd (List.cons.inj h).1 hcomment
    · rfl
  rw [skipLines, htrailing]
  simp only [Option.bind_eq_bind, Option.bind_some]
  split
  · next h => exact absurd (List.cons.inj h).1 hline
  · next h => exact absurd (List.cons.inj h).1 hreturn
  · rfl

theorem Line.Sound.pair_text {l : Line} (h : l.Sound) (depth steps : Nat) (rest : List Char) :
    Toml.pair depth (steps + 2) (l.text ++ rest) = some (l.pair, '\n' :: rest) := by
  obtain ⟨c, cs, hsource, hblank, htab⟩ := h.means.starts
  have htext : l.text ++ rest =
      l.name.toList ++ ' ' :: '=' :: ' ' :: (l.source ++ '\n' :: rest) := by
    simp [Line.text]
  have hkey : key (l.text ++ rest) = some ([l.name], '=' :: ' ' :: (l.source ++ '\n' :: rest)) := by
    rw [htext]
    exact h.bare.key_append (by simp [isBareKeyChar]) (by simp [skipBlanks])
  have hvalue : Toml.value depth (steps + 1) (skipBlanks (' ' :: (l.source ++ '\n' :: rest))) =
      some (l.value, '\n' :: rest) := by
    rw [← h.means.value depth steps rest, hsource]
    exact congrArg _ (skipBlanks_cons hblank htab)
  rw [Toml.pair, hkey]
  simp only [Option.bind_eq_bind, Option.bind_some]
  rw [hvalue]
  rfl

theorem Line.Sound.statement_text {l : Line} (h : l.Sound) (rest : List Char) :
    statement (l.text ++ rest) = some (.pair l.pair, '\n' :: rest) := by
  obtain ⟨c, cs, hname, hne⟩ := h.bare.starts
  have hhead : ∀ more, l.text ++ rest ≠ '[' :: more := by
    intro more hmore
    rw [Line.text, hname] at hmore
    exact hne '[' (by decide) (List.cons.inj hmore).1
  rw [statement, h.pair_text]
  · rfl
  · exact fun _ => hhead _
  · exact fun _ => hhead _

theorem IsBare.statement_header (h : IsBare name) (rest : List Char) :
    statement (headerText name ++ rest) = some (.table [name], '\n' :: rest) := by
  obtain ⟨c, cs, hname, hne⟩ := h.starts
  have htext : headerText name ++ rest = '[' :: (name.toList ++ ']' :: '\n' :: rest) := by
    simp [headerText]
  have hkey : key (name.toList ++ ']' :: '\n' :: rest) = some ([name], ']' :: '\n' :: rest) :=
    h.key_append (by simp [isBareKeyChar]) (by simp [skipBlanks])
  rw [htext, statement, hkey]
  · rfl
  · rintro behind hmore
    rw [hname] at hmore
    exact hne '[' (by decide) (List.cons.inj hmore).1

end RitualLedger.Toml
