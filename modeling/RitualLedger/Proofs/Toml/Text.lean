import RitualLedger.Toml.Text

/-!
# Texts in TOML read back

Whatever a text contains, the form that is picked for it is read as the text
(`Toml.readText_writeText`). In the forms with escapes each character is read as it was written,
one after the other. In the forms over several lines quotes stand in the body, and the reader has to
look ahead: a quote belongs to the body unless it begins the closing ones.
-/

namespace RitualLedger.Toml

variable {c : Char} {cs more rest : List Char}

-- The readers look ahead, so their equations are long; they are made here, once for all proofs.
attribute [local simp] readBasic readLiteral readBasicLines readLiteralLines readText writeBasic
  writeBasicLines longestRun

/-! ## One character with escapes -/

/-- Whether an escape is the number of a character, in four digits. -/
def escapes (c : Char) : List Char → Bool
  | ['\\', 'u', a, b, d, e] => codePoint? [a, b, d, e] = some c
  | _ => false

theorem exists_digits_of_escapes {escape : List Char} (h : escapes c escape = true) :
    ∃ a b d e, escape = ['\\', 'u', a, b, d, e] ∧ codePoint? [a, b, d, e] = some c := by
  rw [escapes.eq_def] at h
  split at h
  · exact ⟨_, _, _, _, rfl, of_decide_eq_true h⟩
  · cases h

/-- Control characters are few, and all of them are read from their numbers. -/
theorem escapes_controlEscape : ∀ n < 128, isControl (Char.ofNat n) = true →
    escapes (Char.ofNat n) (controlEscape (Char.ofNat n)) = true := by
  decide +kernel

theorem controlEscape_eq (h : isControl c = true) :
    ∃ a b d e, controlEscape c = ['\\', 'u', a, b, d, e] ∧ codePoint? [a, b, d, e] = some c := by
  have hn : c.toNat < 128 := by
    simp only [isControl, Bool.or_eq_true, Bool.and_eq_true, decide_eq_true_eq] at h
    omega
  have hescapes := escapes_controlEscape c.toNat hn
  rw [Char.ofNat_toNat] at hescapes
  exact exists_digits_of_escapes (hescapes h)

/-- A character is written as it is, as a letter after a backslash, or by its number. -/
theorem writeChar_cases (c : Char) :
    (∃ letter, writeChar c = ['\\', letter] ∧ escaped? letter = some c) ∨
      (∃ a b d e, writeChar c = ['\\', 'u', a, b, d, e] ∧ codePoint? [a, b, d, e] = some c) ∨
      (writeChar c = [c] ∧ c ≠ '\\' ∧ isControl c = false) := by
  rw [writeChar.eq_def]
  split
  · exact .inl ⟨'\\', rfl, rfl⟩
  · exact .inl ⟨'b', rfl, rfl⟩
  · exact .inl ⟨'t', rfl, rfl⟩
  · exact .inl ⟨'f', rfl, rfl⟩
  · exact .inl ⟨'r', rfl, rfl⟩
  · next hslash _ _ _ _ =>
    by_cases hcontrol : isControl c
    · rw [if_pos hcontrol]
      exact .inr (.inl (controlEscape_eq hcontrol))
    · rw [if_neg hcontrol]
      exact .inr (.inr ⟨rfl, hslash, by simpa using hcontrol⟩)

/-! ## On one line -/

/-- A letter after a backslash is not the sign of a number. -/
theorem ne_u_of_escaped? {letter : Char} (h : escaped? letter = some c) :
    letter ≠ 'u' ∧ letter ≠ 'U' := by
  constructor <;> (rintro rfl; cases h)

theorem readBasic_letter {letter : Char} (h : escaped? letter = some c) :
    readBasic ('\\' :: letter :: more) = prepend c (readBasic more) := by
  obtain ⟨hu, hU⟩ := ne_u_of_escaped? h
  rw [readBasic, h]
  · exact fun _ _ _ _ _ hletter => absurd hletter hu
  · exact fun _ _ _ _ _ _ _ _ _ hletter => absurd hletter hU

theorem readBasic_number {a b d e : Char} (h : codePoint? [a, b, d, e] = some c) :
    readBasic ('\\' :: 'u' :: a :: b :: d :: e :: more) = prepend c (readBasic more) := by
  rw [readBasic, h]

theorem readBasic_plain (hquote : c ≠ '"') (hslash : c ≠ '\\') (hcontrol : isControl c = false) :
    readBasic (c :: more) = prepend c (readBasic more) := by
  rw [readBasic, if_neg (by simp [hcontrol])]
  · exact hquote
  · exact fun _ _ _ _ _ h => absurd h hslash
  · exact fun _ _ _ _ _ _ _ _ _ h => absurd h hslash
  · exact fun _ _ h => absurd h hslash

theorem readBasic_writeChar (hquote : c ≠ '"') :
    readBasic (writeChar c ++ more) = prepend c (readBasic more) := by
  rcases writeChar_cases c with ⟨letter, hwrite, h⟩ | ⟨a, b, d, e, hwrite, h⟩ |
    ⟨hwrite, hslash, hcontrol⟩ <;> rw [hwrite]
  · exact readBasic_letter h
  · exact readBasic_number h
  · exact readBasic_plain hquote hslash hcontrol

theorem writeBasic_cons (hquote : c ≠ '"') (hline : c ≠ '\n') :
    writeBasic (c :: cs) = writeChar c ++ writeBasic cs := by
  rw [writeBasic]
  · exact hquote
  · exact hline

/-- The body of a text on one line is read as the text. -/
theorem readBasic_writeBasic (cs rest : List Char) :
    readBasic (writeBasic cs ++ '"' :: rest) = some (cs, rest) := by
  induction cs with
  | nil => rfl
  | cons c cs ih =>
    have hcons : some (c :: cs, rest) = prepend c (readBasic (writeBasic cs ++ '"' :: rest)) := by
      rw [ih]
      rfl
    rw [hcons]
    by_cases hquote : c = '"'
    · subst hquote
      exact readBasic_letter rfl
    by_cases hline : c = '\n'
    · subst hline
      exact readBasic_letter rfl
    rw [writeBasic_cons hquote hline, List.append_assoc, readBasic_writeChar hquote]

/-- A text without apostrophes and control characters is read as it is. -/
theorem readLiteral_append (hquote : '\'' ∉ cs) (hcontrol : ∀ c ∈ cs, isControl c = false) :
    readLiteral (cs ++ '\'' :: rest) = some (cs, rest) := by
  induction cs with
  | nil => rfl
  | cons c cs ih =>
    rw [List.mem_cons, not_or] at hquote
    rw [List.cons_append, readLiteral, hcontrol c List.mem_cons_self,
      ih hquote.2 fun d hd => hcontrol d (List.mem_cons_of_mem c hd)]
    · rfl
    · exact fun h => hquote.1 h.symm

/-! ## Over several lines -/

theorem readBasicLines_letter {letter : Char} (h : escaped? letter = some c) :
    readBasicLines false ('\\' :: letter :: more) = prepend c (readBasicLines false more) := by
  obtain ⟨hu, hU⟩ := ne_u_of_escaped? h
  rw [readBasicLines, h]
  · exact fun _ _ _ _ _ hletter => absurd hletter hu
  · exact fun _ _ _ _ _ _ _ _ _ hletter => absurd hletter hU

theorem readBasicLines_number {a b d e : Char} (h : codePoint? [a, b, d, e] = some c) :
    readBasicLines false ('\\' :: 'u' :: a :: b :: d :: e :: more) =
      prepend c (readBasicLines false more) := by
  rw [readBasicLines, h]

/-- A character that begins neither an escape nor a line end nor the closing quotes is read as it
is, unless it is a control character. -/
theorem readBasicLines_other (hquote : c = '"' → ¬ ['"', '"'] <+: more) (hslash : c ≠ '\\')
    (hreturn : c ≠ '\r') : readBasicLines false (c :: more) =
      if c = '\n' then prepend '\n' (readBasicLines false more)
      else if isControl c then none else prepend c (readBasicLines false more) := by
  have hclosing : ∀ behind, c = '"' → more = '"' :: '"' :: behind → False := fun behind hc h =>
    hquote hc ⟨behind, h.symm⟩
  rw [readBasicLines]
  · exact fun _ hc h => hclosing _ hc h
  · exact fun _ hc h => hclosing _ hc h
  · exact fun _ hc h => hclosing _ hc h
  · exact fun _ _ _ _ _ h => absurd h hslash
  · exact fun _ _ _ _ _ _ _ _ _ h => absurd h hslash
  · exact fun _ _ h => absurd h hslash
  · exact fun _ h => absurd h hreturn
  all_goals nofun

theorem readBasicLines_line :
    readBasicLines false ('\n' :: more) = prepend '\n' (readBasicLines false more) :=
  readBasicLines_other nofun nofun nofun

/-- A quote that does not begin the closing ones belongs to the text. -/
theorem readBasicLines_quote (h : ¬ ['"', '"'] <+: more) :
    readBasicLines false ('"' :: more) = prepend '"' (readBasicLines false more) :=
  readBasicLines_other (fun _ => h) nofun nofun

theorem readBasicLines_writeChar (hquote : c ≠ '"') (hline : c ≠ '\n') :
    readBasicLines false (writeChar c ++ more) = prepend c (readBasicLines false more) := by
  rcases writeChar_cases c with ⟨letter, hwrite, h⟩ | ⟨a, b, d, e, hwrite, h⟩ |
    ⟨hwrite, hslash, hcontrol⟩ <;> rw [hwrite]
  · exact readBasicLines_letter h
  · exact readBasicLines_number h
  · have hreturn : c ≠ '\r' := by
      rintro rfl
      cases hcontrol
    rw [List.cons_append, List.nil_append,
      readBasicLines_other (fun h => absurd h hquote) hslash hreturn, if_neg hline,
      if_neg (by simp [hcontrol])]

theorem writeBasicLines_cons (run : Nat) (hquote : c ≠ '"') (hline : c ≠ '\n') :
    writeBasicLines run (c :: cs) = writeChar c ++ writeBasicLines 0 cs := by
  rw [writeBasicLines]
  · exact hquote
  · exact hline

/-- What is written for a character that is no quote begins with none. -/
theorem head?_writeChar (hquote : c ≠ '"') : ∃ d ds, writeChar c = d :: ds ∧ d ≠ '"' := by
  rcases writeChar_cases c with ⟨letter, hwrite, -⟩ | ⟨a, b, d, e, hwrite, -⟩ | ⟨hwrite, -, -⟩
  · exact ⟨_, _, hwrite, by decide⟩
  · exact ⟨_, _, hwrite, by decide⟩
  · exact ⟨_, _, hwrite, hquote⟩

/-- After two quotes in a row, or in front of something else, no quote is written. -/
theorem head?_writeBasicLines {run : Nat} (cs : List Char) (h : c = '"' → run = 2) :
    ∃ d ds, writeBasicLines run (c :: cs) = d :: ds ∧ d ≠ '"' := by
  by_cases hquote : c = '"'
  · obtain rfl := h hquote
    subst hquote
    exact ⟨_, _, rfl, by decide⟩
  by_cases hline : c = '\n'
  · subst hline
    exact ⟨_, _, rfl, by decide⟩
  obtain ⟨d, ds, hwrite, hd⟩ := head?_writeChar hquote
  rw [writeBasicLines_cons run hquote hline, hwrite]
  exact ⟨d, ds ++ writeBasicLines 0 cs, rfl, hd⟩

theorem not_prefix_of_head {d : Char} {ds : List Char} (hd : d ≠ '"') :
    ¬ ['"', '"'] <+: d :: ds := fun h =>
  hd (List.cons_prefix_cons.1 h).1.symm

/-- Behind a quote of the text, two more stand only where the text ends. -/
theorem ends_of_quotes {run : Nat} (hrun : run = 1 ∨ run = 2)
    (h : ['"', '"'] <+: writeBasicLines run cs ++ '"' :: '"' :: '"' :: rest) :
    cs = [] ∨ cs = ['"'] ∧ run = 1 := by
  cases cs with
  | nil => exact .inl rfl
  | cons c cs =>
    right
    by_cases hsafe : c = '"' → run = 2
    · obtain ⟨d, ds, hwrite, hd⟩ := head?_writeBasicLines cs hsafe
      rw [hwrite] at h
      exact absurd h (not_prefix_of_head hd)
    · obtain ⟨rfl, hne⟩ := Classical.not_imp.1 hsafe
      obtain rfl : run = 1 := hrun.resolve_right hne
      cases cs with
      | nil => exact ⟨rfl, rfl⟩
      | cons d cs =>
        have hbody : writeBasicLines 1 ('"' :: d :: cs) = '"' :: writeBasicLines 2 (d :: cs) := rfl
        have htwo : d = '"' → 2 = 2 := fun _ => rfl
        obtain ⟨e, es, hwrite, he⟩ := head?_writeBasicLines cs htwo
        rw [hbody, hwrite] at h
        exact absurd (List.cons_prefix_cons.1 (List.cons_prefix_cons.1 h).2).1.symm he

/-- Three quotes close a text. -/
theorem readBasicLines_three (hrest : rest.head? ≠ some '"') :
    readBasicLines false ('"' :: '"' :: '"' :: rest) = some ([], rest) := by
  have hnone : ∀ behind, rest = '"' :: behind → False := fun behind h =>
    hrest (by rw [h, List.head?_cons])
  rw [readBasicLines]
  · exact fun _ h => hnone _ h
  · exact fun _ h => hnone _ h

/-- Four quotes close a text that ends with one. -/
theorem readBasicLines_four (hrest : rest.head? ≠ some '"') :
    readBasicLines false ('"' :: '"' :: '"' :: '"' :: rest) = some (['"'], rest) := by
  rw [readBasicLines]
  exact fun behind h => hrest (by rw [h, List.head?_cons])

/-- The body of a text over several lines is read as the text. -/
theorem readBasicLines_writeBasicLines {run : Nat} (hrun : run ≤ 2) (cs : List Char)
    (hrest : rest.head? ≠ some '"') :
    readBasicLines false (writeBasicLines run cs ++ '"' :: '"' :: '"' :: rest) =
      some (cs, rest) := by
  induction cs generalizing run with
  | nil => exact readBasicLines_three hrest
  | cons c cs ih =>
    have hcons : ∀ run ≤ 2, some (c :: cs, rest) = prepend c
        (readBasicLines false (writeBasicLines run cs ++ '"' :: '"' :: '"' :: rest)) := by
      intro run hrun
      rw [ih hrun]
      rfl
    by_cases hquote : c = '"'
    · subst hquote
      by_cases hfull : run = 2
      · subst hfull
        rw [hcons 0 (by decide)]
        exact readBasicLines_letter rfl
      have hbody : writeBasicLines run ('"' :: cs) = '"' :: writeBasicLines (run + 1) cs := by
        rw [writeBasicLines, if_neg hfull]
      rw [hbody, List.cons_append]
      by_cases hends : ['"', '"'] <+:
          writeBasicLines (run + 1) cs ++ '"' :: '"' :: '"' :: rest
      · rcases ends_of_quotes (by omega) hends with rfl | ⟨rfl, hone⟩
        · exact readBasicLines_four hrest
        · rw [hone]
          rfl
      · rw [readBasicLines_quote hends, ← hcons (run + 1) (by omega)]
    by_cases hline : c = '\n'
    · subst hline
      rw [hcons 0 (by decide)]
      exact readBasicLines_line
    rw [writeBasicLines_cons run hquote hline, List.append_assoc,
      readBasicLines_writeChar hquote hline, ← hcons 0 (by decide)]

/-! ## As it is, over several lines -/

theorem readLiteralLines_other (hquote : c = '\'' → ¬ ['\'', '\''] <+: more)
    (hcontrol : c = '\n' ∨ isControl c = false) :
    readLiteralLines (c :: more) = prepend c (readLiteralLines more) := by
  have hclosing : ∀ behind, c = '\'' → more = '\'' :: '\'' :: behind → False := fun behind hc h =>
    hquote hc ⟨behind, h.symm⟩
  have hreturn : c ≠ '\r' := by
    rintro rfl
    exact absurd hcontrol (by decide)
  rw [readLiteralLines]
  · rcases hcontrol with rfl | hcontrol
    · rfl
    · rw [hcontrol]
      split
      · next hline => rw [hline]
      · rfl
  · exact fun _ hc h => hclosing _ hc h
  · exact fun _ hc h => hclosing _ hc h
  · exact fun _ hc h => hclosing _ hc h
  · exact fun _ h => absurd h hreturn

theorem readLiteralLines_three (hrest : rest.head? ≠ some '\'') :
    readLiteralLines ('\'' :: '\'' :: '\'' :: rest) = some ([], rest) := by
  have hnone : ∀ behind, rest = '\'' :: behind → False := fun behind h =>
    hrest (by rw [h, List.head?_cons])
  rw [readLiteralLines]
  · exact fun _ h => hnone _ h
  · exact fun _ h => hnone _ h

theorem readLiteralLines_four (hrest : rest.head? ≠ some '\'') :
    readLiteralLines ('\'' :: '\'' :: '\'' :: '\'' :: rest) = some (['\''], rest) := by
  rw [readLiteralLines]
  exact fun behind h => hrest (by rw [h, List.head?_cons])

/-- A text without three apostrophes in a row is read as it is. -/
theorem readLiteralLines_append (hruns : ¬ ['\'', '\'', '\''] <:+: cs)
    (hcontrol : ∀ c ∈ cs, c = '\n' ∨ isControl c = false) (hrest : rest.head? ≠ some '\'') :
    readLiteralLines (cs ++ '\'' :: '\'' :: '\'' :: rest) = some (cs, rest) := by
  induction cs with
  | nil => exact readLiteralLines_three hrest
  | cons c cs ih =>
    have hbody := ih (fun h => hruns (h.trans (List.suffix_cons c cs).isInfix)) fun d hd =>
      hcontrol d (List.mem_cons_of_mem c hd)
    by_cases hends : c = '\'' ∧ ['\'', '\''] <+: cs ++ '\'' :: '\'' :: '\'' :: rest
    · obtain ⟨rfl, hends⟩ := hends
      -- A third apostrophe of the text itself would be one too many.
      match cs, hends with
      | [], _ => exact readLiteralLines_four hrest
      | [d], hends =>
        obtain rfl : '\'' = d := (List.cons_prefix_cons.1 hends).1
        rfl
      | d :: e :: behind, hends =>
        obtain ⟨rfl, hnext⟩ := List.cons_prefix_cons.1 hends
        obtain rfl : '\'' = e := (List.cons_prefix_cons.1 hnext).1
        exact absurd ⟨[], behind, rfl⟩ hruns
    · rw [List.cons_append, readLiteralLines_other (fun hc h => hends ⟨hc, h⟩)
        (hcontrol c List.mem_cons_self), hbody]
      rfl

/-! ## Runs of quotes -/

theorem le_longestRun (c : Char) (cs : List Char) (current longest : Nat) :
    longest ≤ longestRun c cs current longest := by
  induction cs generalizing current longest with
  | nil => exact Nat.le_refl _
  | cons d cs ih =>
    rw [longestRun]
    split
    · exact Nat.le_trans (Nat.le_max_left _ _) (ih _ _)
    · exact ih _ _

/-- The longest run is as long as the run that goes on in front. -/
theorem add_le_longestRun {n : Nat} (current longest : Nat) (h : List.replicate (n + 1) c <+: cs) :
    current + (n + 1) ≤ longestRun c cs current longest := by
  induction cs generalizing n current longest with
  | nil => cases List.prefix_nil.1 h
  | cons d cs ih =>
    rw [List.replicate_succ] at h
    obtain ⟨rfl, htail⟩ := List.cons_prefix_cons.1 h
    rw [longestRun, if_pos rfl]
    cases n with
    | zero => exact Nat.le_trans (Nat.le_max_right _ _) (le_longestRun _ _ _ _)
    | succ n =>
      have := ih (current + 1) (max longest (current + 1)) htail
      omega

/-- The longest run is as long as every run. -/
theorem lt_longestRun {n : Nat} (current longest : Nat)
    (h : List.replicate (n + 1) c <:+: cs) : n < longestRun c cs current longest := by
  induction cs generalizing current longest with
  | nil => cases List.infix_nil.1 h
  | cons d cs ih =>
    rcases List.infix_cons_iff.1 h with hprefix | htail
    · have := add_le_longestRun current longest hprefix
      omega
    · rw [longestRun]
      split <;> exact ih _ _ htail

theorem notMem_of_longestRun (h : longestRun c cs 0 0 = 0) : c ∉ cs := by
  intro hmem
  obtain ⟨before, behind, rfl⟩ := List.append_of_mem hmem
  have hinfix : List.replicate (0 + 1) c <:+: before ++ c :: behind :=
    ⟨before, behind, List.append_assoc before [c] behind⟩
  have := lt_longestRun 0 0 hinfix
  omega

theorem not_infix_of_longestRun (h : longestRun c cs 0 0 ≤ 2) : ¬ [c, c, c] <:+: cs :=
  fun hinfix => absurd (lt_longestRun (n := 2) 0 0 hinfix) (Nat.not_lt.2 h)

/-! ## Every text -/

/-- What the opening quotes leave to be read, when only one of them is meant. -/
theorem readText_quote (h : ∀ behind, more ≠ '"' :: '"' :: behind) :
    readText ('"' :: more) = readBasic more := by
  rw [readText]
  · rfl
  · exact fun behind hmore => h behind (List.cons.inj hmore).2
  · exact fun behind hmore => absurd (List.cons.inj hmore).1 (by decide)

theorem readText_apostrophe (h : ∀ behind, more ≠ '\'' :: '\'' :: behind) :
    readText ('\'' :: more) = readLiteral more := by
  rw [readText]
  · rfl
  · exact fun behind hmore => absurd (List.cons.inj hmore).1 (by decide)
  · exact fun behind hmore => h behind (List.cons.inj hmore).2

/-- Only the empty text has its closing quote right behind the opening one. -/
theorem head?_writeBasic (c : Char) (cs : List Char) :
    ∃ d ds, writeBasic (c :: cs) = d :: ds ∧ d ≠ '"' := by
  by_cases hquote : c = '"'
  · subst hquote
    exact ⟨_, _, rfl, by decide⟩
  by_cases hline : c = '\n'
  · subst hline
    exact ⟨_, _, rfl, by decide⟩
  obtain ⟨d, ds, hwrite, hd⟩ := head?_writeChar hquote
  rw [writeBasic_cons hquote hline, hwrite]
  exact ⟨d, ds ++ writeBasic cs, rfl, hd⟩

theorem readText_basic (hasNewline : Bool) (hrest : rest.head? ≠ some '"') :
    readText (writeForm .basic hasNewline cs ++ rest) = some (cs, rest) := by
  have hform : writeForm .basic hasNewline cs ++ rest = '"' :: (writeBasic cs ++ '"' :: rest) := by
    simp [writeForm]
  rw [hform, readText_quote, readBasic_writeBasic]
  intro behind hthree
  cases cs with
  | nil => exact hrest (by rw [(List.cons.inj hthree).2, List.head?_cons])
  | cons c cs =>
    obtain ⟨d, ds, hwrite, hd⟩ := head?_writeBasic c cs
    rw [hwrite] at hthree
    exact hd (List.cons.inj hthree).1

theorem readText_literal (hasNewline : Bool) (hquote : '\'' ∉ cs)
    (hcontrol : ∀ c ∈ cs, isControl c = false) (hrest : rest.head? ≠ some '\'') :
    readText (writeForm .literal hasNewline cs ++ rest) = some (cs, rest) := by
  have hform : writeForm .literal hasNewline cs ++ rest = '\'' :: (cs ++ '\'' :: rest) := by
    simp [writeForm]
  rw [hform, readText_apostrophe, readLiteral_append hquote hcontrol]
  intro behind hthree
  cases cs with
  | nil => exact hrest (by rw [(List.cons.inj hthree).2, List.head?_cons])
  | cons c cs => exact hquote ((List.cons.inj hthree).1 ▸ List.mem_cons_self)

/-- The line end behind the opening quotes is the one that was written there. -/
theorem dropLineEnd_opening {body : List Char} {hasNewline : Bool}
    (h : hasNewline = false → body.head? ≠ some '\n' ∧ body.head? ≠ some '\r') :
    dropLineEnd ((if hasNewline then ['\n'] else []) ++ body) = body := by
  cases hasNewline with
  | true => rfl
  | false =>
    obtain ⟨hline, hreturn⟩ := h rfl
    change dropLineEnd body = body
    rw [dropLineEnd.eq_def]
    split
    · exact absurd rfl hline
    · exact absurd rfl hreturn
    · rfl

/-- A body with escapes begins with a line end only if the text does. -/
theorem head?_body (hline : '\n' ∉ cs) :
    (writeBasicLines 0 cs ++ '"' :: more).head? ≠ some '\n' ∧
      (writeBasicLines 0 cs ++ '"' :: more).head? ≠ some '\r' := by
  cases cs with
  | nil => exact ⟨nofun, nofun⟩
  | cons c cs =>
    by_cases hquote : c = '"'
    · subst hquote
      exact ⟨by simp [writeBasicLines], by simp [writeBasicLines]⟩
    have hne : c ≠ '\n' := fun h => hline (h ▸ List.mem_cons_self)
    rw [writeBasicLines_cons 0 hquote hne]
    rcases writeChar_cases c with ⟨letter, hwrite, -⟩ | ⟨a, b, d, e, hwrite, -⟩ |
      ⟨hwrite, -, hcontrol⟩ <;> rw [hwrite]
    · exact ⟨nofun, nofun⟩
    · exact ⟨nofun, nofun⟩
    · refine ⟨fun h => hne (Option.some.inj h), fun h => ?_⟩
      obtain rfl : c = '\r' := Option.some.inj h
      cases hcontrol

theorem readText_basicLines (hrest : rest.head? ≠ some '"') :
    readText (writeForm .basicLines (cs.contains '\n') cs ++ rest) = some (cs, rest) := by
  have hform : writeForm .basicLines (cs.contains '\n') cs ++ rest =
      '"' :: '"' :: '"' :: ((if cs.contains '\n' then ['\n'] else []) ++
        (writeBasicLines 0 cs ++ '"' :: '"' :: '"' :: rest)) := by
    simp [writeForm]
  rw [hform]
  change readBasicLines false (dropLineEnd _) = _
  rw [dropLineEnd_opening, readBasicLines_writeBasicLines (by decide) cs hrest]
  exact fun h => head?_body fun hmem => by simp [hmem] at h

theorem readText_literalLines (hruns : ¬ ['\'', '\'', '\''] <:+: cs)
    (hcontrol : ∀ c ∈ cs, c = '\n' ∨ isControl c = false) (hrest : rest.head? ≠ some '\'') :
    readText (writeForm .literalLines (cs.contains '\n') cs ++ rest) = some (cs, rest) := by
  have hform : writeForm .literalLines (cs.contains '\n') cs ++ rest =
      '\'' :: '\'' :: '\'' :: ((if cs.contains '\n' then ['\n'] else []) ++
        (cs ++ '\'' :: '\'' :: '\'' :: rest)) := by
    simp [writeForm]
  rw [hform]
  change readLiteralLines (dropLineEnd _) = _
  rw [dropLineEnd_opening, readLiteralLines_append hruns hcontrol hrest]
  intro hnone
  cases cs with
  | nil => exact ⟨nofun, nofun⟩
  | cons c cs =>
    have hne : c ≠ '\n' := by
      rintro rfl
      simp at hnone
    refine ⟨fun h => hne (Option.some.inj h), fun h => ?_⟩
    obtain rfl : c = '\r' := Option.some.inj h
    exact absurd (hcontrol '\r' List.mem_cons_self) (by decide)

/-- What the form of a text says about the text. -/
theorem form_cases (t : Traits) :
    t.form = .basic ∨ t.form = .basicLines ∨
      (t.form = .literal ∧ t.hasControl = false ∧ t.apostropheRun = 0 ∧ t.hasNewline = false) ∨
      (t.form = .literalLines ∧ t.hasControl = false ∧ t.apostropheRun ≤ 2) := by
  rw [Traits.form]
  split
  · exact .inl rfl
  split
  · next h => exact .inr (.inr (.inl ⟨rfl, by simpa [and_assoc] using h⟩))
  split
  · exact .inr (.inl rfl)
  split
  · next h => exact .inr (.inr (.inr ⟨rfl, by simpa using h⟩))
  split
  · exact .inr (.inl rfl)
  · exact .inl rfl

/-- **Every text is read from what is written for it**, if no quote stands right behind. -/
theorem readText_writeText (cs : List Char) (hquote : rest.head? ≠ some '"')
    (hapostrophe : rest.head? ≠ some '\'') : readText (writeText cs ++ rest) = some (cs, rest) := by
  have hcontrol : (traits cs).hasControl = false → ∀ c ∈ cs, c = '\n' ∨ isControl c = false := by
    intro h c hc
    have := List.any_eq_false.1 h c hc
    by_cases hline : c = '\n'
    · exact .inl hline
    · exact .inr (by simpa [hline] using this)
  rw [writeText]
  rcases form_cases (traits cs) with h | h | ⟨h, hnone, hruns, hline⟩ | ⟨h, hnone, hruns⟩ <;> rw [h]
  · exact readText_basic _ hquote
  · exact readText_basicLines hquote
  · refine readText_literal _ (notMem_of_longestRun hruns) (fun c hc => ?_) hapostrophe
    refine (hcontrol hnone c hc).resolve_left fun heq => ?_
    have hcontains : cs.contains '\n' = false := hline
    rw [← heq, List.contains_eq_mem, decide_eq_false_iff_not] at hcontains
    exact hcontains hc
  · exact readText_literalLines (not_infix_of_longestRun hruns) (hcontrol hnone) hapostrophe

end RitualLedger.Toml
