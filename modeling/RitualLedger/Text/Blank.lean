/-!
# Blank text

Titles, moods, messages and the names in a ritual must not be blank. A text is blank when it is
made of white space only, and white space is Unicode's `White_Space` property: a short table of
ranges. `trim` cuts white space from both ends; a text is blank exactly when nothing is left.
-/

namespace RitualLedger.Text

/-- The ranges of code points with Unicode's `White_Space` property, both ends included. -/
def blankRanges : List (Nat × Nat) :=
  [(0x09, 0x0D), (0x20, 0x20), (0x85, 0x85), (0xA0, 0xA0), (0x1680, 0x1680), (0x2000, 0x200A),
   (0x2028, 0x2029), (0x202F, 0x202F), (0x205F, 0x205F), (0x3000, 0x3000)]

/-- Whether a code point lies in one of the ranges. -/
def inRanges (ranges : List (Nat × Nat)) (c : Char) : Bool :=
  ranges.any fun r => r.1 ≤ c.toNat && c.toNat ≤ r.2

/-- White space. -/
def isBlankChar (c : Char) : Bool := inRanges blankRanges c

/-- The characters after the leading white space. -/
def trimStart (cs : List Char) : List Char := cs.dropWhile isBlankChar

/-- The characters up to the trailing white space. -/
def trimEnd (cs : List Char) : List Char := (trimStart cs.reverse).reverse

/-- The text without white space at either end. -/
def trim (s : String) : String := String.ofList (trimEnd (trimStart s.toList))

/-- A text of white space only; the empty text is one. -/
def isBlank (s : String) : Bool := s.toList.all isBlankChar

/-- What separates a blank text from the others is a character that `trimStart` stops at. -/
theorem trimStart_eq_nil_iff (cs : List Char) : trimStart cs = [] ↔ cs.all isBlankChar = true := by
  induction cs with
  | nil => simp [trimStart]
  | cons c r ih =>
    by_cases h : isBlankChar c = true
    · rw [trimStart, List.dropWhile_cons_of_pos h, List.all_cons, h, Bool.true_and]
      exact ih
    · simp [trimStart, h]

end RitualLedger.Text
