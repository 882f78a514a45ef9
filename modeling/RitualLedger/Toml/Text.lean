import RitualLedger.Json.Parser

/-!
# Texts in TOML

TOML writes a text in one of four forms: on one line or over several, with escapes (between double
quotes) or literally (between single quotes). `read` functions take the characters after the
opening quotes and give the text and what follows the closing quotes. `write` picks a form for a
text: the plainest one that can hold it as it is, or else the escaped form.

The forms with a plain body forbid the control characters, tabs apart. A form over several lines
drops a line end right after its opening quotes, and up to two of its own quotes may stand right
before the closing ones.
-/

namespace RitualLedger.Toml

/-- A control character other than the tab; no text may hold one unescaped. -/
def isControl (c : Char) : Bool := (c.toNat < 0x20 && c != '\t') || c.toNat = 0x7F

/-- Puts a character in front of the text read so far. -/
def prepend (c : Char) (r : Option (List Char × List Char)) : Option (List Char × List Char) :=
  r.map fun (text, rest) => (c :: text, rest)

/-- The character that a letter after a backslash stands for. -/
def escaped? (c : Char) : Option Char :=
  match c with
  | '"' => some '"'
  | '\\' => some '\\'
  | 'b' => some '\x08'
  | 'f' => some '\x0c'
  | 'n' => some '\n'
  | 'r' => some '\r'
  | 't' => some '\t'
  | _ => none

/-- The character of a code point given in hexadecimal digits. -/
def codePoint? (digits : List Char) : Option Char :=
  (Json.hexNumber? digits).bind Json.charOf?

/-! ## Reading -/

/-- Reads a text with escapes on one line. -/
def readBasic : List Char → Option (List Char × List Char)
  | [] => none
  | '"' :: rest => some ([], rest)
  | '\\' :: 'u' :: a :: b :: c :: d :: rest =>
    match codePoint? [a, b, c, d] with
    | some x => prepend x (readBasic rest)
    | none => none
  | '\\' :: 'U' :: a :: b :: c :: d :: e :: f :: g :: h :: rest =>
    match codePoint? [a, b, c, d, e, f, g, h] with
    | some x => prepend x (readBasic rest)
    | none => none
  | '\\' :: c :: rest =>
    match escaped? c with
    | some x => prepend x (readBasic rest)
    | none => none
  | c :: rest => if isControl c then none else prepend c (readBasic rest)

/-- Reads a literal text on one line. -/
def readLiteral : List Char → Option (List Char × List Char)
  | [] => none
  | '\'' :: rest => some ([], rest)
  | c :: rest => if isControl c then none else prepend c (readLiteral rest)

/-- Whether only blanks stand before the end of the line. -/
def endsLine : List Char → Bool
  | ' ' :: rest | '\t' :: rest => endsLine rest
  | '\n' :: _ | '\r' :: '\n' :: _ => true
  | _ => false

/-- Reads a text with escapes over several lines. After a backslash at the end of a line, `skipping`
is set, and white space is dropped up to the next other character. -/
def readBasicLines : Bool → List Char → Option (List Char × List Char)
  | _, [] => none
  | true, ' ' :: rest => readBasicLines true rest
  | true, '\t' :: rest => readBasicLines true rest
  | true, '\n' :: rest => readBasicLines true rest
  | true, '\r' :: '\n' :: rest => readBasicLines true rest
  | _, '"' :: '"' :: '"' :: '"' :: '"' :: rest => some (['"', '"'], rest)
  | _, '"' :: '"' :: '"' :: '"' :: rest => some (['"'], rest)
  | _, '"' :: '"' :: '"' :: rest => some ([], rest)
  | _, '\\' :: 'u' :: a :: b :: c :: d :: rest =>
    match codePoint? [a, b, c, d] with
    | some x => prepend x (readBasicLines false rest)
    | none => none
  | _, '\\' :: 'U' :: a :: b :: c :: d :: e :: f :: g :: h :: rest =>
    match codePoint? [a, b, c, d, e, f, g, h] with
    | some x => prepend x (readBasicLines false rest)
    | none => none
  | _, '\\' :: c :: rest =>
    match escaped? c with
    | some x => prepend x (readBasicLines false rest)
    | none => if endsLine (c :: rest) then readBasicLines true (c :: rest) else none
  | _, '\r' :: '\n' :: rest => prepend '\n' (readBasicLines false rest)
  | _, c :: rest =>
    if c = '\n' then prepend '\n' (readBasicLines false rest)
    else if isControl c then none
    else prepend c (readBasicLines false rest)

/-- Reads a literal text over several lines. -/
def readLiteralLines : List Char → Option (List Char × List Char)
  | [] => none
  | '\'' :: '\'' :: '\'' :: '\'' :: '\'' :: rest => some (['\'', '\''], rest)
  | '\'' :: '\'' :: '\'' :: '\'' :: rest => some (['\''], rest)
  | '\'' :: '\'' :: '\'' :: rest => some ([], rest)
  | '\r' :: '\n' :: rest => prepend '\n' (readLiteralLines rest)
  | c :: rest =>
    if c = '\n' then prepend '\n' (readLiteralLines rest)
    else if isControl c then none
    else prepend c (readLiteralLines rest)

/-- What follows a line end that stands first. -/
def dropLineEnd : List Char → List Char
  | '\n' :: rest => rest
  | '\r' :: '\n' :: rest => rest
  | cs => cs

/-- Reads a text on one line with its opening quote, as keys may have it. -/
def readLineText : List Char → Option (List Char × List Char)
  | '"' :: rest => readBasic rest
  | '\'' :: rest => readLiteral rest
  | _ => none

/-- Reads a text of any form with its opening quotes. -/
def readText : List Char → Option (List Char × List Char)
  | '"' :: '"' :: '"' :: rest => readBasicLines false (dropLineEnd rest)
  | '\'' :: '\'' :: '\'' :: rest => readLiteralLines (dropLineEnd rest)
  | cs => readLineText cs

/-! ## Writing -/

/-- The longest run of a character. -/
def longestRun (c : Char) : List Char → Nat → Nat → Nat
  | [], _, longest => longest
  | d :: rest, current, longest =>
    if d = c then longestRun c rest (current + 1) (max longest (current + 1))
    else longestRun c rest 0 longest

/-- What decides the form of a text. -/
structure Traits where
  hasControl : Bool
  hasBackslash : Bool
  hasNewline : Bool
  quoteRun : Nat
  apostropheRun : Nat

/-- The traits of a text. -/
def traits (cs : List Char) : Traits where
  hasControl := cs.any fun c => isControl c && c != '\n'
  hasBackslash := cs.contains '\\'
  hasNewline := cs.contains '\n'
  quoteRun := longestRun '"' cs 0 0
  apostropheRun := longestRun '\'' cs 0 0

/-- The forms of a text. -/
inductive Form where
  | basic
  | literal
  | basicLines
  | literalLines
deriving DecidableEq, Repr

/-- The form for a text: on one line with double quotes when nothing needs an escape, then with
single quotes, then over several lines in the same order. A text that no form holds as it is gets
escapes, over several lines if it has some. -/
def Traits.form (t : Traits) : Form :=
  if !t.hasControl && !t.hasBackslash && t.quoteRun = 0 && !t.hasNewline then .basic
  else if !t.hasControl && t.apostropheRun = 0 && !t.hasNewline then .literal
  else if !t.hasControl && !t.hasBackslash && t.quoteRun ≤ 2 then .basicLines
  else if !t.hasControl && t.apostropheRun ≤ 2 then .literalLines
  else if t.hasNewline then .basicLines
  else .basic

/-- The escape of a control character in four hexadecimal digits. -/
def controlEscape (c : Char) : List Char :=
  let digits := (Nat.toDigits 16 c.toNat).map Char.toUpper
  '\\' :: 'u' :: (List.replicate (4 - digits.length) '0' ++ digits)

/-- A character of an escaped form, quotes and line ends apart. -/
def writeChar (c : Char) : List Char :=
  match c with
  | '\\' => ['\\', '\\']
  | '\x08' => ['\\', 'b']
  | '\t' => ['\\', 't']
  | '\x0c' => ['\\', 'f']
  | '\r' => ['\\', 'r']
  | c => if isControl c then controlEscape c else [c]

/-- The body of a text with escapes on one line. -/
def writeBasic : List Char → List Char
  | [] => []
  | '"' :: rest => '\\' :: '"' :: writeBasic rest
  | '\n' :: rest => '\\' :: 'n' :: writeBasic rest
  | c :: rest => writeChar c ++ writeBasic rest

/-- The body of a text with escapes over several lines; every third quote of a run is escaped.
`run` counts the plain quotes right before. -/
def writeBasicLines : Nat → List Char → List Char
  | _, [] => []
  | run, '"' :: rest =>
    if run = 2 then '\\' :: '"' :: writeBasicLines 0 rest else '"' :: writeBasicLines (run + 1) rest
  | _, '\n' :: rest => '\n' :: writeBasicLines 0 rest
  | _, c :: rest => writeChar c ++ writeBasicLines 0 rest

/-- A text in a given form. -/
def writeForm (form : Form) (hasNewline : Bool) (cs : List Char) : List Char :=
  let opening : List Char := if hasNewline then ['\n'] else []
  match form with
  | .basic => '"' :: writeBasic cs ++ ['"']
  | .literal => '\'' :: cs ++ ['\'']
  | .basicLines => '"' :: '"' :: '"' :: opening ++ writeBasicLines 0 cs ++ ['"', '"', '"']
  | .literalLines => '\'' :: '\'' :: '\'' :: opening ++ cs ++ ['\'', '\'', '\'']

/-- A text as a TOML value. -/
def writeText (cs : List Char) : List Char :=
  writeForm (traits cs).form (traits cs).hasNewline cs

end RitualLedger.Toml
