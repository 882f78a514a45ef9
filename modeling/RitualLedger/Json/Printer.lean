import RitualLedger.Json.Basic

/-!
# Printing JSON

`compact` writes a value without any white space, the form in which documents are compared and
single settings are shown. `pretty` writes one item or field a line, indented by two blanks a
level, for people to read. Both escape texts alike: quotes, backslashes and the controls below the
blank.
-/

namespace RitualLedger.Json

/-- A control character in four hexadecimal digits. -/
def controlEscape (c : Char) : String :=
  let digits := Nat.toDigits 16 c.toNat
  "\\u" ++ String.ofList (List.replicate (4 - digits.length) '0' ++ digits)

/-- One character of a text. -/
def escapeChar (c : Char) : String :=
  match c with
  | '"' => "\\\""
  | '\\' => "\\\\"
  | '\n' => "\\n"
  | '\r' => "\\r"
  | '\t' => "\\t"
  | '\x08' => "\\b"
  | '\x0c' => "\\f"
  | c => if c.toNat < 0x20 then controlEscape c else c.toString

/-- A text between quotes. -/
def quote (s : String) : String := "\"" ++ String.join (s.toList.map escapeChar) ++ "\""

/-- The text of a value that holds no other; the brackets of the others are written around their
contents. -/
def scalarText : Json → String
  | .null => "null"
  | .bool true => "true"
  | .bool false => "false"
  | .int n => toString n
  | .real x => x.text
  | .str s => quote s
  | .arr _ => "[]"
  | .obj _ => "\x7b\x7d"

mutual

/-- The text of a value without white space. -/
def compact : Json → String
  | .arr items => "[" ++ String.intercalate "," (compactItems items) ++ "]"
  | .obj fs => "\x7b" ++ String.intercalate "," (compactFields fs) ++ "\x7d"
  | j => scalarText j

/-- The texts of the items of an array. -/
def compactItems : List Json → List String
  | [] => []
  | j :: rest => compact j :: compactItems rest

/-- The texts of the fields of an object. -/
def compactFields : Fields → List String
  | [] => []
  | (name, j) :: rest => (quote name ++ ":" ++ compact j) :: compactFields rest

end

/-- A line end with the indentation of a level. -/
def newline (level : Nat) : String := "\n" ++ String.ofList (List.replicate (2 * level) ' ')

/-- Lines between two brackets, the brackets at a level and the lines one further in. -/
def block (opening closing : String) (level : Nat) (lines : List String) : String :=
  if lines.isEmpty then opening ++ closing
  else opening ++ newline (level + 1) ++ String.intercalate ("," ++ newline (level + 1)) lines
    ++ newline level ++ closing

mutual

/-- The text of a value that stands at a level. -/
def prettyAt (level : Nat) : Json → String
  | .arr items => block "[" "]" level (prettyItems (level + 1) items)
  | .obj fs => block "\x7b" "\x7d" level (prettyFields (level + 1) fs)
  | j => scalarText j

/-- The lines of the items of an array. -/
def prettyItems (level : Nat) : List Json → List String
  | [] => []
  | j :: rest => prettyAt level j :: prettyItems level rest

/-- The lines of the fields of an object. -/
def prettyFields (level : Nat) : Fields → List String
  | [] => []
  | (name, j) :: rest => (quote name ++ ": " ++ prettyAt level j) :: prettyFields level rest

end

/-- The text of a value for people to read. -/
def pretty (j : Json) : String := prettyAt 0 j

end RitualLedger.Json
