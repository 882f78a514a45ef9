import RitualLedger.Text.Blank
import RitualLedger.Text.Unshown

/-!
# Text as a message quotes it

A message that complains about a value shows texts between double quotes. Quotes, backslashes, line
ends and tabs are escaped, and so is every character that shows nothing of its own.
-/

namespace RitualLedger.Text

/-- A number in lower-case hexadecimal digits. -/
def hex (n : Nat) : String := String.ofList (Nat.toDigits 16 n)

/-- One character between quotes. -/
def escapeChar (c : Char) : String :=
  match c with
  | '"' => "\\\""
  | '\\' => "\\\\"
  | '\n' => "\\n"
  | '\r' => "\\r"
  | '\t' => "\\t"
  | '\x00' => "\\0"
  | c => if inRanges unshownRanges c then "\\u\x7b" ++ hex c.toNat ++ "\x7d" else c.toString

/-- A text between quotes. -/
def quoted (s : String) : String := "\"" ++ String.join (s.toList.map escapeChar) ++ "\""

end RitualLedger.Text
