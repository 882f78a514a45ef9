/-!
# Random identifiers

A random identifier is 122 bits, written as 32 hexadecimal digits in five groups; the digit that
opens the third group is a four, and the one that opens the fourth group is from eight to b.
-/

namespace RitualLedger.Text

/-- The number of identifiers. -/
def uuidCount : Nat := 1 <<< 122

/-- The last hexadecimal digits of a number. -/
def hexDigits (width n : Nat) : List Char :=
  (List.range width).reverse.map fun i => Nat.digitChar ((n >>> (4 * i)) % 16)

/-- The identifier of a number below `uuidCount`. -/
def uuid (n : Nat) : String :=
  String.ofList (hexDigits 8 (n >>> 90) ++ '-' :: hexDigits 4 (n >>> 74)
    ++ '-' :: '4' :: hexDigits 3 (n >>> 62)
    ++ '-' :: hexDigits 4 (1 <<< 15 + (n >>> 48) % (1 <<< 14))
    ++ '-' :: hexDigits 12 n)

/-- Whether a character is a digit of an identifier. -/
def isHexDigit (c : Char) : Bool := c.isDigit || ('a' ≤ c && c ≤ 'f')

/-- The places of the dashes of an identifier. -/
def uuidDashes : List Nat := [8, 13, 18, 23]

/-- Whether characters have the form of an identifier. -/
def isUuid (cs : List Char) : Bool :=
  cs.length == 36 &&
    cs.zipIdx.all fun (c, i) => if uuidDashes.contains i then c == '-' else isHexDigit c

end RitualLedger.Text
