import RitualLedger.Json.Token

/-!
# Field paths

A query names a part of a document by a path: names of fields after points, places in arrays
between square brackets, counted from zero, or from the end with `#`. The path `$.a.b[0]` means the
first item of the field `b` of the field `a`. A name may stand between double quotes, and then it
may hold points and brackets, and escapes as in a JSON text. A path ends at a NUL.

Names are compared by their codes up to a NUL, and places are words of 32 bits.

A path is read as far as it is a path, and `Path.find` follows it as far as there are parts. So a
fault in a path is noticed only by a document that has the part in front of it.
-/

namespace RitualLedger.Json

/-- A step from a value to a part of it. -/
inductive Step where
  /-- The field of a name, given by its codes. -/
  | field (name : List Nat)
  | item (index : Nat)
  /-- The item at a distance behind the last one; the last one has distance one. -/
  | itemFromEnd (distance : Nat)
deriving DecidableEq, Repr

/-- What follows the steps of a path. -/
inductive Ending where
  /-- Nothing: the path is whole. -/
  | whole
  /-- Something that is no step. -/
  | fault
  /-- A place with a fault, which is noticed in arrays of at least so many items. -/
  | faultyPlace (least : Nat)
deriving DecidableEq, Repr

/-- A path as far as it could be read. -/
structure Path where
  steps : List Step
  ending : Ending
deriving DecidableEq, Repr

/-! ## Names -/

/-- The code of an escape that has no meaning. -/
def strayCode : Nat := 0x99999

/-- The low bits of a character as a hexadecimal digit; no character is refused. -/
def looseHex (c : Char) : Nat := (c.toNat + 9 * (c.toNat / 64 % 2)) % 16

/-- The number of some loose hexadecimal digits. -/
def looseNumber (cs : List Char) : Nat := cs.foldl (fun n c => 16 * n + looseHex c) 0

/-- The code that a letter after a backslash stands for. -/
def escapeCode (c : Char) : Nat :=
  match c with
  | 'b' => 8
  | 'f' => 12
  | 'n' => 10
  | 'r' => 13
  | 't' => 9
  | 'v' => 11
  | '0' => 0
  | '\'' | '"' | '/' | '\\' => c.toNat
  | _ => strayCode

/-- Puts the codes of two units together if they are a surrogate pair in front of a list. -/
def joinUnits (high : Nat) (following : List Nat) : List Nat :=
  match following with
  | low :: rest =>
    if 0xD800 ≤ high ∧ high < 0xDC00 ∧ 0xDC00 ≤ low ∧ low < 0xE000 then
      (0x10000 + (high - 0xD800) * 0x400 + (low - 0xDC00)) :: rest
    else high :: following
  | [] => [high]

/-- The codes of a name with escapes. A backslash before a line end hides it. -/
def escapedCodes : List Char → List Nat
  | [] => []
  | ['\\'] => [strayCode]
  | '\\' :: 'u' :: a :: b :: c :: d :: rest =>
    joinUnits (looseNumber [a, b, c, d]) (escapedCodes rest)
  | '\\' :: 'x' :: a :: b :: rest => looseNumber [a, b] :: escapedCodes rest
  | '\\' :: '\r' :: '\n' :: rest => escapedCodes rest
  | '\\' :: c :: rest =>
    if c = '\n' ∨ c = '\r' ∨ c = '\u2028' ∨ c = '\u2029' then escapedCodes rest
    else escapeCode c :: escapedCodes rest
  | c :: rest => c.toNat :: escapedCodes rest

/-- What names are compared by: their codes up to a NUL. -/
def untilNul (codes : List Nat) : List Nat := codes.takeWhile (· ≠ 0)

/-- The codes of a plain name. -/
def plainCodes (cs : List Char) : List Nat := untilNul (cs.map Char.toNat)

/-- The step to the field of a name. -/
def Step.named (name : String) : Step := .field (plainCodes name.toList)

/-! ## Reading -/

/-- Reads the name of a field: its codes and what follows. -/
def fieldName (cs : List Char) : Option (List Nat × List Char) :=
  match cs with
  | '"' :: rest =>
    let (name, after) := rest.span (· ≠ '"')
    match after with
    | _ :: after => some (untilNul (escapedCodes name), after)
    | [] => none
  | _ =>
    let (name, after) := cs.span fun c => c ≠ '.' && c ≠ '['
    if name.isEmpty then none else some (plainCodes name, after)

/-- The value of digits as a word of 32 bits. -/
def word32 (ds : List Char) : Nat := digitsValue ds % UInt32.size

/-- Accepts a step to a place if its bracket is closed. -/
def closed (s : Step) (ending : Ending) : List Char → Except Ending (Step × List Char)
  | ']' :: rest => .ok (s, rest)
  | _ => .error ending

/-- Reads a place in an array with its closing bracket. -/
def place (cs : List Char) : Except Ending (Step × List Char) :=
  let (ds, after) := spanDigits cs
  match cs with
  | '#' :: '-' :: rest =>
    let (ds, after) := spanDigits rest
    if ds.isEmpty then .error (.faultyPlace 0)
    else closed (.itemFromEnd (word32 ds)) (.faultyPlace (word32 ds)) after
  | '#' :: rest => closed (.itemFromEnd 0) (.faultyPlace 0) rest
  | _ =>
    if ds.isEmpty then .error (.faultyPlace 0)
    else closed (.item (word32 ds)) (.faultyPlace 0) after

/-- Puts a step in front of a path. -/
def Path.after (s : Step) (p : Path) : Path := ⟨s :: p.steps, p.ending⟩

/-- Reads a path, by recursion on a bound for the number of its steps. -/
def Path.read : Nat → List Char → Path
  | _, [] => ⟨[], .whole⟩
  | n + 1, '.' :: rest =>
    match fieldName rest with
    | some (name, left) => (Path.read n left).after (.field name)
    | none => ⟨[], .fault⟩
  | n + 1, '[' :: rest =>
    match place rest with
    | .ok (s, left) => (Path.read n left).after s
    | .error ending => ⟨[], ending⟩
  | _, _ => ⟨[], .fault⟩

/-- The path of a text, in which a dollar sign stands for the whole document. -/
def Path.ofArgument (text : String) : Path :=
  match text.toList.takeWhile (· ≠ '\x00') with
  | '$' :: cs => Path.read cs.length cs
  | _ => ⟨[], .fault⟩

/-! ## Following -/

/-- The part of a value that a step leads to. -/
def step? (j : Json) (s : Step) : Option Json :=
  match s, j with
  | .field name, .obj fs => (fs.find? fun f => plainCodes f.1.toList = name).map (·.2)
  | .item i, .arr items => items[i]?
  | .itemFromEnd d, .arr items => if d ≤ items.length then items[items.length - d]? else none
  | _, _ => none

/-- A fault that was noticed in a path. -/
inductive PathFault where
  | malformed
deriving DecidableEq, Repr

/-- What a path that ends at a value names. -/
def Ending.find (e : Ending) (j : Json) : Except PathFault (Option Json) :=
  match e, j with
  | .whole, j => .ok (some j)
  | .fault, _ => .error .malformed
  | .faultyPlace least, .arr items =>
    if least ≤ items.length then .error .malformed else .ok none
  | .faultyPlace _, _ => .ok none

/-- The part of a value that some steps and an ending name; none if a part on the way is missing. -/
def followFrom (j : Json) (e : Ending) : List Step → Except PathFault (Option Json)
  | [] => e.find j
  | s :: rest =>
    match j.step? s with
    | some part => followFrom part e rest
    | none => .ok none

/-- The part of a value that a path names. -/
def Path.find (p : Path) (j : Json) : Except PathFault (Option Json) :=
  followFrom j p.ending p.steps

/-- A whole path has no fault to notice. -/
theorem followFrom_whole (steps : List Step) (j : Json) :
    ∃ part, followFrom j .whole steps = .ok part := by
  induction steps generalizing j with
  | nil => exact ⟨some j, rfl⟩
  | cons s rest ih =>
    simp only [followFrom]
    split
    · exact ih _
    · exact ⟨none, rfl⟩

end RitualLedger.Json
