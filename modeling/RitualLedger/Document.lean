import RitualLedger.Json.Basic
import RitualLedger.Time.Instant

/-!
# Documents

A type of documents has an encoding as a JSON value and a reader that may refuse a value. An
encoded object lists its fields in the order of their names, so that it is canonical.

The reader of a record takes its parts one after the other, in the order in which the record is
declared. Of an object it looks up the fields that it knows and ignores all others, but none that it
knows may stand there twice. An array stands for a record too: its items are the parts in their
order. A part is *required*, *optional* (a missing field and null both mean none), or *defaulted*
(missing means the default, null does not). Numbers must be integers within the range of their type.

Documents are written in two formats that share their values, and a reader is told which one a
value comes from: they differ in what stands for nothing, and in whether an array may hold more
items than a record has parts.
-/

namespace RitualLedger

/-- The formats that documents are written in. -/
inductive Format where
  | json
  | toml
deriving DecidableEq, Repr

/-- Whether a value says nothing. TOML has no null, and leaves a table or an array empty. -/
def Format.saysNothing : Format → Json → Bool
  | .json, .null => true
  | .toml, .arr [] | .toml, .obj [] => true
  | _, _ => false

/-- Whether an array may hold more items than a record has parts. -/
def Format.allowsSurplus : Format → Bool
  | .json => false
  | .toml => true

/-- Values that are stored or exchanged as JSON. -/
class Document (α : Type) where
  encode : α → Json
  read? : Format → Json → Option α

namespace Document

/-- The document of a JSON value. -/
def decode? {α : Type} [Document α] (j : Json) : Option α := read? .json j

/-! ## Words, texts and times -/

instance : Document Json := ⟨id, fun _ j => some j⟩

instance : Document Bool where
  encode := .bool
  read? _
    | .bool b => some b
    | _ => none

instance : Document String where
  encode := .str
  read? _
    | .str s => some s
    | _ => none

instance : Document UInt64 where
  encode n := .int n.toNat
  read? _
    | .int n => if 0 ≤ n ∧ n < UInt64.size then some (UInt64.ofNat n.toNat) else none
    | _ => none

instance : Document UInt32 where
  encode n := .int n.toNat
  read? _
    | .int n => if 0 ≤ n ∧ n < UInt32.size then some (UInt32.ofNat n.toNat) else none
    | _ => none

instance : Document Int64 where
  encode n := .int n.toInt
  read? _
    | .int n =>
      if Int64.minValue.toInt ≤ n ∧ n ≤ Int64.maxValue.toInt then some (Int64.ofInt n) else none
    | _ => none

instance : Document Instant where
  encode t := .str t.text
  read? _
    | .str s => Instant.read? s
    | _ => none

/-! ## Lists and options -/

/-- Reads every item, or none. -/
def readItems? {α : Type} [Document α] (format : Format) : List Json → Option (List α)
  | [] => some []
  | j :: rest => do
    let x ← read? format j
    let xs ← readItems? format rest
    some (x :: xs)

instance {α : Type} [Document α] : Document (List α) where
  encode xs := .arr (xs.map encode)
  read? format
    | .arr items => readItems? format items
    | _ => none

instance {α : Type} [Document α] : Document (Option α) where
  encode
    | none => .null
    | some x => encode x
  read? format
    | .null => some none
    | j => (read? format j).map some

/-! ## Records -/

/-- The parts of a record that are still to be read. -/
inductive Parts where
  /-- The fields of an object. -/
  | named (fields : Json.Fields)
  /-- The items of an array, one for each part. -/
  | listed (items : List Json)

namespace Parts

/-- Takes the next part, which has a name; none if it is missing. A name that stands twice is
refused. -/
def take? (name : String) : Parts → Option (Option Json × Parts)
  | .named fields =>
    match fields.filter (·.1 == name) with
    | [] => some (none, .named fields)
    | [(_, j)] => some (some j, .named fields)
    | _ => none
  | .listed [] => some (none, .listed [])
  | .listed (j :: rest) => some (some j, .listed rest)

/-- Whether no item is left over. -/
def isDone : Parts → Bool
  | .named _ => true
  | .listed items => items.isEmpty

/-- Whether the parts have names. -/
def areNamed : Parts → Bool
  | .named _ => true
  | .listed _ => false

end Parts

/-- A reader of the parts of a record in their order. -/
abbrev PartReader (α : Type) : Type := ReaderT Format (StateT Parts Option) α

/-- A part that must be there. -/
def required {α : Type} [Document α] (name : String) : PartReader α := fun format parts =>
  match parts.take? name with
  | some (some j, rest) => (read? format j).map fun x => (x, rest)
  | _ => none

/-- A part that may be missing. -/
def defaulted {α : Type} [Document α] (name : String) (default : α) : PartReader α :=
  fun format parts =>
    match parts.take? name with
    | some (some j, rest) => (read? format j).map fun x => (x, rest)
    | some (none, rest) => some (default, rest)
    | none => none

/-- A part that may be null, and that may be missing from an object. -/
def optional {α : Type} [Document α] (name : String) : PartReader (Option α) :=
  fun format parts =>
    if parts.areNamed then defaulted name none format parts else required name format parts

/-- Reads a record. -/
def record {α : Type} (reader : PartReader α) (format : Format) : Json → Option α
  | .obj fields => (reader format (.named fields)).map (·.1)
  | .arr items =>
    match reader format (.listed items) with
    | some (x, rest) => if format.allowsSurplus || rest.isDone then some x else none
    | none => none
  | _ => none

/-! ## Choices -/

/-- Reads one of several records. The part of a name comes first and tells by a word which one. -/
def tagged {α : Type} (tag : String) (readers : List (String × PartReader α)) (format : Format) :
    Json → Option α
  | .obj fields =>
    match Parts.take? tag (.named fields) with
    | some (some (.str word), parts) => do
      let reader ← readers.lookup word
      let (x, _) ← reader format parts
      some x
    | _ => none
  | .arr (.str word :: items) => do
    let reader ← readers.lookup word
    let (x, rest) ← reader format (.listed items)
    if rest.isDone then some x else none
  | _ => none

/-- Reads one of several words. A word may also stand as the name of a field that says nothing. -/
def oneOf {α : Type} (words : List (String × α)) (format : Format) : Json → Option α
  | .str word => words.lookup word
  | .obj [(word, j)] => if format.saysNothing j then words.lookup word else none
  | _ => none

end Document

export Document (encode decode?)

end RitualLedger
