import RitualLedger.Document
import RitualLedger.Error
import RitualLedger.Json.Parser

/-!
# The document store

The store is a list of documents in the order in which they were first written. Each has a key (a
collection and an id), a body and a version, the number of writes that it has seen. Documents are
never removed.

A change is data: a list of writes, which `Store.apply` folds over the store. `Store.commit` is the
only way in. It compares the versions that a client has read with the current ones and then applies
all writes or none; the new store is the fold of the writes, and a refused commit leaves the store
as it was.
-/

namespace RitualLedger

/-- The name of a document. -/
structure DocKey where
  collection : String
  id : String
deriving DecidableEq, Repr

/-- The key as messages show it. -/
def DocKey.text (k : DocKey) : String := k.collection ++ "/" ++ k.id

/-- The collections of the engine. -/
inductive Collection where
  | accounts
  | rituals
  | assignments
  | transactions
  | evidence
  | completions
  | notifications
  | moods
  | activities
deriving DecidableEq, Repr

/-- The name of a collection in the store. -/
def Collection.name : Collection → String
  | .accounts => "accounts"
  | .rituals => "rituals"
  | .assignments => "ritual_assignments"
  | .transactions => "token_transactions"
  | .evidence => "task_evidence"
  | .completions => "task_completions"
  | .notifications => "notifications"
  | .moods => "mood_logs"
  | .activities => "activity_logs"

/-- The key of a document of the engine. -/
def Collection.key (c : Collection) (id : String) : DocKey := ⟨c.name, id⟩

/-- A body, as it was written, with the number of writes that it took. -/
structure Versioned where
  body : Json
  version : Nat

/-- The body as it is read back from the text in which the store keeps it. -/
def Versioned.readBack (d : Versioned) : Json := d.body.reread

/-- What a client has read of a document: its version, or that it was absent. -/
structure Stamp where
  key : DocKey
  version : Option Nat
deriving DecidableEq, Repr

/-- A change of one document. -/
inductive Write where
  /-- Writes the body, whether the document exists or not. -/
  | put (key : DocKey) (body : Json)
  /-- Writes the body of a document that must not exist. -/
  | insert (key : DocKey) (body : Json)

/-- The document that a write changes. -/
def Write.key : Write → DocKey
  | .put key _ => key
  | .insert key _ => key

/-- The body that a write leaves. -/
def Write.body : Write → Json
  | .put _ body => body
  | .insert _ body => body

/-- A stored document. -/
structure StoredDocument where
  key : DocKey
  doc : Versioned

/-- Documents in the order of their first writes. -/
structure Store where
  documents : List StoredDocument

namespace Store

/-- The store without documents. -/
def empty : Store := ⟨[]⟩

/-- The document of a key. -/
def read? (s : Store) (key : DocKey) : Option Versioned :=
  (s.documents.find? fun d => d.key == key).map (·.doc)

/-- The version of a key; none when there is no document. -/
def version? (s : Store) (key : DocKey) : Option Nat := (s.read? key).map (·.version)

/-- Writes a body in the place of a document, or at the end. -/
def writeInto (key : DocKey) (body : Json) : List StoredDocument → List StoredDocument
  | [] => [⟨key, ⟨body, 1⟩⟩]
  | d :: rest =>
    if d.key = key then ⟨key, ⟨body, d.doc.version + 1⟩⟩ :: rest else d :: writeInto key body rest

/-- The store after a body was written. -/
def put (s : Store) (key : DocKey) (body : Json) : Store := ⟨writeInto key body s.documents⟩

/-- Applies one write. -/
def write (s : Store) (w : Write) : Except StoreError Store :=
  match w with
  | .put key body => .ok (s.put key body)
  | .insert key body =>
    match s.read? key with
    | some _ => .error (.conflict key.text)
    | none => .ok (s.put key body)

/-- Applies writes in order; the first that fails decides the error. -/
def apply (s : Store) (ws : List Write) : Except StoreError Store := ws.foldlM write s

/-- The first stamp that is not current. -/
def staleStamp? (s : Store) (stamps : List Stamp) : Option Stamp :=
  stamps.find? fun stamp => s.version? stamp.key ≠ stamp.version

/-- Applies all writes if every stamp is current. -/
def commit (s : Store) (stamps : List Stamp) (ws : List Write) : Except StoreError Store :=
  match s.staleStamp? stamps with
  | some stamp => .error (.conflict stamp.key.text)
  | none => s.apply ws

/-- The documents of a collection, oldest first. -/
def inCollection (s : Store) (collection : String) : List (String × Json) :=
  (s.documents.filter fun d => d.key.collection == collection).map
    fun d => (d.key.id, d.doc.body)

end Store

end RitualLedger
