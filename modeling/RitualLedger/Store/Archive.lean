import RitualLedger.Json.Parser
import RitualLedger.Json.Printer
import RitualLedger.Store.Basic

/-!
# Archives

A store as a text, to be kept in a file. After a heading, each document takes two lines, one with
its key and version and one with its body.
-/

namespace RitualLedger.Store

/-- The first line of an archive. -/
def archiveHeading : String := "document store, version 2"

/-- The lines of a document. -/
def documentLines (d : StoredDocument) : List String :=
  [(Json.arr [.str d.key.collection, .str d.key.id, .nat d.doc.version]).compact,
    d.doc.body.compact]

/-- The text of a store. -/
def archive (s : Store) : String :=
  String.join ((archiveHeading :: s.documents.flatMap documentLines).map (· ++ "\n"))

/-- The document of two lines. -/
def readDocument? (head body : String) : Option StoredDocument :=
  match Json.parse? head, Json.parse? body with
  | some (.arr [.str collection, .str id, .int version]), some body =>
    some ⟨⟨collection, id⟩, ⟨body, version.toNat⟩⟩
  | _, _ => none

/-- The documents of lines, up to an empty last one. -/
def readDocuments? : List String → Option (List StoredDocument)
  | [] | [""] => some []
  | [_] => none
  | head :: body :: rest => do
    let d ← readDocument? head body
    let ds ← readDocuments? rest
    some (d :: ds)

/-- The store of a text; none if it is no archive. -/
def ofArchive? (text : String) : Option Store :=
  match text.splitOn "\n" with
  | heading :: lines =>
    if heading = archiveHeading then (readDocuments? lines).map (⟨·⟩) else none
  | [] => none

end RitualLedger.Store
