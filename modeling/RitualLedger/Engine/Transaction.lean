import RitualLedger.Engine.Program

/-!
# Optimistic transactions

A transaction reads a snapshot of some documents, decides on a plan (a result and the writes that
justify it), and commits the writes under the stamps of everything it has read. When another client
was faster, the commit meets a conflict and the transaction starts over from a fresh snapshot, for
a bounded number of attempts. A plan without writes is not committed; a decision that fails ends
the transaction.

`attempts` is the loop for decisions that run in any monad over programs; `transact` is the loop
for decisions that depend on the snapshot alone, which is all that the engine uses.
-/

namespace RitualLedger

/-! ## Snapshots -/

/-- The documents that one attempt has read, each once, in the order of reading. -/
structure Snapshot where
  docs : List (DocKey × Option Versioned)

namespace Snapshot

/-- Nothing read yet. -/
def empty : Snapshot := ⟨[]⟩

/-- What was read under a key. A key that was not read counts as absent. -/
def doc? (s : Snapshot) (key : DocKey) : Option Versioned := (s.docs.lookup key).join

/-- Whether a document was there. -/
def has (s : Snapshot) (key : DocKey) : Bool := (s.doc? key).isSome

/-- A document at its type; none when it was absent. -/
def get {α : Type} [Document α] (s : Snapshot) (key : DocKey) : Except EngineError (Option α) :=
  match s.doc? key with
  | none => .ok none
  | some doc =>
    match decode? doc.body with
    | some x => .ok (some x)
    | none => .error (.store (.serialization ("unreadable document " ++ key.text)))

/-- Whether a key was read. -/
def covers (s : Snapshot) (key : DocKey) : Bool := s.docs.any fun d => d.1 == key

/-- What was read, as stamps. -/
def stamps (s : Snapshot) : List Stamp :=
  s.docs.map fun d => ⟨d.1, d.2.map (·.version)⟩

/-- Reads further documents one by one, each key once. -/
def extend (s : Snapshot) : List DocKey → Program Snapshot
  | [] => pure s
  | key :: rest =>
    if s.covers key then s.extend rest
    else do
      let doc ← Request.read key
      extend ⟨s.docs ++ [(key, doc)]⟩ rest

/-- Reads documents one by one. -/
def read (keys : List DocKey) : Program Snapshot := empty.extend keys

end Snapshot

/-! ## Plans -/

/-- What an attempt has decided: a result and the writes that justify it. -/
structure Plan (α : Type) where
  result : α
  writes : List Write

namespace Plan

variable {α β : Type}

/-- A plan that writes nothing. -/
def done (result : α) : Plan α := ⟨result, []⟩

/-- The plan with a further write of a document. -/
def put [Document β] (p : Plan α) (key : DocKey) (x : β) : Plan α :=
  { p with writes := p.writes ++ [.put key (encode x)] }

/-- The plan with a further document, which must be new. -/
def insert [Document β] (p : Plan α) (key : DocKey) (x : β) : Plan α :=
  { p with writes := p.writes ++ [.insert key (encode x)] }

end Plan

/-! ## The loop -/

/-- Bounds of the loop. -/
structure RetryPolicy where
  maxAttempts : Nat
deriving DecidableEq, Repr

/-- The number of attempts, at least one. -/
def RetryPolicy.limit (p : RetryPolicy) : Nat := max 1 p.maxAttempts

/-- Makes up to `left` attempts after `made` that met a conflict. -/
def attempts {m : Type → Type} [Monad m] [MonadLiftT Program m] {α : Type} (keys : List DocKey)
    (decision : Snapshot → m (Except EngineError (Plan α))) :
    (left made : Nat) → m (Except EngineError α)
  | 0, made => pure (.error (.store (.retriesExhausted made)))
  | left + 1, made => do
    let snapshot ← (Snapshot.read keys : Program Snapshot)
    match ← decision snapshot with
    | .error e => pure (.error e)
    | .ok plan =>
      if plan.writes.isEmpty then pure (.ok plan.result)
      else
        match ← (Request.commit snapshot.stamps plan.writes : Program _) with
        | .ok () => pure (.ok plan.result)
        | .error (.conflict _) => attempts keys decision left (made + 1)
        | .error e => pure (.error (.store e))

/-- Runs a transaction whose decision depends on the snapshot alone. -/
def transact {α : Type} (policy : RetryPolicy) (keys : List DocKey)
    (decision : Snapshot → Except EngineError (Plan α)) : Operation α :=
  ExceptT.mk (attempts keys (fun s => (pure (decision s) : Program _)) policy.limit 0)

/-! ## Single documents -/

/-- A document at its type; none when it is absent. -/
def readDocument? {α : Type} [Document α] (key : DocKey) : Operation (Option α) := do
  match ← (Request.read key : Program _) with
  | none => pure none
  | some doc =>
    match decode? doc.body with
    | some x => pure (some x)
    | none => throw (.store (.serialization ("unreadable document " ++ key.text)))

/-- Decodes the bodies that a query has found. -/
def decodeAll {α : Type} [Document α] : List (String × Json) → Except EngineError (List α)
  | [] => .ok []
  | (id, body) :: rest =>
    match decode? body with
    | none => .error (.store (.serialization ("unreadable document " ++ id)))
    | some x => (decodeAll rest).map (x :: ·)

/-- The selected documents at their type. -/
def queryDocuments {α : Type} [Document α] (q : Query) : Operation (List α) := do
  let found ← Operation.ofStore (Request.query q)
  Operation.ofExcept (decodeAll found)

end RitualLedger
