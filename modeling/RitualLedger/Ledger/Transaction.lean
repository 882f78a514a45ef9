import RitualLedger.Document
import RitualLedger.Error

/-!
# Accounts and transactions

An account holds a subject's token balance. Every change of a balance is recorded by one
transaction: a reward credits its receiver, a penalty debits its sender, a tribute moves tokens
between two distinct parties. `TransactionRequest.validate` accepts exactly the requests whose
amount a balance can hold and whose parties fit the kind.
-/

namespace RitualLedger

/-- A subject's balance of tokens. -/
structure Account where
  subjectId : String
  tokenBalance : Int64
  createdAt : Instant
deriving DecidableEq, Repr

instance : Document Account where
  encode a := .obj [("created_at", encode a.createdAt), ("subject_id", .str a.subjectId),
    ("token_balance", encode a.tokenBalance)]
  read? := Document.record do
    return {
      subjectId := ← Document.required "subject_id"
      tokenBalance := ← Document.required "token_balance"
      createdAt := ← Document.required "created_at" }

/-- The kinds of transactions. -/
inductive TransactionKind where
  /-- Issues tokens; there is no sender. -/
  | reward
  /-- Takes tokens out of circulation; there is no receiver. -/
  | penalty
  /-- Moves tokens from one party to another. -/
  | tribute
deriving DecidableEq, Repr

/-- The name of a kind. -/
def TransactionKind.name : TransactionKind → String
  | .reward => "reward"
  | .penalty => "penalty"
  | .tribute => "tribute"

instance : Document TransactionKind where
  encode k := .str k.name
  read? := Document.oneOf [("reward", .reward), ("penalty", .penalty), ("tribute", .tribute)]

/-- The record of one change of balances. -/
structure Transaction where
  id : String
  kind : TransactionKind
  senderId : Option String
  receiverId : Option String
  amount : UInt64
  description : String
  relatedEntityType : Option String
  relatedEntityId : Option String
  timestamp : Instant
deriving DecidableEq, Repr

instance : Document Transaction where
  encode t := .obj [
    ("amount", encode t.amount), ("description", .str t.description), ("id", .str t.id),
    ("receiver_id", encode t.receiverId), ("related_entity_id", encode t.relatedEntityId),
    ("related_entity_type", encode t.relatedEntityType), ("sender_id", encode t.senderId),
    ("timestamp", encode t.timestamp), ("type", encode t.kind)]
  read? := Document.record do
    return {
      id := ← Document.required "id"
      kind := ← Document.required "type"
      senderId := ← Document.optional "sender_id"
      receiverId := ← Document.optional "receiver_id"
      amount := ← Document.required "amount"
      description := ← Document.required "description"
      relatedEntityType := ← Document.optional "related_entity_type"
      relatedEntityId := ← Document.optional "related_entity_id"
      timestamp := ← Document.required "timestamp" }

/-- What a client asks of the ledger. -/
structure TransactionRequest where
  kind : TransactionKind
  senderId : Option String
  receiverId : Option String
  amount : UInt64
  description : Option String
  relatedEntityType : Option String
  relatedEntityId : Option String
  /-- The id that the transaction gets; a request with an id that was applied changes nothing. -/
  key : Option String
deriving DecidableEq, Repr

namespace TransactionRequest

/-- A request of a kind between parties, with nothing more to say. -/
def plain (kind : TransactionKind) (senderId receiverId : Option String) (amount : UInt64) :
    TransactionRequest :=
  ⟨kind, senderId, receiverId, amount, none, none, none, none⟩

/-- Refuses a field for a reason. -/
def refuse (field reason : String) : Except ValidationError Unit :=
  .error (.invalidValue field reason)

/-- Accepts parties that fit the kind. -/
def validateParties (kind : TransactionKind) (sender receiver : Option String) :
    Except ValidationError Unit :=
  match kind, sender, receiver with
  | .reward, none, some _ => .ok ()
  | .reward, _, _ => refuse "sender_id" "a reward has a receiver and no sender"
  | .penalty, some _, none => .ok ()
  | .penalty, _, _ => refuse "receiver_id" "a penalty has a sender and no receiver"
  | .tribute, some s, some r =>
    if s = r then refuse "receiver_id" "a tribute needs two distinct parties" else .ok ()
  | .tribute, _, _ => refuse "receiver_id" "a tribute needs two distinct parties"

/-- Accepts a request. -/
def validate (r : TransactionRequest) : Except ValidationError Unit :=
  if r.amount = 0 then refuse "amount" "must be positive"
  else if Int64.maxValue.toInt < r.amount.toNat then refuse "amount" "exceeds the balance range"
  else if r.senderId.isNone ∧ r.receiverId.isNone then
    refuse "sender_id" "a sender or a receiver is required"
  else if r.senderId = some "" ∨ r.receiverId = some "" then
    refuse "sender_id" "party ids must not be empty"
  else validateParties r.kind r.senderId r.receiverId

end TransactionRequest

/-- What the ledger answers. -/
structure Receipt where
  transactionId : String
  /-- The request's id had been applied before. -/
  replayed : Bool
deriving DecidableEq, Repr

end RitualLedger
