import RitualLedger.Engine.Transaction
import RitualLedger.Ledger.Transaction

/-!
# The token ledger

All changes of balances go through `Ledger.apply`: one optimistic transaction that debits the
sender, credits the receiver and stores the record. A debit must be covered, a credit must fit into
a balance, and a request whose id is stored already changes nothing.
-/

namespace RitualLedger.Ledger

/-- The document of an account. -/
def accountKey (subject : String) : DocKey := Collection.accounts.key subject

/-- The document of a transaction. -/
def transactionKey (id : String) : DocKey := Collection.transactions.key id

/-- The largest balance. -/
def largestBalance : Int := Int64.maxValue.toInt

/-! ## Accounts -/

/-- Opens the account of a subject with nothing on it, unless there is one. -/
def openAccount (policy : RetryPolicy) (subject : String) : Operation Account := do
  if subject = "" then
    throw (.validation (.invalidValue "subject_id" "must not be empty"))
  let now ← (Request.now : Program _)
  let key := accountKey subject
  transact policy [key] fun snapshot => do
    match ← snapshot.get key with
    | some account => .ok (.done account)
    | none =>
      let account : Account := ⟨subject, 0, now⟩
      .ok ((Plan.done account).insert key account)

/-- The account of a subject. -/
def account (subject : String) : Operation Account := do
  match ← readDocument? (accountKey subject) with
  | some account => pure account
  | none => Operation.notFound .account subject

/-- The balance of a subject. -/
def balance (subject : String) : Operation Int64 := do
  let account ← account subject
  pure account.tokenBalance

/-! ## Transactions -/

/-- The account of a party as an attempt has read it. -/
def partyAccount (snapshot : Snapshot) (party : String) : Except EngineError Account := do
  match ← snapshot.get (accountKey party) with
  | some account => .ok account
  | none => .error (.notFound .account party)

/-- The account of a sender after the debit; only a reward need not be covered. -/
def debit (kind : TransactionKind) (amount : UInt64) (sender : String) (a : Account) :
    Except EngineError Account :=
  if kind ≠ .reward ∧ a.tokenBalance.toInt < amount.toNat then
    .error (.insufficientBalance sender a.tokenBalance.toInt amount.toNat)
  else .ok { a with tokenBalance := Int64.ofInt (a.tokenBalance.toInt - amount.toNat) }

/-- The account of a receiver after the credit, which must fit. -/
def credit (amount : UInt64) (a : Account) : Except EngineError Account :=
  if largestBalance < a.tokenBalance.toInt + amount.toNat then
    .error (.validation (.invalidValue "amount" "receiver balance would overflow"))
  else .ok { a with tokenBalance := Int64.ofInt (a.tokenBalance.toInt + amount.toNat) }

/-- Plans the change of one party's account, if there is such a party. -/
def planParty {α : Type} (snapshot : Snapshot) (party : Option String)
    (change : String → Account → Except EngineError Account) (plan : Plan α) :
    Except EngineError (Plan α) :=
  match party with
  | none => .ok plan
  | some subject => do
    let account ← partyAccount snapshot subject
    let account ← change subject account
    .ok (plan.put (accountKey subject) account)

/-- The record of a request. -/
def record (r : TransactionRequest) (id : String) (now : Instant) : Transaction where
  id := id
  kind := r.kind
  senderId := r.senderId
  receiverId := r.receiverId
  amount := r.amount
  description := r.description.getD (r.kind.name ++ " transaction")
  relatedEntityType := r.relatedEntityType
  relatedEntityId := r.relatedEntityId
  timestamp := now

/-- What a request does under an id, given what was read. -/
def decide (r : TransactionRequest) (id : String) (now : Instant) (snapshot : Snapshot) :
    Except EngineError (Plan Receipt) :=
  if snapshot.has (transactionKey id) then .ok (.done ⟨id, true⟩)
  else do
    let plan ← planParty snapshot r.senderId (debit r.kind r.amount) (.done ⟨id, false⟩)
    let plan ← planParty snapshot r.receiverId (fun _ => credit r.amount) plan
    .ok (plan.insert (transactionKey id) (record r id now))

/-- The documents that a request is about. -/
def keys (r : TransactionRequest) (id : String) : List DocKey :=
  transactionKey id :: (r.senderId.toList ++ r.receiverId.toList).map accountKey

/-- The id of a request: its own, or a fresh one. -/
def idOr (key : Option String) : Program String :=
  match key with
  | some id => pure id
  | none => Request.freshId

/-- Applies a request. -/
def apply (policy : RetryPolicy) (r : TransactionRequest) : Operation Receipt := do
  Operation.ofValidation r.validate
  let id ← (idOr r.key : Program _)
  let now ← (Request.now : Program _)
  transact policy (keys r id) (decide r id now)

/-- Applies a request and answers its id. -/
def applyTransaction (policy : RetryPolicy) (r : TransactionRequest) : Operation String := do
  let receipt ← apply policy r
  pure receipt.transactionId

/-- Moves tokens from one party to another. -/
def tribute (policy : RetryPolicy) (sender receiver : String) (amount : UInt64)
    (description : Option String) : Operation String :=
  applyTransaction policy
    { TransactionRequest.plain .tribute (some sender) (some receiver) amount with
      relatedEntityType := some "tribute"
      description := some (description.getD "Tribute payment") }

/-- The record of an id. -/
def transaction? (id : String) : Operation (Option Transaction) :=
  readDocument? (transactionKey id)

/-- The query for the transactions of a subject, the last ones first. -/
def historyQuery (subject : String) (limit : UInt64) : Query where
  collection := Collection.transactions.name
  filter := some (.any [.eq "sender_id" (.str subject), .eq "receiver_id" (.str subject)])
  newestFirst := true
  limit := some limit

/-- The last transactions of a subject, the newest first. -/
def history (subject : String) (limit : UInt64) : Operation (List Transaction) :=
  queryDocuments (historyQuery subject limit)

end RitualLedger.Ledger
