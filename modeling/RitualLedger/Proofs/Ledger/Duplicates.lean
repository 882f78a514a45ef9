import RitualLedger.Proofs.Engine.Telling
import RitualLedger.Proofs.Ledger.Effect

/-!
# Duplicates of a request

A client that does not know what has become of its request sends it again under the same key, and
several may do so at the same time. One of them pays. Every other one is to be answered from the
record.

But an attempt reads the record first and the accounts after it, and a decision that fails is
answered without a look at the versions. When the payment is made between the two reads, a duplicate
misses the record and finds accounts from which the amount has gone: it decides as if the request
was to be borne a second time. So it may be refused, but only as that would be
(`SecondRefusal`), and only when the payment has been made (`keeps_apply_paying`).
-/

namespace RitualLedger

namespace Ledger

variable {r : TransactionRequest} {id : String} {now : Instant} {s u : Store}
  {snapshot : Snapshot} {P : Store → Prop} {e : EngineError}

/-! ## Torn snapshots -/

/-- A request is paid: it was applied, once, to the store at the start. -/
structure Paid (r : TransactionRequest) (id : String) (s t : Store) : Prop where
  proceeds : s.Proceeds t
  recorded : t.read? (transactionKey id) ≠ none
  applied : ∃ now, Applied r id now s t

/-- What a duplicate may find: the store at the start, or one in which the request is paid. -/
def Around (r : TransactionRequest) (id : String) (s u : Store) : Prop :=
  u = s ∨ Paid r id s u

/-- The accounts bear a request twice in a row. -/
structure BearsTwice (s : Store) (r : TransactionRequest) : Prop where
  covered : ∀ subject ∈ r.senderId, ∀ a, s.get? Account (accountKey subject) = some a →
    2 * (r.amount.toNat : Int) ≤ a.tokenBalance.toInt
  room : ∀ subject ∈ r.receiverId, ∀ a, s.get? Account (accountKey subject) = some a →
    a.tokenBalance.toInt + 2 * r.amount.toNat ≤ 2 ^ 63 - 1

/-- How a request is refused that has been applied once and is to be applied a second time. -/
inductive SecondRefusal (s : Store) (r : TransactionRequest) : EngineError → Prop
  /-- What is left to the sender does not cover the amount. -/
  | short (subject : String) (a : Account) (hsender : subject ∈ r.senderId)
    (ha : s.get? Account (accountKey subject) = some a)
    (hshort : a.tokenBalance.toInt - r.amount.toNat < r.amount.toNat) :
    SecondRefusal s r (.insufficientBalance subject (a.tokenBalance.toInt - r.amount.toNat)
      r.amount.toNat)
  /-- The receiver has room for the amount only once. -/
  | full (subject : String) (a : Account) (hreceiver : subject ∈ r.receiverId)
    (ha : s.get? Account (accountKey subject) = some a)
    (hfull : 2 ^ 63 - 1 < a.tokenBalance.toInt + 2 * r.amount.toNat) :
    SecondRefusal s r (.validation (.invalidValue "amount" "receiver balance would overflow"))

/-- Who bears a request twice has no reason to refuse it the second time. -/
theorem SecondRefusal.not_bearsTwice (h : SecondRefusal s r e) : ¬ BearsTwice s r := by
  rintro ⟨hcovered, hroom⟩
  cases h with
  | short subject a hsender ha hshort =>
    have hle := hcovered subject hsender a ha
    omega
  | full subject a hreceiver ha hfull =>
    have hle := hroom subject hreceiver a ha
    omega

namespace Around

theorem proceeds (h : Around r id s u) : s.Proceeds u := by
  rcases h with rfl | hpaid
  · exact Rely.engine.refl u
  · exact hpaid.proceeds

/-- The sender has what it had, or the amount has gone. -/
theorem sender (h : Around r id s u) (hbears : Bears s r) {subject : String}
    (hsender : subject ∈ r.senderId) : ∃ a₀ a, s.get? Account (accountKey subject) = some a₀ ∧
      u.get? Account (accountKey subject) = some a ∧
      (a = a₀ ∧ (r.amount.toNat : Int) ≤ a.tokenBalance.toInt ∨
        Paid r id s u ∧ a.tokenBalance.toInt = a₀.tokenBalance.toInt - r.amount.toNat) := by
  rcases h with rfl | hpaid
  · obtain ⟨a, ha, hcovered⟩ := hbears.covered subject hsender
    exact ⟨a, a, ha, ha, .inl ⟨rfl, hcovered⟩⟩
  · obtain ⟨now, happlied⟩ := hpaid.applied
    obtain ⟨a₀, a, ha₀, ha, -, hbalance⟩ := happlied.sender subject hsender
    exact ⟨a₀, a, ha₀, ha, .inr ⟨hpaid, hbalance⟩⟩

/-- The receiver has what it had, or the amount has come. -/
theorem receiver (h : Around r id s u) (hbears : Bears s r) {subject : String}
    (hreceiver : subject ∈ r.receiverId) : ∃ a₀ a,
      s.get? Account (accountKey subject) = some a₀ ∧
      u.get? Account (accountKey subject) = some a ∧
      (a = a₀ ∧ a.tokenBalance.toInt + r.amount.toNat ≤ 2 ^ 63 - 1 ∨
        Paid r id s u ∧ a.tokenBalance.toInt = a₀.tokenBalance.toInt + r.amount.toNat) := by
  rcases h with rfl | hpaid
  · obtain ⟨a, ha, hroom⟩ := hbears.room subject hreceiver
    exact ⟨a, a, ha, ha, .inl ⟨rfl, hroom⟩⟩
  · obtain ⟨now, happlied⟩ := hpaid.applied
    obtain ⟨a₀, a, ha₀, ha, -, hbalance⟩ := happlied.receiver subject hreceiver
    exact ⟨a₀, a, ha₀, ha, .inr ⟨hpaid, hbalance⟩⟩

end Around

/-- A party's account is read as it stands in one of the stores. -/
theorem partyAccount_gathered {ks : List DocKey} (h : snapshot.Gathered P ks) {party : String}
    (hkey : accountKey party ∈ ks) (hP : ∀ u, P u → u.WellTyped)
    (hthere : ∀ u, P u → ∃ a, u.get? Account (accountKey party) = some a) :
    ∃ u a, P u ∧ u.get? Account (accountKey party) = some a ∧
      partyAccount snapshot party = .ok a := by
  obtain ⟨u, hu, hread⟩ := h.get (α := Account) party hkey hP
  obtain ⟨a, ha⟩ := hthere u hu
  have hget : snapshot.get (α := Account) (accountKey party) =
      .ok (u.get? Account (accountKey party)) := hread
  refine ⟨u, a, hu, ha, ?_⟩
  rw [partyAccount, hget, ha]
  rfl

/-- Planning for a party fails on its account, or on the change of it. -/
theorem of_planParty_error {α : Type} {party : Option String}
    {change : String → Account → Except EngineError Account} {plan : Plan α}
    (h : planParty snapshot party change plan = .error e) : ∃ subject ∈ party,
      partyAccount snapshot subject = .error e ∨
        ∃ a, partyAccount snapshot subject = .ok a ∧ change subject a = .error e := by
  cases party with
  | none => cases h
  | some subject =>
    refine ⟨subject, rfl, ?_⟩
    rcases error_of_bind h with h | ⟨a, ha, h⟩
    · exact .inl h
    · rcases error_of_bind h with h | ⟨a', -, h⟩
      · exact .inr ⟨a, ha, h⟩
      · cases h

theorem debit_eq_error {kind : TransactionKind} {amount : UInt64} {sender : String} {a : Account}
    (h : debit kind amount sender a = .error e) : a.tokenBalance.toInt < amount.toNat ∧
      e = .insufficientBalance sender a.tokenBalance.toInt amount.toNat := by
  rw [debit] at h
  split at h
  · rename_i hshort
    exact ⟨hshort.2, (Except.error.inj h).symm⟩
  · cases h

theorem credit_eq_error {amount : UInt64} {a : Account} (h : credit amount a = .error e) :
    2 ^ 63 - 1 < a.tokenBalance.toInt + amount.toNat ∧
      e = .validation (.invalidValue "amount" "receiver balance would overflow") := by
  rw [credit, largestBalance_eq] at h
  split at h
  · rename_i hover
    exact ⟨hover, (Except.error.inj h).symm⟩
  · cases h

/-- **A torn snapshot is refused like a second payment.** Someone has paid by then. -/
theorem secondRefusal_of_decide (hs : s.Regular) (hbears : Bears s r)
    (hP : ∀ u, P u → Around r id s u) (hgathered : snapshot.Gathered P (keys r id))
    (h : decide r id now snapshot = .error e) :
    SecondRefusal s r e ∧ ∃ u, P u ∧ Paid r id s u := by
  have htyped : ∀ u, P u → u.WellTyped := fun u hu => ((hP u hu).proceeds.regular hs).wellTyped
  rw [decide] at h
  split at h
  · cases h
  rcases error_of_bind h with h | ⟨plan, -, h⟩
  · obtain ⟨subject, hsender, h⟩ := of_planParty_error h
    obtain ⟨u, a, hu, ha, hread⟩ := partyAccount_gathered hgathered
      (sender_mem_keys r id subject hsender) htyped fun u hu => by
        obtain ⟨-, a, -, ha, -⟩ := (hP u hu).sender hbears hsender
        exact ⟨a, ha⟩
    rcases h with h | ⟨a', hread', h⟩
    · cases hread.symm.trans h
    cases hread.symm.trans hread'
    obtain ⟨hshort, rfl⟩ := debit_eq_error h
    obtain ⟨a₀, a', ha₀, ha', hcases⟩ := (hP u hu).sender hbears hsender
    cases ha.symm.trans ha'
    rcases hcases with ⟨-, hcovered⟩ | ⟨hpaid, hbalance⟩
    · exact absurd hshort (Int.not_lt.2 hcovered)
    · rw [hbalance] at hshort ⊢
      exact ⟨.short subject a₀ hsender ha₀ hshort, u, hu, hpaid⟩
  rcases error_of_bind h with h | ⟨plan', -, h⟩
  · obtain ⟨subject, hreceiver, h⟩ := of_planParty_error h
    obtain ⟨u, a, hu, ha, hread⟩ := partyAccount_gathered hgathered
      (receiver_mem_keys r id subject hreceiver) htyped fun u hu => by
        obtain ⟨-, a, -, ha, -⟩ := (hP u hu).receiver hbears hreceiver
        exact ⟨a, ha⟩
    rcases h with h | ⟨a', hread', h⟩
    · cases hread.symm.trans h
    cases hread.symm.trans hread'
    obtain ⟨hover, rfl⟩ := credit_eq_error h
    obtain ⟨a₀, a', ha₀, ha', hcases⟩ := (hP u hu).receiver hbears hreceiver
    cases ha.symm.trans ha'
    rcases hcases with ⟨-, hroom⟩ | ⟨hpaid, hbalance⟩
    · exact absurd hover (Int.not_lt.2 hroom)
    · exact ⟨.full subject a₀ hreceiver ha₀ (by omega), u, hu, hpaid⟩
  · cases h

/-- What is on record is answered from the record. -/
theorem decide_of_has (h : snapshot.has (transactionKey id) = true) :
    decide r id now snapshot = .ok (.done ⟨id, true⟩) := by
  rw [decide, if_pos h]

end Ledger

/-! ## One duplicate -/

open Ledger (Paid)

/-- Other duplicates leave the store as it is, or one of them pays. When there is only one duplicate
in all, there are no others. -/
def Rely.duplicates (n : Nat) (r : TransactionRequest) (id : String) (s₀ : Store) : Rely where
  moves s t := t = s ∨ 2 ≤ n ∧ s ≤ t ∧ Paid r id s₀ t
  refl _ := .inl rfl
  trans := by
    rintro s t u (rfl | ⟨hn, hst, hpaid⟩) (rfl | ⟨hn', htu, hpaid'⟩)
    · exact .inl rfl
    · exact .inr ⟨hn', htu, hpaid'⟩
    · exact .inr ⟨hn, hst, hpaid⟩
    · exact .inr ⟨hn, hst.trans htu, hpaid'⟩
  le := by
    rintro s t (rfl | ⟨-, hst, -⟩)
    · exact le_refl t
    · exact hst

/-- A duplicate of some in all relies on the others, and pays at most once, where nobody else has.
Its phase says whether it has paid. -/
def Contract.paying (n : Nat) (r : TransactionRequest) (id : String) (s₀ : Store) :
    Contract Bool where
  rely _ := Rely.duplicates n r id s₀
  refuses _ := False
  known := Store.Proceeds
  gives _ s paid t := paid = true ∧ s = s₀ ∧ Paid r id s₀ t

namespace Ledger

open Program.Keeps (Between)

variable {n : Nat} {r : TransactionRequest} {id : String} {now : Instant} {s₀ s t u : Store}
  {policy : RetryPolicy} {snapshot : Snapshot}

section

variable (hs₀ : s₀.Regular) (hgrants : Grants s₀ r) (hkey : r.key = some id)

theorem around_of_moves {paid : Bool} (h : (Contract.paying n r id s₀).moves paid s₀ u) :
    Around r id s₀ u := h.imp_right fun h => h.2.2

/-- What is paid stays paid. -/
theorem Paid.moved {paid : Bool} (hpaid : Paid r id s₀ s)
    (h : (Contract.paying n r id s₀).moves paid s t) : Paid r id s₀ t := by
  rcases h with rfl | ⟨-, -, hpaid'⟩
  · exact hpaid
  · exact hpaid'

/-- An attempt that begins after the payment is answered from the record. -/
theorem keeps_tries_paid {left made : Nat}
    {post : Except EngineError Receipt → Bool → Store → Prop} (hpaid : Paid r id s₀ s)
    (hpost : ∀ t, Paid r id s₀ t → post (.ok ⟨id, true⟩) false t) :
    (tries (keys r id) (decide r id now) (left + 1) made).Keeps (.paying n r id s₀) post false
      s := by
  have hidle : (Plan.done (⟨id, true⟩ : Receipt)).writes = [] := rfl
  refine .attempt_idle hidle ?_ fun t ht => hpost t (hpaid.moved ht)
  intro snapshot t _ hgathered
  obtain ⟨u, hu, hdoc⟩ := hgathered.doc? List.mem_cons_self
  refine decide_of_has ?_
  rw [Snapshot.has, hdoc]
  exact Option.isSome_iff_ne_none.2 (hpaid.moved hu.1).recorded

/-- What a duplicate fails with. -/
def MissesPayment (r : TransactionRequest) (id : String) (s₀ : Store) (e : EngineError)
    (paid : Bool) (t : Store) : Prop :=
  paid = false ∧ SecondRefusal s₀ r e ∧ Paid r id s₀ t

/-- What a duplicate is answered: the id, and whether it has paid itself. -/
def SeesPayment (r : TransactionRequest) (id : String) (s₀ : Store) (receipt : Receipt)
    (paid : Bool) (t : Store) : Prop :=
  receipt = ⟨id, !paid⟩ ∧ Paid r id s₀ t

include hs₀ hgrants

/-- A commit pays, and nobody has paid before. -/
theorem paid_of_commits {plan : Plan Receipt} (hnow : Fits now) (h : Around r id s₀ t)
    (hcommits : Commits (keys r id) (decide r id now) t plan u) (hknown : t.Proceeds u) :
    t = s₀ ∧ plan.result = ⟨id, false⟩ ∧ Paid r id s₀ u := by
  have hsame : t = s₀ := by
    refine h.resolve_right fun hpaid => ?_
    have hdecided := hcommits.decided
    rw [decide_of_present hpaid.recorded] at hdecided
    cases hdecided
    exact hcommits.writes rfl
  subst hsame
  have hvalid := TransactionRequest.validate_eq_ok_iff.2 hgrants.form
  obtain ⟨hresult, -, hrecorded⟩ := receipt_of_commits hs₀ hvalid hnow hcommits
  obtain ⟨parties, hmakes⟩ := booking_of_decide .supplied hs₀.wellTyped hvalid hnow trivial hcommits
  exact ⟨rfl, hresult, hknown, hrecorded, now,
    applied_of_booking hs₀.wellTyped hs₀.balanced hgrants.bears hmakes⟩

include hkey

/-- A commit is refused only where someone else has paid. -/
theorem paid_of_refused {plan : Plan Receipt} {e : StoreError}
    (hs : (Contract.paying n r id s₀).moves false s₀ s)
    (hst : (Contract.paying n r id s₀).moves false s t)
    (htu : (Contract.paying n r id s₀).moves false t u)
    (hgathered : snapshot.Gathered (Between (.paying n r id s₀) false s t) (keys r id))
    (hdecision : decide r id now snapshot = .ok plan)
    (hcommit : u.commit snapshot.stamps plan.writes = .error e) : 2 ≤ n ∧ Paid r id s₀ u := by
  refine (hs.trans (hst.trans htu)).elim (fun hsame => ?_) fun h => ⟨h.1, h.2.2⟩
  -- On the store at the start the commit goes through.
  subst hsame
  have hvalid := TransactionRequest.validate_eq_ok_iff.2 hgrants.form
  have hnew := hgrants.unrecorded id hkey
  have hsame : ∀ v, Between (.paying n r id u) false s t v → v = u := by
    intro v hv
    refine (around_of_moves (hs.trans hv.1)).resolve_right fun hpaid => ?_
    exact (hpaid.moved (hv.2.trans htu)).recorded hnew
  rw [hgathered.eq_atOnce hsame] at hdecision hcommit
  obtain ⟨parties, hplanned⟩ := planned_of_decide hs₀.wellTyped hvalid hnew hdecision
  obtain ⟨v, hv⟩ := hplanned.applies hvalid hnew
  rw [Store.commit_atOnce, hv] at hcommit
  cases hcommit

/-- **A duplicate pays, or it is answered from the record, or refused like a second payment.** -/
theorem keeps_transact_paying (hnow : Fits now) (hcount : n ≤ policy.maxAttempts)
    (hs : (Contract.paying n r id s₀).moves false s₀ s) :
    (transact policy (keys r id) (decide r id now)).Keeps (.paying n r id s₀)
      (MissesPayment r id s₀) (SeesPayment r id s₀) false s := by
  rw [Operation.Keeps, program_transact]
  refine .attempt ?_ ?_ ?_ ?_
  · intro snapshot t e _ hgathered hdecision
    obtain ⟨hrefusal, u, hu, hpaid⟩ := secondRefusal_of_decide hs₀ hgrants.bears
      (fun u hu => around_of_moves (hs.trans hu.1)) hgathered hdecision
    exact ⟨rfl, hrefusal, hpaid.moved hu.2⟩
  · intro snapshot t plan _ hgathered hdecision hwrites
    obtain ⟨hhas, hresult⟩ := replayed_of_decide hdecision hwrites
    obtain ⟨u, hu, hdoc⟩ := hgathered.doc? List.mem_cons_self
    have hpresent : u.read? (transactionKey id) ≠ none := by
      rw [Snapshot.has, hdoc] at hhas
      exact Option.isSome_iff_ne_none.1 hhas
    have hpaid : Paid r id s₀ u := by
      refine (around_of_moves (hs.trans hu.1)).resolve_left ?_
      rintro rfl
      exact hpresent (hgrants.unrecorded id hkey)
    exact ⟨hresult, hpaid.moved hu.2⟩
  · intro snapshot t plan u e hst hgathered hdecision htu he
    have hcommit := he.resolve_left fun h => h
    obtain ⟨text, rfl⟩ := Store.commit_error hcommit
    obtain ⟨hn, hpaid⟩ := paid_of_refused hs₀ hgrants hkey hs hst htu hgathered hdecision hcommit
    obtain ⟨left, hleft⟩ : ∃ left, policy.limit - 1 = left + 1 := by
      refine ⟨policy.limit - 2, ?_⟩
      rw [RetryPolicy.limit]
      omega
    rw [hleft]
    exact keeps_tries_paid hpaid fun t ht => ⟨rfl, ht⟩
  · intro t plan u hst hcommits hknown
    obtain ⟨hsame, hresult, hpaid⟩ := paid_of_commits hs₀ hgrants hnow
      (around_of_moves (hs.trans hst)) hcommits hknown
    exact ⟨true, ⟨rfl, hsame, hpaid⟩, hresult, hpaid⟩

/-- **A duplicate that comes in** pays, or is answered from the record, or refused like a second
payment. -/
theorem keeps_apply_paying (hcount : n ≤ policy.maxAttempts)
    (hs : (Contract.paying n r id s₀).moves false s₀ s) :
    (apply policy r).Keeps (.paying n r id s₀) (MissesPayment r id s₀) (SeesPayment r id s₀)
      false s := by
  have hchecked : (Operation.ofValidation r.validate).Keeps (.paying n r id s₀)
      (MissesPayment r id s₀) (fun _ paid t => paid = false ∧ t = s) false s := by
    refine .ofValidation (fun _ _ => ⟨rfl, rfl⟩) fun e he => ?_
    cases (TransactionRequest.validate_eq_ok_iff.2 hgrants.form).symm.trans he
  refine .bind hchecked ?_
  rintro - _ s ⟨rfl, rfl⟩
  have hid : (liftM (idOr r.key) : Operation String).Keeps (.paying n r id s₀)
      (MissesPayment r id s₀) (fun i paid t => i = id ∧ paid = false ∧ t = s) false s := by
    rw [hkey]
    exact .lift ⟨rfl, rfl, rfl⟩
  refine .bind hid ?_
  rintro id _ s ⟨rfl, rfl, rfl⟩
  refine .bind .now ?_
  rintro now _ t ⟨rfl, hst, hnow⟩
  exact keeps_transact_paying hs₀ hgrants hkey hnow hcount (hs.trans hst)

end

end Ledger

end RitualLedger
