import RitualLedger.Proofs.Engine.Guarantee

/-!
# What the ledger does to the store

Opening an account makes an opening, and applying a request makes a booking: the debit is covered
and the credit fits, so that the balances of the parties move by exactly the amount.
-/

namespace RitualLedger.Ledger

/-! ## Balances -/

/-- The balance of an account moves by an amount, without wrapping. -/
structure Moves (a₀ a : Account) (d : Int) : Prop where
  same : a = { a₀ with tokenBalance := a.tokenBalance }
  balance : 0 ≤ a₀.tokenBalance.toInt →
    0 ≤ a.tokenBalance.toInt ∧ a.tokenBalance.toInt = a₀.tokenBalance.toInt + d

theorem moves_of_toInt {a₀ a : Account} {d : Int}
    (ha : a = { a₀ with tokenBalance := Int64.ofInt (a₀.tokenBalance.toInt + d) })
    (hlow : 0 ≤ a₀.tokenBalance.toInt → 0 ≤ a₀.tokenBalance.toInt + d)
    (hhigh : a₀.tokenBalance.toInt + d < 2 ^ 63) : Moves a₀ a d := by
  refine ⟨by rw [ha], ?_⟩
  intro hzero
  have hlow := hlow hzero
  have hvalue : a.tokenBalance.toInt = a₀.tokenBalance.toInt + d := by
    rw [ha]
    exact Int64.toInt_ofInt_of_le (by omega) hhigh
  exact ⟨hvalue ▸ hlow, hvalue⟩

/-- A debit that is not a reward's is covered. -/
theorem moves_of_debit {kind : TransactionKind} {amount : UInt64} {sender : String}
    {a₀ a : Account} (hkind : kind ≠ .reward) (h : debit kind amount sender a₀ = .ok a) :
    Moves a₀ a (-amount.toNat) := by
  rw [debit] at h
  split at h
  · cases h
  · rename_i hcovered
    have hle : (amount.toNat : Int) ≤ a₀.tokenBalance.toInt := by
      by_contra hlt
      exact hcovered ⟨hkind, by omega⟩
    have hmax := a₀.tokenBalance.toInt_lt
    exact moves_of_toInt (Except.ok.inj h).symm (by omega) (by omega)

/-- A credit fits. -/
theorem moves_of_credit {amount : UInt64} {a₀ a : Account} (h : credit amount a₀ = .ok a) :
    Moves a₀ a amount.toNat := by
  rw [credit] at h
  split at h
  · cases h
  · rename_i hfits
    rw [largestBalance, Int64.toInt_maxValue] at hfits
    exact moves_of_toInt (Except.ok.inj h).symm (by omega) (by omega)

/-- How a balance moves decides what becomes of the account. -/
theorem Moves.unique {a₀ a a' : Account} {d : Int} (h : Moves a₀ a d) (h' : Moves a₀ a' d)
    (hzero : 0 ≤ a₀.tokenBalance.toInt) : a = a' := by
  have hbalance : a.tokenBalance = a'.tokenBalance := by
    refine Int64.toInt_inj.1 ?_
    rw [(h.balance hzero).2, (h'.balance hzero).2]
  rw [h.same, h'.same, hbalance]

theorem exists_debit_iff {kind : TransactionKind} {amount : UInt64} {sender : String}
    {a : Account} (hkind : kind ≠ .reward) :
    (∃ a', debit kind amount sender a = .ok a') ↔ (amount.toNat : Int) ≤ a.tokenBalance.toInt := by
  rw [debit]
  split
  · rename_i hshort
    exact ⟨nofun, fun hcovered => absurd hcovered (Int.not_le.2 hshort.2)⟩
  · rename_i hcovered
    refine ⟨fun _ => ?_, fun _ => ⟨_, rfl⟩⟩
    by_contra hshort
    exact hcovered ⟨hkind, Int.not_le.1 hshort⟩

theorem largestBalance_eq : largestBalance = 2 ^ 63 - 1 := by decide

theorem exists_credit_iff {amount : UInt64} {a : Account} :
    (∃ a', credit amount a = .ok a') ↔ a.tokenBalance.toInt + amount.toNat ≤ 2 ^ 63 - 1 := by
  rw [credit, largestBalance_eq]
  split
  · rename_i hover
    exact ⟨nofun, fun hfits => absurd hfits (Int.not_le.2 hover)⟩
  · rename_i hfits
    exact ⟨fun _ => Int.not_lt.1 hfits, fun _ => ⟨_, rfl⟩⟩

/-! ## Plans -/

variable {store : Store} {ks : List DocKey}

theorem get?_of_partyAccount {party : String} {a : Account} (hkey : accountKey party ∈ ks)
    (h : partyAccount (Snapshot.atOnce store ks) party = .ok a) :
    store.get? Account (accountKey party) = some a := by
  obtain ⟨x, hget, hx⟩ := ok_of_bind h
  cases x with
  | none => cases hx
  | some a' =>
    cases hx
    exact (Snapshot.get_atOnce hkey hget).1.symm

theorem sender_mem_keys (r : TransactionRequest) (id : String) :
    ∀ subject ∈ r.senderId, accountKey subject ∈ keys r id := fun _ h =>
  List.mem_cons_of_mem _ (List.mem_map_of_mem
    (List.mem_append_left _ (Option.mem_toList.2 h)))

theorem receiver_mem_keys (r : TransactionRequest) (id : String) :
    ∀ subject ∈ r.receiverId, accountKey subject ∈ keys r id := fun _ h =>
  List.mem_cons_of_mem _ (List.mem_map_of_mem
    (List.mem_append_right _ (Option.mem_toList.2 h)))

/-- A write of an account. -/
def accountWrite (a : Account) : Write := .put (accountKey a.subjectId) (encode a)

/-- Planning for a party, if there is one, reads its account and writes the changed one. -/
theorem planParty_ok {α : Type} {party : Option String}
    {change : String → Account → Except EngineError Account} {plan plan' : Plan α} {d : Int}
    (hwellTyped : store.WellTyped) (hkeys : ∀ subject ∈ party, accountKey subject ∈ ks)
    (hmoves : ∀ subject ∈ party, ∀ a₀ a, change subject a₀ = .ok a → Moves a₀ a d)
    (h : planParty (Snapshot.atOnce store ks) party change plan = .ok plan') :
    ∃ parties : List Account, plan'.writes = plan.writes ++ parties.map accountWrite ∧
      parties.map (·.subjectId) = party.toList ∧
      ∀ a ∈ parties, ∃ a₀, store.get? Account (accountKey a.subjectId) = some a₀ ∧
        Moves a₀ a d := by
  cases party with
  | none =>
    cases h
    exact ⟨[], (List.append_nil _).symm, rfl, nofun⟩
  | some subject =>
    obtain ⟨a₀, hparty, h⟩ := ok_of_bind h
    obtain ⟨a, hchange, hplan⟩ := ok_of_bind h
    have hget := get?_of_partyAccount (hkeys subject rfl) hparty
    have hmove := hmoves subject rfl a₀ a hchange
    have hsubject : a.subjectId = subject := by
      rw [hmove.same]
      exact (hwellTyped.named (α := Account) hget).2
    refine ⟨[a], ?_, by rw [List.map_singleton, hsubject]; rfl, ?_⟩
    · rw [← Except.ok.inj hplan, List.map_singleton, accountWrite, hsubject]
      rfl
    · intro a' ha'
      obtain rfl := List.mem_singleton.1 ha'
      rw [hsubject]
      exact ⟨a₀, hget, hmove⟩

/-- Planning for a party leaves the result of a plan alone. -/
theorem planParty_result {α : Type} {snapshot : Snapshot} {party : Option String}
    {change : String → Account → Except EngineError Account} {plan plan' : Plan α}
    (h : planParty snapshot party change plan = .ok plan') : plan'.result = plan.result := by
  cases party with
  | none =>
    cases h
    rfl
  | some subject =>
    obtain ⟨a₀, -, h⟩ := ok_of_bind h
    obtain ⟨a, -, h⟩ := ok_of_bind h
    cases h
    rfl

/-- The sender of a valid request loses the amount. -/
theorem delta_sender {r : TransactionRequest} {id : String} {now : Instant} {subject : String}
    (hvalid : r.validate = .ok ()) (h : r.senderId = some subject) :
    (record r id now).delta subject = -r.amount.toNat := by
  cases (TransactionRequest.valid_of_validate hvalid).shape with
  | reward receiver hkind hs hr => cases hs.symm.trans h
  | penalty sender hkind hs hr => simp [Transaction.delta, record, h, hr]
  | tribute sender receiver hkind hs hr hne =>
    cases hs.symm.trans h
    simp [Transaction.delta, record, hs, hr, Ne.symm hne]

/-- The receiver of a valid request gains the amount. -/
theorem delta_receiver {r : TransactionRequest} {id : String} {now : Instant} {subject : String}
    (hvalid : r.validate = .ok ()) (h : r.receiverId = some subject) :
    (record r id now).delta subject = r.amount.toNat := by
  cases (TransactionRequest.valid_of_validate hvalid).shape with
  | penalty sender hkind hs hr => cases hr.symm.trans h
  | reward receiver hkind hs hr => simp [Transaction.delta, record, h, hs]
  | tribute sender receiver hkind hs hr hne =>
    cases hr.symm.trans h
    simp [Transaction.delta, record, hs, hr, hne]

/-- Only a reward has no sender. -/
theorem kind_ne_reward {r : TransactionRequest} {subject : String} (hvalid : r.validate = .ok ())
    (h : r.senderId = some subject) : r.kind ≠ .reward := by
  intro hreward
  cases (TransactionRequest.valid_of_validate hvalid).shape with
  | reward receiver hkind hs hr => cases hs.symm.trans h
  | penalty sender hkind hs hr => cases hkind.symm.trans hreward
  | tribute sender receiver hkind hs hr hne => cases hkind.symm.trans hreward

theorem has_transactionKey (r : TransactionRequest) (id : String) :
    (Snapshot.atOnce store (keys r id)).has (transactionKey id) =
      (store.read? (transactionKey id)).isSome :=
  Snapshot.has_atOnce List.mem_cons_self

/-- A request that is on record changes nothing. -/
theorem decide_of_present {r : TransactionRequest} {id : String} {now : Instant}
    (h : store.read? (transactionKey id) ≠ none) :
    decide r id now (Snapshot.atOnce store (keys r id)) = .ok (.done ⟨id, true⟩) := by
  rw [decide, has_transactionKey, if_pos (Option.isSome_iff_ne_none.2 h)]

/-- What a request writes that is not on record: the parties, whose balances have moved, and the
record. -/
structure Planned (store : Store) (r : TransactionRequest) (id : String) (now : Instant)
    (plan : Plan Receipt) (parties : List Account) : Prop where
  result : plan.result = ⟨id, false⟩
  writes : plan.writes =
    parties.map accountWrite ++ [.insert (transactionKey id) (encode (record r id now))]
  subjects : parties.map (·.subjectId) = r.senderId.toList ++ r.receiverId.toList
  moved : ∀ a ∈ parties, ∃ a₀, store.get? Account (accountKey a.subjectId) = some a₀ ∧
    Moves a₀ a ((record r id now).delta a.subjectId)

theorem planned_of_decide {r : TransactionRequest} {id : String} {now : Instant}
    {plan : Plan Receipt} (hwellTyped : store.WellTyped) (hvalid : r.validate = .ok ())
    (hnew : store.read? (transactionKey id) = none)
    (h : decide r id now (Snapshot.atOnce store (keys r id)) = .ok plan) :
    ∃ parties, Planned store r id now plan parties := by
  have hhas : (Snapshot.atOnce store (keys r id)).has (transactionKey id) = false := by
    rw [has_transactionKey, hnew]
    rfl
  simp only [decide, hhas, Bool.false_eq_true, if_false] at h
  obtain ⟨plan₁, hsender, h⟩ := ok_of_bind h
  obtain ⟨plan₂, hreceiver, h⟩ := ok_of_bind h
  obtain ⟨senders, hwrites₁, hsenders, hmoved₁⟩ := planParty_ok (d := -r.amount.toNat) hwellTyped
    (sender_mem_keys r id)
    (fun _ hs a₀ a => moves_of_debit (kind_ne_reward hvalid (Option.mem_def.1 hs))) hsender
  obtain ⟨receivers, hwrites₂, hreceivers, hmoved₂⟩ :=
    planParty_ok hwellTyped (receiver_mem_keys r id) (fun _ _ a₀ a => moves_of_credit) hreceiver
  -- Sender and receiver move by what the record adds to their balances.
  refine ⟨senders ++ receivers, ?_, ?_, ?_, ?_⟩
  · rw [← Except.ok.inj h]
    exact (planParty_result hreceiver).trans (planParty_result hsender)
  · rw [← Except.ok.inj h]
    simp [Plan.insert, Plan.done, hwrites₁, hwrites₂]
  · rw [List.map_append, hsenders, hreceivers]
  · intro a ha
    rcases List.mem_append.1 ha with ha | ha
    · have hs : r.senderId = some a.subjectId := by
        have hmem : a.subjectId ∈ r.senderId.toList := hsenders ▸ List.mem_map_of_mem ha
        exact Option.mem_toList.1 hmem
      rw [delta_sender hvalid hs]
      exact hmoved₁ a ha
    · have hr : r.receiverId = some a.subjectId := by
        have hmem : a.subjectId ∈ r.receiverId.toList := hreceivers ▸ List.mem_map_of_mem ha
        exact Option.mem_toList.1 hmem
      rw [delta_receiver hvalid hr]
      exact hmoved₂ a ha

/-- What is planned goes through. -/
theorem Planned.applies {r : TransactionRequest} {id : String} {now : Instant}
    {plan : Plan Receipt} {parties : List Account} (h : Planned store r id now plan parties)
    (hvalid : r.validate = .ok ()) (hnew : store.read? (transactionKey id) = none) :
    ∃ t, store.apply plan.writes = .ok t := by
  rw [h.writes]
  have hkeys := nodup_accountKeys hvalid h.subjects
  refine Store.apply_of_new _ ?_ ?_
  · simp only [List.map_append, List.map_map, List.map_cons, List.map_nil]
    refine List.nodup_append.2 ⟨hkeys, List.nodup_singleton _, ?_⟩
    rintro _ hkey _ hkey' rfl
    obtain ⟨a, -, ha⟩ := List.mem_map.1 hkey
    exact Collection.key_ne_of_ne (by decide) (ha.trans (List.mem_singleton.1 hkey'))
  · intro key body hmem
    rcases List.mem_append.1 hmem with hmem | hmem
    · obtain ⟨a, -, ha⟩ := List.mem_map.1 hmem
      cases ha
    · cases List.mem_singleton.1 hmem
      exact hnew

/-- A party that is planned for, if there is one, has an account that bears the change. -/
theorem exists_planParty_iff {α : Type} {party : Option String}
    (change : String → Account → Except EngineError Account) (plan : Plan α)
    (hs : store.WellTyped) (hkeys : ∀ subject ∈ party, accountKey subject ∈ ks) :
    (∃ plan', planParty (Snapshot.atOnce store ks) party change plan = .ok plan') ↔
      ∀ subject ∈ party, ∃ a, store.get? Account (accountKey subject) = some a ∧
        ∃ a', change subject a = .ok a' := by
  cases party with
  | none => exact ⟨fun _ => nofun, fun _ => ⟨plan, rfl⟩⟩
  | some subject =>
    have hget := hs.get_atOnce (α := Account) (hkeys subject rfl)
    constructor
    · rintro ⟨plan', h⟩ _ ⟨⟩
      obtain ⟨a, hparty, h⟩ := ok_of_bind h
      obtain ⟨a', hchange, -⟩ := ok_of_bind h
      exact ⟨a, get?_of_partyAccount (hkeys subject rfl) hparty, a', hchange⟩
    · intro h
      obtain ⟨a, ha, a', hchange⟩ := h subject rfl
      have hget : (Snapshot.atOnce store ks).get (α := Account) (accountKey subject) =
          .ok (some a) := hget.trans (congrArg _ ha)
      have hparty : partyAccount (Snapshot.atOnce store ks) subject = .ok a := by
        rw [partyAccount, hget]
        rfl
      refine ⟨plan.put (accountKey subject) a', ?_⟩
      rw [planParty, hparty]
      change (change subject a).bind _ = _
      rw [hchange]
      rfl

/-- The accounts of the parties bear a request: the sender's covers the amount, and the receiver's
has room for it. -/
structure Bears (store : Store) (r : TransactionRequest) : Prop where
  covered : ∀ subject ∈ r.senderId, ∃ a, store.get? Account (accountKey subject) = some a ∧
    (r.amount.toNat : Int) ≤ a.tokenBalance.toInt
  room : ∀ subject ∈ r.receiverId, ∃ a, store.get? Account (accountKey subject) = some a ∧
    a.tokenBalance.toInt + r.amount.toNat ≤ 2 ^ 63 - 1

/-- **What is granted.** A request that is not on record is granted when the accounts bear it. -/
theorem exists_decide_iff {r : TransactionRequest} {id : String} {now : Instant}
    (hs : store.WellTyped) (hnew : store.read? (transactionKey id) = none)
    (hkind : ∀ subject ∈ r.senderId, r.kind ≠ .reward) :
    (∃ plan, decide r id now (Snapshot.atOnce store (keys r id)) = .ok plan) ↔ Bears store r := by
  have hhas : (Snapshot.atOnce store (keys r id)).has (transactionKey id) = false := by
    rw [has_transactionKey, hnew]
    rfl
  have hsender := fun plan : Plan Receipt =>
    exists_planParty_iff (debit r.kind r.amount) plan hs (sender_mem_keys r id)
  have hreceiver := fun plan : Plan Receipt =>
    exists_planParty_iff (fun _ => credit r.amount) plan hs (receiver_mem_keys r id)
  simp only [decide, hhas, Bool.false_eq_true, if_false]
  constructor
  · rintro ⟨plan, h⟩
    obtain ⟨plan₁, hplan₁, h⟩ := ok_of_bind h
    obtain ⟨plan₂, hplan₂, -⟩ := ok_of_bind h
    refine ⟨fun s hs => ?_, fun s hs => ?_⟩
    · obtain ⟨a, ha, hdebit⟩ := (hsender _).1 ⟨plan₁, hplan₁⟩ s hs
      exact ⟨a, ha, (exists_debit_iff (hkind s hs)).1 hdebit⟩
    · obtain ⟨a, ha, hcredit⟩ := (hreceiver _).1 ⟨plan₂, hplan₂⟩ s hs
      exact ⟨a, ha, exists_credit_iff.1 hcredit⟩
  · rintro ⟨hcovered, hroom⟩
    obtain ⟨plan₁, hplan₁⟩ := (hsender (.done ⟨id, false⟩)).2 fun s hs => by
      obtain ⟨a, ha, hle⟩ := hcovered s hs
      exact ⟨a, ha, (exists_debit_iff (hkind s hs)).2 hle⟩
    obtain ⟨plan₂, hplan₂⟩ := (hreceiver plan₁).2 fun s hs => by
      obtain ⟨a, ha, hle⟩ := hroom s hs
      exact ⟨a, ha, exists_credit_iff.2 hle⟩
    refine ⟨plan₂.insert (transactionKey id) (record r id now), ?_⟩
    rw [hplan₁]
    change (planParty _ r.receiverId _ plan₁).bind _ = _
    rw [hplan₂]
    rfl

/-- What a decision to book is: parties whose balances have moved, and a free id. -/
theorem booking_of_decide {r : TransactionRequest} {id : String} {now : Instant} {t : Store}
    {plan : Plan Receipt} (origin : Origin) (hwellTyped : store.WellTyped)
    (hvalid : r.validate = .ok ()) (hfits : Fits now)
    (hbacked : origin.Backs store id fun a ritual subject =>
      a.IsBookedAs ritual subject (record r id now))
    (h : Commits (keys r id) (decide r id now) store plan t) :
    ∃ parties, (Change.booking r id now parties origin).Makes store t := by
  have hnew : store.read? (transactionKey id) = none := by
    by_contra hpresent
    have hdecided := h.decided
    rw [decide_of_present hpresent] at hdecided
    cases hdecided
    exact h.writes rfl
  obtain ⟨parties, hplanned⟩ := planned_of_decide hwellTyped hvalid hnew h.decided
  refine ⟨parties, ⟨hvalid, hfits, hnew, hplanned.subjects, ?_, hbacked⟩, ?_⟩
  · intro a ha
    obtain ⟨a₀, hget, hmoves⟩ := hplanned.moved a ha
    exact ⟨a₀, hget, hmoves.same, hmoves.balance⟩
  · rw [Store.apply_eq_putAll h.applied, hplanned.writes]
    simp [Change.writes, accountWrite, Write.key, Write.body, Function.comp_def]

/-! ## Operations -/

variable {may : Change → Prop} {v : View} {policy : RetryPolicy}

/-- An account is opened under the name of its subject. -/
theorem openAccount_ensures {subject : String}
    (hmay : ∀ a : Account, a.subjectId = subject → may (.opening a)) :
    (openAccount policy subject).Ensures may (fun _ _ => True) v := by
  rw [openAccount]
  split
  · exact .throw _
  · rename_i hsubject
    refine .bind .now ?_
    rintro now v' ⟨-, hnow⟩
    refine .transact (fun _ _ _ _ _ _ => trivial) ?_
    intro u plan t hu hcommits
    obtain ⟨x, hget, hplan⟩ := ok_of_bind hcommits.decided
    cases x with
    | some account =>
      cases hplan
      exact absurd rfl hcommits.writes
    | none =>
      cases hplan
      have habsent := (Snapshot.get_atOnce List.mem_cons_self hget).2 rfl
      have hmade := Store.apply_eq_putAll hcommits.applied
      exact ⟨⟨.opening ⟨subject, 0, now⟩, hmay _ rfl, nofun,
        ⟨hnow, hsubject, rfl, habsent⟩, hmade⟩, trivial⟩

/-- A request is booked under its key, whose origin is known, or under a drawn id. -/
theorem apply_ensures {r : TransactionRequest} (origin : Origin)
    (hbacked : ∀ id ∈ r.key, ∀ now, origin.Backs v.store id fun a ritual subject =>
      a.IsBookedAs ritual subject (record r id now))
    (hmay : ∀ id now parties, r.key = some id → may (.booking r id now parties origin))
    (hmayDrawn : ∀ id now parties, r.key = none → may (.booking r id now parties .drawn)) :
    (apply policy r).Ensures may (fun _ _ => True) v := by
  refine .bind .ofValidation ?_
  rintro - _ ⟨hvalid, rfl⟩
  -- The id with its origin, whichever of the two it is.
  have hid : (liftM (idOr r.key) : Operation String).Ensures may (fun id v' => ∃ origin' : Origin,
      (∀ now, origin'.Backs v'.store id fun a ritual subject =>
          a.IsBookedAs ritual subject (record r id now)) ∧
        ∀ now parties, may (.booking r id now parties origin')) v := by
    cases hkey : r.key with
    | some id =>
      exact .lift ⟨origin, hbacked id hkey, fun now parties => hmay id now parties hkey⟩
    | none =>
      refine .lift fun v' id hv' hfresh => ⟨.drawn, fun now => hfresh.uuid, ?_⟩
      intro now parties
      exact hmayDrawn id now parties hkey
  refine .bind hid ?_
  rintro id v₁ ⟨origin', hbacked', hmay'⟩
  refine .bind .now ?_
  rintro now v₂ ⟨hv₂, hnow⟩
  refine .transact (fun _ _ _ _ _ _ => trivial) ?_
  intro u plan t hu hcommits
  have hstill := (hbacked' now).mono (hv₂.trans hu).evolves
  obtain ⟨parties, hmakes⟩ := booking_of_decide _ u.wellTyped hvalid hnow hstill hcommits
  exact ⟨⟨_, hmay' now parties, nofun, hmakes⟩, trivial⟩

/-! ## Look-up -/

theorem account_ensures {subject : String} :
    (account subject).Ensures may (fun _ _ => True) v := by
  refine .followed (.readDocument? fun _ _ => trivial) ?_
  rintro (_ | a) v'
  · exact .throw _
  · exact .pure trivial

end RitualLedger.Ledger
