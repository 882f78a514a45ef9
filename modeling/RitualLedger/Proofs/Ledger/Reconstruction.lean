import Mathlib.Algebra.BigOperators.Group.Finset.Piecewise
import RitualLedger.Proofs.Engine.World

/-!
# The balances are the sums of the log

The balance of an account and the log of transactions are kept in different documents. Still the
balances can be reconstructed from the log: each is what the subject has received less what it has
sent. `Balanced` says so of a store, together with what makes it last: every transaction is between
accounts that exist, in the roles of its kind. A booking moves the balances of its parties by what
it adds to the log, and no other change touches either side.

In `ledger_reconstructs` this holds in every run, whatever calls overlap and however they end.
-/

namespace RitualLedger.Ledger

/-! ## Sums of the log -/

/-- What a subject has received. -/
def received (subject : String) (ts : List Transaction) : Nat :=
  ((ts.filter fun t => t.receiverId = some subject).map fun t => t.amount.toNat).sum

/-- What a subject has sent. -/
def sent (subject : String) (ts : List Transaction) : Nat :=
  ((ts.filter fun t => t.senderId = some subject).map fun t => t.amount.toNat).sum

/-- What transactions of a kind amount to. -/
def volume (kind : TransactionKind) (ts : List Transaction) : Nat :=
  ((ts.filter fun t => t.kind = kind).map fun t => t.amount.toNat).sum

theorem sum_delta (subject : String) (ts : List Transaction) :
    (ts.map (·.delta subject)).sum = (received subject ts : Int) - sent subject ts := by
  induction ts with
  | nil => rfl
  | cons t rest ih =>
    rw [List.map_cons, List.sum_cons, ih]
    by_cases hr : t.receiverId = some subject <;> by_cases hs : t.senderId = some subject <;>
      simp [Transaction.delta, received, sent, hr, hs] <;> omega

/-- A transaction is between parties of some kind, in the roles that its own kind allows. -/
def IsBetween (party : String → Prop) (t : Transaction) : Prop :=
  match t.kind with
  | .reward => ∃ receiver, t.senderId = none ∧ t.receiverId = some receiver ∧ party receiver
  | .penalty => ∃ sender, t.senderId = some sender ∧ t.receiverId = none ∧ party sender
  | .tribute => ∃ sender receiver, t.senderId = some sender ∧ t.receiverId = some receiver ∧
    sender ≠ receiver ∧ party sender ∧ party receiver

/-- What a transaction adds to all balances together. -/
def supply (t : Transaction) : Int :=
  match t.kind with
  | .reward => t.amount.toNat
  | .penalty => -t.amount.toNat
  | .tribute => 0

theorem sum_supply (ts : List Transaction) :
    (ts.map supply).sum = (volume .reward ts : Int) - volume .penalty ts := by
  induction ts with
  | nil => rfl
  | cons t rest ih =>
    rw [List.map_cons, List.sum_cons, ih]
    cases hkind : t.kind <;> simp [supply, volume, hkind] <;> omega

/-- A transaction moves the balances of its parties, and of no one else. -/
theorem sum_delta_parties {subjects : List String} (hnodup : subjects.Nodup) {t : Transaction}
    (h : IsBetween (· ∈ subjects) t) : (subjects.map t.delta).sum = supply t := by
  -- Every subject occurs once, so the sum is one over a set and has at most two terms.
  have hsum : (subjects.map t.delta).sum = ∑ subject ∈ subjects.toFinset, t.delta subject :=
    (List.sum_toFinset _ hnodup).symm
  rw [hsum]
  rw [IsBetween] at h
  cases hkind : t.kind with
  | reward =>
    rw [hkind] at h
    obtain ⟨receiver, hsender, hreceiver, hmem⟩ := h
    simp [Transaction.delta, supply, hkind, hsender, hreceiver, hmem]
  | penalty =>
    rw [hkind] at h
    obtain ⟨sender, hsender, hreceiver, hmem⟩ := h
    simp [Transaction.delta, supply, hkind, hsender, hreceiver, hmem]
  | tribute =>
    rw [hkind] at h
    obtain ⟨sender, receiver, hsender, hreceiver, -, hmem, hmem'⟩ := h
    simp [Transaction.delta, supply, hkind, hsender, hreceiver, hmem, hmem']

/-- All balances together are the sum of what the transactions add to them. -/
theorem sum_all_deltas {subjects : List String} (hnodup : subjects.Nodup) {ts : List Transaction}
    (h : ∀ t ∈ ts, IsBetween (· ∈ subjects) t) :
    (subjects.map fun subject => (ts.map (·.delta subject)).sum).sum = (ts.map supply).sum := by
  induction ts with
  | nil => simp
  | cons t rest ih =>
    simp only [List.map_cons, List.sum_cons, List.sum_map_add]
    rw [sum_delta_parties hnodup (h t List.mem_cons_self),
      ih fun t' ht' => h t' (List.mem_cons_of_mem t ht')]

/-! ## Stores in balance -/

/-- Every balance is the sum of the log, and every transaction is between existing accounts. -/
structure Balanced (s : Store) : Prop where
  balance : ∀ subject a, s.get? Account (accountKey subject) = some a →
    0 ≤ a.tokenBalance.toInt ∧
      a.tokenBalance.toInt = ((s.all Transaction).map (·.delta subject)).sum
  between : ∀ t ∈ s.all Transaction, IsBetween (fun party => s.read? (accountKey party) ≠ none) t

theorem balanced_empty : Balanced .empty where
  balance := nofun
  between := nofun

theorem IsBetween.imp {p q : String → Prop} {t : Transaction} (h : IsBetween p t)
    (himp : ∀ party, p party → q party) : IsBetween q t := by
  rw [IsBetween] at h ⊢
  cases hkind : t.kind with
  | reward =>
    rw [hkind] at h
    obtain ⟨receiver, hsender, hreceiver, hp⟩ := h
    exact ⟨receiver, hsender, hreceiver, himp receiver hp⟩
  | penalty =>
    rw [hkind] at h
    obtain ⟨sender, hsender, hreceiver, hp⟩ := h
    exact ⟨sender, hsender, hreceiver, himp sender hp⟩
  | tribute =>
    rw [hkind] at h
    obtain ⟨sender, receiver, hsender, hreceiver, hne, hp, hp'⟩ := h
    exact ⟨sender, receiver, hsender, hreceiver, hne, himp sender hp, himp receiver hp'⟩

/-- A transaction adds nothing to the balance of a subject that is none of its parties. -/
theorem IsBetween.delta_eq_zero {p : String → Prop} {t : Transaction} (h : IsBetween p t)
    {subject : String} (hsubject : ¬ p subject) : t.delta subject = 0 := by
  have hne : ∀ {party : String}, p party → party ≠ subject := by
    rintro party hp rfl
    exact hsubject hp
  rw [IsBetween] at h
  cases hkind : t.kind with
  | reward =>
    rw [hkind] at h
    obtain ⟨receiver, hsender, hreceiver, hp⟩ := h
    simp [Transaction.delta, hsender, hreceiver, hne hp]
  | penalty =>
    rw [hkind] at h
    obtain ⟨sender, hsender, hreceiver, hp⟩ := h
    simp [Transaction.delta, hsender, hreceiver, hne hp]
  | tribute =>
    rw [hkind] at h
    obtain ⟨sender, receiver, hsender, hreceiver, -, hp, hp'⟩ := h
    simp [Transaction.delta, hsender, hreceiver, hne hp, hne hp']

/-- The record of a valid request is between the parties of the request. -/
theorem isBetween_record {r : TransactionRequest} {id : String} {now : Instant}
    (hvalid : r.validate = .ok ()) :
    IsBetween (· ∈ r.senderId.toList ++ r.receiverId.toList) (record r id now) := by
  cases (TransactionRequest.valid_of_validate hvalid).shape with
  | reward receiver hkind hsender hreceiver =>
    simp [IsBetween, record, hkind, hsender, hreceiver]
  | penalty sender hkind hsender hreceiver =>
    simp [IsBetween, record, hkind, hsender, hreceiver]
  | tribute sender receiver hkind hsender hreceiver hne =>
    simp [IsBetween, record, hkind, hsender, hreceiver, hne]

variable {s t : Store} {ch : Change}

/-- A change that touches neither side leaves a store in balance. -/
theorem Balanced.of_untouched (h : Balanced s) (hmakes : ch.Makes s t)
    (haccounts : Collection.accounts ∉ ch.collections)
    (htransactions : Collection.transactions ∉ ch.collections) : Balanced t := by
  have hlog : t.all Transaction = s.all Transaction := hmakes.all_untouched htransactions
  constructor
  · intro subject a hget
    rw [hlog]
    exact h.balance subject a ((hmakes.get?_untouched haccounts subject).symm.trans hget)
  · intro x hx
    rw [hlog] at hx
    refine (h.between x hx).imp ?_
    intro party hparty
    exact Store.present_of_le hmakes.le hparty

/-- A new account starts at zero, and no transaction is about its subject yet. -/
theorem Balanced.opening (h : Balanced s) {a : Account} (hmakes : (Change.opening a).Makes s t) :
    Balanced t := by
  have hlog : t.all Transaction = s.all Transaction := by
    refine hmakes.all_untouched ?_
    change Collection.transactions ∉ [Collection.accounts]
    decide
  obtain ⟨hfits, -, hzero, hnew⟩ := hmakes.allowed
  constructor
  · intro subject a' hget
    rw [hlog]
    rcases hmakes.get?_cases (α := Account) (accountKey subject) with ⟨body, hw, hread⟩ | hsame
    · obtain ⟨hkey, rfl⟩ := Prod.mk.inj (List.mem_singleton.1 hw)
      rw [hread, decode_encode hfits] at hget
      cases hget
      obtain ⟨-, rfl⟩ := Collection.key_inj.1 hkey
      have hnone : ∀ x ∈ (s.all Transaction).map (·.delta a.subjectId), x = 0 := by
        intro x hx
        obtain ⟨t', ht', rfl⟩ := List.mem_map.1 hx
        exact (h.between t' ht').delta_eq_zero fun hpresent => hpresent hnew
      rw [List.sum_eq_zero hnone, hzero]
      exact ⟨le_refl _, rfl⟩
    · exact h.balance subject a' (hsame.symm.trans hget)
  · intro x hx
    rw [hlog] at hx
    refine (h.between x hx).imp ?_
    intro party hparty
    exact Store.present_of_le hmakes.le hparty

/-- A booking adds its record to the log. -/
theorem all_of_booking {r : TransactionRequest} {id : String} {now : Instant}
    {parties : List Account} {origin : Origin}
    (hmakes : (Change.booking r id now parties origin).Makes s t) :
    t.all Transaction = s.all Transaction ++ [record r id now] := by
  refine hmakes.all_snoc _ [] rfl ?_ hmakes.allowed.new hmakes.allowed.fits
  intro w hw
  rw [List.append_nil] at hw
  obtain ⟨a, -, rfl⟩ := List.mem_map.1 hw
  change Collection.accounts.name ≠ Collection.transactions.name
  decide

/-- A booking moves every balance by what its record adds to it. -/
theorem account_of_booking (hs : s.WellTyped) {r : TransactionRequest} {id : String}
    {now : Instant} {parties : List Account} {origin : Origin}
    (hmakes : (Change.booking r id now parties origin).Makes s t) (subject : String) :
    (s.get? Account (accountKey subject) = none → t.get? Account (accountKey subject) = none) ∧
      ∀ a₀, s.get? Account (accountKey subject) = some a₀ →
        ∃ a, t.get? Account (accountKey subject) = some a ∧
          Moves a₀ a ((record r id now).delta subject) := by
  have hallowed := hmakes.allowed
  by_cases hparty : subject ∈ parties.map (·.subjectId)
  · obtain ⟨a, ha, rfl⟩ := List.mem_map.1 hparty
    obtain ⟨a₀, hget₀, hsame, hbalance⟩ := hallowed.moved a ha
    have hfits : Fits a := by
      have hfits₀ : Fits a₀.createdAt := (hs.named (α := Account) hget₀).1
      rw [hsame]
      exact hfits₀
    have hwritten : t.get? Account (accountKey a.subjectId) = some a := by
      refine hmakes.get?_written ?_ hfits
      exact List.mem_append_left _ (List.mem_map.2 ⟨a, ha, rfl⟩)
    constructor
    · intro hnone
      cases hnone.symm.trans hget₀
    · intro a' hget'
      cases hget'.symm.trans hget₀
      exact ⟨a, hwritten, hsame, hbalance⟩
  · have hsame : t.get? Account (accountKey subject) = s.get? Account (accountKey subject) := by
      rw [hmakes.made]
      refine Store.get?_putAll_of_notMem ?_
      intro w hw heq
      rcases List.mem_append.1 hw with hw | hw
      · obtain ⟨a, ha, rfl⟩ := List.mem_map.1 hw
        obtain ⟨-, rfl⟩ := Collection.key_inj.1 heq
        exact hparty (List.mem_map_of_mem ha)
      · rw [List.mem_singleton.1 hw] at heq
        exact Collection.key_ne_of_ne (by decide) heq
    have hrecord : IsBetween (· ∈ parties.map (·.subjectId)) (record r id now) := by
      rw [hallowed.subjects]
      exact isBetween_record hallowed.valid
    rw [hsame, hrecord.delta_eq_zero hparty]
    refine ⟨fun hnone => hnone, fun a₀ hget => ⟨a₀, hget, rfl, fun hzero => ⟨hzero, ?_⟩⟩⟩
    rw [Int.add_zero]

/-- A booking moves the balances of its parties by what it adds to the log. -/
theorem Balanced.booking (h : Balanced s) (hs : s.WellTyped) {r : TransactionRequest} {id : String}
    {now : Instant} {parties : List Account} {origin : Origin}
    (hmakes : (Change.booking r id now parties origin).Makes s t) : Balanced t := by
  have hallowed := hmakes.allowed
  have hlog := all_of_booking hmakes
  constructor
  · intro subject a hget
    obtain ⟨hnone, hsome⟩ := account_of_booking hs hmakes subject
    cases hget₀ : s.get? Account (accountKey subject) with
    | none => cases (hnone hget₀).symm.trans hget
    | some a₀ =>
      obtain ⟨a', hget', hmoves⟩ := hsome a₀ hget₀
      cases hget.symm.trans hget'
      obtain ⟨hzero, hbalance⟩ := h.balance subject a₀ hget₀
      obtain ⟨hzero', hbalance'⟩ := hmoves.balance hzero
      rw [hlog, List.map_append, List.sum_append, List.map_singleton, List.sum_singleton]
      exact ⟨hzero', by rw [hbalance', hbalance]⟩
  · intro x hx
    rw [hlog] at hx
    rcases List.mem_append.1 hx with hx | hx
    · refine (h.between x hx).imp ?_
      intro party hparty
      exact Store.present_of_le hmakes.le hparty
    · rw [List.mem_singleton.1 hx]
      have hrecord : IsBetween (· ∈ parties.map (·.subjectId)) (record r id now) := by
        rw [hallowed.subjects]
        exact isBetween_record hallowed.valid
      refine hrecord.imp ?_
      intro party hparty
      obtain ⟨a, ha, rfl⟩ := List.mem_map.1 hparty
      obtain ⟨a₀, hget₀, -⟩ := hallowed.moved a ha
      exact Store.present_of_le hmakes.le (Store.present_of_get? hget₀)

/-- **Every change keeps a store in balance.** -/
theorem Balanced.preserved (h : Balanced s) (hs : s.WellTyped) (hmakes : ch.Makes s t) :
    Balanced t := by
  cases ch with
  | opening a => exact h.opening hmakes
  | booking r id now parties origin => exact h.booking hs hmakes
  | queueing n origin | marking n | unlocking a index now | creating d r activity now
  | stepping step r a task evidence now | logging id e =>
    exact h.of_untouched hmakes (by simp [Change.collections]) (by simp [Change.collections])

theorem balanced_after (ttl : Int) (es : List Event) :
    Balanced ((World.initial ttl).after es).store := by
  refine World.induction_on_changes ttl es balanced_empty ?_
  intro s t c ch hs _ hbalanced _ _ hmakes
  exact hbalanced.preserved hs hmakes

/-! ## The reconstruction -/

/-- Who has an account. -/
theorem mem_subjects (hs : s.WellTyped) (hkeys : s.HasDistinctKeys) {subject : String}
    (h : s.read? (accountKey subject) ≠ none) :
    subject ∈ (s.all Account).map (·.subjectId) := by
  obtain ⟨a, hget⟩ := hs.readable (α := Account) h
  have hname : a.subjectId = subject := (hs.named (α := Account) hget).2
  exact List.mem_map.2 ⟨a, (Store.mem_all hkeys).2 ⟨subject, hget⟩, hname⟩

theorem get?_of_mem_all (hs : s.WellTyped) (hkeys : s.HasDistinctKeys) {a : Account}
    (h : a ∈ s.all Account) : s.get? Account (accountKey a.subjectId) = some a := by
  obtain ⟨id, hget⟩ := (Store.mem_all hkeys).1 h
  have hname : a.subjectId = id := (hs.named (α := Account) hget).2
  rw [hname]
  exact hget

/-- **Balances are reconstructed from the log, and never negative.** Whatever has happened, all
accounts and transactions can be read, each account under the name of its subject. A balance is what
the subject has received less what it has sent, and lies in the range of balances; all of them
together are what was rewarded less what was taken as penalties. Transactions are between existing
accounts in the roles of their kinds. And no valid request makes the balance of an account wrap. -/
theorem ledger_reconstructs (ttl : Int) (es : List Event) :
    ∃ (accounts : List Account) (transactions : List Transaction),
      decodeAll (((World.initial ttl).after es).store.inCollection Collection.accounts.name) =
        .ok accounts ∧
      decodeAll (((World.initial ttl).after es).store.inCollection Collection.transactions.name) =
        .ok transactions ∧
      accounts.map (·.subjectId) =
        (((World.initial ttl).after es).store.inCollection Collection.accounts.name).map (·.1) ∧
      (accounts.map (·.subjectId)).Nodup ∧
      (∀ a ∈ accounts, 0 ≤ a.tokenBalance.toInt ∧ a.tokenBalance.toInt ≤ 2 ^ 63 - 1 ∧
        a.tokenBalance.toInt =
          (received a.subjectId transactions : Int) - sent a.subjectId transactions) ∧
      (accounts.map (·.tokenBalance.toInt)).sum =
        (volume .reward transactions : Int) - volume .penalty transactions ∧
      (∀ t ∈ transactions, IsBetween (· ∈ accounts.map (·.subjectId)) t) ∧
      ∀ a ∈ accounts, ∀ r : TransactionRequest, r.validate = .ok () →
        (∀ a', r.senderId = some a.subjectId → debit r.kind r.amount a.subjectId a = .ok a' →
          a'.tokenBalance.toInt = a.tokenBalance.toInt - r.amount.toNat) ∧
        ∀ a', credit r.amount a = .ok a' →
          a'.tokenBalance.toInt = a.tokenBalance.toInt + r.amount.toNat := by
  have hsound := World.sound_after ttl es
  have hbalanced := balanced_after ttl es
  generalize ((World.initial ttl).after es) = w at hsound hbalanced ⊢
  have hs : w.store.WellTyped := hsound.wellTyped
  have hkeys : w.store.HasDistinctKeys := hsound.distinctKeys
  have hnames : (w.store.all Account).map (·.subjectId) =
      (w.store.inCollection Collection.accounts.name).map (·.1) :=
    hs.map_all (α := Account) hkeys fun _ _ h => h
  have hnodup : ((w.store.all Account).map (·.subjectId)).Nodup := by
    rw [hnames]
    exact hkeys.nodup_ids
  have hbalance : ∀ a ∈ w.store.all Account, 0 ≤ a.tokenBalance.toInt ∧
      a.tokenBalance.toInt = ((w.store.all Transaction).map (·.delta a.subjectId)).sum :=
    fun a ha => hbalanced.balance _ a (get?_of_mem_all hs hkeys ha)
  have hbetween : ∀ t ∈ w.store.all Transaction,
      IsBetween (· ∈ (w.store.all Account).map (·.subjectId)) t :=
    fun t ht => (hbalanced.between t ht).imp fun party hparty => mem_subjects hs hkeys hparty
  refine ⟨w.store.all Account, w.store.all Transaction, hs.decodeAll_eq hkeys,
    hs.decodeAll_eq hkeys, hnames, hnodup, ?_, ?_, hbetween, ?_⟩
  · intro a ha
    have hmax := a.tokenBalance.toInt_lt
    refine ⟨(hbalance a ha).1, by omega, ?_⟩
    rw [(hbalance a ha).2, sum_delta]
  · have hsum : (w.store.all Account).map (·.tokenBalance.toInt) =
        ((w.store.all Account).map (·.subjectId)).map fun subject =>
          ((w.store.all Transaction).map (·.delta subject)).sum := by
      rw [List.map_map]
      exact List.map_congr_left fun a ha => (hbalance a ha).2
    rw [hsum, sum_all_deltas hnodup hbetween, sum_supply]
  · intro a ha r hvalid
    have hzero := (hbalance a ha).1
    constructor
    · intro a' hsender hdebit
      have hmoves := moves_of_debit (kind_ne_reward hvalid hsender) hdebit
      rw [(hmoves.balance hzero).2]
      rfl
    · intro a' hcredit
      exact ((moves_of_credit hcredit).balance hzero).2

end RitualLedger.Ledger
