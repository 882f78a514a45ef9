import RitualLedger.Proofs.Completion.Course
import RitualLedger.Proofs.Engine.Contention
import RitualLedger.Proofs.Store.Apart

/-!
# What becomes of a request

A request that nobody interferes with is applied, is answered from the record, or is refused
(`Ledger.Outcome`); which of the three it is depends on the request and on what the ledger and the
accounts of its parties hold. When it is applied, the amount moves and one transaction is recorded,
and otherwise nothing changes.

A request that was refused has not used its key up. So it is applied when it is repeated after its
parties have come to bear it; `requests_take_exact_effect` says so of all reachable states.
-/

namespace RitualLedger.Ledger

/-! ## What can become of a request -/

/-- A request is applied under an id: the amount moves between the parties, whose accounts are
otherwise as they were; the ledger has one more transaction, which is stored behind all other
documents; and those are as they were. -/
structure Applied (r : TransactionRequest) (id : String) (now : Instant) (s t : Store) : Prop where
  sender : ∀ subject ∈ r.senderId, ∃ a a', s.get? Account (accountKey subject) = some a ∧
    t.get? Account (accountKey subject) = some a' ∧
    a' = { a with tokenBalance := a'.tokenBalance } ∧
    a'.tokenBalance.toInt = a.tokenBalance.toInt - r.amount.toNat
  receiver : ∀ subject ∈ r.receiverId, ∃ a a', s.get? Account (accountKey subject) = some a ∧
    t.get? Account (accountKey subject) = some a' ∧
    a' = { a with tokenBalance := a'.tokenBalance } ∧
    a'.tokenBalance.toInt = a.tokenBalance.toInt + r.amount.toNat
  recorded : t.all Transaction = s.all Transaction ++ [record r id now]
  behind : t.keys = s.keys ++ [transactionKey id]
  others : ∀ key, key ≠ transactionKey id →
    (∀ subject ∈ r.senderId.toList ++ r.receiverId.toList, key ≠ accountKey subject) →
      t.read? key = s.read? key

/-- What becomes of a request whose transaction is to have an id. -/
inductive Outcome (r : TransactionRequest) (id : String) (now : Instant) (s : Store) :
    Except EngineError Receipt → Store → Prop
  | applied {t : Store} (hform : r.WellFormed) (hnew : s.read? (transactionKey id) = none)
    (hbears : Bears s r) (h : Applied r id now s t) : Outcome r id now s (.ok ⟨id, false⟩) t
  | replayed (hform : r.WellFormed) (hold : s.read? (transactionKey id) ≠ none) :
    Outcome r id now s (.ok ⟨id, true⟩) s
  | refused (e : EngineError)
    (h : ¬ r.WellFormed ∨ s.read? (transactionKey id) = none ∧ ¬ Bears s r) :
    Outcome r id now s (.error e) s

variable {r : TransactionRequest} {id : String} {now : Instant} {s t : Store}

/-- A booking that the accounts bear applies the request. -/
theorem applied_of_booking {parties : List Account} {origin : Origin} (hs : s.WellTyped)
    (hbalanced : Balanced s) (hbears : Bears s r)
    (hmakes : (Change.booking r id now parties origin).Makes s t) : Applied r id now s t := by
  have hallowed := hmakes.allowed
  have hparty : ∀ a ∈ parties, a.subjectId ∈ r.senderId.toList ++ r.receiverId.toList := by
    intro a ha
    rw [← hallowed.subjects]
    exact List.mem_map_of_mem ha
  have hmoved : ∀ {subject a}, s.get? Account (accountKey subject) = some a →
      ∃ a', t.get? Account (accountKey subject) = some a' ∧
        a' = { a with tokenBalance := a'.tokenBalance } ∧
        a'.tokenBalance.toInt = a.tokenBalance.toInt + (record r id now).delta subject := by
    intro subject a ha
    obtain ⟨a', ha', hmoves⟩ := (account_of_booking hs hmakes subject).2 a ha
    exact ⟨a', ha', hmoves.same, (hmoves.balance (hbalanced.balance subject a ha).1).2⟩
  constructor
  · intro subject hsender
    obtain ⟨a, ha, -⟩ := hbears.covered subject hsender
    obtain ⟨a', ha', hsame, hbalance⟩ := hmoved ha
    rw [delta_sender hallowed.valid hsender] at hbalance
    exact ⟨a, a', ha, ha', hsame, hbalance⟩
  · intro subject hreceiver
    obtain ⟨a, ha, -⟩ := hbears.room subject hreceiver
    obtain ⟨a', ha', hsame, hbalance⟩ := hmoved ha
    rw [delta_receiver hallowed.valid hreceiver] at hbalance
    exact ⟨a, a', ha, ha', hsame, hbalance⟩
  · exact all_of_booking hmakes
  · -- The accounts stay where they are, and the transaction is new.
    have hpresent : ∀ w ∈ parties.map fun a => (accountKey a.subjectId, encode a),
        s.read? w.1 ≠ none := by
      intro w hw
      obtain ⟨a, ha, rfl⟩ := List.mem_map.1 hw
      obtain ⟨a₀, hget, -⟩ := hallowed.moved a ha
      exact Store.present_of_get? hget
    have hnew : (s.putAll (parties.map fun a => (accountKey a.subjectId, encode a))).read?
        (transactionKey id) = none := by
      rw [Store.read?_putAll_of_notMem, hallowed.new]
      intro w hw
      obtain ⟨a, -, rfl⟩ := List.mem_map.1 hw
      exact Collection.key_ne_of_ne (by decide)
    rw [hmakes.made, Change.writes, Store.putAll_append]
    change (Store.put _ _ _).keys = _
    rw [Store.keys_put_of_absent _ hnew, Store.keys_putAll_of_present hpresent]
  · intro key hrecord haccounts
    rw [hmakes.made]
    refine Store.read?_putAll_of_notMem fun w hw => ?_
    rcases List.mem_append.1 hw with hw | hw
    · obtain ⟨a, ha, rfl⟩ := List.mem_map.1 hw
      exact (haccounts _ (hparty a ha)).symm
    · rw [List.mem_singleton.1 hw]
      exact hrecord.symm

namespace Outcome

variable {answer : Except EngineError Receipt}

/-- A request that is new and that the accounts bear is applied. -/
theorem of_bears (h : Outcome r id now s answer t) (hform : r.WellFormed)
    (hnew : s.read? (transactionKey id) = none) (hbears : Bears s r) :
    answer = .ok ⟨id, false⟩ ∧ Applied r id now s t := by
  cases h with
  | applied _ _ _ h => exact ⟨rfl, h⟩
  | replayed _ hold => exact absurd hnew hold
  | refused e h =>
    rcases h with h | ⟨-, h⟩
    · exact absurd hform h
    · exact absurd hbears h

/-- A request that is on record is answered from the record. -/
theorem of_present (h : Outcome r id now s answer t) (hform : r.WellFormed)
    (hold : s.read? (transactionKey id) ≠ none) : answer = .ok ⟨id, true⟩ ∧ t = s := by
  cases h with
  | applied _ hnew _ _ => exact absurd hnew hold
  | replayed _ _ => exact ⟨rfl, rfl⟩
  | refused e h =>
    rcases h with h | ⟨hnew, -⟩
    · exact absurd hform h
    · exact absurd hnew hold

/-- Only a request that is new and that the accounts bear is applied. -/
theorem bears_of_fresh {receipt : Receipt} (h : Outcome r id now s (.ok receipt) t)
    (hfresh : receipt.replayed = false) :
    r.WellFormed ∧ s.read? (transactionKey id) = none ∧ Bears s r := by
  cases h with
  | applied hform hnew hbears _ => exact ⟨hform, hnew, hbears⟩
  | replayed _ _ => cases hfresh

/-- A request that is answered is on record, or the accounts bear it. -/
theorem of_ok {receipt : Receipt} (h : Outcome r id now s (.ok receipt) t) :
    r.WellFormed ∧ (s.read? (transactionKey id) ≠ none ∨
      s.read? (transactionKey id) = none ∧ Bears s r) := by
  cases h with
  | applied hform hnew hbears _ => exact ⟨hform, .inr ⟨hnew, hbears⟩⟩
  | replayed hform hold => exact ⟨hform, .inl hold⟩

/-- A request that is refused changes nothing; if it is well formed, it is not on record, and the
accounts do not bear it. -/
theorem of_error {e : EngineError} (h : Outcome r id now s (.error e) t) :
    t = s ∧ (r.WellFormed → s.read? (transactionKey id) = none ∧ ¬ Bears s r) := by
  cases h with
  | refused _ h => exact ⟨rfl, fun hform => h.resolve_left fun hnot => hnot hform⟩

/-- Under a given id the outcome is not about the key. -/
theorem of_key {key : Option String}
    (h : Outcome { r with key := key } id now s answer t) : Outcome r id now s answer t := by
  have hform : TransactionRequest.WellFormed { r with key := key } ↔ r.WellFormed :=
    ⟨fun h => ⟨h.positive, h.small, h.parties⟩, fun h => ⟨h.positive, h.small, h.parties⟩⟩
  have hbears : Bears s { r with key := key } ↔ Bears s r :=
    ⟨fun h => ⟨h.covered, h.room⟩, fun h => ⟨h.covered, h.room⟩⟩
  cases h with
  | applied hform' hnew hbears' h =>
    exact .applied (hform.1 hform') hnew (hbears.1 hbears')
      ⟨h.sender, h.receiver, h.recorded, h.behind, h.others⟩
  | replayed hform' hold => exact .replayed (hform.1 hform') hold
  | refused e h =>
    rw [hform, hbears] at h
    exact .refused e h

end Outcome

/-! ## Running a request alone -/

section

variable {policy : RetryPolicy} {setting : Setting}

theorem run_apply_invalid {fault : ValidationError} (hinvalid : r.validate = .error fault) :
    (apply policy r).run setting = (.error (.validation fault), setting) := by
  simp only [apply, hinvalid]
  rfl

theorem run_apply_keyed (hkey : r.key = some id) (hvalid : r.validate = .ok ()) :
    (apply policy r).run setting =
      (transact policy (keys r id) (decide r id setting.clock.draw.1)).run
        { setting with clock := setting.clock.draw.2 } := by
  simp only [apply, hvalid, hkey]
  rfl

/-- A request without a key is applied under an id that is drawn for it. -/
theorem run_apply_drawn (hkey : r.key = none) (hvalid : r.validate = .ok ()) :
    (apply policy r).run setting =
      (apply policy { r with key := some setting.ids.draw.1 }).run
        { setting with ids := setting.ids.draw.2 } := by
  have hsame : TransactionRequest.validate { r with key := some setting.ids.draw.1 } = .ok () :=
    hvalid
  simp only [apply, hvalid, hsame, hkey]
  rfl

/-- A request that is not well formed is refused. -/
theorem outcome_invalid {fault : ValidationError} (hinvalid : r.validate = .error fault) :
    Outcome r id now setting.store ((apply policy r).run setting).1
      ((apply policy r).run setting).2.store := by
  rw [run_apply_invalid hinvalid]
  refine .refused _ (.inl fun hform => ?_)
  cases hinvalid.symm.trans (TransactionRequest.validate_eq_ok_iff.2 hform)

/-- A request with a key comes to one of its outcomes. -/
theorem outcome_keyed (hkey : r.key = some id) (hs : setting.store.WellTyped)
    (hbalanced : Balanced setting.store) (halone : setting.Undisturbed) :
    Outcome r id setting.clock.draw.1 setting.store ((apply policy r).run setting).1
      ((apply policy r).run setting).2.store := by
  cases hvalidate : r.validate with
  | error fault => exact outcome_invalid hvalidate
  | ok _ =>
    have hform := TransactionRequest.validate_eq_ok_iff.1 hvalidate
    have hnow : Fits setting.clock.draw.1 := halone.clock setting.clock.drawn
    rw [run_apply_keyed hkey hvalidate, Program.run_transact_still
      (t := { setting with clock := setting.clock.draw.2 }) policy halone.intrusions]
    by_cases hnew : setting.store.read? (transactionKey id) = none
    · have hgranted : (∃ plan, decide r id setting.clock.draw.1
          (Snapshot.atOnce setting.store (keys r id)) = .ok plan) ↔ Bears setting.store r :=
        exists_decide_iff hs hnew fun _ hsender => kind_ne_reward hvalidate hsender
      cases hdecision : decide r id setting.clock.draw.1
          (Snapshot.atOnce setting.store (keys r id)) with
      | error e =>
        refine .refused e (.inr ⟨hnew, fun hbears => ?_⟩)
        obtain ⟨plan, hplan⟩ := hgranted.2 hbears
        cases hdecision.symm.trans hplan
      | ok plan =>
        have hbears := hgranted.1 ⟨plan, hdecision⟩
        obtain ⟨parties, hplanned⟩ := planned_of_decide hs hvalidate hnew hdecision
        obtain ⟨t, ht⟩ := hplanned.applies hvalidate hnew
        have hwrites : plan.writes ≠ [] := hplanned.writes ▸ by simp
        obtain ⟨_, hmakes⟩ := booking_of_decide .supplied hs hvalidate hnow trivial
          ⟨hdecision, hwrites, ht⟩
        simp only [ht, hplanned.result]
        exact .applied hform hnew hbears (applied_of_booking hs hbalanced hbears hmakes)
    · rw [decide_of_present hnew]
      exact .replayed hform hnew

/-- **A request that nobody interferes with** comes to one of its outcomes. -/
theorem outcome_of_run (hs : setting.store.WellTyped) (hbalanced : Balanced setting.store)
    (halone : setting.Undisturbed) :
    Outcome r (r.key.getD setting.ids.draw.1) setting.clock.draw.1 setting.store
      ((apply policy r).run setting).1 ((apply policy r).run setting).2.store := by
  cases hkey : r.key with
  | some id => exact outcome_keyed hkey hs hbalanced halone
  | none =>
    cases hvalidate : r.validate with
    | error fault => exact outcome_invalid hvalidate
    | ok _ =>
      rw [run_apply_drawn hkey hvalidate]
      let start : Setting := { setting with ids := setting.ids.draw.2 }
      let keyed : TransactionRequest := { r with key := some setting.ids.draw.1 }
      have houtcome : Outcome keyed setting.ids.draw.1 start.clock.draw.1 start.store
          ((apply policy keyed).run start).1 ((apply policy keyed).run start).2.store :=
        outcome_keyed rfl hs hbalanced ⟨halone.intrusions, halone.clock⟩
      exact houtcome.of_key

end

/-! ## The exact effect -/

/-- A request is applied to a store as it is: it is well formed, it has no key or one that no
transaction is stored under, and the accounts of its parties bear it. -/
structure Grants (s : Store) (r : TransactionRequest) : Prop where
  form : r.WellFormed
  unrecorded : ∀ key ∈ r.key, s.read? (transactionKey key) = none
  bears : Bears s r

/-- A request is on record: it is well formed, and a transaction is stored under its key. -/
def OnRecord (s : Store) (r : TransactionRequest) : Prop :=
  r.WellFormed ∧ ∃ key ∈ r.key, s.read? (transactionKey key) ≠ none

/-- **The exact effect of a request.** In every reachable state a request that nobody interferes
with is applied if and only if it is granted: then the amount moves, one transaction is recorded,
and no other document changes. A request on record is answered by its id and changes nothing,
whatever the balances are now. Any other request is refused and changes nothing.

A request that was refused has not used its key up: when its parties have come to bear it, and
nothing else was applied under its key, it is applied. -/
theorem requests_take_exact_effect (ttl : Int) (es : List Event) {policy : RetryPolicy}
    {r : TransactionRequest} {setting : Setting}
    (hreached : setting.store = ((World.initial ttl).after es).store)
    (halone : setting.Undisturbed)
    (hid : r.key = none → setting.store.read? (transactionKey setting.ids.draw.1) = none) :
    let s := setting.store
    let id := r.key.getD setting.ids.draw.1
    let answer := ((apply policy r).run setting).1
    let t := ((apply policy r).run setting).2.store
    ((∃ receipt, answer = .ok receipt ∧ receipt.replayed = false) ↔ Grants s r) ∧
    (Grants s r → answer = .ok ⟨id, false⟩ ∧ Applied r id setting.clock.draw.1 s t) ∧
    (OnRecord s r → answer = .ok ⟨id, true⟩ ∧ t = s) ∧
    (¬ Grants s r → ¬ OnRecord s r → ∃ e, answer = .error e ∧ t = s) ∧
    ∀ e, answer = .error e → ∀ key ∈ r.key, r.WellFormed →
      t.read? (transactionKey key) = none ∧ ¬ Bears s r ∧
      ∀ (es' : List Event) (policy' : RetryPolicy) (later : Setting),
        later.store = ((World.initial ttl).after (es ++ es')).store → later.Undisturbed →
        later.store.read? (transactionKey key) = none → Bears later.store r →
          ((apply policy' r).run later).1 = .ok ⟨key, false⟩ ∧
            Applied r key later.clock.draw.1 later.store ((apply policy' r).run later).2.store := by
  intro s id answer t
  have houtcome : ∀ (es : List Event) (policy : RetryPolicy) (setting : Setting),
      setting.store = ((World.initial ttl).after es).store → setting.Undisturbed →
      Outcome r (r.key.getD setting.ids.draw.1) setting.clock.draw.1 setting.store
        ((apply policy r).run setting).1 ((apply policy r).run setting).2.store := by
    intro es policy setting hreached halone
    have hregular : setting.store.Regular := by
      rw [hreached]
      exact World.regular_after ttl es
    exact outcome_of_run hregular.wellTyped hregular.balanced halone
  have hfirst : Outcome r id setting.clock.draw.1 s answer t :=
    houtcome es policy setting hreached halone
  have hunrecorded : (∀ key ∈ r.key, s.read? (transactionKey key) = none) ↔
      s.read? (transactionKey id) = none := by
    cases hkey : r.key with
    | none => simpa [id, hkey] using hid hkey
    | some key => simp [id, hkey]
  refine ⟨⟨?_, ?_⟩, ?_, ?_, ?_, ?_⟩
  · rintro ⟨receipt, hanswer, hfresh⟩
    rw [hanswer] at hfirst
    obtain ⟨hform, hnew, hbears⟩ := hfirst.bears_of_fresh hfresh
    exact ⟨hform, hunrecorded.2 hnew, hbears⟩
  · rintro ⟨hform, hnew, hbears⟩
    exact ⟨_, (hfirst.of_bears hform (hunrecorded.1 hnew) hbears).1, rfl⟩
  · rintro ⟨hform, hnew, hbears⟩
    exact hfirst.of_bears hform (hunrecorded.1 hnew) hbears
  · rintro ⟨hform, key, hkey, hold⟩
    refine hfirst.of_present hform fun hnew => hold (hunrecorded.2 hnew key hkey)
  · intro hgrants hrecord
    cases hanswer : answer with
    | error e =>
      rw [hanswer] at hfirst
      exact ⟨e, rfl, hfirst.of_error.1⟩
    | ok receipt =>
      rw [hanswer] at hfirst
      obtain ⟨hform, hold | ⟨hnew, hbears⟩⟩ := hfirst.of_ok
      · refine absurd ⟨hform, ?_⟩ hrecord
        simpa using mt hunrecorded.1 hold
      · exact absurd ⟨hform, hunrecorded.2 hnew, hbears⟩ hgrants
  · intro e hanswer key hkey hform
    rw [hanswer] at hfirst
    obtain ⟨hsame, hobstacle⟩ := hfirst.of_error
    obtain ⟨hnew, hbears⟩ := hobstacle hform
    have hid' : id = key := by simp [id, Option.mem_def.1 hkey]
    rw [hid'] at hnew
    refine ⟨hsame ▸ hnew, hbears, ?_⟩
    intro es' policy' later hlater halone' hnew' hbears'
    have houtcome' := houtcome (es ++ es') policy' later hlater halone'
    rw [Option.mem_def.1 hkey] at houtcome'
    exact houtcome'.of_bears hform hnew' hbears'

/-- A penalty that is taken under a key. -/
def fine : TransactionRequest :=
  { TransactionRequest.plain .penalty (some "ana") none 3 with key := some "fine" }

/-- A reward that covers the `fine`. -/
def prize : List Event :=
  .called ⟨1⟩ (.apply (.plain .reward none (some "ana") 5)) ::
    (List.replicate 5 (.served 3 ⟨none, ⟨1700000001, 0⟩, "44444444-4444-4444-8444-444444444444"⟩))

/-- What is stored after the `prize`. -/
def prizeStore : Store := ((World.initial 0).after (walkBegun ++ prize)).store

/-- In `walkStore` the `fine` is refused, as Ana has nothing to take it from. In `prizeStore` it is
taken. -/
theorem fine_taken_after_prize :
    let start : Setting := .still walkStore ⟨1700000002, 0⟩
    let later : Setting := .still prizeStore ⟨1700000003, 0⟩
    (∃ e, ((apply ⟨1⟩ fine).run start).1 = .error e ∧
      ((apply ⟨1⟩ fine).run start).2.store = start.store) ∧
    ((apply ⟨1⟩ fine).run later).1 = .ok ⟨"fine", false⟩ ∧
      Applied fine "fine" ⟨1700000003, 0⟩ later.store ((apply ⟨1⟩ fine).run later).2.store := by
  intro start later
  have hstart : start.Undisturbed := Setting.undisturbed_still (by decide)
  have hlater : later.Undisturbed := Setting.undisturbed_still (by decide)
  have hform : fine.WellFormed := ⟨by decide, by decide, by decide⟩
  have hanswer : ((apply ⟨1⟩ fine).run start).1 =
      .error (.insufficientBalance "ana" 0 3) := by
    decide +kernel
  have hreached : later.store = ((World.initial 0).after (walkBegun ++ prize)).store :=
    (Setting.store_still prizeStore _).trans rfl
  have hnew : later.store.read? (transactionKey "fine") = none := by decide +kernel
  have hbears : Bears later.store fine := by
    refine ⟨?_, nofun⟩
    rintro subject ⟨⟩
    exact ⟨⟨"ana", 5, ⟨1700000000, 0⟩⟩, by decide +kernel, by decide⟩
  obtain ⟨-, -, -, hrefused, hfailed⟩ :=
    @requests_take_exact_effect 0 walkBegun ⟨1⟩ fine start rfl hstart nofun
  obtain ⟨-, hobstacle, hagain⟩ := hfailed _ hanswer "fine" rfl hform
  have hunrecorded : ¬ OnRecord start.store fine := by
    rintro ⟨-, _, ⟨⟩, hold⟩
    exact hold (by decide +kernel)
  exact ⟨hrefused (fun h => hobstacle h.bears) hunrecorded,
    hagain prize ⟨1⟩ later hreached hlater hnew hbears⟩

end RitualLedger.Ledger
