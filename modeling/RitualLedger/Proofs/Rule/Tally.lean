import RitualLedger.Proofs.Rule.Course
import RitualLedger.Proofs.Rule.Keys

/-!
# Running balances

The amounts of a course of errands are tallied against one balance. `runningBalance` is the fold
that says so: a reward is added where the sum is a balance, a penalty is subtracted where it is
covered, and any other amount is refused and leaves the balance as it is, as do tasks that are
unlocked and messages that are queued. What the ledger has on record is passed over.

The main statement is `Course.tallied`: the accounts and the results of a course are those of the
fold. An errand books under its own key only, so what is on record for an errand when its turn comes
was on record at the beginning, as long as no errand before it has booked under its key.
-/

namespace RitualLedger

open Ledger (transactionKey accountKey)

/-! ## The fold -/

/-- What becomes of an amount. -/
inductive Verdict where
  /-- It is added to the balance, or subtracted from it. -/
  | granted
  /-- It is on record already. -/
  | passed
  | refused
deriving DecidableEq, Repr

/-- The verdict that a status reports. -/
def ActionStatus.verdict : ActionStatus → Verdict
  | .success => .granted
  | .skipped _ => .passed
  | .failed _ _ => .refused

namespace Action

/-- Whether an action is an amount of tokens. -/
def isAmount : Action → Bool
  | .reward _ | .penalty _ => true
  | .unlockTask _ | .notify _ => false

/-- Whether an amount is one that a balance could ever bear. -/
def InRange : Action → Prop
  | .reward amount | .penalty amount => 1 ≤ amount.toNat ∧ (amount.toNat : Int) ≤ 2 ^ 63 - 1
  | .unlockTask _ | .notify _ => True

instance : (a : Action) → Decidable a.InRange
  | .reward _ | .penalty _ => inferInstanceAs (Decidable (_ ∧ _))
  | .unlockTask _ | .notify _ => inferInstanceAs (Decidable True)

/-- What a balance comes to with an amount, if it bears the amount. -/
def borne? (balance : Int) : Action → Option Int
  | .reward amount =>
    if 1 ≤ amount.toNat ∧ balance + amount.toNat ≤ 2 ^ 63 - 1 then some (balance + amount.toNat)
    else none
  | .penalty amount =>
    if 1 ≤ amount.toNat ∧ amount.toNat ≤ balance then some (balance - amount.toNat) else none
  | .unlockTask _ | .notify _ => none

end Action

/-- An action whose turn comes. -/
structure Entry where
  action : Action
  /-- The ledger has a transaction under the key of the action. -/
  onRecord : Bool
deriving DecidableEq, Repr

namespace Entry

/-- What becomes of an amount whose turn comes at a balance. -/
def verdict (balance : Int) (x : Entry) : Verdict :=
  if x.onRecord ∧ x.action.InRange then .passed
  else if (x.action.borne? balance).isSome then .granted
  else .refused

/-- The balance afterwards. -/
def next (balance : Int) (x : Entry) : Int :=
  if x.onRecord then balance else (x.action.borne? balance).getD balance

end Entry

/-- The balance after some actions whose turns come one after the other. -/
def runningBalance (balance : Int) (entries : List Entry) : Int := entries.foldl Entry.next balance

/-- Actions are tallied: there is one result for each, in order, and the account of the subject and
the results of the amounts are those of the running balance. -/
structure Tallied (subject : String) (s t : Store) (entries : List Entry)
    (results : List ActionResult) : Prop where
  inOrder : results.map (·.action) = entries.map (·.action)
  balance : ∀ a, s.get? Account (accountKey subject) = some a →
    ∃ a', t.get? Account (accountKey subject) = some a' ∧
      a'.tokenBalance.toInt = runningBalance a.tokenBalance.toInt entries
  verdicts : ∀ a, s.get? Account (accountKey subject) = some a →
    ∀ (p : Nat) (x : Entry) (r : ActionResult), entries[p]? = some x → results[p]? = some r →
      x.action.isAmount = true →
        r.status.verdict = x.verdict (runningBalance a.tokenBalance.toInt (entries.take p))

namespace Tallied

variable {subject : String} {s t u : Store} {entries : List Entry} {results : List ActionResult}

theorem nil (subject : String) (s : Store) : Tallied subject s s [] [] :=
  ⟨rfl, fun a ha => ⟨a, ha, rfl⟩, fun _ _ _ _ _ hx => by cases hx⟩

/-- One more action is tallied first. -/
theorem cons {x : Entry} {r : ActionResult} (hrest : Tallied subject u t entries results)
    (haction : r.action = x.action)
    (hfirst : ∀ a, s.get? Account (accountKey subject) = some a →
      (x.action.isAmount = true → r.status.verdict = x.verdict a.tokenBalance.toInt) ∧
        ∃ a', u.get? Account (accountKey subject) = some a' ∧
          a'.tokenBalance.toInt = x.next a.tokenBalance.toInt) :
    Tallied subject s t (x :: entries) (r :: results) where
  inOrder := by rw [List.map_cons, List.map_cons, haction, hrest.inOrder]
  balance a ha := by
    obtain ⟨-, a', ha', hnext⟩ := hfirst a ha
    obtain ⟨a'', ha'', hbalance⟩ := hrest.balance a' ha'
    refine ⟨a'', ha'', ?_⟩
    rw [hbalance, hnext]
    rfl
  verdicts a ha p y q hy hq hamount := by
    obtain ⟨hverdict, a', ha', hnext⟩ := hfirst a ha
    cases p with
    | zero =>
      cases hy
      cases hq
      exact hverdict hamount
    | succ p =>
      have hlater := hrest.verdicts a' ha' p y q hy hq hamount
      rw [hnext] at hlater
      exact hlater

end Tallied

namespace Errand

variable {e : Errand} {s t : Store} {answer : Except EngineError ActionEffect} {a : Account}

/-! ## One errand -/

/-- The errand has an amount to book. -/
def Books (e : Errand) : Prop := ∃ r, e.request? = some r ∧ r.validate = .ok ()

/-- An entry stands for an errand. -/
structure Counts (s : Store) (e : Errand) (x : Entry) : Prop where
  action : x.action = e.action
  onRecord : e.action.isAmount = true →
    (x.onRecord = true ↔ s.read? (transactionKey e.key) ≠ none)

/-- An errand touches no transaction but its own. -/
theorem Made.transaction_of_ne (h : e.Made s t) {id : String} (hid : e.Books → id ≠ e.key) :
    t.read? (transactionKey id) = s.read? (transactionKey id) := by
  cases h with
  | booked r now parties hr h =>
    have hne := hid ⟨r, hr, h.allowed.valid⟩
    rw [h.made]
    refine Store.read?_putAll_of_notMem ?_
    intro w hw
    rcases List.mem_append.1 hw with hw | hw
    · obtain ⟨party, -, rfl⟩ := List.mem_map.1 hw
      exact Collection.key_ne_of_ne (by decide)
    · rw [List.mem_singleton.1 hw]
      exact Collection.key_ne_of_id_ne hne.symm
  | queued message now ha h => exact h.untouched (by simp [Change.collections]) id
  | unlocked index now a ha hsubject hritual h =>
    exact h.untouched (by simp [Change.collections]) id

theorem Performs.transaction_of_ne (h : e.Performs s answer t) {id : String}
    (hid : e.Books → id ≠ e.key) :
    t.read? (transactionKey id) = s.read? (transactionKey id) := by
  cases h with
  | again | refused => rfl
  | anew hvalid hnew hpossible h => exact h.transaction_of_ne hid

/-- What stands for an errand goes on to stand for it after another errand. -/
theorem Counts.after {e' : Errand} {x : Entry} (hx : e'.Counts s x) (h : e.Performs s answer t)
    (hid : e.Books → e'.key ≠ e.key) : e'.Counts t x :=
  ⟨hx.action, fun hamount => by rw [h.transaction_of_ne hid]; exact hx.onRecord hamount⟩

/-- An errand that is no amount leaves all accounts alone. -/
theorem Made.account_of_not_amount (h : e.Made s t) (hamount : e.action.isAmount = false)
    (subject : String) :
    t.get? Account (accountKey subject) = s.get? Account (accountKey subject) := by
  cases h with
  | booked r now parties hr h =>
    rw [request?] at hr
    cases ha : e.action with
    | reward amount | penalty amount => simp [ha, Action.isAmount] at hamount
    | unlockTask index | notify message => simp [ha] at hr
  | queued message now ha h => exact h.get?_untouched (by simp [Change.collections]) subject
  | unlocked index now a ha hsubject hritual h =>
    exact h.get?_untouched (by simp [Change.collections]) subject

/-- An amount is valid when it is in range. -/
theorem valid_iff_inRange (hname : e.subject ≠ "") (hamount : e.action.isAmount = true) :
    e.Valid ↔ e.action.InRange := by
  rw [Valid, request?]
  cases ha : e.action with
  | reward amount | penalty amount =>
    simp only [Option.mem_some_iff, forall_eq', TransactionRequest.validate_eq_ok_iff,
      Action.InRange]
    constructor
    · rintro ⟨hpositive, hsmall, -⟩
      exact ⟨hpositive, Int.ofNat_le.2 hsmall⟩
    · rintro ⟨hpositive, hsmall⟩
      exact ⟨hpositive, Int.ofNat_le.1 hsmall, hname⟩
  | unlockTask index | notify message => simp [ha, Action.isAmount] at hamount

/-- An amount is possible when the balance bears it. -/
theorem borne?_isSome_iff (hbalance : 0 ≤ a.tokenBalance.toInt)
    (haccount : s.get? Account (accountKey e.subject) = some a)
    (hamount : e.action.isAmount = true) :
    (e.action.borne? a.tokenBalance.toInt).isSome = true ↔ e.action.InRange ∧ e.Possible s := by
  have hmax := a.tokenBalance.toInt_lt
  rw [Possible]
  cases ha : e.action with
  | reward amount =>
    simp only [Action.borne?, Action.InRange, haccount, Option.some.injEq, exists_eq_left',
      Ledger.largestBalance_eq]
    split
    · rename_i hborne
      exact ⟨fun _ => ⟨⟨hborne.1, by omega⟩, hborne.2⟩, fun _ => rfl⟩
    · rename_i hrefused
      exact ⟨nofun, fun h => absurd ⟨h.1.1, h.2⟩ hrefused⟩
  | penalty amount =>
    simp only [Action.borne?, Action.InRange, haccount, Option.some.injEq, exists_eq_left']
    split
    · rename_i hborne
      exact ⟨fun _ => ⟨⟨hborne.1, by omega⟩, hborne.2⟩, fun _ => rfl⟩
    · rename_i hrefused
      exact ⟨nofun, fun h => absurd ⟨h.1.1, h.2⟩ hrefused⟩
  | unlockTask index | notify message => simp [ha, Action.isAmount] at hamount

/-- An amount that is booked moves the balance to what it comes to. -/
theorem Made.balance (h : e.Made s t) (hs : s.Regular)
    (haccount : s.get? Account (accountKey e.subject) = some a)
    (hamount : e.action.isAmount = true) :
    ∃ a', t.get? Account (accountKey e.subject) = some a' ∧
      ∀ b, e.action.borne? a.tokenBalance.toInt = some b → a'.tokenBalance.toInt = b := by
  have hbalance := (hs.balanced.balance _ a haccount).1
  cases h with
  | booked r now parties hr h =>
    obtain ⟨a', ha', hmoves⟩ := (Ledger.account_of_booking hs.wellTyped h e.subject).2 a haccount
    refine ⟨a', ha', fun b hb => ?_⟩
    rw [(hmoves.balance hbalance).2]
    rw [request?] at hr
    cases ha : e.action with
    | reward amount | penalty amount =>
      rw [ha] at hr hb
      cases hr
      simp only [Action.borne?, Option.ite_none_right_eq_some, Option.some.injEq] at hb
      rw [← hb.2]
      simp [Transaction.delta, Ledger.record, Action.booking, TransactionRequest.plain,
        sub_eq_add_neg]
    | unlockTask index | notify message => simp [ha, Action.isAmount] at hamount
  | queued message now ha h => simp [ha, Action.isAmount] at hamount
  | unlocked index now a ha hsubject hritual h => simp [ha, Action.isAmount] at hamount

theorem exists_request (hamount : e.action.isAmount = true) : ∃ r, e.request? = some r := by
  rw [request?]
  cases ha : e.action with
  | reward amount | penalty amount => exact ⟨_, rfl⟩
  | unlockTask index | notify message => simp [ha, Action.isAmount] at hamount

/-- An amount that is done reports whether it was done before. -/
theorem status_of_amount (hamount : e.action.isAmount = true) (new : Bool) :
    (e.result (.ok (e.effect new))).status =
      if new then .success else .skipped "already applied" := by
  obtain ⟨r, hr⟩ := exists_request hamount
  rw [(asks_of_request? hr).effect]
  cases new <;> rfl

/-- An errand that is not about an amount leaves the balance alone. -/
theorem Performs.tally_of_not_amount (h : e.Performs s answer t) {x : Entry}
    (hx : x.action = e.action) (haccount : s.get? Account (accountKey e.subject) = some a)
    (hamount : ¬ e.action.isAmount = true) :
    ∃ a', t.get? Account (accountKey e.subject) = some a' ∧
      a'.tokenBalance.toInt = x.next a.tokenBalance.toInt := by
  refine ⟨a, ?_, ?_⟩
  · cases h with
    | again | refused => exact haccount
    | anew hvalid hnew hpossible h =>
      rw [h.account_of_not_amount (Bool.eq_false_iff.2 hamount)]
      exact haccount
  · have hnone : e.action.borne? a.tokenBalance.toInt = none := by
      cases ha : e.action with
      | reward amount | penalty amount => simp [ha, Action.isAmount] at hamount
      | unlockTask index | notify message => rfl
    rw [Entry.next, hx, hnone]
    exact (ite_self _).symm

/-- An errand about an amount that is on record already is passed over, one that the balance bears
is granted, and any other is refused. -/
theorem Performs.tally_of_amount (h : e.Performs s answer t) (hs : s.Regular)
    (hname : e.subject ≠ "") {x : Entry} (hx : e.Counts s x)
    (haccount : s.get? Account (accountKey e.subject) = some a)
    (hamount : e.action.isAmount = true) :
    (e.result answer).status.verdict = x.verdict a.tokenBalance.toInt ∧
    ∃ a', t.get? Account (accountKey e.subject) = some a' ∧
      a'.tokenBalance.toInt = x.next a.tokenBalance.toInt := by
  rw [Entry.verdict, Entry.next, hx.action]
  have hrange := valid_iff_inRange hname hamount
  have hborne := borne?_isSome_iff (hs.balanced.balance _ a haccount).1 haccount hamount
  obtain ⟨r, hr⟩ := exists_request hamount
  have hsettled := ((asks_of_request? hr).settled s).trans (hx.onRecord hamount).symm
  cases h with
  | again hvalid hold =>
    have honRecord := hsettled.1 hold
    refine ⟨?_, a, haccount, (if_pos honRecord).symm⟩
    rw [status_of_amount hamount, if_neg Bool.false_ne_true,
      if_pos ⟨honRecord, hrange.1 hvalid⟩]
    rfl
  | anew hvalid hnew hpossible h =>
    have hoffRecord : ¬ x.onRecord = true := fun honRecord => hnew (hsettled.2 honRecord)
    have hsome := hborne.2 ⟨hrange.1 hvalid, hpossible⟩
    obtain ⟨b, hb⟩ := Option.isSome_iff_exists.1 hsome
    obtain ⟨a', ha', hmoved⟩ := h.balance hs haccount hamount
    refine ⟨?_, a', ha', ?_⟩
    · rw [status_of_amount hamount, if_pos rfl, if_neg fun h => hoffRecord h.1, if_pos hsome]
      rfl
    · rw [if_neg hoffRecord, hb, hmoved b hb]
      rfl
  | refused error h =>
    -- An amount that is not in range is not borne, on record or not.
    have hnone : ¬ (e.action.borne? a.tokenBalance.toInt).isSome = true := by
      intro hsome
      obtain ⟨hin, hpossible⟩ := hborne.1 hsome
      rcases h with hinvalid | ⟨-, himpossible⟩
      · exact hinvalid (hrange.2 hin)
      · exact himpossible hpossible
    have hnot : ¬ (x.onRecord = true ∧ e.action.InRange) := by
      rintro ⟨honRecord, hin⟩
      rcases h with hinvalid | ⟨hnew, -⟩
      · exact hinvalid (hrange.2 hin)
      · exact hnew (hsettled.2 honRecord)
    refine ⟨?_, a, haccount, ?_⟩
    · rw [if_neg hnot, if_neg hnone]
      rfl
    · rw [Option.not_isSome_iff_eq_none.1 hnone]
      exact (ite_self _).symm

/-- **An errand is tallied.** -/
theorem Performs.tally (h : e.Performs s answer t) (hs : s.Regular) (hname : e.subject ≠ "")
    {x : Entry} (hx : e.Counts s x) (haccount : s.get? Account (accountKey e.subject) = some a) :
    (x.action.isAmount = true →
      (e.result answer).status.verdict = x.verdict a.tokenBalance.toInt) ∧
    ∃ a', t.get? Account (accountKey e.subject) = some a' ∧
      a'.tokenBalance.toInt = x.next a.tokenBalance.toInt := by
  rw [hx.action]
  by_cases hamount : e.action.isAmount = true
  · obtain ⟨hverdict, hbalance⟩ := h.tally_of_amount hs hname hx haccount hamount
    exact ⟨fun _ => hverdict, hbalance⟩
  · exact ⟨fun h' => absurd h' hamount, h.tally_of_not_amount hx.action haccount hamount⟩

end Errand

/-! ## Courses -/

/-- **A course is tallied.** It is one of errands for one subject, none of which comes under a key
that an errand before it has booked. -/
theorem Course.tallied {s t : Store} {errands : List Errand} {results : List ActionResult}
    (h : Course s errands results t) (hs : s.Regular) {subject : String} (hname : subject ≠ "")
    (hsubject : ∀ e ∈ errands, e.subject = subject)
    (hkeys : errands.Pairwise fun e e' => e.Books → e'.key ≠ e.key) {entries : List Entry}
    (hentries : List.Forall₂ (Errand.Counts s) errands entries) :
    Tallied subject s t entries results := by
  induction h generalizing entries with
  | done s =>
    cases hentries
    exact .nil subject s
  | @next s u t e answer rest results hfirst hrest ih =>
    cases hentries with
    | @cons _ x _ entries hx hothers =>
      obtain ⟨hfirstKey, hrestKeys⟩ := List.pairwise_cons.1 hkeys
      obtain rfl := hsubject e List.mem_cons_self
      have hlater : List.Forall₂ (Errand.Counts u) rest entries :=
        ((List.forall₂_and_left rest entries).2 ⟨hfirstKey, hothers⟩).imp
          fun e' x' h => h.2.after hfirst h.1
      refine (ih (hfirst.regular hs) (fun e he => hsubject e (List.mem_cons_of_mem _ he)) hrestKeys
        hlater).cons ?_ fun a ha => hfirst.tally hs hname hx ha
      rw [hx.action]
      cases answer <;> rfl

/-! ## Batches -/

namespace Batch

variable {b : Batch} {actions : List Action}

/-- The actions of a batch, each with what the ledger has on record for it. Without a scope there is
nothing that could be on record. -/
def entries (b : Batch) (s : Store) (actions : List Action) : List Entry :=
  actions.zipIdx.map fun (a, position) =>
    ⟨a, (b.key position).any fun key => (s.read? (transactionKey key)).isSome⟩

/-- The keys of a scope differ in their positions. -/
theorem position_injective (scope : Scope) : Function.Injective scope.key := fun _ _ h =>
  Text.number_injective (Text.cut_right (Text.noColon_number _) (Text.noColon_number _) h).2

theorem nodup_keys (b : Batch) (scope : Scope) (position : Nat) (actions : List Action) :
    ((b.errands scope position actions).map (·.key)).Nodup := by
  have hkeys : (b.errands scope position actions).map (·.key) =
      ((actions.zipIdx position).map Prod.snd).map scope.key := by
    rw [errands, List.map_map, List.map_map]
    rfl
  rw [hkeys, List.zipIdx_map_snd]
  exact (List.nodup_range' ).map (position_injective scope)

theorem counts_entries {scope : Scope} (hscope : b.scope = some scope) (s : Store)
    (actions : List Action) :
    List.Forall₂ (Errand.Counts s) (b.errands scope 0 actions) (b.entries s actions) := by
  rw [errands, entries, List.forall₂_map_left_iff, List.forall₂_map_right_iff, List.forall₂_same]
  rintro ⟨a, position⟩ -
  refine ⟨rfl, fun _ => ?_⟩
  simp [key, hscope, Option.isSome_iff_ne_none]

/-- Where no key of a batch is on record, its entries are its actions. -/
theorem entries_of_unused {s : Store} (hunused : ∀ p < actions.length, ∀ key ∈ b.key p,
    s.read? (transactionKey key) = none) : b.entries s actions = actions.map (⟨·, false⟩) := by
  have hactions : actions.map (fun a => (⟨a, false⟩ : Entry)) =
      (actions.zipIdx.map Prod.fst).map fun a => ⟨a, false⟩ := by
    rw [List.zipIdx_map_fst]
  rw [hactions, List.map_map, entries]
  refine List.map_congr_left ?_
  rintro ⟨a, p⟩ hmem
  have hp : p < actions.length := by
    have hlt := List.snd_lt_add_of_mem_zipIdx hmem
    omega
  have hnone : (b.key p).any (fun key => (s.read? (transactionKey key)).isSome) = false := by
    refine (Option.any_eq_false _ _).2 fun key hkey => ?_
    rw [hunused p hp key hkey]
    rfl
  change Entry.mk a _ = ⟨a, false⟩
  rw [hnone]

end Batch

end RitualLedger
