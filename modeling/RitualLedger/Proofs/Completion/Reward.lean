import RitualLedger.Proofs.Completion.Course

/-!
# The reward of a task

The reward is the first errand of a step, and the only one under its key. So it is credited once if
it can be credited when the step is taken, and not at all if it cannot: when there is none, when its
key is in use already, or when the balance cannot hold it (`Completion.booked_of_course`). A reward
that is not credited does not hold up the step.
-/

namespace RitualLedger

open Ledger (transactionKey accountKey)

/-- The transactions under an id. -/
def Store.booked (s : Store) (id : String) : List Transaction :=
  (s.all Transaction).filter (·.id = id)

variable {s t u : Store} {id : String}

/-- Where nothing is stored under an id there are no transactions. -/
theorem Store.Regular.booked_of_absent (hs : s.Regular) (h : s.read? (transactionKey id) = none) :
    s.booked id = [] :=
  hs.wellTyped.filter_all_of_absent (·.id) hs.distinctKeys (fun _ _ hname => hname)
    (fun _ => of_decide_eq_true) h

/-- Other errands book nothing under an id. -/
theorem Errand.Made.booked_of_ne {e : Errand} (h : e.Made s t) (hne : e.key ≠ id) :
    t.booked id = s.booked id := by
  rw [Store.booked, Store.booked]
  cases h with
  | booked r now parties hr h =>
    have hother : (Ledger.record r e.key now).id ≠ id := hne
    rw [Ledger.all_of_booking h, List.filter_append, List.filter_singleton,
      decide_eq_false hother]
    exact List.append_nil _
  | queued message now ha h =>
    rw [h.all_untouched (by simp [Change.collections, Record.collection])]
  | unlocked index now a ha hsubject hritual h =>
    rw [h.all_untouched (by simp [Change.collections, Record.collection])]

/-- A transaction is booked under the key of its errand, once. -/
theorem Errand.Made.booked_anew {e : Errand} {request : TransactionRequest} (h : e.Made s t)
    (hs : s.Regular) (hrequest : e.request? = some request)
    (hnew : s.read? (transactionKey e.key) = none) :
    ∃ now, t.booked e.key = [Ledger.record request e.key now] := by
  have habsent := hs.booked_of_absent hnew
  cases h with
  | booked r now parties hr h =>
    cases hrequest.symm.trans hr
    refine ⟨now, ?_⟩
    rw [Store.booked] at habsent ⊢
    rw [Ledger.all_of_booking h, List.filter_append, habsent, List.nil_append]
    exact List.filter_cons_of_pos (decide_eq_true rfl)
  | queued message now ha h =>
    rw [Errand.request?, ha] at hrequest
    cases hrequest
  | unlocked index now a ha hsubject hritual h =>
    rw [Errand.request?, ha] at hrequest
    cases hrequest

theorem Course.booked_of_ne {errands : List Errand} {results : List ActionResult}
    (h : Course s errands results t) (hs : s.Regular) (hne : ∀ e ∈ errands, e.key ≠ id) :
    t.booked id = s.booked id :=
  (h.induction_on_errands (P := fun u => u.booked id = s.booked id) hs rfl
    fun _ _ e _ he hsame hmade => (hmade.booked_of_ne (hne e he)).trans hsame).2

/-- All errands of a batch have keys of its scope. -/
theorem Batch.key_of_mem_errands {b : Batch} {scope : Scope} {position : Nat}
    {actions : List Action} {e : Errand} (h : e ∈ b.errands scope position actions) :
    ∃ p, e.key = scope.key p := by
  obtain ⟨⟨a, p⟩, -, rfl⟩ := List.mem_map.1 h
  exact ⟨p, rfl⟩

/-- The reward of a task can be credited for a step: there is one, its key is not in use, and the
balance can hold it. -/
structure Payable (s : Store) (step : Step) (reward : UInt64) : Prop where
  present : reward ≠ 0
  new : s.read? (transactionKey ((Scope.reward step).key 0)) = none
  fits : ∃ a, s.get? Account (accountKey step.subject) = some a ∧
    a.tokenBalance.toInt + reward.toNat ≤ Ledger.largestBalance

/-- A transaction credits a subject with an amount. -/
structure Transaction.Credits (tx : Transaction) (subject : String) (amount : UInt64) : Prop where
  kind : tx.kind = .reward
  sender : tx.senderId = none
  receiver : tx.receiverId = some subject
  amount : tx.amount = amount

namespace Completion

variable {step : Step} {evidence : Evidence} {r : Ritual} {a : Assignment} {task : Task}
  {now : Instant} {results : List ActionResult}

/-- The errand that the reward of a task is. -/
def rewardErrand (step : Step) (reward : UInt64) : Errand :=
  ⟨step.ritual, step.subject, none, (Scope.reward step).key 0, .reward reward⟩

theorem payable_iff {reward : UInt64} (hs : s.Regular) (hname : step.subject ≠ "") :
    Payable s step reward ↔ reward ≠ 0 ∧ (rewardErrand step reward).Valid ∧
      ¬ (rewardErrand step reward).Settled s ∧ (rewardErrand step reward).Possible s := by
  constructor
  · rintro ⟨hpresent, hnew, account, haccount, hfits⟩
    refine ⟨hpresent, ?_, fun hsettled => hsettled hnew, account, haccount, hfits⟩
    have hbalance := (hs.balanced.balance _ account haccount).1
    rintro _ ⟨⟩
    have hamount : ¬ Int64.maxValue.toInt < reward.toNat := by
      rw [Ledger.largestBalance] at hfits
      omega
    simp [TransactionRequest.validate, Action.booking, TransactionRequest.plain, rewardErrand,
      hpresent, hamount, hname, TransactionRequest.validateParties]
  · rintro ⟨hpresent, -, hnew, account, haccount, hfits⟩
    exact ⟨hpresent, not_not.1 hnew, account, haccount, hfits⟩

/-- A step moves no amounts. -/
theorem payable_stepping {reward : UInt64}
    (h : (Change.stepping step r a task evidence now).Makes s t) :
    Payable s step reward ↔ Payable t step reward := by
  have hkey : t.read? (transactionKey ((Scope.reward step).key 0)) =
      s.read? (transactionKey ((Scope.reward step).key 0)) :=
    h.untouched (c := .transactions) (by simp [Change.collections]) _
  have haccount : t.get? Account (accountKey step.subject) =
      s.get? Account (accountKey step.subject) :=
    h.get?_untouched (c := .accounts) (by simp [Change.collections]) _
  constructor
  · rintro ⟨hpresent, hnew, hfits⟩
    exact ⟨hpresent, hkey ▸ hnew, haccount ▸ hfits⟩
  · rintro ⟨hpresent, hnew, hfits⟩
    exact ⟨hpresent, hkey ▸ hnew, haccount ▸ hfits⟩

/-- What else follows a step has other keys than the reward. -/
theorem booked_of_others {c : CompletionRecord} {conditions : List Condition}
    (hcourse : Course s (c.fired conditions (.completion c.taskIndex) (.completion c.step) ++
      if c.ritualCompleted then c.fired conditions .ritualCompletion (.ritualCompletion c.step)
      else []) results t) (hs : s.Regular) (huuid : Text.IsUuid c.step.ritual) :
    t.booked ((Scope.reward c.step).key 0) = s.booked ((Scope.reward c.step).key 0) := by
  refine hcourse.booked_of_ne hs fun e he heq => ?_
  rcases List.mem_append.1 he with he | he
  · obtain ⟨p, hkey⟩ := Batch.key_of_mem_errands he
    cases (Scope.key_injective (s := .completion c.step) (t := .reward c.step) huuid huuid
      (hkey.symm.trans heq)).1
  · split at he
    · obtain ⟨p, hkey⟩ := Batch.key_of_mem_errands he
      cases (Scope.key_injective (s := .ritualCompletion c.step) (t := .reward c.step) huuid huuid
        (hkey.symm.trans heq)).1
    · cases he

/-- The errand of the reward books it if it is payable, and otherwise nothing. -/
theorem booked_of_rewards {c : CompletionRecord} (hcourse : Course s c.rewards results t)
    (hs : s.Regular) (hname : c.step.subject ≠ "") :
    (Payable s c.step c.tokenReward → ∃ tx, t.booked ((Scope.reward c.step).key 0) = [tx] ∧
      tx.Credits c.step.subject c.tokenReward) ∧
    (¬ Payable s c.step c.tokenReward →
      t.booked ((Scope.reward c.step).key 0) = s.booked ((Scope.reward c.step).key 0)) := by
  rw [CompletionRecord.rewards] at hcourse
  split at hcourse
  · rename_i hzero
    cases hcourse
    exact ⟨fun hpay => absurd hzero hpay.present, fun _ => rfl⟩
  · rename_i hpresent
    rw [payable_iff hs hname]
    change Course s [rewardErrand c.step c.tokenReward] results t at hcourse
    cases hcourse with
    | next hfirst hnone =>
      cases hnone
      cases hfirst with
      | again hvalid hsettled => exact ⟨fun hpay => absurd hsettled hpay.2.2.1, fun _ => rfl⟩
      | refused error h =>
        refine ⟨?_, fun _ => rfl⟩
        rintro ⟨-, hvalid, -, hpossible⟩
        rcases h with hinvalid | ⟨-, himpossible⟩
        · exact absurd hvalid hinvalid
        · exact absurd hpossible himpossible
      | anew hvalid hnew hpossible h =>
        refine ⟨fun _ => ?_, fun hpay => absurd ⟨hpresent, hvalid, hnew, hpossible⟩ hpay⟩
        obtain ⟨time, hbooked⟩ := h.booked_anew hs rfl (not_not.1 hnew)
        exact ⟨_, hbooked, rfl, rfl, rfl, rfl⟩

/-- **The reward of a task is credited once if it can be credited, and otherwise not at all.** -/
theorem booked_of_course (hs : s.Regular)
    (hmakes : (Change.stepping step r a task evidence now).Makes s t)
    (hcourse : Course t ((recordOf step r task now).errands r.conditions) results u) :
    (Payable s step task.tokenReward → ∃ tx, u.booked ((Scope.reward step).key 0) = [tx] ∧
      tx.Credits step.subject task.tokenReward) ∧
    (¬ Payable s step task.tokenReward →
      u.booked ((Scope.reward step).key 0) = s.booked ((Scope.reward step).key 0)) := by
  have ht := hmakes.regular hs
  obtain ⟨hid, hsubject, -⟩ := hs.mirrored.follows_of_stepping hs.wellTyped hmakes.allowed
  have huuid : Text.IsUuid step.ritual := hid ▸ (hs.mirrored.uuid _ r hmakes.allowed.ritual).1
  have hname : step.subject ≠ "" := hsubject ▸ (hs.housed _ r hmakes.allowed.ritual).1
  have hsame : t.booked ((Scope.reward step).key 0) = s.booked ((Scope.reward step).key 0) := by
    rw [Store.booked, Store.booked,
      hmakes.all_untouched (by simp [Change.collections, Record.collection])]
  obtain ⟨first, last, t₁, -, hrewards, hothers⟩ := hcourse.split
  have hrest := booked_of_others (c := recordOf step r task now) hothers (hrewards.regular ht) huuid
  have hreward := booked_of_rewards (c := recordOf step r task now) hrewards ht hname
  have hstep : (recordOf step r task now).step = step := rfl
  have hamount : (recordOf step r task now).tokenReward = task.tokenReward := rfl
  rw [hstep] at hrest
  rw [hstep, hamount, ← hrest, hsame] at hreward
  rw [payable_stepping hmakes]
  exact hreward

end Completion

end RitualLedger
