import RitualLedger.Proofs.Rule.Acceptance
import RitualLedger.Proofs.Rule.Course

/-!
# Sound actions

An action that was accepted for a ritual finds what it needs when it is executed for a subject who
follows the ritual: the subject has a name and an account, and an assignment to the ritual. So it is
done, or it was done before; or the ledger declines an amount because the subject's balance does not
cover it or cannot hold it (`Errand.keeps_execute_sound`). Nothing else can go wrong.

What an action needs is there after it as well, so the same holds of all actions of a batch
(`Batch.keeps_run_sound`).
-/

namespace RitualLedger

open Ledger (transactionKey accountKey)

/-! ## What is needed -/

/-- A subject follows a ritual whose rules were accepted, and can be paid. -/
structure Store.Serves (s : Store) (ritual subject : String) (r : Ritual) : Prop where
  regular : s.Regular
  stored : s.get? Ritual (Ritual.key ritual) = some r
  governed : r.Governed
  name : subject ≠ ""
  account : ∃ a, s.get? Account (accountKey subject) = some a
  assigned : ∃ a, s.get? Assignment (Assignment.key subject) = some a ∧ a.ritualId = ritual

/-- The only tasks that were unlocked between two stores are the first ones, up to some number. -/
def Store.UnlocksBelow (count : Nat) (s t : Store) : Prop :=
  ∀ subject a', t.get? Assignment (Assignment.key subject) = some a' → ∀ i ∈ a'.unlockedTasks,
    i.toNat < count ∨
      ∃ a, s.get? Assignment (Assignment.key subject) = some a ∧ i ∈ a.unlockedTasks

variable {s t u : Store} {ritual subject : String} {r : Ritual} {count : Nat} {e : Errand}

/-- Who is assigned to a ritual is served by it. -/
theorem Store.Regular.serves {a : Assignment} (hs : s.Regular)
    (hgoverned : s.IsGoverned)
    (ha : s.get? Assignment (Assignment.key subject) = some a) :
    ∃ r, s.Serves a.ritualId subject r := by
  obtain ⟨r, hr, hfollows⟩ := hs.mirrored.assigned subject a ha
  have hname : a.subjectId = subject := (hs.wellTyped.named (α := Assignment) ha).2
  have hsubject : r.subjectId = subject := hfollows.subject.symm.trans hname
  obtain ⟨hnonempty, haccount⟩ := hs.housed _ r hr
  rw [hsubject] at hnonempty haccount
  exact ⟨r, hs, hr, hgoverned _ r hr, hnonempty, hs.wellTyped.readable (α := Account) haccount,
    a, ha, rfl⟩

namespace Store.UnlocksBelow

theorem refl (count : Nat) (s : Store) : s.UnlocksBelow count s := fun _ a ha _ hi =>
  .inr ⟨a, ha, hi⟩

theorem trans (h : UnlocksBelow count s t) (h' : UnlocksBelow count t u) :
    UnlocksBelow count s u := by
  intro subject a ha i hi
  rcases h' subject a ha i hi with hbelow | ⟨a', ha', hi'⟩
  · exact .inl hbelow
  · exact h subject a' ha' i hi'

/-- Where the assignments are the same nothing was unlocked. -/
theorem of_same (h : ∀ subject, t.get? Assignment (Assignment.key subject) =
    s.get? Assignment (Assignment.key subject)) : UnlocksBelow count s t :=
  fun subject a ha _ hi => .inr ⟨a, (h subject).symm.trans ha, hi⟩

end Store.UnlocksBelow

namespace Errand

/-- What is needed is there after an errand. -/
theorem Made.serves (h : e.Made s t) (hs : s.Serves ritual subject r) :
    t.Serves ritual subject r where
  regular := h.regular hs.regular
  stored := by
    rw [Store.get?, (h.sameProgress hs.regular).rituals]
    exact hs.stored
  governed := hs.governed
  name := hs.name
  account := by
    obtain ⟨a, ha⟩ := hs.account
    exact (h.regular hs.regular).wellTyped.readable (α := Account)
      (Store.present_of_le h.le (Store.present_of_get? ha))
  assigned := by
    obtain ⟨a, ha, hritual⟩ := hs.assigned
    rcases h.assignment_cases hs.regular subject with hsame | ⟨a', index, now, ha', hunlocked⟩
    · exact ⟨a, hsame.trans ha, hritual⟩
    · cases ha.symm.trans ha'
      exact ⟨_, hunlocked, hritual⟩

/-- A sound errand unlocks a task of the ritual, if any. -/
theorem Made.unlocksBelow (h : e.Made s t) (hs : s.WellTyped) (hsound : e.action.IsSound count) :
    s.UnlocksBelow count t := by
  cases h with
  | booked r now parties hr h =>
    exact .of_same (h.get?_untouched (by simp [Change.collections]))
  | queued message now ha h => exact .of_same (h.get?_untouched (by simp [Change.collections]))
  | unlocked index now a ha hsubject hritual h =>
    rw [ha] at hsound
    intro subject a' ha' i hi
    rw [h.assignment_of_unlocking hs] at ha'
    split at ha'
    · rename_i hname
      cases ha'
      rcases TaskSet.mem_insert.1 hi with rfl | hi
      · exact .inl hsound
      · rw [hname]
        exact .inr ⟨a, h.allowed.2.2, hi⟩
    · exact .inr ⟨a', ha', hi⟩

/-! ## Refusals -/

/-- What the ledger is asked for a sound action is valid. -/
theorem valid_of_isSound (hname : e.subject ≠ "") (hsound : e.action.IsSound count) : e.Valid := by
  intro request hrequest
  rw [request?] at hrequest
  cases ha : e.action with
  | reward amount | penalty amount =>
    rw [ha] at hrequest hsound
    obtain ⟨hpositive, hsmall⟩ := hsound
    rw [Condition.largestAmount] at hsmall
    cases hrequest
    simp [TransactionRequest.validate, Action.booking, TransactionRequest.plain, hpositive,
      Int.not_lt.2 hsmall, hname, TransactionRequest.validateParties]
  | unlockTask index | notify message =>
    rw [ha] at hrequest
    cases hrequest

end Errand

/-- Why the ledger declines an amount: a balance does not cover it, or cannot hold it. -/
inductive Action.Declined (subject : String) : Action → EngineError → Prop
  | short (amount : UInt64) (balance : Int) (h : balance < amount.toNat) :
    Declined subject (.penalty amount) (.insufficientBalance subject balance amount.toNat)
  | full (amount : UInt64) :
    Declined subject (.reward amount)
      (.validation (.invalidValue "amount" "receiver balance would overflow"))

/-- Planning for a party who has an account fails only where the change of the account does. -/
theorem Ledger.error_of_planParty {α : Type} {keys : List DocKey} {a : Account}
    {change : String → Account → Except EngineError Account} {plan : Plan α} {error : EngineError}
    (hs : s.WellTyped) (hkey : accountKey subject ∈ keys)
    (ha : s.get? Account (accountKey subject) = some a)
    (h : planParty (Snapshot.atOnce s keys) (some subject) change plan = .error error) :
    change subject a = .error error := by
  have hget : (Snapshot.atOnce s keys).get (α := Account) (accountKey subject) = .ok (some a) :=
    (hs.get_atOnce (α := Account) hkey).trans (congrArg _ ha)
  have hparty : partyAccount (Snapshot.atOnce s keys) subject = .ok a := by
    rw [partyAccount, hget]
    rfl
  rw [planParty, hparty] at h
  rcases error_of_bind h with hfound | ⟨_, hfound, h⟩
  · cases hfound
  · cases hfound
    rcases error_of_bind h with hchange | ⟨a', -, hplan⟩
    · exact hchange
    · cases hplan

namespace Errand

/-- The ledger declines the amount of an errand only for the sake of the balance. -/
theorem declined_of_decide {request : TransactionRequest} {now : Instant} {error : EngineError}
    (hs : s.Serves ritual e.subject r) (hrequest : e.request? = some request)
    (h : Ledger.decide request e.key now (Snapshot.atOnce s (Ledger.keys request e.key)) =
      .error error) : e.action.Declined e.subject error := by
  obtain ⟨a, ha⟩ := hs.account
  rw [Ledger.decide] at h
  split at h
  · cases h
  rw [request?] at hrequest
  cases haction : e.action with
  | reward amount =>
    simp only [haction] at hrequest
    cases hrequest
    rcases error_of_bind h with hsender | ⟨plan, -, h⟩
    · cases hsender
    rcases error_of_bind h with hreceiver | ⟨plan', -, h⟩
    · have hcredit := Ledger.error_of_planParty hs.regular.wellTyped
        (by simp [Ledger.keys, Action.booking, TransactionRequest.plain]) ha hreceiver
      simp only [Ledger.credit] at hcredit
      split at hcredit
      · cases hcredit
        exact .full amount
      · cases hcredit
    · cases h
  | penalty amount =>
    simp only [haction] at hrequest
    cases hrequest
    rcases error_of_bind h with hsender | ⟨plan, -, h⟩
    · have hdebit := Ledger.error_of_planParty hs.regular.wellTyped
        (by simp [Ledger.keys, Action.booking, TransactionRequest.plain]) ha hsender
      simp only [Ledger.debit] at hdebit
      split at hdebit
      · rename_i hshort
        cases hdebit
        exact .short amount _ hshort.2
      · cases hdebit
    rcases error_of_bind h with hreceiver | ⟨plan', -, h⟩
    · cases hreceiver
    · cases h
  | unlockTask index | notify message =>
    simp only [haction] at hrequest
    cases hrequest

/-! ## Executing a sound action -/

/-- A sound errand that is refused was an amount. -/
theorem Performs.not_refused {error : EngineError} (h : e.Performs s (.error error) t)
    (hvalid : e.Valid) (hpossible : e.Possible s) : False := by
  cases h with
  | refused error hrefused =>
    rcases hrefused with hinvalid | ⟨-, himpossible⟩
    · exact hinvalid hvalid
    · exact himpossible hpossible

section

variable (policy : RetryPolicy) (hs : s.Serves e.ritual e.subject r)

include hs

/-- An amount is booked, or the ledger declines it. -/
theorem keeps_book_sound {request : TransactionRequest} (hvalid : e.Valid)
    (hrequest : e.request? = some request) :
    (ActionEffect.booked <$> Ledger.apply policy request).Keeps (.alone fun _ => True)
      (fun error _ t => t = s ∧ e.action.Declined e.subject error)
      (fun effect _ t => e.Performs s (.ok effect) t) () s := by
  have hasks := asks_of_request? hrequest
  have hk := Contract.alone_alone fun _ => True
  refine .map ?_
  have hcheck : (Operation.ofValidation request.validate).Keeps (.alone fun _ => True)
      (fun error _ t => t = s ∧ e.action.Declined e.subject error) (fun _ _ t => t = s) () s := by
    refine .ofValidation (fun _ _ => rfl) ?_
    intro fault hfault
    cases hfault.symm.trans (hasks.valid.1 hvalid)
  refine .bind hcheck ?_
  rintro - _ s rfl
  have hid : (liftM (Ledger.idOr request.key) : Operation String).Keeps (.alone fun _ => True)
      (fun error _ t => t = s ∧ e.action.Declined e.subject error)
      (fun id _ t => t = s ∧ id = e.key) () s := by
    rw [hasks.key]
    exact .lift ⟨rfl, rfl⟩
  refine .bind hid ?_
  rintro _ _ s ⟨rfl, rfl⟩
  refine .bind .now ?_
  rintro now _ s' ⟨-, hmoves, hnow⟩
  obtain rfl := hk.still hmoves
  have hdecides := decides_book hs.regular hrequest hvalid hnow
  refine .transact_alone hk (fun error herror => ⟨rfl, declined_of_decide hs hrequest herror⟩) ?_
  intro plan hplan
  rw [hplan] at hdecides
  obtain ⟨t, ht, hperforms⟩ := hdecides
  exact ⟨t, (), ht, by split <;> trivial, hperforms⟩

/-- **A sound action, executed alone, is done or declined.** -/
theorem keeps_execute_sound (hsound : e.action.IsSound r.tasks.length) :
    (e.action.execute policy e.ritual e.subject (some e.key)).Keeps (.alone fun _ => True)
      (fun error _ t => t = s ∧ e.action.Declined e.subject error)
      (fun effect _ t => e.Performs s (.ok effect) t) () s := by
  have hk := Contract.alone_alone fun _ => True
  have hvalid : e.Valid := valid_of_isSound hs.name hsound
  cases haction : e.action with
  | reward amount | penalty amount =>
    have hrequest : ∃ request, e.request? = some request := by
      rw [request?, haction]
      exact ⟨_, rfl⟩
    obtain ⟨request, hrequest⟩ := hrequest
    have hbook := keeps_book_sound policy hs hvalid hrequest
    rw [request?, haction] at hrequest
    rw [haction] at hbook
    cases hrequest
    exact hbook
  | unlockTask index =>
    have hpossible : e.Possible s := by
      rw [Possible, haction]
      exact hs.assigned
    refine (keeps_unlock hk hs.regular (fun _ _ _ => trivial) haction).imp ?_ fun _ _ _ h => h.2
    rintro error _ t ⟨-, hperforms⟩
    exact (hperforms.not_refused hvalid hpossible).elim
  | notify message =>
    have hpossible : e.Possible s := by
      rw [Possible, haction]
      trivial
    refine (keeps_notify hk (fun _ _ _ => trivial) haction).imp ?_ fun _ _ _ h => h.2
    rintro error _ t ⟨-, hperforms⟩
    exact (hperforms.not_refused hvalid hpossible).elim

end

end Errand

/-! ## Batches -/

/-- What is recorded of a sound action: it succeeded, or it had been applied before, or the ledger
declined it; and a task that it unlocks is one of the ritual. -/
structure ActionResult.InOrder (subject : String) (count : Nat) (x : ActionResult) : Prop where
  status : x.status = .success ∨ x.status = .skipped "already applied" ∨
    ∃ error, x.action.Declined subject error ∧ x.status = .failed error.message error.isRetriable
  unlocks : ∀ index, x.action = .unlockTask index → index.toNat < count

/-- What sound actions lead to: what they need is still there, they have unlocked tasks of the
ritual only, and all results are in order. -/
structure Store.Serving (s : Store) (ritual subject : String) (r : Ritual)
    (results : List ActionResult) (t : Store) : Prop where
  serves : t.Serves ritual subject r
  unlocks : s.UnlocksBelow r.tasks.length t
  results : ∀ x ∈ results, x.InOrder subject r.tasks.length

namespace Store.Serving

variable {results results' : List ActionResult}

theorem refl (hs : s.Serves ritual subject r) : s.Serving ritual subject r [] s :=
  ⟨hs, .refl _ s, nofun⟩

theorem append (h : s.Serving ritual subject r results t)
    (h' : t.Serving ritual subject r results' u) :
    s.Serving ritual subject r (results ++ results') u := by
  refine ⟨h'.serves, h.unlocks.trans h'.unlocks, fun x hx => ?_⟩
  rcases List.mem_append.1 hx with hx | hx
  · exact h.results x hx
  · exact h'.results x hx

end Store.Serving

/-- The result of a sound errand is in order. -/
theorem Errand.serving_result (hs : s.Serves e.ritual e.subject r)
    (hsound : e.action.IsSound r.tasks.length) {answer : Except EngineError ActionEffect}
    (hanswer : Operation.either
      (fun error (_ : Unit) t => t = s ∧ e.action.Declined e.subject error)
      (fun effect _ t => e.Performs s (.ok effect) t) answer () t) :
    s.Serving e.ritual e.subject r [e.result answer] t := by
  have hunlocks : ∀ index, (e.result answer).action = .unlockTask index →
      index.toNat < r.tasks.length := by
    intro index hindex
    have haction : (e.result answer).action = e.action := by
      cases answer with
      | ok effect | error error => rfl
    rw [haction.symm.trans hindex] at hsound
    exact hsound
  cases answer with
  | error error =>
    obtain ⟨rfl, hdeclined⟩ := hanswer
    refine ⟨hs, .refl _ _, fun x hx => ?_⟩
    rw [List.mem_singleton.1 hx]
    exact ⟨.inr (.inr ⟨error, hdeclined, rfl⟩), hunlocks⟩
  | ok effect =>
    have hinOrder : (e.result (.ok effect)).InOrder e.subject r.tasks.length := by
      refine ⟨?_, hunlocks⟩
      simp only [result, Batch.result]
      split
      · exact .inr (.inl rfl)
      · exact .inl rfl
    have hperforms : e.Performs s (.ok effect) t := hanswer
    have hresults : ∀ x ∈ [e.result (.ok effect)], x.InOrder e.subject r.tasks.length := by
      intro x hx
      rw [List.mem_singleton.1 hx]
      exact hinOrder
    cases hperforms with
    | again => exact ⟨hs, .refl _ _, hresults⟩
    | anew hvalid hnew hpossible h =>
      exact ⟨h.serves hs, h.unlocksBelow hs.regular.wellTyped hsound, hresults⟩

namespace Batch

variable {policy : RetryPolicy} {b : Batch} {scope : Scope} {actions : List Action}

theorem keeps_runFrom_sound {position : Nat} (hscope : b.scope = some scope)
    (hs : s.Serves b.ritual b.subject r) (hsound : ∀ a ∈ actions, a.IsSound r.tasks.length) :
    (b.runFrom policy position actions).Keeps (.alone fun _ => True)
      (fun results _ t => s.Serving b.ritual b.subject r results t) () s := by
  obtain ⟨ritual, subject, trigger, _⟩ := b
  obtain rfl := hscope
  induction actions generalizing position s with
  | nil => exact .refl hs
  | cons a rest ih =>
    let e : Errand := ⟨ritual, subject, trigger, scope.key position, a⟩
    have ha : e.action.IsSound r.tasks.length := hsound a List.mem_cons_self
    have hfirst := e.keeps_execute_sound policy hs ha
    refine Program.Keeps.bind hfirst ?_
    rintro answer _ t hanswer
    have hserving := e.serving_result hs ha hanswer
    refine Program.Keeps.bind
      (ih (fun a ha => hsound a (List.mem_cons_of_mem _ ha)) hserving.serves) ?_
    rintro results _ u hrest
    exact hserving.append hrest

/-- **A batch of sound actions that runs alone is in order.** -/
theorem keeps_run_sound (hscope : b.scope = some scope) (hs : s.Serves b.ritual b.subject r)
    (hsound : ∀ a ∈ actions, a.IsSound r.tasks.length) :
    (b.run policy actions).Keeps (.alone fun _ => True)
      (fun log _ t => s.Serving b.ritual b.subject r log.results t) () s := by
  refine Program.Keeps.bind (keeps_runFrom_sound hscope hs hsound) ?_
  rintro results _ t hserving t' now hmoves -
  obtain rfl := (Contract.alone_alone _).still hmoves
  exact hserving

end Batch

end RitualLedger
