import RitualLedger.Proofs.Engine.Alone

/-!
# Errands

An errand is an action that is to be executed for a subject of a ritual, under a key. The key is
that of a position of a scope, or an id that was drawn for it. An errand that was done before is
settled: its transaction or its notification is stored, or the task is unlocked. Executed by a
client that is alone, a settled errand does nothing; one that is not settled is done if it is
possible, and refused otherwise (`Errand.keeps_execute`).

Whether an errand is settled or possible does not depend on the time, nor on the times at which
something was stored. `Store.Alike` compares stores but for times, and errands keep stores alike
(`Errand.Performs.alike`).
-/

namespace RitualLedger

open Ledger (transactionKey accountKey)

/-- An action to be executed. -/
structure Errand where
  ritual : String
  subject : String
  trigger : Option TriggerKind
  /-- The key under which the action takes effect. -/
  key : String
  action : Action

namespace Errand

/-- What is recorded of the action, from the answer to its execution. -/
def result (e : Errand) (answer : Except EngineError ActionEffect) : ActionResult :=
  Batch.result ⟨e.ritual, e.subject, e.trigger, none⟩ e.action answer

/-- What is asked of the ledger, if the action is an amount. -/
def request? (e : Errand) : Option TransactionRequest :=
  match e.action with
  | .reward amount =>
    some (e.action.booking .reward none (some e.subject) amount e.ritual (some e.key))
  | .penalty amount =>
    some (e.action.booking .penalty (some e.subject) none amount e.ritual (some e.key))
  | .unlockTask _ | .notify _ => none

/-- What is answered when the errand is done, now or before. -/
def effect (e : Errand) (new : Bool) : ActionEffect :=
  match e.action with
  | .reward _ | .penalty _ => .booked ⟨e.key, !new⟩
  | .unlockTask index => .unlocked index new
  | .notify _ => .queued ⟨e.key, !new⟩

/-- An amount is one that the ledger accepts. -/
def Valid (e : Errand) : Prop := ∀ r ∈ e.request?, r.validate = .ok ()

/-- What is no amount is valid. -/
theorem valid_of_request?_none {e : Errand} (h : e.request? = none) : e.Valid := by
  intro r hr
  rw [h] at hr
  cases hr

/-- The errand was done before. -/
def Settled (e : Errand) (s : Store) : Prop :=
  match e.action with
  | .reward _ | .penalty _ => s.read? (transactionKey e.key) ≠ none
  | .unlockTask index => ∃ a, s.get? Assignment (Assignment.key e.subject) = some a ∧
      a.ritualId = e.ritual ∧ a.unlockedTasks.contains index = true
  | .notify _ => s.read? (Notification.key e.key) ≠ none

/-- The errand can be done: an amount fits or is covered, and a task is one of the subject's
ritual. -/
def Possible (e : Errand) (s : Store) : Prop :=
  match e.action with
  | .reward amount => ∃ a, s.get? Account (accountKey e.subject) = some a ∧
      a.tokenBalance.toInt + amount.toNat ≤ Ledger.largestBalance
  | .penalty amount => ∃ a, s.get? Account (accountKey e.subject) = some a ∧
      (amount.toNat : Int) ≤ a.tokenBalance.toInt
  | .unlockTask _ => ∃ a, s.get? Assignment (Assignment.key e.subject) = some a ∧
      a.ritualId = e.ritual
  | .notify _ => True

/-- The errand is done, and leads from one store to another. -/
inductive Made (e : Errand) (s t : Store) : Prop
  | booked (r : TransactionRequest) (now : Instant) (parties : List Account)
    (hr : e.request? = some r) (h : (Change.booking r e.key now parties .supplied).Makes s t)
  | queued (message : String) (now : Instant) (ha : e.action = .notify message)
    (h : (Change.queueing (.about e.ritual e.subject message e.key now) .supplied).Makes s t)
  | unlocked (index : UInt64) (now : Instant) (a : Assignment) (ha : e.action = .unlockTask index)
    (hsubject : a.subjectId = e.subject) (hritual : a.ritualId = e.ritual)
    (h : (Change.unlocking a index now).Makes s t)

/-- What comes of an errand. -/
inductive Performs (e : Errand) (s : Store) : Except EngineError ActionEffect → Store → Prop
  | again (hvalid : e.Valid) (hsettled : e.Settled s) : Performs e s (.ok (e.effect false)) s
  | anew {t : Store} (hvalid : e.Valid) (hnew : ¬ e.Settled s) (hpossible : e.Possible s)
    (h : e.Made s t) : Performs e s (.ok (e.effect true)) t
  | refused (error : EngineError) (h : ¬ e.Valid ∨ ¬ e.Settled s ∧ ¬ e.Possible s) :
    Performs e s (.error error) s

variable {e : Errand} {s t : Store}

/-! ## Doing an errand -/

/-- What an amount asks of the ledger says when the errand is settled and what it answers. -/
structure Asks (e : Errand) (r : TransactionRequest) : Prop where
  key : r.key = some e.key
  valid : e.Valid ↔ r.validate = .ok ()
  effect : ∀ new, e.effect new = .booked ⟨e.key, !new⟩
  settled : ∀ s, e.Settled s ↔ s.read? (transactionKey e.key) ≠ none

theorem asks_of_request? {r : TransactionRequest} (hr : e.request? = some r) : e.Asks r := by
  have hvalid : e.Valid ↔ r.validate = .ok () := by
    rw [Valid, hr]
    exact ⟨fun h => h r rfl, fun h => by rintro _ ⟨⟩; exact h⟩
  rw [request?] at hr
  cases ha : e.action with
  | reward amount | penalty amount =>
    simp only [ha] at hr
    cases hr
    refine ⟨rfl, hvalid, fun new => ?_, fun s => ?_⟩
    · rw [effect, ha]
    · rw [Settled, ha]
  | unlockTask index | notify message =>
    simp only [ha] at hr
    cases hr

/-- An amount that is not on record is granted when it is possible. -/
theorem exists_decide_iff (hs : s.WellTyped) {r : TransactionRequest} (hr : e.request? = some r)
    (now : Instant) (hnew : s.read? (transactionKey e.key) = none) :
    (∃ plan, Ledger.decide r e.key now (Snapshot.atOnce s (Ledger.keys r e.key)) = .ok plan) ↔
      e.Possible s := by
  rw [request?] at hr
  rw [Possible]
  cases ha : e.action with
  | reward amount =>
    simp only [ha] at hr
    cases hr
    rw [Ledger.exists_decide_iff hs hnew (fun _ h => by cases h), Ledger.largestBalance_eq]
    exact ⟨fun h => h.room _ rfl, fun h => ⟨nofun, fun _ hs => by cases hs; exact h⟩⟩
  | penalty amount =>
    simp only [ha] at hr
    cases hr
    rw [Ledger.exists_decide_iff hs hnew (fun _ _ h => by cases h)]
    exact ⟨fun h => h.covered _ rfl, fun h => ⟨fun _ hs => by cases hs; exact h, nofun⟩⟩
  | unlockTask index | notify message =>
    simp only [ha] at hr
    cases hr

/-! ## Deciding on an errand -/

/-- A decision performs the errand: its error refuses it, and its writes do it or are none. -/
def Decides {α : Type} (e : Errand) (s : Store) (answer : α → ActionEffect) :
    Except EngineError (Plan α) → Prop
  | .error error => e.Performs s (.error error) s
  | .ok plan => ∃ t, s.apply plan.writes = .ok t ∧ e.Performs s (.ok (answer plan.result)) t

/-- The ledger decides on an amount. -/
theorem decides_book (hs : s.Regular) {r : TransactionRequest} (hr : e.request? = some r)
    (hvalid : e.Valid) {now : Instant} (hnow : Fits now) :
    e.Decides s .booked (Ledger.decide r e.key now (Snapshot.atOnce s (Ledger.keys r e.key))) := by
  have hasks := asks_of_request? hr
  by_cases hnew : s.read? (transactionKey e.key) = none
  · have hunsettled : ¬ e.Settled s := fun hsettled => (hasks.settled s).1 hsettled hnew
    have hpossible := exists_decide_iff hs.wellTyped hr now hnew
    cases hdecision : Ledger.decide r e.key now (Snapshot.atOnce s (Ledger.keys r e.key)) with
    | error error =>
      refine .refused _ (.inr ⟨hunsettled, fun h => ?_⟩)
      obtain ⟨plan, hplan⟩ := hpossible.2 h
      cases hdecision.symm.trans hplan
    | ok plan =>
      obtain ⟨parties, hplanned⟩ := Ledger.planned_of_decide hs.wellTyped (hasks.valid.1 hvalid)
        hnew hdecision
      obtain ⟨t, ht⟩ := hplanned.applies (hasks.valid.1 hvalid) hnew
      have hwrites : plan.writes ≠ [] := hplanned.writes ▸ by simp
      obtain ⟨parties', hmakes⟩ := Ledger.booking_of_decide .supplied hs.wellTyped
        (hasks.valid.1 hvalid) hnow trivial ⟨hdecision, hwrites, ht⟩
      refine ⟨t, ht, ?_⟩
      rw [hplanned.result, ← Bool.not_true, ← hasks.effect]
      exact .anew hvalid hunsettled (hpossible.1 ⟨plan, hdecision⟩)
        (.booked r now parties' hr hmakes)
  · rw [Ledger.decide_of_present hnew]
    refine ⟨s, rfl, ?_⟩
    change e.Performs s (.ok (.booked ⟨e.key, !false⟩)) s
    rw [← hasks.effect]
    exact .again hvalid ((hasks.settled s).2 hnew)

/-- The queue decides on a message. -/
theorem decides_notify {message : String} (ha : e.action = .notify message) {now : Instant}
    (hnow : Fits now) :
    e.Decides s .queued (Notification.decideQueueing e.subject message e.ritual e.key now
      (Snapshot.atOnce s [Notification.key e.key])) := by
  have hvalid : e.Valid := valid_of_request?_none (by rw [request?, ha])
  have hsettled : e.Settled s ↔ s.read? (Notification.key e.key) ≠ none := by
    rw [Settled, ha]
  have heffect : ∀ new, e.effect new = .queued ⟨e.key, !new⟩ := by
    intro new
    rw [effect, ha]
  rw [Notification.decideQueueing, Snapshot.has_atOnce List.mem_cons_self]
  cases hread : s.read? (Notification.key e.key) with
  | some doc =>
    refine ⟨s, rfl, ?_⟩
    change e.Performs s (.ok (.queued ⟨e.key, !false⟩)) s
    rw [← heffect]
    exact .again hvalid (hsettled.2 (Option.ne_none_iff_exists'.2 ⟨doc, hread⟩))
  | none =>
    obtain ⟨t, ht⟩ := Store.apply_of_new [.insert (Notification.key e.key)
      (encode (Notification.about e.ritual e.subject message e.key now))]
      (List.nodup_singleton _) (by
        intro key body hmem
        cases List.mem_singleton.1 hmem
        exact hread)
    have hmade : e.Made s t := .queued message now ha
      ⟨⟨hnow, rfl, hread, trivial⟩, Store.apply_eq_putAll ht⟩
    refine ⟨t, ht, ?_⟩
    change e.Performs s (.ok (.queued ⟨e.key, !true⟩)) t
    rw [← heffect]
    refine .anew hvalid (fun h => hsettled.1 h hread) ?_ hmade
    rw [Possible, ha]
    trivial

/-- The assignment decides on a task. -/
theorem decides_unlock (hs : s.Regular) {index : UInt64} (ha : e.action = .unlockTask index)
    {now : Instant} (hnow : Fits now) :
    e.Decides s id (Action.decideUnlocking e.ritual e.subject index now
      (Snapshot.atOnce s [Assignment.key e.subject])) := by
  have hvalid : e.Valid := valid_of_request?_none (by rw [request?, ha])
  have heffect : ∀ new, e.effect new = .unlocked index new := by
    intro new
    rw [effect, ha]
  rw [Action.decideUnlocking]
  cases hassigned : Action.assignmentIn (Snapshot.atOnce s [Assignment.key e.subject]) e.ritual
      e.subject with
  | error error =>
    have hmissing : ∀ a, s.get? Assignment (Assignment.key e.subject) = some a →
        a.ritualId ≠ e.ritual := by
      intro a hget hritual
      rw [Action.assignmentIn_atOnce hs.wellTyped List.mem_cons_self, hget] at hassigned
      cases (if_pos hritual).symm.trans hassigned
    refine .refused _ (.inr ?_)
    rw [Settled, Possible, ha]
    exact ⟨fun ⟨a, hget, hritual, _⟩ => hmissing a hget hritual,
      fun ⟨a, hget, hritual⟩ => hmissing a hget hritual⟩
  | ok a =>
    obtain ⟨hget, hritual⟩ := Action.assignment_of_assignmentIn List.mem_cons_self hassigned
    have hsubject : a.subjectId = e.subject := (hs.wellTyped.named (α := Assignment) hget).2
    change e.Decides s id (if a.unlockedTasks.contains index then _ else _)
    split
    · rename_i hcontains
      refine ⟨s, rfl, ?_⟩
      change e.Performs s (.ok (.unlocked index false)) s
      rw [← heffect]
      refine .again hvalid ?_
      rw [Settled, ha]
      exact ⟨a, hget, hritual, hcontains⟩
    · rename_i hcontains
      have hmade : e.Made s (s.put (Assignment.key e.subject) (encode (a.unlocked index now))) :=
        .unlocked index now a ha hsubject hritual
          ⟨⟨hnow, eq_false_of_ne_true hcontains, hsubject ▸ hget⟩, by rw [← hsubject]; rfl⟩
      refine ⟨_, rfl, ?_⟩
      change e.Performs s (.ok (.unlocked index true)) _
      rw [← heffect]
      refine .anew hvalid ?_ ?_ hmade
      · rw [Settled, ha]
        rintro ⟨a', hget', -, hcontains'⟩
        cases hget.symm.trans hget'
        exact hcontains hcontains'
      · rw [Possible, ha]
        exact ⟨a, hget, hritual⟩

/-! ## Executing an errand -/

section

variable {γ : Type} {k : Contract γ} {g : γ} {policy : RetryPolicy} (hk : k.Alone g)
  (hs : s.Regular) (hgives : ∀ answer t, e.Performs s answer t → k.gives g s g t)

include hk hgives

/-- A transaction whose decision performs the errand performs it. -/
theorem keeps_transact {α : Type} {answer : α → ActionEffect} {keys : List DocKey}
    {decision : Snapshot → Except EngineError (Plan α)}
    (h : e.Decides s answer (decision (Snapshot.atOnce s keys))) :
    (transact policy keys decision).Keeps k
      (fun error g' t => g' = g ∧ e.Performs s (.error error) t)
      (fun result g' t => g' = g ∧ e.Performs s (.ok (answer result)) t) g s := by
  refine .transact_alone hk ?_ ?_
  · intro error hdecision
    rw [hdecision] at h
    exact ⟨rfl, h⟩
  · intro plan hdecision
    rw [hdecision] at h
    obtain ⟨t, ht, hperforms⟩ := h
    refine ⟨t, g, ht, ?_, rfl, hperforms⟩
    split
    · rfl
    · exact hgives _ t hperforms

include hs

/-- An amount is booked. -/
theorem keeps_book {r : TransactionRequest} (hr : e.request? = some r) :
    (ActionEffect.booked <$> Ledger.apply policy r).Keeps k
      (fun error g' t => g' = g ∧ e.Performs s (.error error) t)
      (fun effect g' t => g' = g ∧ e.Performs s (.ok effect) t) g s := by
  have hasks := asks_of_request? hr
  refine .map ?_
  have hcheck : (Operation.ofValidation r.validate).Keeps k
      (fun error g' t => g' = g ∧ e.Performs s (.error error) t)
      (fun _ g' t => g' = g ∧ t = s ∧ e.Valid) g s := by
    refine .ofValidation (fun _ hvalid => ⟨rfl, rfl, hasks.valid.2 hvalid⟩) ?_
    intro fault hfault
    refine ⟨rfl, .refused _ (.inl fun hvalid => ?_)⟩
    cases hfault.symm.trans (hasks.valid.1 hvalid)
  refine .bind hcheck ?_
  rintro - g s ⟨rfl, rfl, hvalid⟩
  have hid : (liftM (Ledger.idOr r.key) : Operation String).Keeps k
      (fun error g' t => g' = g ∧ e.Performs s (.error error) t)
      (fun id g' t => g' = g ∧ t = s ∧ id = e.key) g s := by
    rw [hasks.key]
    exact .lift ⟨rfl, rfl, rfl⟩
  refine .bind hid ?_
  rintro _ g s ⟨rfl, rfl, rfl⟩
  refine .bind .now ?_
  rintro now g s' ⟨rfl, hmoves, hnow⟩
  obtain rfl := hk.still hmoves
  exact keeps_transact hk hgives (decides_book hs hr hvalid hnow)

omit hs in
/-- A message is queued. -/
theorem keeps_notify {message : String} (ha : e.action = .notify message) :
    (ActionEffect.queued <$>
      Notification.enqueue policy e.subject message e.ritual (some e.key)).Keeps k
      (fun error g' t => g' = g ∧ e.Performs s (.error error) t)
      (fun effect g' t => g' = g ∧ e.Performs s (.ok effect) t) g s := by
  refine .map ?_
  rw [Notification.enqueue_given]
  refine .bind .now ?_
  rintro now g s' ⟨rfl, hmoves, hnow⟩
  obtain rfl := hk.still hmoves
  exact keeps_transact hk hgives (decides_notify ha hnow)

/-- A task is unlocked. -/
theorem keeps_unlock {index : UInt64} (ha : e.action = .unlockTask index) :
    (Action.unlock policy e.ritual e.subject index).Keeps k
      (fun error g' t => g' = g ∧ e.Performs s (.error error) t)
      (fun effect g' t => g' = g ∧ e.Performs s (.ok effect) t) g s := by
  refine .bind .now ?_
  rintro now g s' ⟨rfl, hmoves, hnow⟩
  obtain rfl := hk.still hmoves
  exact keeps_transact hk hgives (decides_unlock hs ha hnow)

/-- **Executing an action, alone, performs the errand.** -/
theorem keeps_execute :
    (e.action.execute policy e.ritual e.subject (some e.key)).program.Keeps k
      (fun answer g' t => g' = g ∧ e.Performs s answer t) g s := by
  refine Operation.Keeps.program ?_
  cases ha : e.action with
  | reward amount =>
    refine keeps_book hk hs hgives ?_
    rw [request?, ha]
  | penalty amount =>
    refine keeps_book hk hs hgives ?_
    rw [request?, ha]
  | unlockTask index => exact keeps_unlock hk hs hgives ha
  | notify message => exact keeps_notify hk hgives ha

end

end Errand

end RitualLedger
