import RitualLedger.Proofs.Ledger.Conduct

/-!
# What actions do to the store

Queueing makes a queueing, and marking a marking. An action is booked, queued or unlocked, under an
id that is supplied, drawn, or due. A batch in a derived scope acts under the keys of its positions;
what it needs for that is that each action is due at its position.

What an attempt to queue, to mark or to unlock decides has a name (`Notification.decideQueueing`,
`Notification.decideMarking`, `Action.decideUnlocking`), and the operations are equal to transactions
with these decisions. What is proved of them elsewhere cites the decisions.
-/

namespace RitualLedger

variable {may : Change → Prop} {v : View} {policy : RetryPolicy}

/-! ## Notifications -/

namespace Notification

/-- What an attempt to queue a message decides. -/
def decideQueueing (subject message ritual id : String) (now : Instant) (snapshot : Snapshot) :
    Except EngineError (Plan Queued) :=
  if snapshot.has (key id) then .ok (.done ⟨id, true⟩)
  else .ok ((Plan.done ⟨id, false⟩).insert (key id) (about ritual subject message id now))

/-- Queues a message under an id. -/
def queueUnder (policy : RetryPolicy) (subject message ritual id : String) : Operation Queued := do
  let now ← (Request.now : Program _)
  transact policy [key id] (decideQueueing subject message ritual id now)

section

variable {subject message ritual id : String} {now : Instant} {snapshot : Snapshot}
  {plan : Plan Queued} {store t : Store}

theorem enqueue_given : enqueue policy subject message ritual (some id) =
    queueUnder policy subject message ritual id := rfl

theorem enqueue_drawn : enqueue policy subject message ritual none =
    (liftM Request.freshId : Operation String) >>= queueUnder policy subject message ritual := rfl

theorem decideQueueing_of_has (h : snapshot.has (key id) = true) :
    decideQueueing subject message ritual id now snapshot = .ok (.done ⟨id, true⟩) := if_pos h

/-- A message is a replay if its id was found, and is queued otherwise. -/
theorem of_decideQueueing (h : decideQueueing subject message ritual id now snapshot = .ok plan) :
    (snapshot.has (key id) = true ∧ plan = .done ⟨id, true⟩) ∨
      plan = (Plan.done ⟨id, false⟩).insert (key id) (about ritual subject message id now) := by
  rw [decideQueueing] at h
  split at h
  · rename_i hhas
    exact .inl ⟨hhas, (Except.ok.inj h).symm⟩
  · exact .inr (Except.ok.inj h).symm

theorem keys_of_decideQueueing
    (h : decideQueueing subject message ritual id now snapshot = .ok plan) :
    ∀ w ∈ plan.writes, w.key = key id := by
  rcases of_decideQueueing h with ⟨-, rfl⟩ | rfl
  · exact nofun
  · intro w hw
    rw [List.mem_singleton.1 hw]
    rfl

/-- What writes queues the message. -/
theorem plan_of_writes (h : decideQueueing subject message ritual id now snapshot = .ok plan)
    (hwrites : plan.writes ≠ []) :
    plan = (Plan.done ⟨id, false⟩).insert (key id) (about ritual subject message id now) := by
  rcases of_decideQueueing h with ⟨-, rfl⟩ | hplan
  · exact absurd rfl hwrites
  · exact hplan

/-- What does not write has found the id. -/
theorem has_of_writes (h : decideQueueing subject message ritual id now snapshot = .ok plan)
    (hwrites : plan.writes = []) : snapshot.has (key id) = true ∧ plan.result = ⟨id, true⟩ := by
  rcases of_decideQueueing h with ⟨hhas, rfl⟩ | rfl
  · exact ⟨hhas, rfl⟩
  · cases hwrites

/-- What a decision to queue is: a message under a free id. -/
theorem queueing_of_decide (origin : Origin) (hfits : Fits now)
    (hbacked : origin.Backs store id fun a ritual' subject' =>
      a.IsQueuedAs ritual' subject' (about ritual subject message id now))
    (h : Commits [key id] (decideQueueing subject message ritual id now) store plan t) :
    (Change.queueing (about ritual subject message id now) origin).Makes store t := by
  have happlied := h.applied
  rw [plan_of_writes h.decided h.writes] at happlied
  have habsent := Store.absent_of_insert happlied (List.mem_singleton.2 rfl)
  exact ⟨⟨hfits, rfl, habsent, hbacked⟩, Store.apply_eq_putAll happlied⟩

end

/-- The id of a message: its own, with its origin, or a drawn one. -/
theorem enqueue_ensures {subject message ritual : String} {id : Option String} (origin : Origin)
    (hbacked : ∀ i ∈ id, ∀ now, origin.Backs v.store i fun a ritual' subject' =>
      a.IsQueuedAs ritual' subject' (about ritual subject message i now))
    (hmay : ∀ i now, id = some i → may (.queueing (about ritual subject message i now) origin))
    (hmayDrawn : ∀ i now, id = none →
      may (.queueing (about ritual subject message i now) .drawn)) :
    (enqueue policy subject message ritual id).Ensures may (fun _ _ => True) v := by
  have hcommit : ∀ (i : String) (origin' : Origin) (v' : View),
      (∀ now, origin'.Backs v'.store i fun a ritual' subject' =>
        a.IsQueuedAs ritual' subject' (about ritual subject message i now)) →
      (∀ now, may (.queueing (about ritual subject message i now) origin')) →
      (queueUnder policy subject message ritual i).Ensures may (fun _ _ => True) v' := by
    intro i origin' v' hbacked' hmay'
    refine .bind .now ?_
    rintro now v₁ ⟨hv₁, hnow⟩
    refine .transact (fun _ _ _ _ _ _ => trivial) ?_
    intro u plan t hu hcommits
    have hstill := (hbacked' now).mono (hv₁.trans hu).evolves
    exact ⟨⟨_, hmay' now, nofun, queueing_of_decide origin' hnow hstill hcommits⟩, trivial⟩
  cases id with
  | some i =>
    rw [enqueue_given]
    exact hcommit i origin v (hbacked i rfl) fun now => hmay i now rfl
  | none =>
    rw [enqueue_drawn]
    refine .bind .freshId ?_
    rintro i _ ⟨u, -, hfresh, rfl⟩
    exact hcommit i .drawn _ (fun now => hfresh.uuid) fun now => hmayDrawn i now rfl

/-- What is decided on the notification that was found. -/
def markingOf (id : String) : Option Notification → Except EngineError (Plan Notification)
  | none => .error (.notFound .notification id)
  | some n => if n.read then .ok (.done n) else .ok ((Plan.done n.marked).put (key id) n.marked)

/-- What an attempt to mark a notification decides. -/
def decideMarking (id : String) (snapshot : Snapshot) : Except EngineError (Plan Notification) := do
  markingOf id (← snapshot.get (key id))

theorem markRead_eq {id : String} :
    markRead policy id = transact policy [key id] (decideMarking id) := rfl

/-- What a decision to mark is: the notification was unread, and is read now. -/
theorem marking_of_decide {id : String} {store t : Store} {plan : Plan Notification}
    (hs : store.WellTyped) (h : Commits [key id] (decideMarking id) store plan t) :
    ∃ n : Notification, n.id = id ∧ plan.result = n.marked ∧ (Change.marking n).Makes store t := by
  obtain ⟨x, hget, hdecided⟩ := ok_of_bind h.decided
  cases x with
  | none => cases hdecided
  | some n =>
    have hstored := (Snapshot.get_atOnce List.mem_cons_self hget).1.symm
    have hid : n.id = id := (hs.named (α := Notification) hstored).2
    rw [markingOf] at hdecided
    split at hdecided
    · cases hdecided
      exact absurd rfl h.writes
    · rename_i hunread
      cases hdecided
      have hmade := Store.apply_eq_putAll h.applied
      subst hid
      exact ⟨n, rfl, rfl, ⟨Bool.eq_false_iff.2 hunread, hstored⟩, hmade⟩

/-- A notification is marked as read once. -/
theorem markRead_ensures {id : String}
    (hmay : ∀ n : Notification, n.id = id → may (.marking n)) :
    (markRead policy id).Ensures may (fun _ _ => True) v := by
  rw [markRead_eq]
  refine .transact (fun _ _ _ _ _ _ => trivial) ?_
  intro u plan t hu hcommits
  obtain ⟨n, hid, -, hmakes⟩ := marking_of_decide u.wellTyped hcommits
  exact ⟨⟨.marking n, hmay n hid, nofun, hmakes⟩, trivial⟩

end Notification

/-! ## Unlocked tasks -/

namespace Action

/-- The assignment that a decision works with is the stored one, to the ritual in question. -/
theorem assignment_of_assignmentIn {store : Store} {ks : List DocKey} {ritual subject : String}
    {a : Assignment} (hkey : Assignment.key subject ∈ ks)
    (h : assignmentIn (Snapshot.atOnce store ks) ritual subject = .ok a) :
    store.get? Assignment (Assignment.key subject) = some a ∧ a.ritualId = ritual := by
  obtain ⟨x, hget, hx⟩ := ok_of_bind h
  cases x with
  | none => cases hx
  | some a' =>
    simp only at hx
    split at hx
    · rename_i hritual
      cases hx
      exact ⟨(Snapshot.get_atOnce hkey hget).1.symm, hritual⟩
    · cases hx

/-- In a typed store the assignment is found, or it is missing. -/
theorem assignmentIn_atOnce {store : Store} {ks : List DocKey} {ritual subject : String}
    (hs : store.WellTyped) (hkey : Assignment.key subject ∈ ks) :
    assignmentIn (Snapshot.atOnce store ks) ritual subject =
      match store.get? Assignment (Assignment.key subject) with
      | some a => if a.ritualId = ritual then .ok a else .error (.notFound .assignment subject)
      | none => .error (.notFound .assignment subject) := by
  have hget : (Snapshot.atOnce store ks).get (α := Assignment) (Assignment.key subject) = _ :=
    hs.get_atOnce (α := Assignment) hkey
  rw [assignmentIn, hget]
  rfl

/-- What an attempt to unlock a task decides. -/
def decideUnlocking (ritual subject : String) (index : UInt64) (now : Instant)
    (snapshot : Snapshot) : Except EngineError (Plan ActionEffect) := do
  let a ← assignmentIn snapshot ritual subject
  if a.unlockedTasks.contains index then .ok (.done (.unlocked index false))
  else
    .ok ((Plan.done (.unlocked index true)).put (Assignment.key subject) (a.unlocked index now))

theorem unlock_eq {ritual subject : String} {index : UInt64} :
    unlock policy ritual subject index = (liftM Request.now : Operation Instant) >>= fun now =>
      transact policy [Assignment.key subject] (decideUnlocking ritual subject index now) := rfl

/-- What a decision to unlock is: a task that was locked in the assignment of the subject. -/
theorem unlocking_of_decide {ritual subject : String} {index : UInt64} {now : Instant}
    {store t : Store} {plan : Plan ActionEffect} (hs : store.WellTyped) (hfits : Fits now)
    (h : Commits [Assignment.key subject] (decideUnlocking ritual subject index now) store plan
      t) :
    ∃ a : Assignment, a.subjectId = subject ∧ a.ritualId = ritual ∧
      (Change.unlocking a index now).Makes store t := by
  obtain ⟨a, hassigned, hdecided⟩ := ok_of_bind h.decided
  obtain ⟨hstored, hritual⟩ := assignment_of_assignmentIn List.mem_cons_self hassigned
  have hsubject : a.subjectId = subject := (hs.named (α := Assignment) hstored).2
  split at hdecided
  · cases hdecided
    exact absurd rfl h.writes
  · rename_i hlocked
    cases hdecided
    have hmade := Store.apply_eq_putAll h.applied
    subst hsubject
    exact ⟨a, rfl, hritual, ⟨hfits, Bool.eq_false_iff.2 hlocked, hstored⟩, hmade⟩

/-- A task is unlocked in the assignment of the subject. -/
theorem unlock_ensures {ritual subject : String} {index : UInt64}
    (hmay : ∀ a now, may (.unlocking a index now)) :
    (unlock policy ritual subject index).Ensures may (fun _ _ => True) v := by
  rw [unlock_eq]
  refine .bind .now ?_
  rintro now v' ⟨-, hnow⟩
  refine .transact (fun _ _ _ _ _ _ => trivial) ?_
  intro u plan t hu hcommits
  obtain ⟨a, -, -, hmakes⟩ := unlocking_of_decide u.wellTyped hnow hcommits
  exact ⟨⟨_, hmay a now, nofun, hmakes⟩, trivial⟩

/-! ## Execution -/

/-- An id that an action may have in a view, with what may be done under it. -/
structure Keyed (may : Change → Prop) (v : View) (a : Action) (ritual subject : String)
    (key : Option String) : Prop where
  /-- An id that is given has an origin. -/
  given : ∀ id ∈ key, ∃ origin : Origin,
    (∀ comesFrom : Action → String → String → Prop, comesFrom a ritual subject →
      origin.Backs v.store id comesFrom) ∧
    (∀ r now parties, may (.booking r id now parties origin)) ∧
    ∀ n : Notification, n.id = id → may (.queueing n origin)
  /-- An id may be drawn when none is given. -/
  drawn : key = none →
    (∀ r id now parties, may (.booking r id now parties .drawn)) ∧
    ∀ n : Notification, may (.queueing n .drawn)
  unlocks : ∀ a index now, may (.unlocking a index now)

theorem Keyed.mono {a : Action} {ritual subject : String} {key : Option String} {own : List String}
    {v' : View} (h : Keyed may v a ritual subject key) (hv : Evolves own v.store v'.store) :
    Keyed may v' a ritual subject key where
  given id hid := by
    obtain ⟨origin, hbacks, hbook, hqueue⟩ := h.given id hid
    exact ⟨origin, fun comesFrom hfrom => (hbacks comesFrom hfrom).mono hv, hbook, hqueue⟩
  drawn := h.drawn
  unlocks := h.unlocks

theorem execute_ensures {a : Action} {ritual subject : String} {key : Option String}
    (h : Keyed may v a ritual subject key) :
    (a.execute policy ritual subject key).Ensures may (fun _ _ => True) v := by
  -- Amounts are booked, and the record says whose they are.
  have hbook : ∀ kind sender receiver amount,
      (∀ id now, a.IsBookedAs ritual subject
        (Ledger.record (a.booking kind sender receiver amount ritual key) id now)) →
      (Ledger.apply policy (a.booking kind sender receiver amount ritual key)).Ensures may
        (fun _ _ => True) v := by
    intro kind sender receiver amount hrecord
    cases key with
    | none =>
      refine Ledger.apply_ensures .supplied nofun nofun ?_
      intro id now parties _
      exact (h.drawn rfl).1 _ id now parties
    | some id =>
      obtain ⟨origin, hbacks, hmay, -⟩ := h.given id rfl
      refine Ledger.apply_ensures origin ?_ ?_ nofun
      · rintro i ⟨⟩ now
        exact hbacks _ (hrecord id now)
      · rintro i now parties ⟨⟩
        exact hmay _ now parties
  cases a with
  | reward amount =>
    exact .map (hbook _ _ _ _ fun id now => ⟨rfl, rfl, rfl, rfl, rfl, rfl, rfl⟩)
  | penalty amount =>
    exact .map (hbook _ _ _ _ fun id now => ⟨rfl, rfl, rfl, rfl, rfl, rfl, rfl⟩)
  | unlockTask index => exact unlock_ensures fun a now => h.unlocks a index now
  | notify message =>
    refine .map ?_
    cases key with
    | none =>
      exact Notification.enqueue_ensures .supplied nofun nofun fun i now _ => (h.drawn rfl).2 _
    | some id =>
      obtain ⟨origin, hbacks, -, hmay⟩ := h.given id rfl
      refine Notification.enqueue_ensures origin ?_ ?_ nofun
      · rintro i ⟨⟩ now
        exact hbacks _ ⟨rfl, rfl, rfl, rfl⟩
      · rintro i now ⟨⟩
        exact hmay _ rfl

end Action

/-! ## Batches -/

namespace Batch

/-- Each action is executed in a store that has evolved since the batch began. -/
theorem runFrom_ensures {b : Batch} {actions : List Action} {position : Nat}
    (h : ∀ j a, actions[j]? = some a →
      Action.Keyed may v a b.ritual b.subject (b.key (position + j))) :
    (b.runFrom policy position actions).Ensures may (fun _ _ => True) v := by
  induction actions generalizing position v with
  | nil => exact trivial
  | cons a rest ih =>
    have hfirst : (a.execute policy b.ritual b.subject (b.key (position + 0))).Ensures may
        (fun _ _ => True) v := Action.execute_ensures (h 0 a rfl)
    refine Program.Ensures.bind (Program.Ensures.later hfirst) ?_
    rintro answer v' ⟨-, hv⟩
    have hrest : ∀ j a', rest[j]? = some a' →
        Action.Keyed may v' a' b.ritual b.subject (b.key (position + 1 + j)) := by
      intro j a' ha'
      have hkeyed := (h (j + 1) a' ha').mono hv
      rwa [Nat.add_comm j 1, ← Nat.add_assoc] at hkeyed
    exact Program.Ensures.bind (ih hrest) fun _ _ _ => trivial

theorem run_ensures {b : Batch} {actions : List Action}
    (h : ∀ j a, actions[j]? = some a → Action.Keyed may v a b.ritual b.subject (b.key j)) :
    (b.run policy actions).Ensures may (fun _ _ => True) v := by
  have hrun : (b.runFrom policy 0 actions).Ensures may (fun _ _ => True) v := by
    refine runFrom_ensures ?_
    intro j a ha
    rw [Nat.zero_add]
    exact h j a ha
  exact hrun.bind fun _ v' _ u now hu hnow => trivial

/-- What a client that runs a scope may do: it books and queues under the keys of the scope, and
unlocks tasks. -/
structure MayRun (may : Change → Prop) (scope : Scope) : Prop where
  book : ∀ r id now parties position, may (.booking r id now parties (.due scope position))
  queue : ∀ n position, may (.queueing n (.due scope position))
  unlock : ∀ a index now, may (.unlocking a index now)

/-- Actions that are due run under the keys of their positions. -/
theorem run_ensures_of_due {b : Batch} {scope : Scope} {actions : List Action}
    (hscope : b.scope = some scope) (hmay : MayRun may scope)
    (hdue : ∀ j a, actions[j]? = some a → Due v.store scope j b.ritual b.subject a) :
    (b.run policy actions).Ensures may (fun _ _ => True) v := by
  refine run_ensures fun j a ha => ⟨?_, ?_, hmay.unlock⟩
  · intro id hid
    rw [key, hscope] at hid
    cases hid
    refine ⟨.due scope j, ?_,
      fun r now parties => hmay.book r _ now parties j, fun n _ => hmay.queue n j⟩
    intro comesFrom hfrom
    exact ⟨rfl, b.ritual, b.subject, a, hdue j a ha, hfrom⟩
  · intro hnone
    rw [key, hscope] at hnone
    cases hnone

end Batch

end RitualLedger
