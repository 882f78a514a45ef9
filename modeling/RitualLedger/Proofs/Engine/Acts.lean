import RitualLedger.Proofs.Engine.Listing
import RitualLedger.Proofs.Rule.Provenance

/-!
# What runs do to the ledger and to the queue

A run is told by its acts: a transaction is freshly applied, a notification is queued under a new
id, or one is marked as read. `Store.acts` reads them off the stores before and after an event, and
`World.acts` lists those of a run, each with the client that was served.

A change is at most one act (`Change.Makes.acts`), and an act is what the client's call may do
(`World.mem_acts`). The ledger holds the transactions of the acts in their order, and the queue
holds their notifications, those that were marked as read (`World.told_after`).
-/

namespace RitualLedger

/-- What is done to the ledger or to the queue. -/
inductive Act where
  /-- A transaction is freshly applied. -/
  | applied (t : Transaction)
  /-- A notification is queued under a new id. -/
  | queued (n : Notification)
  /-- The notification of an id is marked as read. -/
  | marked (id : String)
deriving DecidableEq, Repr

namespace Act

/-- The transactions that are applied. -/
def transactions (acts : List Act) : List Transaction :=
  acts.filterMap fun
    | .applied t => some t
    | _ => none

/-- The notifications that are queued. -/
def notifications (acts : List Act) : List Notification :=
  acts.filterMap fun
    | .queued n => some n
    | _ => none

/-- The ids of the notifications that are marked. -/
def marks (acts : List Act) : List String :=
  acts.filterMap fun
    | .marked id => some id
    | _ => none

/-- A notification as it is after some acts. -/
def seen (acts : List Act) (n : Notification) : Notification :=
  if n.id ∈ marks acts then n.marked else n

variable {acts : List Act}

theorem transactions_append (acts acts' : List Act) :
    transactions (acts ++ acts') = transactions acts ++ transactions acts' :=
  List.filterMap_append

theorem notifications_append (acts acts' : List Act) :
    notifications (acts ++ acts') = notifications acts ++ notifications acts' :=
  List.filterMap_append

theorem marks_append (acts acts' : List Act) : marks (acts ++ acts') = marks acts ++ marks acts' :=
  List.filterMap_append

@[simp] theorem notifications_apply (acts : List Act) (x : Transaction) :
    notifications (acts ++ [.applied x]) = notifications acts :=
  (notifications_append _ _).trans (List.append_nil _)

@[simp] theorem marks_apply (acts : List Act) (x : Transaction) :
    marks (acts ++ [.applied x]) = marks acts :=
  (marks_append _ _).trans (List.append_nil _)

@[simp] theorem notifications_queue (acts : List Act) (n : Notification) :
    notifications (acts ++ [.queued n]) = notifications acts ++ [n] :=
  notifications_append _ _

@[simp] theorem marks_queue (acts : List Act) (n : Notification) :
    marks (acts ++ [.queued n]) = marks acts :=
  (marks_append _ _).trans (List.append_nil _)

@[simp] theorem notifications_mark (acts : List Act) (id : String) :
    notifications (acts ++ [.marked id]) = notifications acts :=
  (notifications_append _ _).trans (List.append_nil _)

@[simp] theorem marks_mark (acts : List Act) (id : String) :
    marks (acts ++ [.marked id]) = marks acts ++ [id] :=
  marks_append _ _

theorem mem_transactions {t : Transaction} : t ∈ transactions acts ↔ .applied t ∈ acts := by
  rw [transactions, List.mem_filterMap]
  constructor
  · rintro ⟨a, ha, heq⟩
    cases a with
    | applied t' => exact Option.some.inj heq ▸ ha
    | queued _ | marked _ => cases heq
  · exact fun h => ⟨_, h, rfl⟩

theorem mem_marks {id : String} : id ∈ marks acts ↔ .marked id ∈ acts := by
  rw [marks, List.mem_filterMap]
  constructor
  · rintro ⟨a, ha, heq⟩
    cases a with
    | marked id' => exact Option.some.inj heq ▸ ha
    | applied _ | queued _ => cases heq
  · exact fun h => ⟨_, h, rfl⟩

theorem id_seen (acts : List Act) (n : Notification) : (seen acts n).id = n.id := by
  rw [seen]
  split <;> rfl

end Act

/-- The act that a change is, if it is one. -/
def Change.act? : Change → Option Act
  | .booking r id now _ _ => some (.applied (Ledger.record r id now))
  | .queueing n _ => some (.queued n)
  | .marking n => some (.marked n.id)
  | .opening _ | .unlocking _ _ _ | .creating _ _ _ _ | .stepping _ _ _ _ _ _ | .logging _ _ => none

/-! ## The acts between two stores -/

namespace Store

/-- What has been done to the ledger and to the queue from one store to another: transactions and
notifications stand under ids that had none, and notifications are read that were not. -/
def acts (s t : Store) : List Act :=
  ((t.all Transaction).filter fun x =>
      (s.read? (Ledger.transactionKey x.id)).isNone).map .applied ++
    (((t.all Notification).filter fun n => (s.read? (Notification.key n.id)).isNone).map .queued ++
      ((s.all Notification).filter fun n => !n.read &&
        (t.get? Notification (Notification.key n.id)).any (·.read)).map fun n => .marked n.id)

variable {s t : Store}

theorem Regular.get?_of_notification (hs : s.Regular) {n : Notification}
    (hn : n ∈ s.all Notification) : s.get? Notification (Notification.key n.id) = some n :=
  hs.wellTyped.get?_of_mem_all hs.distinctKeys Notification.id (fun _ _ h => h) hn

theorem Regular.nodup_transactions (hs : s.Regular) : ((s.all Transaction).map (·.id)).Nodup := by
  rw [hs.wellTyped.map_all (α := Transaction) hs.distinctKeys fun _ _ h => h]
  exact hs.distinctKeys.nodup_ids

theorem Regular.nodup_notifications (hs : s.Regular) :
    ((s.all Notification).map (·.id)).Nodup := by
  rw [hs.wellTyped.map_all (α := Notification) hs.distinctKeys fun _ _ h => h]
  exact hs.distinctKeys.nodup_ids

/-- One notification has an id. -/
theorem Regular.filter_id (hs : s.Regular) {n : Notification} (hn : n ∈ s.all Notification) :
    (s.all Notification).filter (fun m => decide (m.id = n.id)) = [n] := by
  obtain ⟨before, behind, hsplit⟩ := List.append_of_mem hn
  have hnodup := hs.nodup_notifications
  rw [hsplit, List.map_append, List.map_cons] at hnodup
  have hnot := (List.nodup_cons.1 (List.nodup_middle.1 hnodup)).1
  rw [← List.map_append] at hnot
  have hothers : ∀ m ∈ before ++ behind, ¬ decide (m.id = n.id) = true := by
    intro m hm hid
    exact hnot (List.mem_map.2 ⟨m, hm, of_decide_eq_true hid⟩)
  have hself : decide (n.id = n.id) = true := decide_eq_true rfl
  rw [hsplit, List.filter_append, List.filter_cons, if_pos hself,
    List.filter_eq_nil_iff.2 fun m hm => hothers m (List.mem_append_left _ hm),
    List.filter_eq_nil_iff.2 fun m hm => hothers m (List.mem_append_right _ hm)]
  rfl

/-- Where transactions and notifications are added they are applied and queued. -/
theorem Regular.acts_of_append (hs : s.Regular) (ht : t.Regular) (applied : List Transaction)
    (queued : List Notification) (htransactions : t.all Transaction = s.all Transaction ++ applied)
    (hnotifications : t.all Notification = s.all Notification ++ queued)
    (hnewTransactions : ∀ x ∈ applied, s.read? (Ledger.transactionKey x.id) = none)
    (hnewNotifications : ∀ n ∈ queued, s.read? (Notification.key n.id) = none) :
    s.acts t = applied.map .applied ++ queued.map .queued := by
  have happlied : (s.all Transaction ++ applied).filter
      (fun x => (s.read? (Ledger.transactionKey x.id)).isNone) = applied :=
    hs.wellTyped.filter_new hs.distinctKeys Transaction.id (fun _ _ h => h) hnewTransactions
  have hqueued : (s.all Notification ++ queued).filter
      (fun n => (s.read? (Notification.key n.id)).isNone) = queued :=
    hs.wellTyped.filter_new hs.distinctKeys Notification.id (fun _ _ h => h) hnewNotifications
  have hmarked : (s.all Notification).filter (fun n => !n.read &&
      (t.get? Notification (Notification.key n.id)).any (·.read)) = [] := by
    refine List.filter_eq_nil_iff.2 fun n hn => ?_
    have hstill : n ∈ t.all Notification := hnotifications ▸ List.mem_append_left _ hn
    rw [ht.get?_of_notification hstill]
    cases hread : n.read <;> simp [hread]
  rw [acts, htransactions, hnotifications, happlied, hqueued, hmarked, List.map_nil,
    List.append_nil]

theorem Regular.acts_self (hs : s.Regular) : s.acts s = [] :=
  hs.acts_of_append hs [] [] (List.append_nil _).symm (List.append_nil _).symm
    (List.forall_mem_nil _) (List.forall_mem_nil _)

end Store

/-! ## Changes -/

namespace Change.Makes

variable {s t : Store} {ch : Change}

theorem all_of_queueing {n : Notification} {origin : Origin}
    (h : (Change.queueing n origin).Makes s t) :
    t.all Notification = s.all Notification ++ [n] :=
  h.all_snoc [] [] rfl nofun h.allowed.2.2.1 h.allowed.1

/-- A notification that is marked keeps its place. -/
theorem all_of_marking {n : Notification} (h : (Change.marking n).Makes s t) (hs : s.Regular) :
    t.all Notification =
      (s.all Notification).map fun m => if m.id = n.id then n.marked else m := by
  have hstored := h.allowed.2
  have hfits : Fits n.marked := (hs.wellTyped.named (α := Notification) hstored).1
  have hplaces : t.inCollection Collection.notifications.name =
      (s.inCollection Collection.notifications.name).map fun d =>
        if d.1 = n.id then (n.id, encode n.marked) else d := by
    rw [h.made]
    exact Store.inCollection_put_present hs.distinctKeys (Store.present_of_get? hstored)
  have hrecords : s.inCollection Collection.notifications.name =
      (s.all Notification).map fun m => (m.id, encode m) :=
    hs.wellTyped.inCollection_eq hs.distinctKeys Notification.id fun _ _ h => h
  change (t.inCollection Collection.notifications.name).filterMap (fun d => decode? d.2) = _
  rw [hplaces, hrecords, List.map_map, List.filterMap_map, ← List.filterMap_eq_map]
  refine List.filterMap_congr fun m hm => ?_
  simp only [Function.comp_apply]
  split
  · exact decode_encode hfits
  · exact decode_encode (hs.wellTyped.fits_of_mem_all hs.distinctKeys hm)

/-- A notification is read now and was not before if it is the one that was marked. -/
theorem newlyRead_of_marking {n : Notification} (h : (Change.marking n).Makes s t)
    (hs : s.Regular) {m : Notification} (hm : m ∈ s.all Notification) :
    (!m.read && (t.get? Notification (Notification.key m.id)).any (·.read)) =
      decide (m.id = n.id) := by
  have hafter : (if m.id = n.id then n.marked else m) ∈ t.all Notification := by
    rw [h.all_of_marking hs]
    exact List.mem_map.2 ⟨m, hm, rfl⟩
  have hget := (h.regular hs).get?_of_notification hafter
  by_cases hid : m.id = n.id
  · have hboth := hs.get?_of_notification hm
    rw [hid] at hboth
    obtain rfl : m = n := Option.some.inj (hboth.symm.trans h.allowed.2)
    rw [if_pos rfl] at hget
    change t.get? Notification (Notification.key m.id) = _ at hget
    rw [hget, h.allowed.1, decide_eq_true rfl]
    rfl
  · rw [if_neg hid] at hget
    rw [hget, decide_eq_false hid, Option.any_some, Bool.not_and_self]

/-- Marking stores nothing under a new id. -/
theorem ids_of_marking {n : Notification} (h : (Change.marking n).Makes s t) (hs : s.Regular) :
    (t.all Notification).map (·.id) = (s.all Notification).map (·.id) := by
  rw [h.all_of_marking hs, List.map_map]
  refine List.map_congr_left fun m _ => ?_
  simp only [Function.comp_apply]
  split
  · rename_i hid
    exact hid.symm
  · rfl

/-- One notification is marked, and no other. -/
theorem acts_of_marking {n : Notification} (h : (Change.marking n).Makes s t) (hs : s.Regular) :
    s.acts t = [.marked n.id] := by
  have happlied : (t.all Transaction).filter
      (fun x => (s.read? (Ledger.transactionKey x.id)).isNone) = [] := by
    rw [h.all_untouched (by simp [Change.collections, Record.collection]),
      ← List.append_nil (s.all Transaction)]
    exact hs.wellTyped.filter_new hs.distinctKeys Transaction.id (fun _ _ h => h)
      (List.forall_mem_nil _)
  have hqueued : (t.all Notification).filter
      (fun m => (s.read? (Notification.key m.id)).isNone) = [] := by
    refine List.filter_eq_nil_iff.2 fun m hm hnone => ?_
    have hold : m.id ∈ (s.all Notification).map (·.id) :=
      h.ids_of_marking hs ▸ List.mem_map_of_mem hm
    obtain ⟨m₀, hm₀, hid⟩ := List.mem_map.1 hold
    rw [← hid] at hnone
    exact Store.present_of_get? (hs.get?_of_notification hm₀) (Option.isNone_iff_eq_none.1 hnone)
  have hmarked : (s.all Notification).filter (fun m => !m.read &&
      (t.get? Notification (Notification.key m.id)).any (·.read)) = [n] := by
    rw [List.filter_congr fun m hm => h.newlyRead_of_marking hs hm]
    exact hs.filter_id ((Store.mem_all hs.distinctKeys).2 ⟨_, h.allowed.2⟩)
  rw [Store.acts, happlied, hqueued, hmarked]
  rfl

/-- **A change is at most one act.** -/
theorem acts (h : ch.Makes s t) (hs : s.Regular) : s.acts t = ch.act?.toList := by
  have ht := h.regular hs
  cases ch with
  | booking r id now parties origin =>
    refine hs.acts_of_append ht [Ledger.record r id now] [] (Ledger.all_of_booking h) ?_ ?_
      (List.forall_mem_nil _)
    · rw [List.append_nil]
      exact h.all_untouched (by simp [collections, Record.collection])
    · exact List.forall_mem_singleton.2 h.allowed.new
  | queueing n origin =>
    refine hs.acts_of_append ht [] [n] ?_ h.all_of_queueing (List.forall_mem_nil _) ?_
    · rw [List.append_nil]
      exact h.all_untouched (by simp [collections, Record.collection])
    · exact List.forall_mem_singleton.2 h.allowed.2.2.1
  | marking n => exact h.acts_of_marking hs
  | opening _ | unlocking _ _ _ | creating _ _ _ _ | stepping _ _ _ _ _ _ | logging _ _ =>
    refine hs.acts_of_append ht [] [] ?_ ?_ (List.forall_mem_nil _) (List.forall_mem_nil _)
    · rw [List.append_nil]
      exact h.all_untouched (by simp [collections, Record.collection])
    · rw [List.append_nil]
      exact h.all_untouched (by simp [collections, Record.collection])

end Change.Makes

/-! ## What acts tell of a store -/

/-- The acts that have led to a store: its transactions are those that were applied, and its
notifications those that were queued, as they are now. No notification is marked twice, and none
that was not queued. -/
structure Act.Tell (acts : List Act) (s : Store) : Prop where
  transactions : s.all Transaction = Act.transactions acts
  notifications : s.all Notification = (Act.notifications acts).map (Act.seen acts)
  unread : ∀ n ∈ Act.notifications acts, n.read = false
  marks : ∀ id ∈ Act.marks acts, ∃ n ∈ Act.notifications acts, n.id = id
  once : (Act.marks acts).Nodup

namespace Act.Tell

variable {acts : List Act} {s t : Store}

theorem empty : Tell [] .empty := ⟨rfl, rfl, nofun, nofun, List.nodup_nil⟩

theorem ids (h : Tell acts s) :
    (Act.notifications acts).map (·.id) = (s.all Notification).map (·.id) := by
  rw [h.notifications, List.map_map]
  exact List.map_congr_left fun n _ => (Act.id_seen acts n).symm

/-- One notification was queued under an id. -/
theorem eq_of_id (h : Tell acts s) (hs : s.Regular) {m n : Notification}
    (hm : m ∈ Act.notifications acts) (hn : n ∈ Act.notifications acts) (hid : m.id = n.id) :
    m = n := by
  have hnodup := hs.nodup_notifications
  rw [← h.ids] at hnodup
  exact List.inj_on_of_nodup_map hnodup hm hn hid

/-- A notification is stored as the acts have left it. -/
theorem get?_seen (h : Tell acts s) (hs : s.Regular) {n : Notification}
    (hn : n ∈ Act.notifications acts) :
    s.get? Notification (Notification.key n.id) = some (Act.seen acts n) := by
  have hmem : Act.seen acts n ∈ s.all Notification := by
    rw [h.notifications]
    exact List.mem_map_of_mem hn
  have hget := hs.get?_of_notification hmem
  rwa [Act.id_seen] at hget

/-- What is stored under an id was queued under it. -/
theorem queued_of_present (h : Tell acts s) (hs : s.Regular) {id : String}
    (hid : s.read? (Notification.key id) ≠ none) : ∃ n ∈ Act.notifications acts, n.id = id := by
  have hmem : id ∈ (s.all Notification).map (·.id) :=
    (hs.wellTyped.mem_map_all Notification.id hs.distinctKeys fun _ _ h => h).2 hid
  rw [← h.ids] at hmem
  exact List.mem_map.1 hmem

/-- What is not stored was not marked. -/
theorem unmarked (h : Tell acts s) (hs : s.Regular) {id : String}
    (hnew : s.read? (Notification.key id) = none) : id ∉ Act.marks acts := by
  intro hmarked
  obtain ⟨m, hm, hid⟩ := h.marks _ hmarked
  exact Store.present_of_get? (hid ▸ h.get?_seen hs hm) hnew

theorem queueing (h : Tell acts s) (hs : s.Regular) {n : Notification} {origin : Origin}
    (hmakes : (Change.queueing n origin).Makes s t) : Tell (acts ++ [.queued n]) t := by
  have hseen : Act.seen (acts ++ [.queued n]) = Act.seen acts := by
    funext m
    rw [Act.seen, Act.seen, Act.marks_queue]
  have hunmarked : n.id ∉ Act.marks acts := h.unmarked hs hmakes.allowed.2.2.1
  constructor
  case transactions =>
    rw [hmakes.all_untouched (by simp [Change.collections, Record.collection]), h.transactions,
      Act.transactions_append]
    exact (List.append_nil _).symm
  case notifications =>
    rw [hmakes.all_of_queueing, h.notifications, Act.notifications_queue, hseen, List.map_append,
      List.map_singleton, Act.seen, if_neg hunmarked]
  case unread =>
    rw [Act.notifications_queue]
    exact List.forall_mem_append.2 ⟨h.unread, List.forall_mem_singleton.2 hmakes.allowed.2.1⟩
  case marks =>
    rw [Act.marks_queue, Act.notifications_queue]
    intro id hid
    obtain ⟨m, hm, hmid⟩ := h.marks id hid
    exact ⟨m, List.mem_append_left _ hm, hmid⟩
  case once =>
    rw [Act.marks_queue]
    exact h.once

theorem marking (h : Tell acts s) (hs : s.Regular) {n : Notification}
    (hmakes : (Change.marking n).Makes s t) : Tell (acts ++ [.marked n.id]) t := by
  -- What is marked was queued, and was not marked before.
  have hmem : n ∈ s.all Notification := (Store.mem_all hs.distinctKeys).2 ⟨_, hmakes.allowed.2⟩
  rw [h.notifications] at hmem
  obtain ⟨m, hm, hseen⟩ := List.mem_map.1 hmem
  have hid : m.id = n.id := by rw [← hseen, Act.id_seen]
  have hunmarked : n.id ∉ Act.marks acts := by
    intro hmarked
    rw [Act.seen, hid, if_pos hmarked] at hseen
    have hread := hmakes.allowed.1
    rw [← hseen] at hread
    cases hread
  have hsame : m = n := by rw [← hseen, Act.seen, hid, if_neg hunmarked]
  subst hsame
  constructor
  case transactions =>
    rw [hmakes.all_untouched (by simp [Change.collections, Record.collection]), h.transactions,
      Act.transactions_append]
    exact (List.append_nil _).symm
  case notifications =>
    rw [hmakes.all_of_marking hs, h.notifications, Act.notifications_mark, List.map_map]
    refine List.map_congr_left fun m' hm' => ?_
    rw [Function.comp_apply, Act.id_seen, Act.seen, Act.seen, Act.marks_mark]
    by_cases hid' : m'.id = m.id
    · rw [if_pos hid', if_pos (by simp [hid']), h.eq_of_id hs hm' hm hid']
    · rw [if_neg hid']
      simp [hid']
  case unread =>
    rw [Act.notifications_mark]
    exact h.unread
  case marks =>
    rw [Act.marks_mark, Act.notifications_mark]
    exact List.forall_mem_append.2 ⟨h.marks, List.forall_mem_singleton.2 ⟨m, hm, rfl⟩⟩
  case once =>
    rw [Act.marks_mark]
    exact List.nodup_append.2 ⟨h.once, List.nodup_singleton _, fun id hid id' hid' heq =>
      hunmarked (List.mem_singleton.1 hid' ▸ heq ▸ hid)⟩

theorem booking (h : Tell acts s) {r : TransactionRequest} {id : String} {now : Instant}
    {parties : List Account} {origin : Origin}
    (hmakes : (Change.booking r id now parties origin).Makes s t) :
    Tell (acts ++ [.applied (Ledger.record r id now)]) t := by
  have hseen : Act.seen (acts ++ [.applied (Ledger.record r id now)]) = Act.seen acts := by
    funext m
    rw [Act.seen, Act.seen, Act.marks_apply]
  constructor
  case transactions =>
    rw [Ledger.all_of_booking hmakes, h.transactions, Act.transactions_append]
    rfl
  case notifications =>
    rw [hmakes.all_untouched (by simp [Change.collections, Record.collection]), h.notifications,
      Act.notifications_apply, hseen]
  case unread =>
    rw [Act.notifications_apply]
    exact h.unread
  case marks =>
    rw [Act.marks_apply, Act.notifications_apply]
    exact h.marks
  case once =>
    rw [Act.marks_apply]
    exact h.once

/-- **What is told stays told**, with the act of every change. -/
theorem preserved (h : Tell acts s) (hs : s.Regular) {ch : Change} (hmakes : ch.Makes s t) :
    Tell (acts ++ ch.act?.toList) t := by
  cases ch with
  | booking r id now parties origin => exact h.booking hmakes
  | queueing n origin => exact h.queueing hs hmakes
  | marking n => exact h.marking hs hmakes
  | opening _ | unlocking _ _ _ | creating _ _ _ _ | stepping _ _ _ _ _ _ | logging _ _ =>
    have htransactions : t.all Transaction = s.all Transaction :=
      hmakes.all_untouched (by simp [Change.collections, Record.collection])
    have hnotifications : t.all Notification = s.all Notification :=
      hmakes.all_untouched (by simp [Change.collections, Record.collection])
    rw [Change.act?, Option.toList_none, List.append_nil]
    exact ⟨htransactions.trans h.transactions, hnotifications.trans h.notifications, h.unread,
      h.marks, h.once⟩

end Act.Tell

/-! ## Runs -/

namespace World

/-- What an event does, with the client that it serves. -/
def does (w : World) (e : Event) : List (Nat × Act) :=
  match e with
  | .called _ _ => []
  | .served i _ => (w.store.acts (w.step e).store).map (i, ·)

/-- What a run does, with the clients that were served. -/
def acts (w : World) : List Event → List (Nat × Act)
  | [] => []
  | e :: rest => w.does e ++ (w.step e).acts rest

/-- What a run does, whoever was served. -/
def allActs (w : World) (es : List Event) : List Act := (w.acts es).map (·.2)

/-- What a run does for one client. -/
def actsOf (w : World) (es : List Event) (i : Nat) : List Act :=
  ((w.acts es).filter (·.1 = i)).map (·.2)

variable {w : World} {es es' : List Event} {e : Event} {i : Nat}

theorem acts_append (w : World) (es es' : List Event) :
    w.acts (es ++ es') = w.acts es ++ (w.after es).acts es' := by
  induction es generalizing w with
  | nil => rfl
  | cons e rest ih =>
    rw [List.cons_append, acts, acts, ih, List.append_assoc]
    rfl

theorem allActs_append (w : World) (es es' : List Event) :
    w.allActs (es ++ es') = w.allActs es ++ (w.after es).allActs es' := by
  rw [allActs, acts_append, List.map_append]
  rfl

theorem actsOf_append (w : World) (es es' : List Event) (i : Nat) :
    w.actsOf (es ++ es') i = w.actsOf es i ++ (w.after es).actsOf es' i := by
  rw [actsOf, acts_append, List.filter_append, List.map_append]
  rfl

theorem mem_actsOf {a : Act} : a ∈ w.actsOf es i ↔ (i, a) ∈ w.acts es := by
  simp only [actsOf, List.mem_map, List.mem_filter, Prod.exists, decide_eq_true_eq]
  constructor
  · rintro ⟨j, _, ⟨hmem, rfl⟩, rfl⟩
    exact hmem
  · exact fun h => ⟨i, a, ⟨h, rfl⟩, rfl⟩

theorem mem_allActs {a : Act} : a ∈ w.allActs es ↔ ∃ i, a ∈ w.actsOf es i := by
  simp only [allActs, mem_actsOf, List.mem_map, Prod.exists, exists_eq_right]

theorem allActs_singleton (hs : w.store.Regular) (e : Event) :
    w.allActs [e] = w.store.acts (w.step e).store := by
  rw [allActs, acts, acts, List.append_nil]
  cases e with
  | called policy call => rw [store_called, hs.acts_self]; rfl
  | served i chance =>
    rw [does, List.map_map]
    exact List.map_id _

/-- An event does what the change does that it is, if it is one. -/
theorem Sound.acts_step (h : w.Sound) (hs : w.store.Regular) (e : Event) :
    ((w.step e).store = w.store ∧ w.store.acts (w.step e).store = []) ∨
      ∃ i chance c ch, e = .served i chance ∧ w.clients[i]? = some c ∧ c.call.May ch ∧
        ch.Makes w.store (w.step e).store ∧
        w.store.acts (w.step e).store = ch.act?.toList := by
  rcases (h.step e).2 with hsame | ⟨i, chance, c, ch, he, hc, hmay, hmakes⟩
  · exact .inl ⟨hsame, by rw [hsame, hs.acts_self]⟩
  · exact .inr ⟨i, chance, c, ch, he, hc, hmay, hmakes, hmakes.acts hs⟩

/-- **The acts of a run tell its store.** -/
theorem told_after (ttl : Int) (es : List Event) :
    Act.Tell ((initial ttl).allActs es) ((initial ttl).after es).store := by
  induction es using List.reverseRecOn with
  | nil => exact .empty
  | append_singleton es e ih =>
    have hs := regular_after ttl es
    rw [allActs_append, after_concat, allActs_singleton hs]
    rcases (sound_after ttl es).acts_step hs e with ⟨hsame, hnone⟩ |
      ⟨i, chance, c, ch, -, -, -, hmakes, hacts⟩
    · rw [hnone, List.append_nil, hsame]
      exact ih
    · rw [hacts]
      exact ih.preserved hs hmakes

/-- An act of a client is a change that the client has made, and that its call may make. -/
structure Did (w : World) (es : List Event) (i : Nat) (a : Act) (c : Client) (ch : Change) :
    Prop where
  may : c.call.May ch
  act : ch.act? = some a
  made : ∃ earlier chance later, es = earlier ++ .served i chance :: later ∧
    ch.Makes (w.after earlier).store (w.after (earlier ++ [.served i chance])).store

/-- **Who does what.** Every act is a change that a client makes and may make. -/
theorem mem_acts {ttl : Int} {a : Act} (h : (i, a) ∈ (initial ttl).acts es) :
    ∃ c ch, ((initial ttl).after es).clients[i]? = some c ∧ (initial ttl).Did es i a c ch := by
  induction es using List.reverseRecOn with
  | nil => cases h
  | append_singleton es e ih =>
    rw [acts_append] at h
    rcases List.mem_append.1 h with h | h
    · obtain ⟨c, ch, hc, hmay, hact, earlier, chance, later, rfl, hmakes⟩ := ih h
      obtain ⟨c', hc', hcall⟩ := client_stays hc e
      rw [after_concat]
      exact ⟨c', ch, hc', hcall ▸ hmay, hact, earlier, chance, later ++ [e], by simp, hmakes⟩
    · have hs := regular_after ttl es
      rw [acts, acts, List.append_nil] at h
      cases e with
      | called policy call => cases h
      | served j chance =>
        obtain ⟨a', ha', heq⟩ := List.mem_map.1 h
        cases heq
        rcases (sound_after ttl es).acts_step hs (.served i chance) with ⟨-, hnone⟩ |
          ⟨_, _, c, ch, he, hc, hmay, hmakes, hacts⟩
        · rw [hnone] at ha'
          cases ha'
        · cases he
          rw [hacts] at ha'
          obtain ⟨c', hc', hcall⟩ := client_stays hc (.served i chance)
          refine ⟨c', ch, ?_, hcall ▸ hmay, Option.mem_toList.1 ha', es, chance, [], rfl, ?_⟩
          · rw [after_concat]
            exact hc'
          · rw [after_concat]
            exact hmakes

end World

end RitualLedger
