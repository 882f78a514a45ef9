import RitualLedger.Proofs.Engine.Among
import RitualLedger.Proofs.Engine.Contention
import RitualLedger.Proofs.Engine.Told
import RitualLedger.Proofs.Rule.Unlocking

/-!
# The queue of notifications

What waits for a subject is a queue: a message that is queued for the subject goes to its end, and
one that is marked as read is taken out, wherever it stands (`Act.waiting`). What is pending is this
queue, after any run (`pending_is_queue_of_unread`).

The queue is told by the acts of a run, and these by the answers to its calls. A message is queued
under an id once. So whoever comes later with the same id is told of a replay, whatever the message
is and whether the first one was read or not; and what is stored under the id stays what it was but
for being read.
-/

namespace RitualLedger

/-! ## The queue -/

namespace Act

/-- The id under which a message is queued. -/
def queuedId : Act → Option String
  | .queued n => some n.id
  | _ => none

/-- What an act makes of the queue of a subject. -/
def queue (subject : String) (waiting : List Notification) : Act → List Notification
  | .queued n => if n.subjectId = subject then waiting ++ [n] else waiting
  | .marked id => waiting.filter fun n => n.id ≠ id
  | .applied _ => waiting

/-- The messages that wait for a subject after some acts, the oldest first. -/
def waiting (subject : String) (acts : List Act) : List Notification :=
  acts.foldl (queue subject) []

/-- The messages that were queued for a subject and are not marked, in the order of their
queueing. -/
def unread (subject : String) (acts : List Act) : List Notification :=
  (notifications acts).filter fun n => n.subjectId = subject ∧ n.id ∉ marks acts

variable {subject : String} {acts : List Act} {s t : Store}

theorem waiting_concat (subject : String) (acts : List Act) (a : Act) :
    waiting subject (acts ++ [a]) = queue subject (waiting subject acts) a := by
  rw [waiting, List.foldl_append]
  rfl

/-- An act makes of the unread messages what it makes of the queue, when a message that is queued
was not marked before. -/
theorem unread_concat {a : Act} (hnew : ∀ n, a = .queued n → n.id ∉ marks acts) :
    unread subject (acts ++ [a]) = queue subject (unread subject acts) a := by
  cases a with
  | applied x =>
    rw [unread, notifications_apply, marks_apply]
    rfl
  | queued n =>
    have hunmarked := hnew n rfl
    rw [unread, notifications_queue, marks_queue, List.filter_append, queue, unread]
    by_cases hsubject : n.subjectId = subject
    · rw [if_pos hsubject, List.filter_cons_of_pos (by simp [hsubject, hunmarked])]
      rfl
    · rw [if_neg hsubject, List.filter_cons_of_neg (by simp [hsubject])]
      exact List.append_nil _
  | marked id =>
    rw [unread, notifications_mark, marks_mark, queue, unread, List.filter_filter]
    refine List.filter_congr fun n _ => ?_
    rw [← Bool.decide_and, decide_eq_decide, List.mem_append, not_or, List.mem_singleton]
    exact ⟨fun h => ⟨h.2.2, h.1, h.2.1⟩, fun h => ⟨h.2.1, h.2.2, h.1⟩⟩

/-- What a store has unread for a subject is what its acts say. -/
theorem unread_of_tell (h : Tell acts s) (subject : String) :
    (s.all Notification).filter (fun n => n.subjectId = subject ∧ n.read = false) =
      unread subject acts := by
  have hunread : ∀ n ∈ notifications acts,
      decide ((seen acts n).subjectId = subject ∧ (seen acts n).read = false) =
        decide (n.subjectId = subject ∧ n.id ∉ marks acts) := by
    intro n hn
    rw [decide_eq_decide, seen]
    split
    · rename_i hmarked
      have hread : (n.marked.read = false) → False := Bool.noConfusion
      exact iff_of_false (fun hunread => hread hunread.2) fun hnot => hnot.2 hmarked
    · rename_i hunmarked
      exact and_congr_right fun _ => iff_of_true (h.unread n hn) hunmarked
  rw [h.notifications, List.filter_map]
  refine (congrArg _ (List.filter_congr hunread)).trans ?_
  -- What is not marked is seen as it was queued.
  refine (List.map_congr_left fun n hn => ?_).trans (List.map_id _)
  exact if_neg (of_decide_eq_true (List.mem_filter.1 hn).2).2

end Act

namespace World

/-- What waits in a run is what was queued and not marked. -/
theorem waiting_allActs (ttl : Int) (es : List Event) (subject : String) :
    Act.waiting subject ((initial ttl).allActs es) =
      Act.unread subject ((initial ttl).allActs es) := by
  induction es using List.reverseRecOn with
  | nil => rfl
  | append_singleton es e ih =>
    have hs := regular_after ttl es
    have htold := told_after ttl es
    rw [allActs_append, allActs_singleton hs]
    rcases (sound_after ttl es).acts_step hs e with ⟨-, hnone⟩ | ⟨i, chance, c, ch, -, -, -, hmakes,
      hacts⟩
    · rw [hnone, List.append_nil]
      exact ih
    · rw [hacts]
      cases hact : ch.act? with
      | none => exact (List.append_nil _).symm ▸ ih
      | some a =>
        rw [Option.toList_some, Act.waiting_concat, ih, Act.unread_concat]
        rintro n rfl
        cases ch with
        | queueing n' origin =>
          cases hact
          exact htold.unmarked hs hmakes.allowed.2.2.1
        | opening _ | booking _ _ _ _ _ | marking _ | unlocking _ _ _ | creating _ _ _ _
        | stepping _ _ _ _ _ _ | logging _ _ => cases hact

end World

/-! ## The query -/

namespace Notification

variable {s t : Store} {subject : String}

theorem isAnswerable_pendingQuery : (pendingQuery subject).IsAnswerable := by
  refine ⟨fun f hf => ?_, fun f hf => ?_, ?_⟩
  · cases hf
    change ∀ field ∈ ["subject_id", "read"], Filter.IsPath field
    decide
  · cases hf
    change 4 < Expression.maxHeight
    decide
  · change 5 ≤ Statement.maxArguments
    decide

/-- The query asks for the unread notifications of the subject. -/
theorem accepts_pendingQuery (n : Notification) :
    (pendingQuery subject).accepts (encode n) =
      decide (n.subjectId = subject ∧ n.read = false) := by
  have hlabels : ∀ fs, encode n = .obj fs → ∀ f ∈ fs, '\x00' ∉ f.1.toList := by
    rintro _ ⟨⟩
    simp
  have hsubject : (Filter.eq "subject_id" (.str subject)).holds (encode n) =
      decide (n.subjectId = subject) :=
    (Filter.holds_eq_str (x := some n.subjectId) ⟨by decide, by simp⟩ hlabels rfl).trans
      (decide_eq_decide.2 Option.some_inj)
  have hread : (Filter.eq "read" (.bool false)).holds (encode n) = decide (n.read = false) :=
    Filter.holds_eq_bool ⟨by decide, by simp⟩ hlabels rfl
  rw [Query.accepts, pendingQuery, Option.all_some, Filter.holds, Filter.allHold, Filter.allHold,
    Filter.allHold, hsubject, hread, Bool.and_true]
  exact (Bool.decide_and _ _).symm

/-- What is pending in a store is what its acts say. -/
theorem queried_pending {acts : List Act} (h : Act.Tell acts s) (hs : s.Regular)
    (subject : String) :
    queried Notification (pendingQuery subject) s = .ok (Act.unread subject acts) := by
  rw [queried_of_isAnswerable isAnswerable_pendingQuery, ← Act.unread_of_tell h]
  exact Query.decodeAll_selected hs.wellTyped hs.distinctKeys rfl Notification.id (fun _ _ h => h)
    accepts_pendingQuery

theorem run_pending {acts : List Act} {setting : Setting} (h : Act.Tell acts setting.store)
    (hs : setting.store.Regular) (subject : String) :
    (pending subject).run setting = (.ok (Act.unread subject acts), setting) := by
  have hrun := run_queryDocuments (α := Notification) (pendingQuery subject) setting
  rw [queried_pending h hs] at hrun
  exact hrun

/-! ## Repeated ids -/

variable {policy : RetryPolicy} {id message ritual : String}

/-- A message under an id that is stored is a replay, whatever the others do. -/
theorem run_enqueue_again {setting : Setting} (h : setting.store.read? (key id) ≠ none) :
    (enqueue policy subject message ritual (some id)).run setting =
      (.ok ⟨id, true⟩, { setting with clock := setting.clock.draw.2 }) := by
  let later : Setting := { setting with clock := setting.clock.draw.2 }
  have hhas : (Snapshot.atOnce later.store [key id]).has (key id) = true := by
    rw [Snapshot.has_atOnce List.mem_cons_self]
    exact Option.isSome_iff_ne_none.2 h
  change (transact policy [key id]
    (decideQueueing subject message ritual id setting.clock.draw.1)).run later = _
  exact Program.run_transact_idle (decideQueueing_of_has hhas) rfl

/-- So it is for every client that comes in after the id was stored. -/
theorem keeps_enqueue_again (h : s.read? (key id) ≠ none) :
    (enqueue policy subject message ritual (some id)).Keeps (.among .engine fun _ => True)
      (fun _ _ _ => False) (fun queued _ _ => queued = ⟨id, true⟩) () s := by
  rw [enqueue_given]
  refine .bind .now ?_
  rintro now _ s₁ ⟨-, hs₁, -⟩
  have hdone : (Plan.done (⟨id, true⟩ : Queued)).writes = [] := rfl
  refine .transact_idle hdone ?_ fun _ _ => rfl
  intro snapshot t _ hgathered
  obtain ⟨u, hu, hdoc⟩ := hgathered.doc? List.mem_cons_self
  refine decideQueueing_of_has ?_
  rw [Snapshot.has, hdoc]
  exact Option.isSome_iff_ne_none.2 (Store.present_of_le (hs₁.le.trans hu.1.le) h)

/-! ## Reading -/

theorem decideMarking_of_get {snapshot : Snapshot} {x : Option Notification}
    (h : snapshot.get (key id) = .ok x) : decideMarking id snapshot = markingOf id x := by
  rw [decideMarking, h]
  rfl

theorem decideMarking_atOnce (hs : s.WellTyped) : decideMarking id (.atOnce s [key id]) =
    markingOf id (s.get? Notification (key id)) :=
  decideMarking_of_get (hs.get_atOnce (α := Notification) List.mem_cons_self)

/-- A notification that was read is answered again, whatever the others do. -/
theorem run_markRead_again {setting : Setting} {n : Notification} (hs : setting.store.WellTyped)
    (hget : setting.store.get? Notification (key id) = some n) (hread : n.read = true) :
    (markRead policy id).run setting = (.ok n, setting) := by
  have hdecision : decideMarking id (.atOnce setting.store [key id]) = .ok (.done n) := by
    rw [decideMarking_atOnce hs, hget]
    exact if_pos hread
  rw [markRead_eq]
  exact Program.run_transact_idle hdecision rfl

/-- There is nothing to mark under an id that is not stored. -/
theorem run_markRead_missing {setting : Setting} (hs : setting.store.WellTyped)
    (hmissing : setting.store.read? (key id) = none) :
    (markRead policy id).run setting = (.error (.notFound .notification id), setting) := by
  have hdecision : decideMarking id (.atOnce setting.store [key id]) =
      .error (.notFound .notification id) := by
    rw [decideMarking_atOnce hs, Store.get?_of_absent hmissing, markingOf]
  rw [markRead_eq]
  exact Program.run_transact_refused hdecision

/-- A notification that is unread is marked, when nobody else is there. -/
theorem run_markRead {setting : Setting} {n : Notification} (hs : setting.store.WellTyped)
    (hstill : setting.intrusions = [])
    (hget : setting.store.get? Notification (key id) = some n) (hunread : n.read = false) :
    ∃ t, (markRead policy id).run setting = (.ok n.marked, { setting with store := t }) ∧
      (Change.marking n).Makes setting.store t := by
  have hid : n.id = id := (hs.named (α := Notification) hget).2
  have hdecision : decideMarking id (.atOnce setting.store [key id]) =
      .ok ((Plan.done n.marked).put (key id) n.marked) := by
    rw [decideMarking_atOnce hs, hget]
    exact if_neg (Bool.eq_false_iff.1 hunread)
  refine ⟨setting.store.put (key id) (encode n.marked), ?_, ⟨hunread, hid ▸ hget⟩, hid ▸ rfl⟩
  rw [markRead_eq, Program.run_transact_still policy hstill, hdecision]
  rfl

/-- What was read stays as it is. -/
theorem get?_of_read {n : Notification} (hs : s.Regular) (hst : Rely.history.moves s t)
    (hget : s.get? Notification (key id) = some n) (hread : n.read = true) :
    t.get? Notification (key id) = some n := by
  obtain ⟨n', hget', rfl | ⟨hunread, -⟩⟩ := (hst.2 hs).notifications id n hget
  · exact hget'
  · cases hunread.symm.trans hread

/-- Whoever has marked a notification is told what is stored, and it is read. -/
theorem keeps_markRead (hs : s.Regular) :
    (markRead policy id).Keeps (.among .history fun _ => True) (fun _ _ _ => True)
      (fun n _ t => t.get? Notification (key id) = some n ∧ n.read = true) () s := by
  rw [markRead_eq]
  refine .transact (fun _ _ _ _ _ _ => trivial) (fun _ _ _ _ => trivial) ?_ ?_
  · intro snapshot t plan ht hgathered hdecision hwrites
    obtain ⟨u, hu, hsnapshot⟩ := hgathered.get (α := Notification) id List.mem_cons_self
      fun u hu => (hu.1.1.regular hs).wellTyped
    have hdecided : markingOf id (u.get? Notification (key id)) = .ok plan :=
      (decideMarking_of_get hsnapshot).symm.trans hdecision
    cases hget : u.get? Notification (key id) with
    | none =>
      rw [hget] at hdecided
      cases hdecided
    | some n =>
      rw [hget, markingOf] at hdecided
      split at hdecided
      · rename_i hread
        cases hdecided
        exact ⟨get?_of_read (hu.1.1.regular hs) hu.2 hget hread, hread⟩
      · cases hdecided
        cases hwrites
  · intro t plan u ht hcommits _
    obtain ⟨n, rfl, hresult, hmakes⟩ := marking_of_decide (ht.1.regular hs).wellTyped hcommits
    have hwritten : (key n.id, encode n.marked) ∈ (Change.marking n).writes :=
      List.mem_singleton.2 rfl
    have hfits : Fits n.marked :=
      ((ht.1.regular hs).wellTyped.named (α := Notification) hmakes.allowed.2).1
    rw [hresult]
    exact ⟨(), trivial, hmakes.get?_written hwritten hfits, rfl⟩

end Notification

/-! ## Calls -/

namespace Call

/-- What a call answers for a message under an id that is stored. -/
def Repeats (id : String) : (c : Call) → Except EngineError c.Result → Prop
  | enqueue _ _ _ key, answer => key = some id → answer = .ok (⟨id, true⟩ : Notification.Queued)
  | _, _ => True

theorem keeps_repeats {policy : RetryPolicy} {s : Store} {id : String}
    (h : s.read? (Notification.key id) ≠ none) (c : Call) :
    (c.operation policy).program.Keeps (.among .engine fun _ => True)
      (fun answer _ _ => c.Repeats id answer) () s := by
  cases c with
  | enqueue subject message ritual key =>
    by_cases hkey : key = some id
    · subst hkey
      refine Program.Keeps.imp (Notification.keeps_enqueue_again h) ?_
      rintro (e | queued) _ _ hanswer _
      · exact hanswer.elim
      · exact congrArg Except.ok hanswer
    · exact Program.Keeps.imp (.anyhow Contract.lax_among _ trivial s) fun _ _ _ _ h =>
        absurd h hkey
  | _ => exact Program.Keeps.imp (.anyhow Contract.lax_among _ trivial s) fun _ _ _ _ => trivial

/-- What a call answers that has marked a notification: it is stored, and was read. -/
def Reads (s : Store) : (c : Call) → Except EngineError c.Result → Prop
  | markRead id, answer => ∀ n, answer = .ok n →
    s.get? Notification (Notification.key id) = some n ∧ (n : Notification).read = true
  | _, _ => True

theorem keeps_reads {policy : RetryPolicy} {s : Store} (hs : s.Regular) (c : Call) :
    (c.operation policy).program.Keeps (.among .history fun _ => True)
      (fun answer _ t => c.Reads t answer) () s := by
  cases c with
  | markRead id =>
    refine Program.Keeps.imp (Notification.keeps_markRead hs) ?_
    rintro (e | n) _ t hanswer
    · exact nofun
    · rintro _ ⟨⟩
      exact hanswer
  | _ => exact Program.Keeps.imp (.anyhow Contract.lax_among _ trivial s) fun _ _ _ _ => trivial

theorem Reads.moved {s t : Store} {c : Call} {answer : Except EngineError c.Result}
    (h : c.Reads s answer) (hs : s.Regular) (hst : Rely.history.moves s t) : c.Reads t answer := by
  cases c with
  | markRead id =>
    intro n hn
    obtain ⟨hget, hread⟩ := h n hn
    exact ⟨Notification.get?_of_read hs hst hget hread, hread⟩
  | _ => trivial

end Call

/-! ## Runs -/

namespace World

variable {ttl : Int} {es later : List Event} {i j : Nat} {subject message ritual id : String}
  {own : List String}

/-- What is pending at a moment of a run. -/
theorem queried_pending_after (ttl : Int) (es : List Event) (subject : String) :
    queried Notification (Notification.pendingQuery subject) ((initial ttl).after es).store =
      .ok (Act.waiting subject ((initial ttl).allActs es)) := by
  rw [waiting_allActs]
  exact Notification.queried_pending (told_after ttl es) (regular_after ttl es) subject

/-- A client that has asked for what is pending is told what waited at one moment. -/
theorem told_pending {answer : Except EngineError (Call.pending subject).Result}
    (hc : ((initial ttl).after es).clients[i]? =
      some ⟨.pending subject, own, .finish answer⟩) :
    ∃ earlier later, es = earlier ++ later ∧ ((initial ttl).after earlier).clients[i]? ≠ none ∧
      answer = .ok (Act.waiting subject ((initial ttl).allActs earlier)) := by
  obtain ⟨next, hprogram, hnext⟩ :=
    program_queryDocuments (α := Notification) (Notification.pendingQuery subject)
  have hasks : ∀ policy, ((Call.pending subject).operation policy).program =
      .query (Notification.pendingQuery subject) next := fun _ => hprogram
  rcases answered_at_once hasks hnext hc with hwaiting | ⟨earlier, later, rfl, hpresent, hanswer⟩
  · cases hwaiting
  · refine ⟨earlier, later, rfl, hpresent, ?_⟩
    exact (Program.finish.inj hanswer).trans (queried_pending_after ttl earlier subject)

/-- What is done once is done by one client. -/
theorem eq_of_once {β : Type} {w : World} {f : Act → Option β} {a a' : Act} {b : β}
    (honce : ((w.allActs es).filterMap f).Nodup) (h : a ∈ w.actsOf es i) (h' : a' ∈ w.actsOf es j)
    (ha : f a = some b) (ha' : f a' = some b) : i = j ∧ a = a' := by
  rw [allActs, List.filterMap_map, List.Nodup, List.pairwise_filterMap] at honce
  have hsymm : Std.Symm fun x y : Nat × Act => ∀ b, (f ∘ (·.2)) x = some b →
      ∀ b', (f ∘ (·.2)) y = some b' → b ≠ b' :=
    ⟨fun _ _ hxy c hc d hd => (hxy d hd c hc).symm⟩
  have hsame : (i, a) = (j, a') := by
    by_contra hne
    exact honce.forall (mem_actsOf.1 h) (mem_actsOf.1 h') hne b ha b ha' rfl
  exact ⟨congrArg Prod.fst hsame, congrArg Prod.snd hsame⟩

/-- A message is queued under an id by one client. -/
theorem one_queues {m n : Notification} (hm : .queued m ∈ (initial ttl).actsOf es i)
    (hn : .queued n ∈ (initial ttl).actsOf es j) (hid : m.id = n.id) : i = j ∧ m = n := by
  have honce : (((initial ttl).allActs es).filterMap Act.queuedId).Nodup := by
    have hnodup := (regular_after ttl es).nodup_notifications
    rw [← (told_after ttl es).ids, Act.notifications, List.map_filterMap] at hnodup
    refine (List.filterMap_congr fun a _ => ?_) ▸ hnodup
    cases a <;> rfl
  obtain ⟨hclient, hact⟩ := eq_of_once honce hm hn (congrArg some hid) rfl
  exact ⟨hclient, Act.queued.inj hact⟩

/-- Whoever comes in after an id was stored is told of a replay. -/
theorem told_enqueue_again {answer : Except EngineError Notification.Queued}
    (hstored : ((initial ttl).after es).store.read? (Notification.key id) ≠ none)
    (hnew : ((initial ttl).after es).clients[i]? = none)
    (hc : ((initial ttl).after (es ++ later)).clients[i]? =
      some (Client.mk (.enqueue subject message ritual (some id)) own (.finish answer))) :
    answer = .ok ⟨id, true⟩ := by
  have hcalls : ∀ (policy : RetryPolicy) (call : Call) (s : Store), s.Regular →
      ((initial ttl).after es).store.Proceeds s →
      (call.operation policy).program.Keeps (.among .engine fun _ => True)
        (fun answer _ _ => call.Repeats id answer) () s :=
    fun policy call s _ hs => call.keeps_repeats (Store.present_of_le hs.evolves.le hstored)
  have hstays : ∀ (call : Call) (answer : Except EngineError call.Result) {s t : Store},
      s.Regular → s.Proceeds t → call.Repeats id answer → call.Repeats id answer :=
    fun _ _ _ _ _ _ h => h
  have hkeeps := keeps_since (R := .engine) (fun h _ e => h.proceeds e) hcalls hstays
    (fun _ _ _ _ _ => trivial) hnew hc
  exact hkeeps rfl

/-- Whoever has marked a notification is told what was queued, and it is read. -/
theorem told_markRead {n : Notification}
    (hc : ((initial ttl).after es).clients[i]? =
      some (Client.mk (.markRead id) own (.finish (.ok n)))) :
    ∃ m ∈ Act.notifications ((initial ttl).allActs es), m.id = id ∧ n = m.marked ∧
      id ∈ Act.marks ((initial ttl).allActs es) := by
  have hkeeps : (Program.finish (.ok n)).Keeps (.among .history fun _ => True)
      (fun answer _ s => (Call.markRead id).Reads s answer) () ((initial ttl).after es).store := by
    refine keeps_among (fun h hs e => h.history hs e) (fun _ call _ hs => call.keeps_reads hs) ?_
      (fun _ _ _ _ _ => trivial) hc
    exact fun call answer s t hs hst h => h.moved hs hst
  obtain ⟨hget, hread⟩ := hkeeps n rfl
  have htold := told_after ttl es
  have hs := regular_after ttl es
  obtain ⟨m, hm, rfl⟩ := htold.queued_of_present hs (Store.present_of_get? hget)
  have hseen : n = Act.seen ((initial ttl).allActs es) m :=
    Option.some.inj (hget.symm.trans (htold.get?_seen hs hm))
  rw [Act.seen] at hseen
  split at hseen
  · rename_i hmarked
    exact ⟨m, hm, rfl, hseen, hmarked⟩
  · rw [hseen, htold.unread m hm] at hread
    cases hread

end World

/-! ## The law of the queue -/

namespace Notification

/-- What holds after a run of a message that was queued in it. -/
structure Kept (start : World) (es : List Event) (n : Notification) : Prop where
  /-- It is stored as it was queued, but for being read. -/
  stored : (start.after es).store.get? Notification (key n.id) =
    some (Act.seen (start.allActs es) n)
  /-- A message under the same id is a replay, and changes nothing. -/
  repeated : ∀ policy subject message ritual setting, setting.store = (start.after es).store →
    (enqueue policy subject message ritual (some n.id)).run setting =
      (.ok ⟨n.id, true⟩, { setting with clock := setting.clock.draw.2 })
  /-- So it is for every client that comes in later, whatever happens meanwhile. -/
  told : ∀ later (i : Nat) subject message ritual own
      (answer : Except EngineError Notification.Queued),
    (start.after es).clients[i]? = none →
    (start.after (es ++ later)).clients[i]? =
      some (Client.mk (.enqueue subject message ritual (some n.id)) own (.finish answer)) →
    answer = .ok ⟨n.id, true⟩ ∧ start.actsOf (es ++ later) i = []
  /-- To mark it takes it out of the queue and leaves the others as they are, and to mark it again
  changes nothing. -/
  marked : ∀ policy setting, setting.store = (start.after es).store → setting.intrusions = [] →
    ∃ after, (markRead policy n.id).run setting = (.ok n.marked, after) ∧
      (∀ policy, (markRead policy n.id).run after = (.ok n.marked, after)) ∧
      ∀ subject, (pending subject).run after =
        (.ok ((Act.waiting subject (start.allActs es)).filter fun m => m.id ≠ n.id), after)

/-- A message is marked in an undisturbed setting, whether it was read or not. -/
theorem exists_run_markRead {acts : List Act} {setting : Setting} {n : Notification}
    {policy : RetryPolicy} (h : Act.Tell acts setting.store) (hs : setting.store.Regular)
    (hstill : setting.intrusions = []) (hn : n ∈ Act.notifications acts) :
    ∃ after, (markRead policy n.id).run setting = (.ok n.marked, after) ∧
      (∀ policy, (markRead policy n.id).run after = (.ok n.marked, after)) ∧
      ∀ subject, (pending subject).run after =
        (.ok ((Act.unread subject acts).filter fun m => m.id ≠ n.id), after) := by
  have hget := h.get?_seen hs hn
  rw [Act.seen] at hget
  split at hget
  · rename_i hmarked
    have hagain : ∀ policy, (markRead policy n.id).run setting = (.ok n.marked, setting) :=
      fun policy => run_markRead_again hs.wellTyped hget rfl
    refine ⟨setting, hagain policy, hagain, fun subject => ?_⟩
    rw [run_pending h hs, List.filter_eq_self.2]
    intro m hm
    obtain ⟨-, hunmarked⟩ := of_decide_eq_true (List.mem_filter.1 hm).2
    exact decide_eq_true fun hid => hunmarked (hid ▸ hmarked)
  · obtain ⟨t, hrun, hmakes⟩ := run_markRead hs.wellTyped hstill hget (h.unread n hn)
    have ht := hmakes.regular hs
    have hfits : Fits n.marked := (hs.wellTyped.named (α := Notification) hget).1
    have hstored : t.get? Notification (key n.id) = some n.marked :=
      hmakes.get?_written (List.mem_singleton.2 rfl) hfits
    let after : Setting := { setting with store := t }
    have hafter : Act.Tell (acts ++ [.marked n.id]) after.store := h.marking hs hmakes
    refine ⟨after, hrun, fun policy => run_markRead_again ht.wellTyped hstored rfl,
      fun subject => ?_⟩
    have htaken : Act.unread subject (acts ++ [.marked n.id]) =
        (Act.unread subject acts).filter fun m => m.id ≠ n.id :=
      Act.unread_concat fun _ h => Act.noConfusion h
    rw [run_pending hafter ht, htaken]

end Notification

namespace World

/-- A message that was queued is kept. -/
theorem kept_of_queued {ttl : Int} {es : List Event} {n : Notification}
    (hn : n ∈ Act.notifications ((initial ttl).allActs es)) :
    Notification.Kept (initial ttl) es n := by
  have htold := told_after ttl es
  have hs := regular_after ttl es
  have hget := htold.get?_seen hs hn
  have hstored := Store.present_of_get? hget
  refine ⟨hget, ?repeated, ?told, ?marked⟩
  case repeated =>
    intro policy subject message ritual setting hstore
    exact Notification.run_enqueue_again (hstore ▸ hstored)
  case told =>
    intro later i subject message ritual own answer hnew hc
    obtain rfl := told_enqueue_again hstored hnew hc
    exact ⟨rfl, (tells_of_answer hc rfl).replayed rfl⟩
  case marked =>
    intro policy setting hstore hstill
    simp only [waiting_allActs]
    exact Notification.exists_run_markRead (hstore ▸ htold) (hstore ▸ hs) hstill hn

end World

/-- **What is pending is the queue of what is unread.** After any run, and at the moment at which a
client of the run was answered, the notifications that are pending for a subject are those that were
queued for the subject and not marked as read since, the oldest first. What is queued and marked is
what the calls of the clients may do; it is told by their answers, and a client that has failed has
done none of it. One client queues a message under an id, and the message is kept: whoever comes
later with the id is told of a replay, and to mark it takes out this one message; to mark what was
never queued is an error. Who has marked a message was told what was queued; no message is marked
twice; one that was marked never waits again. -/
theorem Notification.pending_is_queue_of_unread (ttl : Int) (es : List Event) :
    let start := World.initial ttl
    let w := start.after es
    let acts := start.allActs es
    (∀ subject setting, setting.store = w.store →
      (pending subject).run setting = (.ok (Act.waiting subject acts), setting)) ∧
    (∀ (i : Nat) subject own (answer : Except EngineError (Call.pending subject).Result),
      w.clients[i]? = some (Client.mk (.pending subject) own (.finish answer)) →
      ∃ earlier later, es = earlier ++ later ∧ (start.after earlier).clients[i]? ≠ none ∧
        answer = .ok (Act.waiting subject (start.allActs earlier))) ∧
    (∀ subject, Act.waiting subject acts =
      (Act.notifications acts).filter fun n => n.subjectId = subject ∧ n.id ∉ Act.marks acts) ∧
    (∀ a, a ∈ acts ↔ ∃ i, a ∈ start.actsOf es i) ∧
    (∀ i a, a ∈ start.actsOf es i → ∃ c ch, w.clients[i]? = some c ∧ start.Did es i a c ch) ∧
    (∀ (i : Nat) (c : Client) answer, w.clients[i]? = some c → c.rest = .finish (.ok answer) →
      c.call.Tells w.store answer (start.actsOf es i)) ∧
    (∀ i e, w.failure? i = some e → start.actsOf es i = []) ∧
    (∀ i j m n, .queued m ∈ start.actsOf es i → .queued n ∈ start.actsOf es j → m.id = n.id →
      i = j ∧ m = n) ∧
    (∀ n ∈ Act.notifications acts, Kept start es n) ∧
    (∀ id, (∀ n ∈ Act.notifications acts, n.id ≠ id) →
      ∀ policy setting, setting.store = w.store →
        (markRead policy id).run setting = (.error (.notFound .notification id), setting)) ∧
    (∀ (i : Nat) id own n,
      w.clients[i]? = some (Client.mk (.markRead id) own (.finish (.ok n))) →
      ∃ m ∈ Act.notifications acts, m.id = id ∧ n = m.marked ∧ id ∈ Act.marks acts) ∧
    (Act.marks acts).Nodup ∧
    ∀ subject later, start.allActs (es ++ later) = acts ++ w.allActs later ∧
      ∀ n ∈ Act.waiting subject (start.allActs (es ++ later)), n.id ∉ Act.marks acts := by
  intro start w acts
  refine ⟨?now, fun i subject own answer => World.told_pending,
    fun subject => World.waiting_allActs ttl es subject, fun a => World.mem_allActs,
    fun i a ha => World.mem_acts (World.mem_actsOf.1 ha),
    fun i c answer hc => World.tells_of_answer hc, fun i e => World.actsOf_of_failure?,
    fun i j m n => World.one_queues, fun n => World.kept_of_queued, ?missing,
    fun i id own n => World.told_markRead, (World.told_after ttl es).once,
    fun subject later => ⟨World.allActs_append start es later, ?_⟩⟩
  case now =>
    intro subject setting hstore
    have hrun := run_queryDocuments (α := Notification) (pendingQuery subject) setting
    rw [hstore, World.queried_pending_after] at hrun
    exact hrun
  case missing =>
    intro id hnone policy setting hstore
    have hs : w.store.Regular := World.regular_after ttl es
    refine run_markRead_missing (hstore ▸ hs.wellTyped) ?_
    rw [hstore]
    by_contra hpresent
    obtain ⟨n, hn, hid⟩ := (World.told_after ttl es).queued_of_present hs hpresent
    exact hnone n hn hid
  · intro n hn hmarked
    rw [World.waiting_allActs] at hn
    obtain ⟨-, hunmarked⟩ := of_decide_eq_true (List.mem_filter.1 hn).2
    rw [World.allActs_append, Act.marks_append] at hunmarked
    exact hunmarked (List.mem_append_left _ hmarked)

/-- In `contested` the praise that the condition asks for is queued once, though two clients
complete the task and the completion is replayed. It waits for Ana until it is read, and does not
come back. -/
theorem Notification.praise_read_once_in_contested :
    let start := World.initial 0
    let setting : Setting := .still (start.after contested).store ⟨1700000001, 0⟩
    ∃ n ∈ Act.notifications (start.allActs contested),
      n.id = (Scope.completion contestedStep).key 1 ∧ n.message = "Well done" ∧
      (pending "ana").run setting = (.ok [n], setting) ∧
      (enqueue ⟨3⟩ "kim" "Again" "" (some n.id)).run setting =
        (.ok ⟨n.id, true⟩, { setting with clock := setting.clock.draw.2 }) ∧
      ∃ after, (markRead ⟨3⟩ n.id).run setting = (.ok n.marked, after) ∧
        (markRead ⟨3⟩ n.id).run after = (.ok n.marked, after) ∧
        (pending "ana").run after = (.ok [], after) := by
  intro start setting
  have hrun : (Act.notifications (start.allActs contested)).map (fun n => (n.id, n.message)) =
        [((Scope.completion contestedStep).key 1, "Well done")] ∧
      Act.waiting "ana" (start.allActs contested) =
        Act.notifications (start.allActs contested) := by
    decide +kernel
  obtain ⟨honly, hwaiting⟩ := hrun
  obtain ⟨n, hqueued, hn⟩ := List.map_eq_singleton_iff.1 honly
  obtain ⟨hid, hmessage⟩ := Prod.mk.inj hn
  have hstore : setting.store = (start.after contested).store := Setting.store_still _ _
  have hmem : n ∈ Act.notifications (start.allActs contested) := by simp [hqueued]
  obtain ⟨hnow, -, -, -, -, -, -, -, hkept, -⟩ := pending_is_queue_of_unread 0 contested
  have hpending := hnow "ana" setting hstore
  rw [hwaiting, hqueued] at hpending
  obtain ⟨after, hmarked, hagain, hthen⟩ := (hkept n hmem).marked ⟨3⟩ setting hstore rfl
  have hnone := hthen "ana"
  rw [hwaiting, hqueued, List.filter_cons_of_neg (by simp)] at hnone
  exact ⟨n, hmem, hid, hmessage, hpending, (hkept n hmem).repeated _ _ _ _ _ hstore, after, hmarked,
    hagain _, hnone⟩

end RitualLedger
