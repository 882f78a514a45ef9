import RitualLedger.Proofs.Completion.Course
import RitualLedger.Proofs.Engine.Telling

/-!
# What clients are told

A log tells of its actions one after the other: each that succeeded was one act, or unlocked a task,
and each that was skipped or failed was none (`ActionResult.Tells`). So every answer of a call that
executes actions tells what has been done to the ledger and to the queue, and other calls answer for
themselves (`Call.Tells`).

In runs, what was done for a client is what its answer tells (`World.tells_of_answer`), and nothing
if it has failed.
-/

namespace RitualLedger

open Ledger (transactionKey)

variable {s t : Store} {policy : RetryPolicy} {ritual subject : String}

/-! ## Logs -/

namespace ActionResult

/-- What a result tells: an action that succeeded has booked an amount, queued a message or unlocked
a task, and one that did not has done nothing. -/
inductive Tells (ritual subject : String) (r : ActionResult) : List Act → Prop
  | booked (x : Transaction) (hstatus : r.status = .success) (hid : r.transactionId = some x.id)
    (hfrom : r.action.IsBookedAs ritual subject x) : Tells ritual subject r [.applied x]
  | queued (n : Notification) (hstatus : r.status = .success)
    (hfrom : r.action.IsQueuedAs ritual subject n) : Tells ritual subject r [.queued n]
  | unlocked (index : UInt64) (hstatus : r.status = .success)
    (haction : r.action = .unlockTask index) : Tells ritual subject r []
  | passed (hstatus : r.status ≠ .success) : Tells ritual subject r []

/-- What results tell, one after the other. -/
inductive AllTell (ritual subject : String) : List ActionResult → List Act → Prop
  | nil : AllTell ritual subject [] []
  | cons {r : ActionResult} {rest : List ActionResult} {acts acts' : List Act}
    (hfirst : r.Tells ritual subject acts) (hrest : AllTell ritual subject rest acts') :
    AllTell ritual subject (r :: rest) (acts ++ acts')

theorem AllTell.append {results results' : List ActionResult} {acts acts' : List Act}
    (h : AllTell ritual subject results acts) (h' : AllTell ritual subject results' acts') :
    AllTell ritual subject (results ++ results') (acts ++ acts') := by
  induction h with
  | nil => exact h'
  | cons hfirst _ ih =>
    rw [List.append_assoc]
    exact .cons hfirst ih

end ActionResult

open ActionResult (AllTell)

namespace Batch

variable {b : Batch} {a : Action} {key : Option String} {acts : List Act}

/-- The result of an action tells what the effect tells. -/
theorem tells_result {effect : ActionEffect}
    (h : effect.Tells s a b.ritual b.subject key acts) :
    (b.result a (.ok effect)).Tells b.ritual b.subject acts := by
  cases effect with
  | booked receipt =>
    obtain ⟨id, replayed⟩ := receipt
    cases replayed with
    | true =>
      obtain rfl := h.replayed rfl
      exact .passed nofun
    | false =>
      obtain ⟨x, hx, rfl, rfl⟩ := h.fresh rfl
      exact .booked x rfl rfl hx
  | unlocked index newly =>
    obtain ⟨⟨index', ha⟩, rfl⟩ := h
    exact .unlocked index' rfl ha
  | queued n =>
    obtain ⟨id, replayed⟩ := n
    cases replayed with
    | true =>
      obtain rfl := h.replayed rfl
      exact .passed nofun
    | false =>
      obtain ⟨n, hn, rfl, rfl⟩ := h.fresh rfl
      exact .queued n rfl hn

theorem action_result (b : Batch) (a : Action) (answer : Except EngineError ActionEffect) :
    (b.result a answer).action = a := by
  cases answer <;> rfl

theorem tells_runFrom (hs : s.Regular) (position : Nat) (actions : List Action) :
    (b.runFrom policy position actions).Tells (fun results acts _ =>
      results.map (·.action) = actions ∧ AllTell b.ritual b.subject results acts) s := by
  induction actions generalizing position s with
  | nil => exact .finish ⟨rfl, .nil⟩
  | cons a rest ih =>
    refine Program.Tells.bind (Action.tells_execute hs a b.ritual b.subject (b.key position)) ?_
    intro answer acts s' hs' hanswer
    have hfirst : (b.result a answer).Tells b.ritual b.subject acts := by
      cases answer with
      | ok effect => exact tells_result hanswer
      | error e =>
        obtain rfl := hanswer
        exact .passed nofun
    refine Program.Tells.bind (ih (hs'.regular hs) (position + 1)) ?_
    rintro results acts' s'' - ⟨hactions, hresults⟩
    refine .finish ⟨?_, ?_⟩
    · rw [List.map_cons, action_result, hactions]
    · rw [List.append_nil]
      exact .cons hfirst hresults

/-- **A log tells what has been done by its actions.** -/
theorem tells_run (hs : s.Regular) (b : Batch) (actions : List Action) :
    (b.run policy actions).Tells (fun log acts _ =>
      log.actions = actions ∧ AllTell b.ritual b.subject log.results acts) s := by
  refine Program.Tells.bind (tells_runFrom hs 0 actions) ?_
  rintro results acts s' - ⟨hactions, hresults⟩ g s'' now _ _
  refine ⟨[], (List.append_nil g).symm, hactions, ?_⟩
  rw [List.append_nil]
  exact hresults

end Batch

/-! ## Completions -/

namespace Completion

variable {c : CompletionRecord}

theorem tells_payReward (hs : s.Regular) (c : CompletionRecord) :
    (payReward policy c).Tells
      (fun reward acts _ => AllTell c.ritualId c.subjectId reward.toList acts) s := by
  rw [payReward]
  split
  · exact .finish .nil
  · refine Program.Tells.bind (Batch.tells_run hs (c.batch none (.reward c.step)) _) ?_
    rintro log acts s' - ⟨hactions, hresults⟩
    -- One action has one result.
    obtain ⟨reward, hreward, -⟩ := List.map_eq_singleton_iff.1 hactions
    rw [hreward] at hresults ⊢
    refine .finish ?_
    rw [List.append_nil]
    exact hresults

theorem tells_fire (hs : s.Regular) (c : CompletionRecord) (trigger : Trigger) (scope : Scope) :
    (fire policy c trigger scope).Tells (fun _ => True)
      (fun log acts _ => AllTell c.ritualId c.subjectId log.results acts) s := by
  refine .idle_bind trivial (fun _ => Ritual.idle_evaluate c.ritualId trigger) ?_
  intro actions s' hs'
  refine .lift ((Batch.tells_run (hs'.regular hs) (c.batch _ scope) actions).imp ?_)
  exact fun _ _ _ h => h.2

theorem tells_followUp (hs : s.Regular) (c : CompletionRecord) :
    (followUp policy c).Tells (fun _ => True)
      (fun o acts _ => AllTell o.ritualId o.subjectId o.results acts) s := by
  refine .bind (.lift (tells_payReward hs c)) ?_
  intro reward acts s₁ hs₁ hreward
  refine .bind (tells_fire (hs₁.regular hs) c _ _) ?_
  intro log acts' s₂ hs₂ hlog
  split
  · refine .bind_pure (tells_fire (hs₂.regular (hs₁.regular hs)) c _ _) ?_
    exact fun last acts'' s₃ hlast => hreward.append (hlog.append hlast)
  · refine .pure ?_
    rw [List.append_nil]
    exact hreward.append hlog

/-- To take a step is no act. -/
theorem tells_takeStep (hs : s.Regular) (step : Step) (evidence : Evidence) :
    (takeStep policy step evidence).Tells (fun _ => True) (fun _ acts _ => acts = []) s := by
  refine .idle_bind trivial (fun _ => Ritual.idle_get step.ritual) fun r s₁ hs₁ => ?_
  refine .idle_bind trivial (fun _ => idle_assignmentOf step) fun a s₂ hs₂ => ?_
  refine .idle_bind trivial (fun _ => .ofExcept _) fun task s₃ hs₃ => ?_
  refine .now fun now s₄ hs₄ _ => ?_
  have hregular := hs₄.regular (hs₃.regular (hs₂.regular (hs₁.regular hs)))
  refine .transact hregular trivial (fun _ _ _ _ _ _ _ => rfl) ?_
  intro t plan u _ ht hu hcommits
  obtain ⟨r', a', task', hdecided, -⟩ := decided_of_commits hcommits
  refine ht.acts_elsewhere hu (Store.apply_eq_putAll hcommits.applied) ?_
  rw [hdecided.writes]
  have helsewhere : ∀ c ∈ [Collection.rituals, .assignments, .completions, .evidence],
      c.name ≠ Collection.transactions.name ∧ c.name ≠ Collection.notifications.name := by decide
  simp only [List.forall_mem_cons] at helsewhere
  simp only [List.map_cons, List.map_nil, List.forall_mem_cons]
  exact ⟨helsewhere.1, helsewhere.2.1, helsewhere.2.2.1, helsewhere.2.2.2.1, nofun⟩

theorem tells_complete (hs : s.Regular) (step : Step) (evidence : Evidence) :
    (complete policy step evidence).Tells (fun _ => True)
      (fun o acts _ => AllTell o.ritualId o.subjectId o.results acts) s := by
  refine .bind (tells_takeStep hs step evidence) ?_
  rintro c _ s' hs' rfl
  exact tells_followUp (hs'.regular hs) c

theorem tells_replay (hs : s.Regular) (step : Step) :
    (replay policy step).Tells (fun _ => True)
      (fun o acts _ => AllTell o.ritualId o.subjectId o.results acts) s := by
  refine .idle_bind trivial (fun _ => .readDocument? _) ?_
  rintro (_ | c) s' hs'
  · exact .throw trivial
  · exact tells_followUp (hs'.regular hs) c

end Completion

/-! ## Signals -/

/-- What a log tells of the actions of a ritual; without a ritual there are none. -/
def ActionLog.Tells (subject : String) (log : ActionLog) : Option String → List Act → Prop
  | none, acts => log.results = [] ∧ acts = []
  | some ritual, acts => AllTell ritual subject log.results acts

theorem Signal.tells_fire (hs : s.Regular) (subject : String) (trigger : Trigger)
    (scope : String → Scope) : (fire policy subject trigger scope).Tells (fun _ => True)
      (fun response acts _ => response.actionsExecuted.Tells subject response.ritualId acts) s := by
  refine .idle_bind trivial (fun _ => .readDocument? _) ?_
  rintro (_ | a) s₁ hs₁
  · exact .now fun now s₂ _ _ => .pure ⟨rfl, rfl⟩
  · refine .idle_bind trivial (fun _ => Ritual.idle_evaluate a.ritualId trigger) ?_
    intro actions s₂ hs₂
    let batch : Batch := ⟨a.ritualId, subject, some trigger.kind, some (scope a.ritualId)⟩
    refine .bind_pure (.lift (batch.tells_run (hs₂.regular (hs₁.regular hs)) actions)) ?_
    exact fun log acts s₃ hlog => hlog.2

namespace Mood

/-- To log a mood is no act; what is told is what its conditions ask for. -/
theorem tells_log (hs : s.Regular) (subject text : String) :
    (log policy subject text).Tells (fun _ => True)
      (fun outcome acts _ => outcome.actionsExecuted.Tells subject outcome.ritualId acts) s := by
  refine .ofValidation trivial fun mood _ => ?_
  refine .now fun now s₁ hs₁ _ => ?_
  let entry : MoodEntry := ⟨subject, mood, now⟩
  have happend : (liftM (Request.append Collection.moods.name (encode entry)) :
      Operation String).Tells (fun _ => True) (fun _ acts _ => acts = []) s₁ := by
    refine .lift fun g s' id hs' hknown => ⟨_, rfl, _, rfl, ?_⟩
    have hregular : s'.Regular := Store.Proceeds.regular hs' (hs₁.regular hs)
    have hmade : s'.put (Collection.moods.key id) (encode entry) =
        s'.putAll [(Collection.moods.key id, encode entry)] := rfl
    refine hregular.acts_elsewhere (Store.Proceeds.regular hknown hregular) hmade ?_
    have helsewhere : Collection.moods.name ≠ Collection.transactions.name ∧
        Collection.moods.name ≠ Collection.notifications.name := by decide
    exact List.forall_mem_singleton.2 helsewhere
  refine .bind happend ?_
  rintro id _ s₂ hs₂ rfl
  exact .bind_pure (Signal.tells_fire (hs₂.regular (hs₁.regular hs)) _ _ _) fun _ _ _ h => h

theorem tells_reply (hs : s.Regular) (subject text : String) :
    (reply policy subject text).Tells (fun _ => True) (fun outcome? acts _ =>
      match outcome? with
      | none => acts = []
      | some outcome => outcome.actionsExecuted.Tells subject outcome.ritualId acts) s := by
  refine .idle_bind trivial (fun _ => .takePrompt subject) ?_
  rintro (_ | prompt) s' hs'
  · exact .pure rfl
  · exact .map (tells_log (hs'.regular hs) subject text)

end Mood

theorem Streak.tells_report (hs : s.Regular) (subject : String) (count : UInt32) :
    (report policy subject count).Tells (fun _ => True)
      (fun outcome acts _ => outcome.actionsExecuted.Tells subject outcome.ritualId acts) s :=
  .bind_pure (Signal.tells_fire hs _ _ _) fun _ _ _ h => h

/-! ## Calls -/

namespace Call

/-- What the answer to a call tells of what has been done for it. A message that was marked as read
may have been read before. -/
def Tells (s : Store) : (c : Call) → c.Result → List Act → Prop
  | apply r, (receipt : Receipt), acts =>
    receipt.Tells s r.key (fun x => ∃ now, x = Ledger.record r x.id now) acts
  | applyTransaction r, (id : String), acts => ∃ replayed,
    (⟨id, replayed⟩ : Receipt).Tells s r.key (fun x => ∃ now, x = Ledger.record r x.id now) acts
  | tribute sender receiver amount _, (id : String), acts => ∃ replayed,
    (⟨id, replayed⟩ : Receipt).Tells s none (fun x => x.kind = .tribute ∧
      x.senderId = some sender ∧ x.receiverId = some receiver ∧ x.amount = amount) acts
  | complete _ _, (o : CompletionOutcome), acts | replay _, (o : CompletionOutcome), acts =>
    AllTell o.ritualId o.subjectId o.results acts
  | execute a ritual subject key, (effect : ActionEffect), acts =>
    effect.Tells s a ritual subject key acts
  | executeBatch ritual subject _ _ _, (log : ActionLog), acts =>
    AllTell ritual subject log.results acts
  | logMood subject _, (o : MoodOutcome), acts => o.actionsExecuted.Tells subject o.ritualId acts
  | replyMood _ _, none, acts => acts = []
  | replyMood subject _, some (o : MoodOutcome), acts =>
    o.actionsExecuted.Tells subject o.ritualId acts
  | reportStreak subject _, (o : StreakOutcome), acts =>
    o.actionsExecuted.Tells subject o.ritualId acts
  | enqueue subject message ritual id, (queued : Notification.Queued), acts =>
    queued.Tells s id (fun n => ∃ now, n = Notification.about ritual subject message n.id now) acts
  | markRead id, _, acts => acts = [] ∨ acts = [.marked id]
  | _, _, acts => acts = []

/-- What is told stays true. -/
theorem Tells.mono {c : Call} {answer : c.Result} {acts : List Act} (h : c.Tells s answer acts)
    (hst : s ≤ t) : c.Tells t answer acts := by
  cases c with
  | apply r => exact Receipt.Tells.mono h hst
  | applyTransaction r | tribute sender receiver amount description =>
    obtain ⟨replayed, h⟩ := h
    exact ⟨replayed, h.mono hst⟩
  | execute a ritual subject key =>
    cases answer with
    | booked receipt => exact Receipt.Tells.mono h hst
    | unlocked index newly => exact h
    | queued n => exact Notification.Queued.Tells.mono h hst
  | enqueue subject message ritual id => exact Notification.Queued.Tells.mono h hst
  | replyMood subject text =>
    cases answer with
    | none => exact h
    | some outcome => exact h
  | _ => exact h

/-- **Calls that book and queue tell what they have done.** -/
theorem tells_operation (hs : s.Regular) (c : Call) (hc : c.draws = true ∨ c.executes = true) :
    (c.operation policy).Tells (fun _ => True) (fun answer acts s' => c.Tells s' answer acts)
      s := by
  cases c with
  | apply r => exact (Ledger.tells_apply hs r).anyway
  | applyTransaction r =>
    exact .bind_pure (Ledger.tells_apply hs r).anyway fun receipt _ _ h => ⟨receipt.replayed, h⟩
  | tribute sender receiver amount description =>
    refine .bind_pure (Ledger.tells_apply hs _).anyway ?_
    refine fun receipt acts s' hreceipt => ⟨receipt.replayed, hreceipt.imp ?_⟩
    rintro x ⟨now, hx⟩
    rw [hx]
    exact ⟨rfl, rfl, rfl, rfl⟩
  | complete step evidence => exact Completion.tells_complete hs step evidence
  | replay step => exact Completion.tells_replay hs step
  | execute a ritual subject key => exact (Action.tells_execute hs a ritual subject key).anyway
  | executeBatch ritual subject trigger scope actions =>
    exact .lift ((Batch.tells_run hs _ actions).imp fun _ _ _ h => h.2)
  | logMood subject text => exact Mood.tells_log hs subject text
  | replyMood subject text =>
    refine (Mood.tells_reply hs subject text).imp ?_
    rintro (_ | outcome) acts s' h
    · exact h
    · exact h
  | reportStreak subject count => exact Streak.tells_report hs subject count
  | enqueue subject message ritual id =>
    exact (Notification.tells_enqueue hs subject message ritual id).anyway
  | _ => rcases hc with hc | hc <;> cases hc

/-- Other calls do nothing but to mark what they were asked to. -/
theorem marks_of_may {c : Call} {ch : Change} {a : Act} (hmay : c.May ch) (hact : ch.act? = some a)
    (hdraws : c.draws = false) (hexecutes : c.executes = false) :
    ∃ id, c = markRead id ∧ a = .marked id := by
  have hunused : ∀ id origin, ¬ c.Uses id origin := by
    intro id origin huses
    cases origin with
    | supplied => exact not_brings hdraws id huses
    | drawn => cases hdraws.symm.trans huses
    | due scope position =>
      cases c <;> first | exact huses | cases hexecutes
  cases ch with
  | booking r id now parties origin => exact absurd hmay (hunused id origin)
  | queueing n origin => exact absurd hmay (hunused n.id origin)
  | marking n =>
    cases hact
    exact ⟨n.id, hmay, rfl⟩
  | opening _ | unlocking _ _ _ | creating _ _ _ _ | stepping _ _ _ _ _ _ | logging _ _ =>
    cases hact

/-- Calls that mark at most what they were asked to, and once, tell what they have done. -/
theorem tells_of_marks {c : Call} {answer : c.Result} {acts : List Act} (hdraws : c.draws = false)
    (hexecutes : c.executes = false) (h : ∀ a ∈ acts, ∃ id, c = markRead id ∧ a = .marked id)
    (honce : (Act.marks acts).Nodup) : c.Tells s answer acts := by
  cases acts with
  | nil =>
    cases c with
    | markRead id => exact .inl rfl
    | apply | applyTransaction | tribute | execute | executeBatch | enqueue => cases hdraws
    | complete | replay | logMood | replyMood | reportStreak => cases hexecutes
    | _ => rfl
  | cons a rest =>
    obtain ⟨id, rfl, rfl⟩ := h a List.mem_cons_self
    have hnone : rest = [] := by
      refine List.eq_nil_iff_forall_not_mem.2 fun a' ha' => ?_
      obtain ⟨id', heq, rfl⟩ := h a' (List.mem_cons_of_mem _ ha')
      cases heq
      exact (List.nodup_cons.1 honce).1 (Act.mem_marks.2 ha')
    rw [hnone]
    exact .inr rfl

end Call

/-! ## Runs -/

namespace World

variable {w : World} {es : List Event} {e : Event} {i : Nat} {ttl : Int} {c : Client}

/-- A turn of a client does for it what it does to the store. -/
theorem actsOf_served (w : World) (i : Nat) (chance : Chance) :
    w.actsOf [.served i chance] i = w.store.acts (w.step (.served i chance)).store := by
  simp [actsOf, acts, does, List.filter_map, Function.comp_def]

/-- Nothing is done for a client in the turns of others, or when the store stays as it is. -/
theorem actsOf_quiet (hs : w.store.Regular) (h : (w.step e).store = w.store ∨ IsElsewhere i e) :
    w.actsOf [e] i = [] := by
  cases e with
  | called policy call => rfl
  | served j chance =>
    by_cases hij : j = i
    · subst hij
      rcases h with hsame | helsewhere
      · rw [actsOf_served, hsame, hs.acts_self]
      · exact absurd rfl (helsewhere chance)
    · simp [actsOf, acts, does, hij]

/-- Nothing is done for a client that has not come in yet. -/
theorem actsOf_absent (h : ((initial ttl).after es).clients[i]? = none) :
    (initial ttl).actsOf es i = [] := by
  refine List.eq_nil_iff_forall_not_mem.2 fun a ha => ?_
  obtain ⟨c, ch, hc, -⟩ := mem_acts (mem_actsOf.1 ha)
  cases h.symm.trans hc

/-- **A client that has failed has done nothing.** -/
theorem actsOf_of_failure? {error : EngineError}
    (h : ((initial ttl).after es).failure? i = some error) : (initial ttl).actsOf es i = [] := by
  refine List.eq_nil_iff_forall_not_mem.2 fun a ha => ?_
  obtain ⟨c, ch, -, hdid⟩ := mem_acts (mem_actsOf.1 ha)
  obtain ⟨earlier, chance, later, hes, hmakes⟩ := hdid.made
  have hs := regular_after ttl earlier
  have hacts := hmakes.acts hs
  rw [leavesNoTrace_of_failure? h earlier chance later hes, hs.acts_self, hdid.act] at hacts
  cases hacts

/-- What a client has when it has finished is told by its answer. -/
def Ending (call : Call) (answer : Except EngineError call.Result) (acts : List Act) (s : Store) :
    Prop :=
  ∀ a, answer = .ok a → call.Tells s a acts

/-- A client that books and queues goes on to an answer that tells what it has done. -/
theorem tells_after (ttl : Int) (es : List Event)
    (hc : ((initial ttl).after es).clients[i]? = some c)
    (hbusy : c.call.draws = true ∨ c.call.executes = true) :
    c.rest.Keeps .acting (Ending c.call) ((initial ttl).actsOf es i)
      ((initial ttl).after es).store := by
  induction es using List.reverseRecOn generalizing c with
  | nil => cases hc
  | append_singleton es e ih =>
    have hsound := sound_after ttl es
    have hs := regular_after ttl es
    rw [after_concat] at hc
    rw [actsOf_append, after_concat]
    cases hbefore : ((initial ttl).after es).clients[i]? with
    | none =>
      obtain ⟨policy, call, rfl, hstore⟩ := entered hbefore hc
      rw [hstore, actsOf_absent hbefore, actsOf_quiet hs (.inl hstore)]
      refine (Call.tells_operation hs call hbusy []).imp ?_
      rintro answer _ s ⟨acts, rfl, hanswer⟩ a rfl
      exact hanswer
    | some c₀ =>
      obtain ⟨c', hc', hcall⟩ := client_stays hbefore e
      cases hc.symm.trans hc'
      rw [hcall] at hbusy
      have hstays : ∀ answer, Ending c₀.call answer ((initial ttl).actsOf es i)
          ((initial ttl).after es).store → Ending c₀.call answer ((initial ttl).actsOf es i)
            (((initial ttl).after es).step e).store :=
        fun answer h a ha => (h a ha).mono (hsound.proceeds e).evolves.le
      obtain ⟨c', g', hc', -, hkeeps, hgives⟩ := hsound.keeps_step Ending hbefore
        (ih hbefore hbusy) e (fun _ _ _ _ => trivial) id fun _ => ⟨hsound.proceeds e, hstays⟩
      cases hc.symm.trans hc'
      rcases hgives with ⟨rfl, hquiet⟩ | ⟨⟨chance, rfl⟩, rfl⟩
      · rw [actsOf_quiet hs hquiet, List.append_nil]
        exact hkeeps
      · rw [actsOf_served]
        exact hkeeps

/-- A message is marked as read once. -/
theorem marks_once (ttl : Int) (es : List Event) (i : Nat) :
    (Act.marks ((initial ttl).actsOf es i)).Nodup := by
  have hsublist : ((initial ttl).actsOf es i).Sublist ((initial ttl).allActs es) :=
    List.filter_sublist.map _
  exact (told_after ttl es).once.sublist (hsublist.filterMap _)

/-- **What has been done for a client is what its answer tells.** -/
theorem tells_of_answer (hc : ((initial ttl).after es).clients[i]? = some c)
    {answer : c.call.Result} (hanswer : c.rest = .finish (.ok answer)) :
    c.call.Tells ((initial ttl).after es).store answer ((initial ttl).actsOf es i) := by
  by_cases hbusy : c.call.draws = true ∨ c.call.executes = true
  · have hkeeps := tells_after ttl es hc hbusy
    rw [hanswer] at hkeeps
    exact hkeeps answer rfl
  · obtain ⟨hdraws, hexecutes⟩ := not_or.1 hbusy
    have hmarks : ∀ a ∈ (initial ttl).actsOf es i,
        ∃ id, c.call = .markRead id ∧ a = .marked id := by
      intro a ha
      obtain ⟨c', ch, hc', hdid⟩ := mem_acts (mem_actsOf.1 ha)
      cases hc.symm.trans hc'
      exact Call.marks_of_may hdid.may hdid.act (Bool.eq_false_of_not_eq_true hdraws)
        (Bool.eq_false_of_not_eq_true hexecutes)
    exact Call.tells_of_marks (Bool.eq_false_of_not_eq_true hdraws)
      (Bool.eq_false_of_not_eq_true hexecutes) hmarks (marks_once ttl es i)

end World

end RitualLedger
