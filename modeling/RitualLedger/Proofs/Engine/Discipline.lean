import RitualLedger.Proofs.Completion.Course
import RitualLedger.Proofs.Engine.Call
import RitualLedger.Proofs.Engine.Contention
import RitualLedger.Proofs.Store.Selection

/-!
# Disciplines

Some properties of operations are not about what the engine is for: that it fails for certain
reasons only, that it leaves the prompts alone, that it does not notice what others do. They hold of
an operation because they hold of its requests and pass from parts to wholes. A `Discipline` is such
a property of programs. It comes with the reasons that an operation may fail for, and a transaction
has it if its decision fails for these reasons on what it has read, and looks at bodies alone.

`Call.operation_follows` is the one walk through all operations. Whatever the discipline, every call
follows it, and the actions in the logs that it returns have failed for its reasons.
-/

namespace RitualLedger

variable {α β : Type}

/-! ## Failures of decisions -/

/-- The store has no part in a failure. -/
def EngineError.IsOwn : EngineError → Prop
  | .store _ => False
  | .notFound _ _ | .insufficientBalance _ _ _ | .staleTask _ _ _ | .validation _ | .config _ =>
    True

/-- A decision fails for some reasons only. -/
abbrev Decides (fails : EngineError → Prop) (r : Except EngineError α) : Prop :=
  ComesTo fails (fun _ => True) r

/-- What a decision may fail for on a snapshot: what the store has no part in, and what comes of the
documents that were read. -/
structure Snapshot.Offers (fails : EngineError → Prop) (snapshot : Snapshot) : Prop where
  own : ∀ e : EngineError, e.IsOwn → fails e
  get : ∀ {α : Type} [Document α] [LawfulDocument α] [Record α] (id : String),
    Decides fails (snapshot.get (α := α) ((Record.collection α).key id))

/-! ## Disciplines -/

/-- A property of programs that single requests have and that passes from parts to wholes. -/
structure Discipline (policy : RetryPolicy) where
  /-- A program has the property, and its result another one. -/
  holds : {α : Type} → (α → Prop) → Program α → Prop
  /-- What operations may fail for. -/
  fails : EngineError → Prop
  /-- Whether prompts may be touched. -/
  prompts : Prop
  own : ∀ e : EngineError, e.IsOwn → fails e
  finish : ∀ {α : Type} {post : α → Prop} {a : α}, post a → holds post (.finish a)
  bind : ∀ {α β : Type} {mid : α → Prop} {post : β → Prop} {p : Program α} {f : α → Program β},
    holds mid p → (∀ a, mid a → holds post (f a)) → holds post (p.bind f)
  now : holds (fun _ => True) Request.now
  freshId : holds (fun _ => True) Request.freshId
  append : ∀ (collection : String) (body : Json),
    holds (fun _ => True) (Request.append collection body)
  openPrompt : ∀ prompt : MoodPrompt, prompts → holds (fun _ => True) (Request.openPrompt prompt)
  takePrompt : ∀ subject : String, prompts → holds (fun _ => True) (Request.takePrompt subject)
  read : ∀ {α : Type} [Document α] [LawfulDocument α] [Record α] (id : String),
    holds (Decides fails) (readDocument? (α := α) ((Record.collection α).key id)).program
  query : ∀ {α : Type} [Document α] [LawfulDocument α] [Record α] (q : Query),
    q.collection = (Record.collection α).name →
      holds (Decides fails) (queryDocuments (α := α) q).program
  transact : ∀ {α : Type} (keys : List DocKey)
    (decision : Snapshot → Except EngineError (Plan α)),
    (∀ snapshot : Snapshot, snapshot.Offers fails → Decides fails (decision snapshot)) →
      Snapshot.Reads decision → holds (Decides fails) (transact policy keys decision).program

variable {policy : RetryPolicy} {D : Discipline policy}

/-- An operation follows a discipline, and its result has a property. -/
def Operation.Follows (D : Discipline policy) (post : α → Prop) (o : Operation α) : Prop :=
  D.holds (ComesTo D.fails post) o.program

namespace Operation.Follows

variable {mid post : α → Prop} {post' : β → Prop}

theorem pure {a : α} (h : post a) : Follows D post (pure a) := D.finish h

theorem ofExcept {r : Except EngineError α} (h : ComesTo D.fails post r) :
    Follows D post (ofExcept r) := D.finish h

theorem notFound {kind : EntityKind} {id : String} :
    Follows D post (notFound kind id : Operation α) := D.finish (D.own _ trivial)

theorem ofValidation {r : Except ValidationError α} :
    Follows D (fun _ => True) (ofValidation r) := by
  cases r with
  | ok a => exact pure trivial
  | error e => exact D.finish (D.own _ trivial)

theorem bind {o : Operation α} {f : α → Operation β} (ho : Follows D mid o)
    (hf : ∀ a, mid a → Follows D post' (f a)) : Follows D post' (o >>= f) := by
  refine D.bind ho ?_
  rintro (e | a) hanswer
  · exact D.finish hanswer
  · exact hf a hanswer

theorem pure_bind {a : α} {f : α → Operation β} (h : Follows D post' (f a)) :
    Follows D post' (Pure.pure a >>= f) := h

theorem map {o : Operation α} {f : α → β} (ho : Follows D mid o)
    (hf : ∀ a, mid a → post' (f a)) : Follows D post' (f <$> o) := by
  rw [map_eq_pure_bind]
  exact ho.bind fun a ha => .pure (hf a ha)

theorem lift {p : Program α} (hp : D.holds post p) : Follows D post (liftM p : Operation α) :=
  D.bind hp fun _ ha => D.finish ha

theorem now : Follows D (fun _ => True) (liftM Request.now : Operation _) := lift D.now

theorem freshId : Follows D (fun _ => True) (liftM Request.freshId : Operation _) := lift D.freshId

end Operation.Follows

open Operation (Follows)

variable {snapshot : Snapshot} {fails : EngineError → Prop}

/-! ## The ledger -/

namespace Ledger

theorem openAccount_follows {subject : String} :
    (openAccount policy subject).Follows D fun _ => True := by
  rw [openAccount]
  split
  · exact D.finish (D.own _ trivial)
  · refine .bind .now fun now _ => D.transact _ _ ?_ ?_
    · intro snapshot h
      refine (h.get (α := Account) subject).bind ?_
      rintro (_ | account) -
      · exact .ok trivial
      · exact .ok trivial
    · intro s t h
      simp only [h.get]

theorem account_follows {subject : String} : (account subject).Follows D fun _ => True := by
  refine .bind (D.read (α := Account) subject) ?_
  rintro (_ | a) -
  · exact .notFound
  · exact .pure trivial

theorem decides_partyAccount (h : snapshot.Offers fails) (party : String) :
    Decides fails (partyAccount snapshot party) := by
  refine (h.get (α := Account) party).bind ?_
  rintro (_ | account) -
  · exact .error (h.own _ trivial)
  · exact .ok trivial

theorem decides_debit {kind : TransactionKind} {amount : UInt64} {sender : String} {a : Account} :
    Decides EngineError.IsOwn (debit kind amount sender a) := by
  rw [debit]
  split
  · exact .error trivial
  · exact .ok trivial

theorem decides_credit {amount : UInt64} {a : Account} :
    Decides EngineError.IsOwn (credit amount a) := by
  rw [credit]
  split
  · exact .error trivial
  · exact .ok trivial

theorem decides_planParty {party : Option String} {plan : Plan α}
    {change : String → Account → Except EngineError Account} (h : snapshot.Offers fails)
    (hchange : ∀ subject a, Decides EngineError.IsOwn (change subject a)) :
    Decides fails (planParty snapshot party change plan) := by
  cases party with
  | none => exact .ok trivial
  | some subject =>
    refine (decides_partyAccount h subject).bind fun account _ => ?_
    exact ((hchange subject account).weaken h.own).bind fun _ _ => .ok trivial

theorem decides_decide {r : TransactionRequest} {id : String} {now : Instant}
    (h : snapshot.Offers fails) : Decides fails (decide r id now snapshot) := by
  rw [decide]
  split
  · exact .ok trivial
  · refine (decides_planParty h fun _ _ => decides_debit).bind fun plan _ => ?_
    exact (decides_planParty h fun _ _ => decides_credit).bind fun _ _ => .ok trivial

theorem planParty_congr {s t : Snapshot} (h : s.SameBodies t) {party : Option String}
    {change : String → Account → Except EngineError Account} {plan : Plan α} :
    planParty s party change plan = planParty t party change plan := by
  cases party with
  | none => rfl
  | some subject => simp only [planParty, partyAccount, h.get]

theorem reads_decide {r : TransactionRequest} {id : String} {now : Instant} :
    Snapshot.Reads (decide r id now) := by
  intro s t h
  simp only [decide, h.has, planParty_congr h]

theorem idOr_follows {key : Option String} :
    (liftM (idOr key) : Operation String).Follows D fun _ => True := by
  cases key with
  | none => exact .freshId
  | some id => exact .pure trivial

theorem apply_follows {r : TransactionRequest} : (apply policy r).Follows D fun _ => True :=
  .bind .ofValidation fun _ _ => .bind idOr_follows fun _ _ => .bind .now fun _ _ =>
    D.transact _ _ (fun _ => decides_decide) reads_decide

theorem applyTransaction_follows {r : TransactionRequest} :
    (applyTransaction policy r).Follows D fun _ => True :=
  .bind apply_follows fun _ _ => .pure trivial

end Ledger

/-! ## Notifications -/

namespace Notification

theorem enqueue_follows {subject message ritual : String} {id : Option String} :
    (enqueue policy subject message ritual id).Follows D fun _ => True := by
  have hqueue : ∀ id : String,
      (queueUnder policy subject message ritual id).Follows D fun _ => True := by
    intro id
    refine .bind .now fun now _ => D.transact _ _ ?_ ?_
    · intro snapshot _
      rw [decideQueueing]
      split
      · exact .ok trivial
      · exact .ok trivial
    · intro s t h
      simp only [decideQueueing, h.has]
  cases id with
  | none =>
    rw [enqueue_drawn]
    exact .bind .freshId fun id _ => hqueue id
  | some id =>
    rw [enqueue_given]
    exact hqueue id

theorem markRead_follows {id : String} : (markRead policy id).Follows D fun _ => True := by
  refine D.transact _ _ ?_ ?_
  · intro snapshot h
    refine (h.get (α := Notification) id).bind ?_
    rintro (_ | n) -
    · exact .error (h.own _ trivial)
    · dsimp only
      split
      · exact .ok trivial
      · exact .ok trivial
  · intro s t h
    simp only [h.get]

end Notification

/-! ## Rituals -/

namespace Ritual

theorem holds_drawTasks {tasks : List TaskDefinition} (order : Nat) :
    D.holds (fun _ => True) (drawTasks order tasks) := by
  induction tasks generalizing order with
  | nil => exact D.finish trivial
  | cons t rest ih =>
    exact D.bind D.freshId fun _ _ => D.bind (ih (order + 1)) fun _ _ => D.finish trivial

theorem create_follows {d : Definition} : (create policy d).Follows D fun _ => True := by
  refine .bind .ofValidation fun _ _ => .bind .now fun now _ => .bind .freshId fun id _ =>
    .bind (.lift (holds_drawTasks 0)) fun tasks _ => .bind .freshId fun activity _ =>
      D.transact _ _ ?_ ?_
  · intro snapshot h
    rw [decideCreation]
    split
    · exact .error (h.own _ trivial)
    · split
      · exact .error (h.own _ trivial)
      · exact .ok trivial
  · intro s t h
    simp only [decideCreation, h.has]

theorem get_follows {id : String} : (get id).Follows D fun _ => True := by
  refine .bind (D.read (α := Ritual) id) ?_
  rintro (_ | r) -
  · exact .notFound
  · exact .pure trivial

theorem evaluate_follows {id : String} {t : Trigger} :
    (evaluate id t).Follows D fun _ => True :=
  .bind get_follows fun _ _ => .pure trivial

end Ritual

theorem Assignment.currentTask?_follows {subject : String} :
    (currentTask? subject).Follows D fun _ => True := by
  refine .bind (D.read (α := Assignment) subject) ?_
  rintro (_ | a) -
  · exact .pure trivial
  · dsimp only
    split
    · exact .pure trivial
    · refine .bind Ritual.get_follows fun r _ => ?_
      split
      · exact .pure trivial
      · exact .pure trivial

/-! ## Actions -/

/-- An action that failed has failed for a reason of some kind. -/
def ActionResult.FailsBy (fails : EngineError → Prop) (r : ActionResult) : Prop :=
  ∀ reason retriable, r.status = .failed reason retriable →
    ∃ e, fails e ∧ reason = e.message ∧ retriable = e.isRetriable

/-- All actions that failed have failed for reasons of some kind. -/
abbrev AllFailBy (fails : EngineError → Prop) (results : List ActionResult) : Prop :=
  ∀ r ∈ results, r.FailsBy fails

/-- A result that tells of no actions tells of none that failed. -/
theorem Operation.Follows.silent {o : Operation α} (ho : o.Follows D fun _ => True) :
    o.Follows D fun _ => AllFailBy D.fails [] := by
  rw [Follows, ← o.program.bind_finish]
  refine D.bind ho ?_
  rintro (e | a) hanswer
  · exact D.finish hanswer
  · exact D.finish nofun

namespace Action

theorem decides_assignmentIn {ritual subject : String} (h : snapshot.Offers fails) :
    Decides fails (assignmentIn snapshot ritual subject) := by
  refine (h.get (α := Assignment) subject).bind ?_
  rintro (_ | a) -
  · exact .error (h.own _ trivial)
  · dsimp only
    split
    · exact .ok trivial
    · exact .error (h.own _ trivial)

theorem assignmentIn_congr {s t : Snapshot} (h : s.SameBodies t) {ritual subject : String} :
    assignmentIn s ritual subject = assignmentIn t ritual subject := by
  simp only [assignmentIn, h.get]

theorem unlock_follows {ritual subject : String} {index : UInt64} :
    (unlock policy ritual subject index).Follows D fun _ => True := by
  refine .bind .now fun now _ => D.transact _ _ ?_ ?_
  · intro snapshot h
    refine (decides_assignmentIn h).bind fun a _ => ?_
    split
    · exact .ok trivial
    · exact .ok trivial
  · intro s t h
    simp only [assignmentIn_congr h]

theorem execute_follows {a : Action} {ritual subject : String} {key : Option String} :
    (a.execute policy ritual subject key).Follows D fun _ => True := by
  cases a with
  | reward amount => exact .map Ledger.apply_follows fun _ _ => trivial
  | penalty amount => exact .map Ledger.apply_follows fun _ _ => trivial
  | unlockTask index => exact unlock_follows
  | notify message => exact .map Notification.enqueue_follows fun _ _ => trivial

end Action

namespace Batch

variable {b : Batch} {actions : List Action}

theorem failsBy_result {a : Action} {answer : Except EngineError ActionEffect}
    (h : Decides fails answer) : (b.result a answer).FailsBy fails := by
  intro reason retriable hstatus
  cases answer with
  | error e =>
    cases hstatus
    exact ⟨e, h, rfl, rfl⟩
  | ok effect =>
    rw [result] at hstatus
    split at hstatus
    · cases hstatus
    · cases hstatus

theorem holds_runFrom (position : Nat) :
    D.holds (AllFailBy D.fails) (b.runFrom policy position actions) := by
  induction actions generalizing position with
  | nil => exact D.finish nofun
  | cons a rest ih =>
    refine D.bind Action.execute_follows fun answer hanswer => ?_
    refine D.bind (ih (position + 1)) fun results hresults => D.finish ?_
    exact List.forall_mem_cons.2 ⟨failsBy_result hanswer, hresults⟩

theorem holds_run : D.holds (fun log => AllFailBy D.fails log.results) (b.run policy actions) :=
  D.bind (holds_runFrom 0) fun _ hresults => D.bind D.now fun _ _ => D.finish hresults

theorem holds_rehearse :
    D.holds (fun log => AllFailBy D.fails log.results) (b.rehearse actions) := by
  refine D.bind D.now fun _ _ => D.finish ?_
  intro r hr reason retriable hstatus
  obtain ⟨a, -, rfl⟩ := List.mem_map.1 hr
  cases hstatus

end Batch

/-! ## Completions -/

namespace Completion

variable {s : Step} {c : CompletionRecord}

theorem isOwn_of_staleness? {a : Assignment} {e : EngineError} (h : staleness? s a = some e) :
    e.IsOwn := by
  rw [staleness?] at h
  split at h
  · cases h
    trivial
  · cases h

theorem decides_taskOf {r : Ritual} : Decides EngineError.IsOwn (taskOf s r) := by
  rw [taskOf]
  split
  · exact .ok trivial
  · exact .error trivial

theorem decides_accept {evidence : Evidence} {r : Ritual} {a : Assignment} :
    Decides EngineError.IsOwn (accept s evidence r a) := by
  rw [accept]
  split
  · rename_i hstale
    exact .error (isOwn_of_staleness? hstale)
  · refine decides_taskOf.bind fun task _ => ?_
    split
    · exact .ok trivial
    · exact .error trivial

theorem decides_ritualIn {ritual : String} (h : snapshot.Offers fails) :
    Decides fails (ritualIn snapshot ritual) := by
  refine (h.get (α := Ritual) ritual).bind ?_
  rintro (_ | r) -
  · exact .error (h.own _ trivial)
  · exact .ok trivial

theorem decides_decide {taskId : String} {evidence : Evidence} {now : Instant}
    (h : snapshot.Offers fails) : Decides fails (decide s taskId evidence now snapshot) := by
  refine (decides_ritualIn h).bind fun r _ => ?_
  refine (Action.decides_assignmentIn h).bind fun a _ => ?_
  split
  · rename_i hstale
    exact .error (h.own _ (isOwn_of_staleness? hstale))
  · split
    · exact .error (h.own _ trivial)
    · exact (decides_taskOf.weaken h.own).bind fun _ _ => .ok trivial

theorem reads_decide {taskId : String} {evidence : Evidence} {now : Instant} :
    Snapshot.Reads (decide s taskId evidence now) := by
  intro u v h
  simp only [decide, ritualIn, Action.assignmentIn_congr h, h.get, h.has]

theorem takeStep_follows {evidence : Evidence} :
    (takeStep policy s evidence).Follows D fun _ => True := by
  have hassignment : (assignmentOf s).Follows D fun _ => True := by
    refine .bind (D.read (α := Assignment) s.subject) ?_
    rintro (_ | a) -
    · exact .notFound
    · dsimp only
      split
      · exact .pure trivial
      · exact .notFound
  exact .bind Ritual.get_follows fun r _ => .bind hassignment fun a _ =>
    .bind (.ofExcept (decides_accept.weaken D.own)) fun task _ => .bind .now fun now _ =>
      D.transact _ _ (fun _ => decides_decide) reads_decide

theorem holds_payReward :
    D.holds (fun reward => AllFailBy D.fails reward.toList) (payReward policy c) := by
  rw [payReward]
  split
  · exact D.finish (List.forall_mem_nil _)
  · refine D.bind Batch.holds_run fun log hlog => D.finish ?_
    exact fun r hr => hlog r (List.mem_of_mem_head? (Option.mem_toList.1 hr))

theorem fire_follows {t : Trigger} {scope : Scope} :
    (fire policy c t scope).Follows D fun log => AllFailBy D.fails log.results :=
  .bind Ritual.evaluate_follows fun _ _ => .lift Batch.holds_run

theorem followUp_follows :
    (followUp policy c).Follows D fun o => AllFailBy D.fails o.results := by
  refine .bind (.lift holds_payReward) fun reward hreward => ?_
  refine .bind fire_follows fun log hlog => ?_
  have hall : ∀ log : ActionLog, AllFailBy D.fails log.results →
      AllFailBy D.fails (reward.toList ++ log.results) :=
    fun _ hlog => List.forall_mem_append.2 ⟨hreward, hlog⟩
  split
  · refine .bind fire_follows fun last hlast => .pure_bind (.pure (hall _ ?_))
    exact List.forall_mem_append.2 ⟨hlog, hlast⟩
  · exact .pure_bind (.pure (hall _ hlog))

theorem replay_follows :
    (replay policy s).Follows D fun o => AllFailBy D.fails o.results := by
  refine .bind (D.read (α := CompletionRecord) s.id) ?_
  rintro (_ | c) -
  · exact .notFound
  · exact followUp_follows

end Completion

/-! ## Moods and streaks -/

theorem Signal.fire_follows {subject : String} {t : Trigger} {scope : String → Scope} :
    (fire policy subject t scope).Follows D fun response =>
      AllFailBy D.fails response.actionsExecuted.results := by
  refine .bind (D.read (α := Assignment) subject) ?_
  rintro (_ | a) -
  · exact .bind .now fun _ _ => .pure nofun
  · exact .bind Ritual.evaluate_follows fun _ _ => .bind (.lift Batch.holds_run) fun _ hlog =>
      .pure hlog

theorem Mood.log_follows {subject text : String} :
    (log policy subject text).Follows D fun o => AllFailBy D.fails o.actionsExecuted.results :=
  .bind .ofValidation fun _ _ => .bind .now fun _ _ => .bind (.lift (D.append _ _)) fun _ _ =>
    .bind Signal.fire_follows fun _ hresults => .pure hresults

theorem Mood.ask_follows {subject : String} (hprompts : D.prompts) :
    (ask subject).Follows D fun _ => True :=
  .bind .now fun _ _ => .bind (.lift (D.openPrompt _ hprompts)) fun _ _ => .pure trivial

theorem Mood.reply_follows {subject text : String} (hprompts : D.prompts) :
    (reply policy subject text).Follows D fun o =>
      AllFailBy D.fails ((o.map (·.actionsExecuted.results)).getD []) := by
  refine .bind (.lift (D.takePrompt subject hprompts)) ?_
  rintro (_ | prompt) -
  · exact .pure nofun
  · exact .map log_follows fun _ hresults => hresults

/-! ## All calls -/

namespace Call

/-- Whether a call is about prompts. -/
def isAboutPrompts : Call → Bool
  | askMood _ | replyMood _ _ => true
  | _ => false

/-- The results of actions that an answer to a call tells of. -/
def results : (c : Call) → c.Result → List ActionResult
  | complete _ _, (o : CompletionOutcome) | replay _, (o : CompletionOutcome) => o.results
  | executeBatch _ _ _ _ _, (log : ActionLog) | rehearse _ _ _ _, (log : ActionLog) => log.results
  | logMood _ _, (o : MoodOutcome) => o.actionsExecuted.results
  | replyMood _ _, (o : Option MoodOutcome) =>
    (o.map (·.actionsExecuted.results)).getD []
  | reportStreak _ _, (o : StreakOutcome) => o.actionsExecuted.results
  | _, _ => []

/-- **Every call follows every discipline.** -/
theorem operation_follows (D : Discipline policy) (c : Call)
    (hprompts : c.isAboutPrompts = true → D.prompts) :
    (c.operation policy).Follows D fun a => AllFailBy D.fails (c.results a) := by
  cases c with
  | openAccount subject => exact Ledger.openAccount_follows.silent
  | readAccount subject => exact Ledger.account_follows.silent
  | readBalance subject => exact .bind Ledger.account_follows fun _ _ => .pure nofun
  | apply r => exact Ledger.apply_follows.silent
  | applyTransaction r => exact Ledger.applyTransaction_follows.silent
  | tribute sender receiver amount description => exact Ledger.applyTransaction_follows.silent
  | findTransaction id => exact Follows.silent (D.read (α := Transaction) id)
  | history subject limit => exact Follows.silent (D.query (α := Transaction) _ rfl)
  | create d => exact Ritual.create_follows.silent
  | findRitual id => exact Follows.silent (D.read (α := Ritual) id)
  | evaluate id t => exact Ritual.evaluate_follows.silent
  | findAssignment subject => exact Follows.silent (D.read (α := Assignment) subject)
  | currentTask subject => exact Assignment.currentTask?_follows.silent
  | complete s evidence =>
    exact .bind Completion.takeStep_follows fun _ _ => Completion.followUp_follows
  | replay s => exact Completion.replay_follows
  | findCompletion s => exact Follows.silent (D.read (α := CompletionRecord) s.id)
  | execute a ritual subject key => exact Action.execute_follows.silent
  | executeBatch ritual subject trigger scope actions => exact .lift Batch.holds_run
  | rehearse ritual subject trigger actions => exact .lift Batch.holds_rehearse
  | logMood subject text => exact Mood.log_follows
  | askMood subject => exact Follows.silent (Mood.ask_follows (hprompts rfl))
  | replyMood subject text => exact Mood.reply_follows (hprompts rfl)
  | reportStreak subject count => exact .bind Signal.fire_follows fun _ hresults => .pure hresults
  | enqueue subject message ritual id => exact Notification.enqueue_follows.silent
  | pending subject => exact Follows.silent (D.query (α := Notification) _ rfl)
  | markRead id => exact Notification.markRead_follows.silent

end Call

end RitualLedger
