import RitualLedger.Proofs.Completion.Conduct
import RitualLedger.Proofs.Signal.Conduct

/-!
# Calls

A call is a request of a client for one of the operations of the engine, with its arguments.
`Call.May` says which changes a call may make. It is read off the arguments alone: a call books and
queues under the texts that it was given, under ids that it draws, or under the keys of the scopes
that it runs; it takes no step but the one it asks for, and creates no ritual but the one it
defines.

`Call.operation_ensures` is the main statement: every call makes only the changes that it may make,
whatever others do meanwhile and whenever it is cut short.
-/

namespace RitualLedger

/-- A call of an operation of the engine. -/
inductive Call where
  | openAccount (subject : String)
  | readAccount (subject : String)
  | readBalance (subject : String)
  | apply (r : TransactionRequest)
  | applyTransaction (r : TransactionRequest)
  | tribute (sender receiver : String) (amount : UInt64) (description : Option String)
  | findTransaction (id : String)
  | history (subject : String) (limit : UInt64)
  | create (d : Definition)
  | findRitual (id : String)
  | evaluate (id : String) (t : Trigger)
  | findAssignment (subject : String)
  | currentTask (subject : String)
  | complete (s : Step) (evidence : Evidence)
  | replay (s : Step)
  | findCompletion (s : Step)
  | execute (a : Action) (ritual subject : String) (key : Option String)
  | executeBatch (ritual subject : String) (trigger : Option TriggerKind) (scope : Option String)
      (actions : List Action)
  | rehearse (ritual subject : String) (trigger : Option TriggerKind) (actions : List Action)
  | logMood (subject text : String)
  | askMood (subject : String)
  | replyMood (subject text : String)
  | reportStreak (subject : String) (count : UInt32)
  | enqueue (subject message ritual : String) (id : Option String)
  | pending (subject : String)
  | markRead (id : String)

namespace Call

/-- What a call answers. -/
def Result : Call → Type
  | openAccount _ | readAccount _ => Account
  | readBalance _ => Int64
  | apply _ => Receipt
  | applyTransaction _ | tribute _ _ _ _ => String
  | findTransaction _ => Option Transaction
  | history _ _ => List Transaction
  | create _ => Ritual
  | findRitual _ => Option Ritual
  | evaluate _ _ => List Action
  | findAssignment _ => Option Assignment
  | currentTask _ => Option CurrentTask
  | complete _ _ | replay _ => CompletionOutcome
  | findCompletion _ => Option CompletionRecord
  | execute _ _ _ _ => ActionEffect
  | executeBatch _ _ _ _ _ | rehearse _ _ _ _ => ActionLog
  | logMood _ _ => MoodOutcome
  | askMood _ => MoodPrompt
  | replyMood _ _ => Option MoodOutcome
  | reportStreak _ _ => StreakOutcome
  | enqueue _ _ _ _ => Notification.Queued
  | pending _ => List Notification
  | markRead _ => Notification

/-- The operation that a call asks for. -/
def operation (policy : RetryPolicy) : (c : Call) → Operation c.Result
  | openAccount subject => Ledger.openAccount policy subject
  | readAccount subject => Ledger.account subject
  | readBalance subject => Ledger.balance subject
  | apply r => Ledger.apply policy r
  | applyTransaction r => Ledger.applyTransaction policy r
  | tribute sender receiver amount description =>
    Ledger.tribute policy sender receiver amount description
  | findTransaction id => Ledger.transaction? id
  | history subject limit => Ledger.history subject limit
  | create d => Ritual.create policy d
  | findRitual id => Ritual.find? id
  | evaluate id t => Ritual.evaluate id t
  | findAssignment subject => Assignment.find? subject
  | currentTask subject => Assignment.currentTask? subject
  | complete s evidence => Completion.complete policy s evidence
  | replay s => Completion.replay policy s
  | findCompletion s => Completion.find? s
  | execute a ritual subject key => a.execute policy ritual subject key
  | executeBatch ritual subject trigger scope actions =>
    liftM (Batch.run policy ⟨ritual, subject, trigger, scope.map .named⟩ actions)
  | rehearse ritual subject trigger actions =>
    liftM (Batch.rehearse ⟨ritual, subject, trigger, none⟩ actions)
  | logMood subject text => Mood.log policy subject text
  | askMood subject => Mood.ask subject
  | replyMood subject text => Mood.reply policy subject text
  | reportStreak subject count => Streak.report policy subject count
  | enqueue subject message ritual id =>
    Notification.enqueue policy subject message ritual id
  | pending subject => Notification.pending subject
  | markRead id => Notification.markRead policy id

/-- How many tasks a call defines. -/
def taskCount : Call → Nat
  | create d => d.tasks.length
  | _ => 0

/-- Whether the arguments of a call fit into memory, where a list has fewer than 2^63 members. -/
def Sendable (c : Call) : Prop := c.taskCount < 2 ^ 63

instance (c : Call) : Decidable c.Sendable := inferInstanceAs (Decidable (_ < _))

/-! ## What calls may do -/

/-- The keys, ids and names of scopes that a call was given. -/
def supplied : Call → List String
  | apply r | applyTransaction r => r.key.toList
  | execute _ _ _ key => key.toList
  | executeBatch _ _ _ scope _ => scope.toList
  | enqueue _ _ _ id => id.toList
  | _ => []

/-- Whether a call brings an id along, as such or as a key of a scope that it names. -/
def Brings (c : Call) (id : String) : Prop :=
  ∃ text ∈ c.supplied, id = text ∨ ∃ position, id = (Scope.named text).key position

/-- Whether a call may draw ids for what it books and queues. -/
def draws : Call → Bool
  | apply _ | applyTransaction _ | tribute _ _ _ _ | execute _ _ _ _ | executeBatch _ _ _ _ _
  | enqueue _ _ _ _ => true
  | _ => false

/-- Whether a call runs a scope. A replay runs the scopes of the step whose record it finds, and the
record is found by the id of the step. -/
def Runs : Call → Scope → Prop
  | complete s _, scope => scope.step? = some s
  | replay s, scope => ∃ s', scope.step? = some s' ∧ s'.id = s.id
  | reportStreak subject count, scope => ∃ ritual, scope = .streak ritual subject count
  | logMood _ _, scope | replyMood _ _, scope => ∃ entry, scope = .mood entry
  | _, _ => False

/-- Whether a call may book or queue under an id of an origin. -/
def Uses (c : Call) (id : String) : Origin → Prop
  | .supplied => c.Brings id
  | .drawn => c.draws = true
  | .due scope _ => c.Runs scope

/-- Whether a call executes actions. -/
def executes : Call → Bool
  | complete _ _ | replay _ | execute _ _ _ _ | executeBatch _ _ _ _ _ | logMood _ _
  | replyMood _ _ | reportStreak _ _ => true
  | _ => false

/-- Whether a call may make a change. -/
def May (c : Call) : Change → Prop
  | .opening a => c = openAccount a.subjectId
  | .booking _ id _ _ origin => c.Uses id origin
  | .queueing n origin => c.Uses n.id origin
  | .marking n => c = markRead n.id
  | .unlocking _ _ _ => c.executes = true
  | .creating d _ _ _ => c = create d
  | .stepping s _ _ _ evidence _ => c = complete s evidence
  | .logging _ e => ∃ text, c = logMood e.subjectId text ∨ c = replyMood e.subjectId text

/-! ## Every call keeps to what it may do -/

variable {v : View} {policy : RetryPolicy}

theorem apply_ensures {c : Call} {r : TransactionRequest} (hkey : ∀ id ∈ r.key, id ∈ c.supplied)
    (hdraws : c.draws = true) :
    (Ledger.apply policy r).Ensures c.May (fun _ _ => True) v := by
  refine Ledger.apply_ensures .supplied (fun _ _ _ => trivial) ?_ ?_
  · intro id now parties hid
    exact ⟨id, hkey id hid, .inl rfl⟩
  · intro id now parties hnone
    exact hdraws

/-- A key that was given to an action may be used as such, or as the key of a position. -/
theorem keyed_of_supplied {c : Call} {a : Action} {ritual subject : String} {key : Option String}
    (hbrings : ∀ id ∈ key, c.Brings id) (hdraws : c.draws = true) (hexecutes : c.executes = true) :
    Action.Keyed c.May v a ritual subject key where
  given id hid := by
    refine ⟨.supplied, fun _ _ => trivial, fun _ _ _ => hbrings id hid, ?_⟩
    rintro n rfl
    exact hbrings _ hid
  drawn _ := ⟨fun _ _ _ _ => hdraws, fun _ => hdraws⟩
  unlocks _ _ _ := hexecutes

theorem mayRun_of_runs {c : Call} {scope : Scope} (hruns : c.Runs scope)
    (hexecutes : c.executes = true) : Batch.MayRun c.May scope :=
  ⟨fun _ _ _ _ _ => hruns, fun _ _ => hruns, fun _ _ _ => hexecutes⟩

/-- **Every call makes only the changes that it may make.** -/
theorem operation_ensures {c : Call} (hc : c.Sendable) :
    (c.operation policy).Ensures c.May (fun _ _ => True) v := by
  cases c with
  | openAccount subject =>
    refine Ledger.openAccount_ensures ?_
    intro a ha
    rw [← ha]
    rfl
  | readAccount subject => exact Ledger.account_ensures
  | readBalance subject => exact .followed Ledger.account_ensures fun _ _ => .pure trivial
  | apply r => exact apply_ensures (fun id hid => Option.mem_toList.2 hid) rfl
  | applyTransaction r =>
    refine .followed (apply_ensures ?_ rfl) fun _ _ => .pure trivial
    intro id hid
    exact Option.mem_toList.2 hid
  | tribute sender receiver amount description =>
    exact .followed (apply_ensures nofun rfl) fun _ _ => .pure trivial
  | findTransaction id => exact .readDocument? fun _ _ => trivial
  | history subject limit => exact .queryDocuments
  | create d =>
    refine Ritual.create_ensures hc ?_
    intro r activity now
    rfl
  | findRitual id => exact .readDocument? fun _ _ => trivial
  | evaluate id t => exact .anyhow Ritual.evaluate_ensures
  | findAssignment subject => exact .readDocument? fun _ _ => trivial
  | currentTask subject => exact Assignment.currentTask?_ensures
  | complete s evidence =>
    refine Completion.complete_ensures (fun r a task now => rfl) ?_
    exact ⟨mayRun_of_runs rfl rfl, mayRun_of_runs rfl rfl, mayRun_of_runs rfl rfl⟩
  | replay s =>
    refine Completion.replay_ensures ?_
    intro s' hs'
    exact ⟨mayRun_of_runs ⟨s', rfl, hs'⟩ rfl, mayRun_of_runs ⟨s', rfl, hs'⟩ rfl,
      mayRun_of_runs ⟨s', rfl, hs'⟩ rfl⟩
  | findCompletion s => exact .readDocument? fun _ _ => trivial
  | execute a ritual subject key =>
    refine Action.execute_ensures (keyed_of_supplied ?_ rfl rfl)
    intro id hid
    exact ⟨id, Option.mem_toList.2 hid, .inl rfl⟩
  | executeBatch ritual subject trigger scope actions =>
    refine .lift (Batch.run_ensures fun j a _ => keyed_of_supplied ?_ rfl rfl)
    intro id hid
    rw [Batch.key, Option.map_map] at hid
    obtain ⟨name, hname, rfl⟩ := Option.map_eq_some_iff.1 hid
    exact ⟨name, Option.mem_toList.2 hname, .inr ⟨j, rfl⟩⟩
  | rehearse ritual subject trigger actions => exact .lift fun _ _ _ _ => trivial
  | logMood subject text =>
    refine Mood.log_ensures (fun id e he => ⟨text, .inl ?_⟩) fun id => mayRun_of_runs ⟨id, rfl⟩ rfl
    rw [he]
  | askMood subject => exact Mood.ask_ensures
  | replyMood subject text =>
    refine Mood.reply_ensures (fun id e he => ⟨text, .inr ?_⟩) fun id =>
      mayRun_of_runs ⟨id, rfl⟩ rfl
    rw [he]
  | reportStreak subject count =>
    exact Streak.report_ensures fun ritual => mayRun_of_runs ⟨ritual, rfl⟩ rfl
  | enqueue subject message ritual id =>
    refine Notification.enqueue_ensures .supplied (fun _ _ _ => trivial) ?_ fun _ _ _ => rfl
    intro i now hi
    exact ⟨i, Option.mem_toList.2 hi, .inl rfl⟩
  | pending subject => exact .queryDocuments
  | markRead id =>
    refine Notification.markRead_ensures ?_
    intro n hn
    rw [← hn]
    rfl

end Call

end RitualLedger
