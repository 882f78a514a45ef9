import RitualLedger.Command.Run
import RitualLedger.Proofs.Engine.Sequence

/-!
# Commands as dialogues

A command asks the engine for something, call by call, and shows what it has found out in the end.
`EngineCommand.dialogue` says which calls these are, and what is shown; it does not say where the
engine comes from. So a dialogue can be held with an engine that has been open for long
(`Dialogue.hold`), and it comes to the same as the command does in its process
(`EngineCommand.run_task`).
-/

namespace RitualLedger

/-- What is asked of an engine, call by call, and what is shown in the end. -/
inductive Dialogue where
  | done (answer : Except CommandError Json)
  | ask (c : Call) (next : c.Result → Dialogue)

namespace Dialogue

variable {α : Type} {policy : RetryPolicy}

/-- Holds a dialogue. A call that fails ends it. -/
def hold (policy : RetryPolicy) : Dialogue → Setting → Except CommandError Json × Setting
  | done answer, s => (answer, s)
  | ask c next, s =>
    match (c.operation policy).run s with
    | (.ok a, after) => (next a).hold policy after
    | (.error e, after) => (.error (.engine e), after)

section

variable {c : Call} {f : c.Result → Dialogue} {s after : Setting}

theorem hold_of_ok {a : c.Result} (h : (c.operation policy).run s = (.ok a, after)) :
    (ask c f).hold policy s = (f a).hold policy after := by
  rw [hold, h]

theorem hold_of_error {e : EngineError} (h : (c.operation policy).run s = (.error e, after)) :
    (ask c f).hold policy s = (.error (.engine e), after) := by
  rw [hold, h]

end

/-- Goes on with what has passed a check. -/
def checked (r : Except CommandError α) (next : α → Dialogue) : Dialogue :=
  match r with
  | .ok a => next a
  | .error e => done (.error e)

/-- Whether all calls of a dialogue have a property, whatever is answered to the earlier ones. -/
def Every (p : Call → Prop) : Dialogue → Prop
  | done _ => True
  | ask c next => p c ∧ ∀ a, (next a).Every p

theorem every_checked {p : Call → Prop} {r : Except CommandError α} {next : α → Dialogue}
    (h : ∀ a, r = .ok a → (next a).Every p) : (checked r next).Every p := by
  cases r with
  | ok a => exact h a rfl
  | error e => trivial

theorem hold_checked (r : Except CommandError α) (next : α → Dialogue) (s : Setting) :
    (checked r next).hold policy s = match r with
      | .ok a => (next a).hold policy s
      | .error e => (.error e, s) := by
  cases r <;> rfl

end Dialogue

/-- The ritual of an id is the one that is found, or there is an error. -/
theorem Ritual.run_get_eq (id : String) (s : Setting) :
    (get id).run s = match (find? id).run s with
      | (.ok (some r), after) => (.ok r, after)
      | (.ok none, after) => (.error (.notFound .ritual id), after)
      | (.error e, after) => (.error e, after) := by
  rw [get]
  cases hfind : (find? id).run s with
  | mk answer after =>
    cases answer with
    | error e => exact Operation.run_bind_error hfind
    | ok found =>
      refine (Operation.run_bind hfind).trans ?_
      cases found <;> rfl

/-! ## The dialogues of commands -/

namespace EngineCommand

open Dialogue (done ask checked)

/-- What is shown of a test of conditions. -/
def shown (t : Trigger) (actions : List Action) (log : ActionLog) : Json :=
  .obj [("actions", encode actions), ("log", encode log), ("trigger", encode t)]

/-- Reads the balances of both parties of a tribute. -/
def settling (sender receiver id : String) : Dialogue :=
  ask (.readBalance sender) fun (senderBalance : Int64) =>
    ask (.readBalance receiver) fun (receiverBalance : Int64) =>
      done (.ok (.obj [("receiver_balance", encode receiverBalance),
        ("sender_balance", encode senderBalance), ("transaction_id", .str id)]))

/-- Lists the actions that a trigger asks for, or executes them. -/
def firing (ritual subject : String) (t : Trigger) (dryRun : Bool) (actions : List Action) :
    Dialogue :=
  match dryRun with
  | true => ask (.rehearse ritual subject (some t.kind) actions) fun (log : ActionLog) =>
    done (.ok (shown t actions log))
  | false => ask (.executeBatch ritual subject (some t.kind) none actions) fun (log : ActionLog) =>
    done (.ok (shown t actions log))

/-- The calls of a command, and what it shows. Only a definition is taken from the files. -/
def dialogue (fs : Files) : EngineCommand → Dialogue
  | openAccount subject => ask (.openAccount subject) fun (a : Account) => done (.ok (encode a))
  | showAccount subject => ask (.readAccount subject) fun (a : Account) => done (.ok (encode a))
  | history subject limit =>
    ask (.history subject limit) fun (ts : List Transaction) => done (.ok (encode ts))
  | tribute sender receiver amount description =>
    ask (.tribute sender receiver amount description) (settling sender receiver)
  | createRitual file =>
    checked ((readDefinition fs file).mapError .definition) fun d =>
      ask (.create d) fun (r : Ritual) => done (.ok (encode r))
  | showRitual id => ask (.findRitual id) fun (found : Option Ritual) =>
    match found with
    | some r => done (.ok (encode r))
    | none => done (.error (.engine (.notFound .ritual id)))
  | evaluate ritual subject trigger value dryRun =>
    checked (readTrigger trigger value) fun t =>
      ask (.evaluate ritual t) (firing ritual subject t dryRun)
  | currentTask subject =>
    ask (.currentTask subject) fun (task : Option CurrentTask) => done (.ok (encode task))
  | completeTask ritual subject index text photo =>
    checked (evidence text photo) fun e =>
      ask (.complete ⟨ritual, subject, index⟩ e) fun (o : CompletionOutcome) =>
        done (.ok (encode o))
  | replayTask ritual subject index =>
    ask (.replay ⟨ritual, subject, index⟩) fun (o : CompletionOutcome) => done (.ok (encode o))
  | logMood subject mood =>
    ask (.logMood subject mood) fun (o : MoodOutcome) => done (.ok (encode o))
  | reportStreak subject count =>
    ask (.reportStreak subject count) fun (o : StreakOutcome) => done (.ok (encode o))
  | listNotifications subject =>
    ask (.pending subject) fun (ns : List Notification) => done (.ok (encode ns))
  | readNotification id => ask (.markRead id) fun (n : Notification) => done (.ok (encode n))

section

variable {policy : RetryPolicy} {s : Setting} {ritual subject : String} {t : Trigger}
  {actions : List Action}

/-- Actions that are listed are logged. -/
theorem hold_rehearsal : (firing ritual subject t true actions).hold policy s =
    let log := (Batch.rehearse ⟨ritual, subject, some t.kind, none⟩ actions).run s
    (.ok (shown t actions log.1), log.2) :=
  Dialogue.hold_of_ok (f := fun (log : ActionLog) => done (.ok (shown t actions log)))
    (c := .rehearse ritual subject (some t.kind) actions) (Operation.run_lift _ s)

/-- Whatever becomes of actions that are executed, it is logged. -/
theorem hold_execution : (firing ritual subject t false actions).hold policy s =
    let log := (Batch.run policy ⟨ritual, subject, some t.kind, none⟩ actions).run s
    (.ok (shown t actions log.1), log.2) :=
  Dialogue.hold_of_ok (f := fun (log : ActionLog) => done (.ok (shown t actions log)))
    (c := .executeBatch ritual subject (some t.kind) none actions) (Operation.run_lift _ s)

end

/-! ## Running a command -/

namespace Task

variable {α β : Type} {policy : RetryPolicy} {s : Setting}

/-- Runs what the engine does for a command. -/
def run (t : Task α) (s : Setting) : Except CommandError α × Setting := (ExceptT.run t).run s

theorem run_bind (t : Task α) (f : α → Task β) (s : Setting) :
    (t >>= f).run s = match t.run s with
      | (.ok a, after) => (f a).run after
      | (.error e, after) => (.error e, after) := by
  change (Program.bind _ _).run s = _
  rw [Program.run_bind]
  change (ExceptT.bindCont f (t.run s).1).run (t.run s).2 = _
  obtain ⟨_ | _, _⟩ := t.run s <;> rfl

theorem run_perform (o : Operation α) (s : Setting) :
    (perform o).run s = ((o.run s).1.mapError .engine, (o.run s).2) := Program.run_bind _ _ s

theorem run_check (r : Except CommandError α) (s : Setting) : (check r).run s = (r, s) := rfl

theorem run_lift (p : Program α) (s : Setting) :
    (liftM p : Task α).run s = (.ok (p.run s).1, (p.run s).2) := Program.run_bind _ _ s

/-- A task that begins with a call. -/
theorem run_perform_bind (c : Call) (f : c.Result → Task Json) {next : c.Result → Dialogue}
    (hnext : ∀ a t, (f a).run t = (next a).hold policy t) (s : Setting) :
    (perform (c.operation policy) >>= f).run s = (ask c next).hold policy s := by
  rw [run_bind, run_perform, Dialogue.hold]
  generalize (c.operation policy).run s = result
  obtain ⟨e | a, after⟩ := result
  · rfl
  · exact hnext a after

/-- A task that shows what is answered to a call. -/
theorem run_perform_map (c : Call) (f : c.Result → Json) (s : Setting) :
    (f <$> perform (c.operation policy)).run s =
      (ask c fun a => done (.ok (f a))).hold policy s := by
  rw [map_eq_pure_bind]
  exact run_perform_bind c _ (fun _ _ => rfl) s

theorem run_check_bind (r : Except CommandError α) (f : α → Task Json) {next : α → Dialogue}
    (hnext : ∀ a, (f a).run s = (next a).hold policy s) :
    (check r >>= f).run s = (checked r next).hold policy s := by
  rw [run_bind, run_check, Dialogue.hold_checked]
  cases r with
  | ok a => exact hnext a
  | error e => rfl

end Task

/-- **A command is its dialogue.** -/
theorem run_task (policy : RetryPolicy) (fs : Files) (c : EngineCommand) (s : Setting) :
    (c.task policy fs).run s = (c.dialogue fs).hold policy s := by
  cases c with
  | openAccount subject => exact Task.run_perform_map (.openAccount subject) _ s
  | showAccount subject => exact Task.run_perform_map (.readAccount subject) _ s
  | history subject limit => exact Task.run_perform_map (.history subject limit) _ s
  | tribute sender receiver amount description =>
    refine Task.run_perform_bind (.tribute sender receiver amount description) _ ?_ s
    intro id s
    refine Task.run_perform_bind (.readBalance sender) _ ?_ s
    intro senderBalance s
    exact Task.run_perform_bind (.readBalance receiver) _ (fun _ _ => rfl) s
  | createRitual file =>
    refine Task.run_check_bind _ _ fun d => ?_
    exact Task.run_perform_map (.create d) _ s
  | showRitual id =>
    change (encode <$> perform (Ritual.get id)).run s = _
    rw [map_eq_pure_bind, Task.run_bind, Task.run_perform, Ritual.run_get_eq]
    cases hfind : (Ritual.find? id).run s with
    | mk answer after =>
      cases answer with
      | error e => exact (Dialogue.hold_of_error (c := .findRitual id) hfind).symm
      | ok found =>
        refine Eq.trans ?_ (Dialogue.hold_of_ok (c := .findRitual id) hfind).symm
        cases found <;> rfl
  | evaluate ritual subject trigger value dryRun =>
    refine Task.run_check_bind _ _ fun t => ?_
    refine Task.run_perform_bind (.evaluate ritual t) _ ?_ s
    intro (actions : List Action) s
    cases dryRun with
    | true =>
      rw [hold_rehearsal]
      exact (Task.run_bind _ _ s).trans (by rw [Task.run_lift]; rfl)
    | false =>
      rw [hold_execution]
      exact (Task.run_bind _ _ s).trans (by rw [Task.run_lift]; rfl)
  | currentTask subject => exact Task.run_perform_map (.currentTask subject) _ s
  | completeTask ritual subject index text photo =>
    refine Task.run_check_bind _ _ fun e => ?_
    exact Task.run_perform_map (.complete ⟨ritual, subject, index⟩ e) _ s
  | replayTask ritual subject index =>
    exact Task.run_perform_map (.replay ⟨ritual, subject, index⟩) _ s
  | logMood subject mood => exact Task.run_perform_map (.logMood subject mood) _ s
  | reportStreak subject count => exact Task.run_perform_map (.reportStreak subject count) _ s
  | listNotifications subject => exact Task.run_perform_map (.pending subject) _ s
  | readNotification id => exact Task.run_perform_map (.markRead id) _ s

end EngineCommand

end RitualLedger
