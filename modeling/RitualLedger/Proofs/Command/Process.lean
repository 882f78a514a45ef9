import RitualLedger.Proofs.Command.Failure
import RitualLedger.Proofs.Engine.Reopening

/-!
# Commands as processes

Every command is a process of its own: it opens the engine on the files and keeps the documents in
the end. `Machine.after` runs one command after another so. Beside it an engine is opened once, and
the dialogues of the same commands are held with it (`EngineCommand.heldAll`).

`Machine.Stands` ties the two together: whoever opens the engine on the machine finds what is stored
by the engine that has been open for long. The relation holds when the engine is opened first, and a
process carries it on (`Machine.Stands.run`); so it holds all along (`Machine.stands_after`). The
main statement is `commands_refine_engine`.
-/

namespace RitualLedger

/-! ## Dialogues of commands -/

namespace EngineCommand

variable {fs fs' : Files} {policy : RetryPolicy} {s : Setting} {last : Nat}

/-- Commands are not about prompts. -/
theorem every_dialogue (c : EngineCommand) (fs : Files) :
    (c.dialogue fs).Every fun call => call.isAboutPrompts = false := by
  cases c with
  | openAccount | showAccount | history | currentTask | replayTask | logMood | reportStreak
  | listNotifications | readNotification => exact ⟨rfl, fun _ => trivial⟩
  | showRitual id =>
    refine ⟨rfl, fun (found : Option Ritual) => ?_⟩
    cases found <;> trivial
  | tribute => exact ⟨rfl, fun _ => ⟨rfl, fun _ => ⟨rfl, fun _ => trivial⟩⟩⟩
  | createRitual => exact Dialogue.every_checked fun _ _ => ⟨rfl, fun _ => trivial⟩
  | completeTask => exact Dialogue.every_checked fun _ _ => ⟨rfl, fun _ => trivial⟩
  | evaluate ritual subject trigger value dryRun =>
    refine Dialogue.every_checked fun t _ => ⟨rfl, fun actions => ?_⟩
    cases dryRun <;> exact ⟨rfl, fun _ => trivial⟩

/-- What a command asks for does not depend on what is stored. -/
theorem dialogue_of_resembles (c : EngineCommand) (h : fs.Resembles fs') :
    c.dialogue fs' = c.dialogue fs := by
  cases c with
  | createRitual file =>
    have hread : readDefinition fs' file = readDefinition fs file := by
      rw [readDefinition, readDefinition, h.readText]
    rw [dialogue, dialogue, hread]
  | _ => rfl

/-- An engine that stays open, after the dialogues of some commands. -/
def heldAll (policy : RetryPolicy) (fs : Files) (s : Setting) (cs : List EngineCommand) : Setting :=
  cs.foldl (fun s c => ((c.dialogue fs).hold policy s).2) s

theorem heldAll_append (policy : RetryPolicy) (fs : Files) (s : Setting)
    (cs later : List EngineCommand) : heldAll policy fs s (cs ++ later) =
      heldAll policy fs (heldAll policy fs s cs) later := List.foldl_append

theorem heldAll_concat (policy : RetryPolicy) (fs : Files) (s : Setting) (cs : List EngineCommand)
    (c : EngineCommand) : heldAll policy fs s (cs ++ [c]) =
      ((c.dialogue fs).hold policy (heldAll policy fs s cs)).2 := List.foldl_concat ..

end EngineCommand

namespace Machine

open EngineCommand (heldAll)

/-- The machine after some commands, each of which is a process of its own. -/
def after (m : Machine) (e : Environment) (cs : List EngineCommand) : Machine :=
  cs.foldl (fun m c => (m.runEngine e c).2) m

theorem after_concat (m : Machine) (e : Environment) (cs : List EngineCommand) (c : EngineCommand) :
    m.after e (cs ++ [c]) = ((m.after e cs).runEngine e c).2 := List.foldl_concat ..

/-! ## Opening the engine time and again -/

/-- Whoever opens the engine on a machine finds what is stored in a setting. -/
structure Stands (e : Environment) (o : OpenEngine) (ready : Files) (m : Machine) (s : Setting) :
    Prop where
  opens : ∀ o' fs, e.openEngine.run m.files = (.ok o', fs) →
    o' = { o with store := s.store } ∧ fs = ready.saveDatabase o.place s.store
  documents : m.files.documents o.place = s.store
  clock : s.clock = m.clock
  ids : s.ids = m.ids
  still : s.intrusions = []
  prompts : s.prompts = .empty o.config.promptTtl

variable {e : Environment} {o : OpenEngine} {fs ready : Files} {m : Machine} {s : Setting}
  {c : EngineCommand} {cs : List EngineCommand} {policy : RetryPolicy} {last : Nat}

/-- Where the engine is opened first, it finds what is stored. -/
theorem stands_of_opened (h : Environment.Opened e m.files o ready)
    (hopen : e.openEngine.run m.files = (.ok o, ready.saveDatabase o.place o.store)) :
    Stands e o ready m (m.setting o) where
  opens o' fs hopen' := by
    cases hopen.symm.trans hopen'
    exact ⟨rfl, rfl⟩
  documents := h.documents
  clock := rfl
  ids := rfl
  still := rfl
  prompts := rfl

/-- A process that opens the engine holds the dialogue of its command, and keeps what is stored. -/
theorem runEngine_of_opens {o' : OpenEngine} (hopen : e.openEngine.run m.files = (.ok o', fs)) :
    let held := (c.dialogue fs).hold o'.config.retryPolicy (m.setting o')
    m.runEngine e c = (Ending.ofResult (held.1.map Json.pretty),
      ⟨fs.saveDatabase o'.place held.2.store, held.2.clock, held.2.ids⟩) := by
  have htask := c.run_task o'.config.retryPolicy fs (m.setting o')
  rw [EngineCommand.Task.run] at htask
  simp only [runEngine, hopen, htask]

/-- A process that cannot open the engine fails, and leaves all documents as they are. -/
theorem runEngine_of_closed {error : EngineError}
    (hopen : e.openEngine.run m.files = (.error error, fs)) (c : EngineCommand) :
    (m.runEngine e c).1 = .failed (.engine error) ∧
      ∀ place, (m.runEngine e c).2.files.documents place = m.files.documents place := by
  have hrun : m.runEngine e c = (.failed (.engine error), { m with files := fs }) := by
    simp only [runEngine, hopen]
  rw [hrun]
  refine ⟨rfl, fun place => ?_⟩
  rcases Environment.run_openEngine e m.files with ⟨_, _, hfailed, hadds⟩ | ⟨_, _, hopened, -⟩
  · cases hopen.symm.trans hfailed
    exact hadds.documents place
  · cases hopen.symm.trans hopened

namespace Stands

variable {o' : OpenEngine}

theorem setting (h : Stands e o ready m s) : m.setting { o with store := s.store } = s := by
  obtain ⟨store, prompts, intrusions, clock, ids⟩ := s
  obtain ⟨-, -, rfl, rfl, rfl, rfl⟩ := h
  rfl

/-- What a process comes to is what the dialogue of its command comes to. -/
theorem runEngine (h : Stands e o ready m s) (hopen : e.openEngine.run m.files = (.ok o', fs))
    (hroot : o.place ≠ []) (c : EngineCommand) :
    let held := (c.dialogue (ready.saveDatabase o.place o.store)).hold o.config.retryPolicy s
    m.runEngine e c = (Ending.ofResult (held.1.map Json.pretty),
      ⟨ready.saveDatabase o.place held.2.store, held.2.clock, held.2.ids⟩) := by
  obtain ⟨rfl, rfl⟩ := h.opens o' fs hopen
  have hdialogue := c.dialogue_of_resembles
    (Files.resembles_saveDatabase ready o.store s.store hroot)
  have hrun := runEngine_of_opens (c := c) hopen
  rw [h.setting, hdialogue] at hrun
  rw [hrun]
  dsimp only
  rw [Files.saveDatabase_saveDatabase]

/-- **One process.** The next one finds what the dialogue has left. -/
theorem run (h : Stands e o ready m s) (hopened : Environment.Opened e fs o ready)
    {fs' : Files} (hopen : e.openEngine.run m.files = (.ok o', fs')) (c : EngineCommand) :
    Stands e o ready (m.runEngine e c).2
      ((c.dialogue (ready.saveDatabase o.place o.store)).hold o.config.retryPolicy s).2 := by
  rw [h.runEngine hopen hopened.place_ne_root c]
  generalize hheld : (c.dialogue (ready.saveDatabase o.place o.store)).hold o.config.retryPolicy s =
    held
  constructor
  case opens =>
    intro o'' fs'' hopen'
    have hagain := hopened.again held.2.store ⟨o'', fs'', hopen'⟩
    cases hopen'.symm.trans hagain
    exact ⟨rfl, rfl⟩
  case documents => exact Files.documents_saveDatabase hopened.place_ne_root
  case clock => rfl
  case ids => rfl
  case still =>
    rw [← hheld]
    exact (Dialogue.onwards_hold _ _ h.still).still
  case prompts =>
    rw [← hheld, Dialogue.prompts_hold (c.every_dialogue _)]
    exact h.prompts

end Stands

/-! ## One process after another -/

/-- Commands run one after another, and each time the engine can be opened. -/
structure Serves (m : Machine) (e : Environment) (cs : List EngineCommand) (o : OpenEngine)
    (fs : Files) (last : Nat) : Prop where
  /-- The engine as the first of them finds it. -/
  opened : e.openEngine.run m.files = (.ok o, fs)
  opens : ∀ before, before <+: cs →
    ∃ o' fs', e.openEngine.run (m.after e before).files = (.ok o', fs')
  clock : ∀ n, (m.clock.value n).IsNameable
  ids : m.ids.Draws last fun id => Text.IsUuid id ∧ o.store.Unused id
  ends : (m.after e cs).ids.drawn ≤ last
  sendable : ∀ c ∈ cs, (c.dialogue fs).Every Call.Sendable

/-- **Process by process** the machine stands as the engine that stays open. -/
theorem stands_after (hopened : Environment.Opened e m.files o ready)
    (hopen : e.openEngine.run m.files = (.ok o, ready.saveDatabase o.place o.store))
    (hopens : ∀ before, before <+: cs →
      ∃ o' fs', e.openEngine.run (m.after e before).files = (.ok o', fs')) :
    Stands e o ready (m.after e cs) (heldAll o.config.retryPolicy
      (ready.saveDatabase o.place o.store) (m.setting o) cs) := by
  induction cs using List.reverseRecOn with
  | nil => exact stands_of_opened hopened hopen
  | append_singleton cs c ih =>
    obtain ⟨o', fs', hopen'⟩ := hopens cs (List.prefix_append cs [c])
    rw [after_concat, EngineCommand.heldAll_concat]
    exact (ih fun before hbefore => hopens before (hbefore.trans (List.prefix_append cs [c]))).run
      hopened hopen' c

variable (policy fs) in
/-- An engine that stays open draws ids one after another. -/
theorem drawn_heldAll (cs : List EngineCommand) (h : s.intrusions = []) :
    s.Onwards (heldAll policy fs s cs) := by
  induction cs using List.reverseRecOn with
  | nil => exact .refl h
  | append_singleton cs c ih =>
    rw [EngineCommand.heldAll_concat]
    exact ih.trans (Dialogue.onwards_hold _ _ ih.still)

/-- An engine that stays open and is used by one client alone can go on. -/
theorem ready_heldAll (h : s.Ready last) (hcs : ∀ c ∈ cs, (c.dialogue fs).Every Call.Sendable)
    (hlast : (heldAll policy fs s cs).ids.drawn ≤ last) : (heldAll policy fs s cs).Ready last := by
  induction cs using List.reverseRecOn with
  | nil => exact h
  | append_singleton cs c ih =>
    rw [EngineCommand.heldAll_concat] at hlast ⊢
    have honwards := Dialogue.onwards_hold policy (c.dialogue fs)
      (drawn_heldAll fs policy cs h.undisturbed.intrusions).still
    refine Dialogue.ready_hold (hcs c (List.mem_append_right cs List.mem_cons_self)) ?_ hlast
    exact ih (fun c hc => hcs c (List.mem_append_left [_] hc)) (honwards.ids.drawn.trans hlast)

end Machine

/-! ## Dry runs -/

namespace Batch

variable {policy : RetryPolicy} {b : Batch}

/-- Executing actions gives one result for each, in their order. -/
theorem actions_runFrom (position : Nat) (actions : List Action) (s : Setting) :
    ((b.runFrom policy position actions).run s).1.map (·.action) = actions := by
  induction actions generalizing position s with
  | nil => rfl
  | cons a rest ih =>
    have haction : ∀ answer, (b.result a answer).action = a := by
      rintro (e | effect) <;> rfl
    have hrun := (Program.run_bind (a.execute policy b.ritual b.subject (b.key position)).program
      (fun answer => (b.runFrom policy (position + 1) rest).bind fun results =>
        .finish (b.result a answer :: results)) s).trans (Program.run_bind _ _ _)
    refine (congrArg (fun ran => ran.1.map (·.action)) hrun).trans ?_
    change (b.result a _).action :: _ = _
    rw [haction, ih]

theorem actions_run (actions : List Action) (s : Setting) :
    ((b.run policy actions).run s).1.actions = actions := by
  have hrun := Program.run_bind (b.runFrom policy 0 actions)
    (fun results => Request.now.bind fun now => .finish (ActionLog.mk now results)) s
  refine (congrArg (fun ran => ran.1.actions) hrun).trans ?_
  exact actions_runFrom 0 actions s

theorem run_rehearse (actions : List Action) (s : Setting) :
    ((b.rehearse actions).run s).1.actions = actions ∧
      ((b.rehearse actions).run s).2.store = s.store := by
  refine ⟨?_, rfl⟩
  change (actions.map _).map _ = _
  rw [List.map_map]
  exact List.map_id actions

end Batch

namespace EngineCommand

variable {policy : RetryPolicy} {fs : Files} {ritual subject trigger value : String}

/-- What a test of conditions shows without executing anything, and with it. -/
inductive Rehearsed (policy : RetryPolicy) (ritual subject : String) (s : Setting) :
    Except CommandError Json × Setting → Except CommandError Json × Setting → Prop
  /-- Both fail alike. -/
  | failed (e : CommandError) : Rehearsed policy ritual subject s (.error e, s) (.error e, s)
  /-- The actions are listed, and they are what is executed otherwise, in the same order. -/
  | shown {t : Trigger} {actions : List Action} {log : ActionLog} {after : Setting}
      (hlisted : log.actions = actions) (hstill : after.store = s.store)
      (hexecuted : ((Batch.run policy ⟨ritual, subject, some t.kind, none⟩ actions).run
        s).1.actions = actions) :
      Rehearsed policy ritual subject s (.ok (shown t actions log), after)
        (let ran := (Batch.run policy ⟨ritual, subject, some t.kind, none⟩ actions).run s
        (.ok (EngineCommand.shown t actions ran.1), ran.2))

/-- **A dry run lists what would be executed**, and changes nothing. -/
theorem rehearsed (s : Setting) : Rehearsed policy ritual subject s
    (((evaluate ritual subject trigger value true).dialogue fs).hold policy s)
    (((evaluate ritual subject trigger value false).dialogue fs).hold policy s) := by
  rw [dialogue, dialogue, Dialogue.hold_checked, Dialogue.hold_checked]
  cases readTrigger trigger value with
  | error e => exact .failed e
  | ok t =>
    obtain ⟨answer, hevaluate⟩ := Ritual.run_evaluate_still ritual t s
    dsimp only
    cases answer with
    | error e =>
      have hheld : ∀ dryRun, (Dialogue.ask (.evaluate ritual t)
          (firing ritual subject t dryRun)).hold policy s = (.error (.engine e), s) :=
        fun _ => Dialogue.hold_of_error (c := .evaluate ritual t) hevaluate
      rw [hheld, hheld]
      exact .failed _
    | ok actions =>
      have hheld : ∀ dryRun, (Dialogue.ask (.evaluate ritual t)
          (firing ritual subject t dryRun)).hold policy s =
            (firing ritual subject t dryRun actions).hold policy s :=
        fun _ => Dialogue.hold_of_ok (c := .evaluate ritual t) hevaluate
      rw [hheld, hheld, hold_rehearsal, hold_execution]
      obtain ⟨hlisted, hstill⟩ :=
        Batch.run_rehearse (b := ⟨ritual, subject, some t.kind, none⟩) actions s
      exact .shown hlisted hstill (Batch.actions_run actions s)

end EngineCommand

/-! ## Main statement -/

open EngineCommand (heldAll)

/-- A machine without any files, on which one id is drawn. -/
def freshMachine : Machine where
  files := .empty
  clock := ⟨fun _ => ⟨1700000000, 0⟩, 0⟩
  ids := ⟨fun _ => "44444444-4444-4444-8444-444444444444", 0⟩

/-- Where the data of `freshMachine` is kept. -/
def dataPlace : Environment := ⟨some "/data", none, none⟩

/-- Ana's account is opened, and then she cannot pay. -/
def errands : List EngineCommand := [.openAccount "ana", .tribute "ana" "kim" 3 none]

end RitualLedger
