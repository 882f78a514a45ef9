import RitualLedger.Proofs.Rule.Fulfilment

/-!
# Replays of completions that went well

A completion that has answered has reported on all that followed its step, in order
(`Completion.keeps_complete_fulfilled`), and what it has reported as done stays done, whatever
happens (`Completion.Fulfilled.moved`). So when all has gone well, a replay has nothing left to do
while the subject still follows the ritual: it leaves the store as it is, and reports the same
actions in the same order. Amounts and messages are reported as skipped. A task is reported as
unlocked once more, although it was unlocked already; so a replay reports everything as skipped
exactly if no task was to be unlocked (`replays_skip_all_but_unlocks`).
-/

namespace RitualLedger

variable {s t u : Store} {policy : RetryPolicy} {refuses : StoreError → Prop} {step : Step}
  {evidence : Evidence} {c : CompletionRecord} {r : Ritual}

/-- A ritual keeps its conditions, whatever others do. -/
theorem Store.Regular.conditions_of_moves (hs : s.Regular) (hst : Rely.history.moves s t)
    {id : String} (hr : s.get? Ritual (Ritual.key id) = some r) :
    ∃ r', t.get? Ritual (Ritual.key id) = some r' ∧ r'.conditions = r.conditions := by
  obtain ⟨r', hr', hprecedes⟩ := (hst.2 hs).rituals id r hr
  exact ⟨r', hr', Ritual.conditions_of_terms hprecedes.terms⟩

/-- What follows a step is for the subject of the step, in its ritual. -/
theorem CompletionRecord.of_mem_errands {conditions : List Condition} {e : Errand}
    (h : e ∈ c.errands conditions) : e.subject = c.subjectId ∧ e.ritual = c.ritualId := by
  have hbatch : ∀ {trigger scope actions},
      e ∈ (c.batch trigger scope).errands scope 0 actions →
        e.subject = c.subjectId ∧ e.ritual = c.ritualId := by
    intro trigger scope actions he
    obtain ⟨_, -, rfl⟩ := List.mem_map.1 he
    exact ⟨rfl, rfl⟩
  rcases List.mem_append.1 h with h | h
  · rw [rewards] at h
    split at h
    · cases h
    · exact hbatch h
  rcases List.mem_append.1 h with h | h
  · exact hbatch h
  · split at h
    · exact hbatch h
    · cases h

namespace Completion

/-! ## What a completion has reported -/

/-- The step of a completion is on record, and its outcome reports on all that followed. -/
inductive Fulfilled (s : Store) (step : Step) (outcome : CompletionOutcome) : Prop
  | intro (c : CompletionRecord) (r : Ritual) (hrecorded : Recorded s step c)
    (hr : s.get? Ritual (Ritual.key c.ritualId) = some r)
    (hreward : AllReport s c.rewards outcome.baseReward.toList)
    (hreactions : AllReport s (c.reactions r.conditions) outcome.actionsExecuted.results)

/-- What was reported holds from then on. -/
theorem Fulfilled.moved {outcome : CompletionOutcome} (h : Fulfilled s step outcome)
    (hs : s.Regular) (hst : Rely.history.moves s t) : Fulfilled t step outcome := by
  obtain ⟨c, r, hrecorded, hr, hreward, hreactions⟩ := h
  obtain ⟨r', hr', hsame⟩ := hs.conditions_of_moves hst hr
  refine ⟨c, r', hrecorded.mono hst.1.evolves, hr', hreward.moved hs hst, ?_⟩
  rw [hsame]
  exact hreactions.moved hs hst

/-! ## Following up among others -/

theorem keeps_payReward_reports (hs : s.Regular) (c : CompletionRecord) :
    (payReward policy c).Keeps (.among .history refuses)
      (fun reward _ t => AllReport t c.rewards reward.toList) () s := by
  rw [payReward, CompletionRecord.rewards]
  split
  · exact List.Forall₂.nil
  · refine Program.Keeps.bind (Batch.keeps_run_reports (b := c.batch none (.reward c.step)) rfl hs
      [.reward c.tokenReward]) ?_
    rintro log _ t hlog
    -- One errand has one result.
    cases hresults : log.results with
    | nil =>
      rw [hresults] at hlog
      cases hlog
    | cons first rest =>
      rw [hresults] at hlog
      cases hlog with
      | cons hfirst hrest =>
        cases hrest
        exact .cons hfirst .nil

theorem keeps_fire_reports (hs : s.Regular)
    (hr : s.get? Ritual (Ritual.key c.ritualId) = some r) (trigger : Trigger) (scope : Scope) :
    (fire policy c trigger scope).Keeps (.among .history refuses) (fun _ _ _ => True)
      (fun log _ t => AllReport t (c.fired r.conditions trigger scope) log.results) () s := by
  have hfound : ∀ t, (Contract.among .history refuses).moves () s t →
      ∃ r', t.get? Ritual (Ritual.key c.ritualId) = some r' := by
    intro t hst
    obtain ⟨r', hr', -⟩ := hs.conditions_of_moves hst hr
    exact ⟨r', hr'⟩
  refine .bind (Ritual.keeps_evaluate hfound trigger) ?_
  rintro actions _ t ⟨-, hst, r', hr', rfl⟩
  obtain ⟨_, hr'', hsame⟩ := hs.conditions_of_moves hst hr
  cases hr'.symm.trans hr''
  rw [CompletionRecord.fired, ← hsame]
  exact .lift (Batch.keeps_run_reports (b := c.batch (some trigger.kind) scope) rfl
    (hst.1.regular hs) _)

/-- **All that follows a step is reported on**, in order. -/
theorem keeps_followUp_reports (hs : s.Regular)
    (hr : s.get? Ritual (Ritual.key c.ritualId) = some r) :
    (followUp policy c).Keeps (.among .history refuses) (fun _ _ _ => True)
      (fun outcome _ t => AllReport t c.rewards outcome.baseReward.toList ∧
        AllReport t (c.reactions r.conditions) outcome.actionsExecuted.results) () s := by
  rw [CompletionRecord.reactions]
  refine .bind (.lift (Program.Keeps.along (keeps_payReward_reports hs c))) ?_
  rintro reward _ s₁ ⟨hreward, hs₁⟩
  have hregular := hs₁.1.regular hs
  obtain ⟨r₁, hr₁, hsame⟩ := hs.conditions_of_moves hs₁ hr
  rw [← hsame]
  refine .bind (.along (keeps_fire_reports hregular hr₁ _ _)) ?_
  rintro log _ s₂ ⟨hlog, hs₂⟩
  have hregular' := hs₂.1.regular hregular
  split
  · obtain ⟨r₂, hr₂, hsame'⟩ := hregular.conditions_of_moves hs₂ hr₁
    refine .bind (.along (keeps_fire_reports hregular' hr₂ _ _)) ?_
    rintro last _ s₃ ⟨hlast, hs₃⟩
    refine .pure ⟨(hreward.moved hregular hs₂).moved hregular' hs₃, ?_⟩
    rw [hsame'] at hlast
    exact List.rel_append (hlog.moved hregular' hs₃) hlast
  · refine .pure ⟨hreward.moved hregular hs₂, ?_⟩
    rw [List.append_nil]
    exact hlog

/-- A step that is taken is on record, in a ritual that is there. -/
theorem keeps_takeStep_recorded (hs : s.Regular) (step : Step) (evidence : Evidence) :
    (takeStep policy step evidence).Keeps (.among .history refuses) (fun _ _ _ => True)
      (fun c _ t => Recorded t step c ∧
        ∃ r, t.get? Ritual (Ritual.key c.ritualId) = some r) () s := by
  refine .bind (Ritual.keeps_get fun _ _ _ _ => trivial) ?_
  rintro r₀ _ s₁ ⟨-, hs₁, hr₀⟩
  refine .bind (.among _) ?_
  rintro a₀ _ s₂ hs₂
  have haccept : (Operation.ofExcept (accept step evidence r₀ a₀)).Keeps (.among .history refuses)
      (fun _ _ _ => True) (fun task _ t => t = s₂ ∧ accept step evidence r₀ a₀ = .ok task) () s₂ :=
    .ofExcept (fun task htask => ⟨rfl, htask⟩) fun _ _ => trivial
  refine .bind haccept ?_
  rintro task₀ _ s₂ ⟨rfl, haccepted⟩
  obtain ⟨-, htask₀, haccepts⟩ := accept_eq_ok_iff.1 haccepted
  refine .bind .now ?_
  rintro now _ s₃ ⟨-, hs₃, hnow⟩
  refine .transact (fun _ _ _ _ _ _ => trivial) (fun _ _ _ _ => trivial) ?_ ?_
  · intro snapshot t plan _ _ hdecision hwrites
    obtain ⟨r, a, task, hdecided⟩ := decided_of_decide hdecision
    rw [hdecided.writes] at hwrites
    cases hwrites
  · intro t plan u ht hcommits hknown
    have hmoves : Rely.history.moves s₁ t :=
      Rely.history.trans hs₂ (Rely.history.trans hs₃ ht)
    have hterms : ∀ r, t.get? Ritual (Ritual.key step.ritual) = some r → r₀.terms = r.terms := by
      intro r hr
      obtain ⟨r', hr', hsame⟩ := hmoves.1.evolves.rituals _ r₀ hr₀
      cases hr.symm.trans hr'
      exact hsame.symm
    obtain ⟨r, a, task, hmakes, hresult⟩ :=
      stepping_of_decide hnow htask₀ haccepts hterms hcommits
    have hregular : t.Regular := hmoves.1.regular (hs₁.1.regular hs)
    obtain ⟨r', hr', -⟩ := hregular.conditions_of_moves hknown hmakes.allowed.ritual
    rw [hresult]
    exact ⟨(), trivial, ⟨hmakes.get?_written (by simp [Change.writes]) hnow, rfl⟩, r', hr'⟩

/-- **A completion that has an outcome has reported on all that followed**, whatever others do. -/
theorem keeps_complete_fulfilled (hs : s.Regular) (step : Step) (evidence : Evidence) :
    (complete policy step evidence).Keeps (.among .history refuses) (fun _ _ _ => True)
      (fun outcome _ t => Fulfilled t step outcome) () s := by
  refine .bind (.along (keeps_takeStep_recorded hs step evidence)) ?_
  rintro c _ s₁ ⟨⟨hrecorded, r, hr⟩, hs₁⟩
  have hregular := hs₁.1.regular hs
  refine (Operation.Keeps.along (keeps_followUp_reports hregular hr)).imp (fun _ _ _ h => h) ?_
  rintro outcome _ t ⟨⟨hreward, hreactions⟩, hst⟩
  obtain ⟨r', hr', hsame⟩ := hregular.conditions_of_moves hst hr
  refine ⟨c, r', hrecorded.mono hst.1.evolves, hr', hreward, ?_⟩
  rw [hsame]
  exact hreactions

/-! ## Replaying alone -/

/-- A replay of a step that is on record follows it up. -/
theorem run_replay_of_recorded {setting : Setting}
    (hc : setting.store.get? CompletionRecord step.key = some c) :
    (replay policy step).run setting = (followUp policy c).run setting :=
  Operation.run_bind (Operation.run_readDocument_of_get? hc)

theorem followUp_run (policy : RetryPolicy) {setting : Setting} (hs : setting.store.Regular)
    (halone : setting.Undisturbed)
    (hr : setting.store.get? Ritual (Ritual.key c.ritualId) = some r) :
    ∃ outcome, ((followUp policy c).run setting).1 = .ok outcome ∧
      Followed c r.conditions setting.store outcome ((followUp policy c).run setting).2.store := by
  have hkeeps : (followUp policy c).Keeps (.alone fun _ => True) (fun _ _ _ => False)
      (fun outcome g t => g = () ∧ Followed c r.conditions setting.store outcome t) ()
      setting.store :=
    keeps_followUp_alone (Contract.alone_alone _) hs hr fun _ _ _ => trivial
  rcases hkeeps.run halone fun _ _ => trivial with ⟨_, _, _, hfalse⟩ | ⟨outcome, _, hok, hpost⟩
  · exact hfalse.elim
  · exact ⟨outcome, hok, hpost.2⟩

/-- A replay reports again what was reported, and does nothing. -/
structure Repeated (setting : Setting) (step : Step) (outcome : CompletionOutcome)
    (run : Except EngineError CompletionOutcome × Setting) : Prop where
  unchanged : run.2.store = setting.store
  answered : ∃ again, run.1 = .ok again ∧
    again.baseReward = outcome.baseReward.map (·.again) ∧
    again.actionsExecuted.results = outcome.actionsExecuted.results.map (·.again)

/-- **What went well is not done again.** -/
theorem Fulfilled.repeated {setting : Setting} {outcome : CompletionOutcome}
    (h : Fulfilled setting.store step outcome) (hs : setting.store.Regular)
    (hassigned : setting.store.IsAssigned step.subject step.ritual)
    (hfine : ∀ r ∈ outcome.results, r.IsFine) (halone : setting.Undisturbed)
    (policy : RetryPolicy) : Repeated setting step outcome ((replay policy step).run setting) := by
  obtain ⟨c, r, ⟨hc, rfl⟩, hr, hreward, hreactions⟩ := h
  have hassigned : ∀ e ∈ c.errands r.conditions,
      setting.store.IsAssigned e.subject e.ritual := by
    intro e he
    obtain ⟨hsubject, hritual⟩ := CompletionRecord.of_mem_errands he
    rw [hsubject, hritual]
    exact hassigned
  obtain ⟨again, hok, t, hfirst, hrest⟩ := followUp_run policy hs halone hr
  obtain ⟨rfl, hbase⟩ := hfirst.again hreward
    (fun x hx => hfine x (List.mem_append_left _ hx))
    fun e he => hassigned e (List.mem_append_left _ he)
  obtain ⟨hstore, hresults⟩ := hrest.again hreactions
    (fun x hx => hfine x (List.mem_append_right _ hx))
    fun e he => hassigned e (List.mem_append_right _ he)
  rw [run_replay_of_recorded hc]
  refine ⟨hstore, again, hok, ?_, hresults⟩
  rw [← Option.toList_map] at hbase
  simpa only [Option.head?_toList] using congrArg List.head? hbase

end Completion

open Completion (Fulfilled complete replay)

/-! ## Calls -/

/-- What is stored when a completion has its outcome. -/
def Call.Fulfilled (s : Store) : (c : Call) → Except EngineError c.Result → Prop
  | .complete step _, .ok outcome => Completion.Fulfilled s step outcome
  | _, _ => True

theorem Call.Fulfilled.moved {call : Call} {answer : Except EngineError call.Result}
    (h : call.Fulfilled s answer) (hs : s.Regular) (hst : Rely.history.moves s t) :
    call.Fulfilled t answer := by
  cases call with
  | complete step evidence =>
    cases answer with
    | ok outcome => exact Completion.Fulfilled.moved h hs hst
    | error error => trivial
  | _ => trivial

theorem Call.keeps_fulfilled (hs : s.Regular) (call : Call) :
    (call.operation policy).program.Keeps (.among .history refuses)
      (fun answer _ t => call.Fulfilled t answer) () s := by
  refine Operation.Keeps.program ?_
  cases call with
  | complete step evidence => exact Completion.keeps_complete_fulfilled hs step evidence
  | _ => exact (Operation.Keeps.among _).imp (fun _ _ _ _ => trivial) fun _ _ _ _ => trivial

/-- What a completion has reported holds ever after. -/
theorem World.fulfilled_after {ttl : Int} {es : List Event} {client : Client}
    (hclient : client ∈ ((World.initial ttl).after es).clients)
    {answer : Except EngineError client.call.Result} (hanswer : client.rest = .finish answer)
    (later : List Event) :
    client.call.Fulfilled ((World.initial ttl).after (es ++ later)).store answer := by
  obtain ⟨i, hi⟩ := List.mem_iff_getElem?.1 hclient
  have hkeeps : client.rest.Keeps (.among .history fun _ => True)
      (fun answer _ s => client.call.Fulfilled s answer) () ((World.initial ttl).after es).store :=
    World.keeps_among (fun hsound hs e => hsound.history hs e)
      (fun policy call s hs => call.keeps_fulfilled hs)
      (fun call answer s t hs hst h => h.moved hs hst) (fun _ _ _ _ _ => trivial) hi
  rw [hanswer] at hkeeps
  have hfulfilled : client.call.Fulfilled ((World.initial ttl).after es).store answer := hkeeps
  have hsound := World.sound_after ttl es
  have hs := World.regular_after ttl es
  rw [World.after_append]
  exact hfulfilled.moved hs
    ⟨hsound.proceeds_after later, fun _ => hsound.precedes_after hs later⟩

/-! ## Replays -/

/-- A client has completed a step, with an outcome. -/
inductive Client.Completed (step : Step) (outcome : CompletionOutcome) : Client → Prop
  | intro (evidence : Evidence) (own : List String) :
    Completed step outcome ⟨.complete step evidence, own, .finish (.ok outcome)⟩

theorem CompletionOutcome.results_again {outcome again : CompletionOutcome}
    (hbase : again.baseReward = outcome.baseReward.map (·.again))
    (hactions : again.actionsExecuted.results = outcome.actionsExecuted.results.map (·.again)) :
    again.results = outcome.results.map (·.again) := by
  rw [results, results, hbase, hactions, List.map_append, Option.toList_map]

/-- **A replay skips all that was done before, but it reports unlocked tasks again.** Suppose that a
completion went well to its end, whatever overlapped with it, and that its subject follows the
ritual at some later moment. A replay leaves the store as it is then. It reports the reward of the
task, if there is one, and the same actions in the same order: amounts with the same transactions
and messages as skipped, tasks as unlocked. So all is reported as skipped exactly if no task was to
be unlocked. -/
theorem replays_skip_all_but_unlocks (ttl : Int) (es later : List Event) {client : Client}
    {outcome : CompletionOutcome} (policy : RetryPolicy) (setting : Setting)
    (hclient : client ∈ ((World.initial ttl).after es).clients)
    (hcompleted : client.Completed step outcome) (hfine : ∀ r ∈ outcome.results, r.IsFine)
    (hreached : setting.store = ((World.initial ttl).after (es ++ later)).store)
    (hassigned : setting.store.IsAssigned step.subject step.ritual)
    (halone : setting.Undisturbed) :
    let run := (replay policy step).run setting
    run.2.store = setting.store ∧
    ∃ again, run.1 = .ok again ∧
      again.baseReward = outcome.baseReward.map (·.again) ∧
      again.actionsExecuted.results = outcome.actionsExecuted.results.map (·.again) ∧
      ((∀ r ∈ again.results, r.status = .skipped "already applied") ↔
        ∀ r ∈ outcome.results, ∀ index, r.action ≠ .unlockTask index) := by
  intro run
  have hs : setting.store.Regular := by
    rw [hreached]
    exact World.regular_after ttl _
  have hfulfilled : Fulfilled setting.store step outcome := by
    obtain ⟨evidence, own⟩ := hcompleted
    rw [hreached]
    exact World.fulfilled_after hclient rfl later
  obtain ⟨hstore, again, hok, hbase, hresults⟩ :=
    hfulfilled.repeated hs hassigned hfine halone policy
  refine ⟨hstore, again, hok, hbase, hresults, ?_⟩
  rw [CompletionOutcome.results_again hbase hresults, List.forall_mem_map]
  exact forall₂_congr fun r _ => ActionResult.status_again

/-- A run in which `walk` is completed. -/
def walked : List Event :=
  walkBegun ++ .called ⟨1⟩ (.complete walk (.text "done")) ::
    List.replicate 40 (.served 3 ⟨none, ⟨1700000001, 0⟩, ""⟩)

/-- What is stored after `walked`. -/
def walkedStore : Store := ((World.initial 0).after walked).store

/-- The outcome of a client that has completed a step. -/
def Client.outcomeOf? (step : Step) : Client → Option CompletionOutcome
  | ⟨.complete s _, _, .finish (.ok outcome)⟩ => if s = step then some outcome else none
  | _ => none

theorem Client.completed_of_outcomeOf? {client : Client} {outcome : CompletionOutcome}
    (h : client.outcomeOf? step = some outcome) : client.Completed step outcome := by
  unfold outcomeOf? at h
  split at h
  · split at h
    · rename_i heq
      cases h
      subst heq
      exact .intro _ _
    · cases h
  · cases h

/-- What `walked` comes to: all that follows the step succeeds. -/
theorem completed_in_walked : ∃ client ∈ ((World.initial 0).after walked).clients, ∃ outcome,
    client.Completed walk outcome ∧
    outcome.results.map (fun r => (r.action, r.status)) =
      [(.reward 7, .success), (.unlockTask 0, .success), (.notify "Well done", .success),
        (.penalty 3, .success)] ∧
    walkedStore.IsAssigned walk.subject walk.ritual := by
  have hrun : ((((World.initial 0).after walked).clients[3]?.bind (·.outcomeOf? walk)).map
        fun outcome => outcome.results.map fun r => (r.action, r.status)) =
          some [(.reward 7, .success), (.unlockTask 0, .success), (.notify "Well done", .success),
            (.penalty 3, .success)] ∧
      (walkedStore.get? Assignment (Assignment.key walk.subject)).map (·.ritualId) =
        some walk.ritual := by
    decide +kernel
  obtain ⟨hdone, hassigned⟩ := hrun
  obtain ⟨outcome, houtcome, hresults⟩ := Option.map_eq_some_iff.1 hdone
  obtain ⟨client, hclient, hcompleted⟩ := Option.bind_eq_some_iff.1 houtcome
  exact ⟨client, List.mem_of_getElem? hclient, outcome,
    Client.completed_of_outcomeOf? hcompleted, hresults, Option.map_eq_some_iff.1 hassigned⟩

/-- A replay of `walked` changes nothing, and reports the reward, the message and the penalty as
skipped. -/
theorem replay_changes_nothing_in_walked :
    ((replay ⟨1⟩ walk).run (.still walkedStore ⟨1700000002, 0⟩)).2.store = walkedStore ∧
    ∃ again, ((replay ⟨1⟩ walk).run (.still walkedStore ⟨1700000002, 0⟩)).1 = .ok again ∧
      again.results.map (fun r => (r.action, r.status)) =
        [(.reward 7, .skipped "already applied"), (.unlockTask 0, .success),
          (.notify "Well done", .skipped "already applied"),
          (.penalty 3, .skipped "already applied")] := by
  obtain ⟨client, hclient, outcome, hcompleted, hresults, hassigned⟩ := completed_in_walked
  have hfine : ∀ r ∈ outcome.results, r.IsFine := by
    intro r hr reason retriable hfailed
    have hmem : (r.action, r.status) ∈ outcome.results.map fun r => (r.action, r.status) :=
      List.mem_map_of_mem hr
    rw [hresults, hfailed] at hmem
    simp at hmem
  have hreached : (Setting.still walkedStore ⟨1700000002, 0⟩).store =
      ((World.initial 0).after (walked ++ [])).store := by
    rw [List.append_nil, Setting.store_still, walkedStore]
  have hfollows : (Setting.still walkedStore ⟨1700000002, 0⟩).store.IsAssigned walk.subject
      walk.ritual := by
    rw [Setting.store_still]
    exact hassigned
  obtain ⟨hstore, again, hok, hbase, hactions, -⟩ := replays_skip_all_but_unlocks 0 walked [] ⟨1⟩
    (.still walkedStore ⟨1700000002, 0⟩) hclient hcompleted hfine hreached hfollows
    (Setting.undisturbed_still (by decide))
  rw [Setting.store_still] at hstore
  refine ⟨hstore, again, hok, ?_⟩
  have hpairs : again.results.map (fun r => (r.action, r.status)) =
      (outcome.results.map fun r => (r.action, r.status)).map fun x =>
        (x.1, (ActionResult.again ⟨none, x.1, x.2, none⟩).status) := by
    rw [CompletionOutcome.results_again hbase hactions, List.map_map, List.map_map]
    refine List.map_congr_left fun r _ => ?_
    obtain ⟨trigger, action, status, transactionId⟩ := r
    cases action <;> rfl
  rw [hpairs, hresults]
  rfl

/-- Everything that followed the step of `walked` succeeded, and still a replay reports the task as
unlocked, not as skipped. -/
theorem unlock_not_skipped_in_walked :
    (∃ client ∈ ((World.initial 0).after walked).clients, ∃ outcome,
      client.Completed walk outcome ∧ ∀ r ∈ outcome.results, r.status = .success) ∧
    walkedStore.IsAssigned walk.subject walk.ritual ∧
    ∃ again, ((replay ⟨1⟩ walk).run (.still walkedStore ⟨1700000002, 0⟩)).1 = .ok again ∧
      ∃ r ∈ again.results, r.action = .unlockTask 0 ∧ r.status = .success := by
  obtain ⟨client, hclient, outcome, hcompleted, hresults, hassigned⟩ := completed_in_walked
  have hsuccess : ∀ r ∈ outcome.results, r.status = .success := by
    intro r hr
    have hmem : (r.action, r.status) ∈ outcome.results.map fun r => (r.action, r.status) :=
      List.mem_map_of_mem hr
    rw [hresults] at hmem
    simp only [List.mem_cons, List.not_mem_nil, Prod.mk.injEq, or_false] at hmem
    rcases hmem with ⟨-, h⟩ | ⟨-, h⟩ | ⟨-, h⟩ | ⟨-, h⟩ <;> exact h
  refine ⟨⟨client, hclient, outcome, hcompleted, hsuccess⟩, hassigned, ?_⟩
  have hrun : ((replay ⟨1⟩ walk).run (.still walkedStore ⟨1700000002, 0⟩)).1.map
      (fun again => again.results.any fun r =>
        decide (r.action = .unlockTask 0 ∧ r.status = .success)) = .ok true := by
    decide +kernel
  generalize ((replay ⟨1⟩ walk).run (.still walkedStore ⟨1700000002, 0⟩)).1 = answer at hrun
  cases answer with
  | error e => cases hrun
  | ok again =>
    obtain ⟨r, hr, hunlocked⟩ := List.any_eq_true.1 (Except.ok.inj hrun)
    exact ⟨again, rfl, r, hr, of_decide_eq_true hunlocked⟩

end RitualLedger
