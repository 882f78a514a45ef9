import RitualLedger.Proofs.Completion.Current
import RitualLedger.Proofs.Completion.Reward
import RitualLedger.Proofs.Completion.Winner
import RitualLedger.Proofs.Rule.Provenance
import RitualLedger.Proofs.Rule.Tally

/-!
# Previews

What the conditions of a ritual ask for on a trigger can be asked at any time, and the answer is
always the same: conditions do not change. So a client can ask before a completion what will follow
it (`Preview`), and that is what follows: the outcome lists the actions of the preview, and the
balance of the subject is tallied on them.

An action is passed over if its key is on record, and the only way there is that a client has chosen
the key of an action that was to come (`Completion.brought_of_present`).
-/

namespace RitualLedger

open Ledger (transactionKey accountKey)

/-! ## What is asked for -/

/-- What a condition asks for on a trigger: its actions, if it is about such events and holds of the
value. -/
def Condition.asks (c : Condition) (t : Trigger) : List Action :=
  if c.trigger = t.kind ∧ c.test t.value = .ok true then c.actions else []

/-- What the conditions of a ritual ask for on a trigger, one after the other. -/
def Ritual.asks (r : Ritual) (t : Trigger) : List Action := r.conditions.flatMap (·.asks t)

theorem Condition.fires_iff {c : Condition} {t : Trigger} :
    c.fires t = true ↔ c.trigger = t.kind ∧ c.test t.value = .ok true := by
  rw [fires, listensFor, Bool.and_eq_true_iff, beq_iff_eq]
  cases c.test t.value with
  | ok passed => simp
  | error e => simp

theorem Ritual.matchingActions_eq_asks (r : Ritual) (t : Trigger) :
    Condition.matchingActions r.conditions t = r.asks t := by
  rw [asks, Condition.matchingActions]
  induction r.conditions with
  | nil => rfl
  | cons c rest ih =>
    rw [List.flatMap_cons, ← ih, Condition.asks, List.filter_cons]
    by_cases hfires : c.fires t = true
    · rw [if_pos hfires, List.flatMap_cons, if_pos (Condition.fires_iff.1 hfires)]
    · rw [if_neg hfires, if_neg fun h => hfires (Condition.fires_iff.2 h), List.nil_append]

/-- **What is asked for stays the same.** -/
theorem Ritual.run_evaluate_later {s : Store} {setting : Setting} {id : String} {r : Ritual}
    (hs : s.Regular) (hr : s.get? Ritual (Ritual.key id) = some r)
    (hproceeds : s.Proceeds setting.store) (t : Trigger) :
    (Ritual.evaluate id t).run setting = (.ok (r.asks t), setting) := by
  obtain ⟨r', hr', hterms⟩ := hproceeds.evolves.rituals _ r hr
  rw [run_evaluate (hproceeds.regular hs) hr', matchingActions_eq_asks, asks, asks,
    Ritual.conditions_of_terms hterms]

/-! ## Batches of a step -/

namespace Batch

variable {b : Batch} {scope : Scope} {actions : List Action}

/-- Errands of different scopes of a step have different keys. -/
theorem key_ne_of_scope_ne {b' : Batch} {scope' : Scope} {actions' : List Action} {e e' : Errand}
    {step : Step} (huuid : Text.IsUuid step.ritual)
    (he : e ∈ b.errands scope 0 actions) (he' : e' ∈ b'.errands scope' 0 actions')
    (hscope : scope.step? = some step) (hscope' : scope'.step? = some step) (hne : scope ≠ scope') :
    e.key ≠ e'.key := by
  obtain ⟨p, hkey⟩ := key_of_mem_errands he
  obtain ⟨p', hkey'⟩ := key_of_mem_errands he'
  intro heq
  rw [hkey, hkey'] at heq
  exact hne (Scope.key_injective (Scope.isDerived_of_step? hscope huuid)
    (Scope.isDerived_of_step? hscope' huuid) heq).1

theorem map_errands (b : Batch) (scope : Scope) (actions : List Action) :
    (b.errands scope 0 actions).map (fun e => (e.trigger, e.action)) =
      actions.map (b.trigger, ·) := by
  rw [errands, List.map_map]
  conv_rhs => rw [← List.zipIdx_map_fst 0 actions, List.map_map]
  rfl

/-- What is on record for a batch depends on the transactions. -/
theorem entries_congr {s t : Store}
    (h : ∀ id, t.read? (transactionKey id) = s.read? (transactionKey id)) :
    b.entries t actions = b.entries s actions := by
  simp only [entries, h]

end Batch

/-- Results come with the triggers and the actions of the errands. -/
theorem Course.map_results {s t : Store} {errands : List Errand} {results : List ActionResult}
    (h : Course s errands results t) :
    results.map (fun x => (x.trigger, x.action)) = errands.map fun e => (e.trigger, e.action) := by
  induction h with
  | done s => rfl
  | @next s t u e answer rest results hfirst hrest ih =>
    rw [List.map_cons, List.map_cons, ih]
    cases answer <;> rfl

theorem Tallied.of_account {subject : String} {s s' t : Store} {entries : List Entry}
    {results : List ActionResult} (h : Tallied subject s t entries results)
    (hsame : s.get? Account (accountKey subject) = s'.get? Account (accountKey subject)) :
    Tallied subject s' t entries results :=
  ⟨h.inOrder, hsame ▸ h.balance, hsame ▸ h.verdicts⟩

/-! ## Previews -/

/-- The actions that are to follow a step, in three parts. -/
structure Preview where
  /-- The reward of the task, if there is one. -/
  reward : List Action
  /-- What the completion of the task triggers. -/
  atTask : List Action
  /-- What the completion of the ritual triggers; nothing, if more tasks are to come. -/
  atEnd : List Action

/-- The batch of a step in a scope. -/
def Step.batch (step : Step) (trigger : Option TriggerKind) (scope : Scope) : Batch :=
  ⟨step.ritual, step.subject, trigger, some scope⟩

/-- What is to follow a step of a ritual. -/
def Ritual.preview (r : Ritual) (step : Step) (task : Task) : Preview where
  reward := if task.tokenReward = 0 then [] else [.reward task.tokenReward]
  atTask := r.asks (.completion step.index)
  atEnd := if step.index.toNat + 1 = r.tasks.length then r.asks .ritualCompletion else []

namespace Preview

variable {p : Preview} {step : Step} {s t : Store}

/-- All actions in order. -/
def actions (p : Preview) : List Action := p.reward ++ (p.atTask ++ p.atEnd)

/-- The actions, each with what the ledger has on record for it. -/
def entries (p : Preview) (s : Store) (step : Step) : List Entry :=
  (step.batch none (.reward step)).entries s p.reward ++
    ((step.batch (some .completion) (.completion step)).entries s p.atTask ++
      (step.batch (some .ritualCompletion) (.ritualCompletion step)).entries s p.atEnd)

/-- The errands of what the conditions ask for. -/
def reactions (p : Preview) (step : Step) : List Errand :=
  (step.batch (some .completion) (.completion step)).errands (.completion step) 0 p.atTask ++
    (step.batch (some .ritualCompletion) (.ritualCompletion step)).errands
      (.ritualCompletion step) 0 p.atEnd

/-- All errands in order. -/
def errands (p : Preview) (step : Step) : List Errand :=
  (step.batch none (.reward step)).errands (.reward step) 0 p.reward ++ p.reactions step

/-- A preview is what can be known before a step: the reward of its task, and what is answered when
one asks what its completion will trigger. -/
structure Foreseen (p : Preview) (setting : Setting) (step : Step) (r : Ritual) (task : Task) :
    Prop where
  stored : setting.store.get? Ritual (Ritual.key step.ritual) = some r
  taken : r.task? step.index = some task
  reward : p.reward = if task.tokenReward = 0 then [] else [.reward task.tokenReward]
  atTask : (Ritual.evaluate step.ritual (.completion step.index)).run setting =
    (.ok p.atTask, setting)
  atEnd : ∃ actions, (Ritual.evaluate step.ritual .ritualCompletion).run setting =
    (.ok actions, setting) ∧ p.atEnd = if step.index.toNat + 1 = r.tasks.length then actions else []

/-- An outcome is as previewed: the reward by itself, and then what the conditions ask for, each
with its trigger. -/
structure Honoured (p : Preview) (outcome : CompletionOutcome) : Prop where
  reward : outcome.baseReward.toList.map (fun x => (x.trigger, x.action)) = p.reward.map (none, ·)
  results : outcome.actionsExecuted.results.map (fun x => (x.trigger, x.action)) =
    p.atTask.map (some .completion, ·) ++ p.atEnd.map (some .ritualCompletion, ·)
  actions : outcome.actionsExecuted.actions = p.atTask ++ p.atEnd

theorem subject_of_mem_errands {e : Errand} (h : e ∈ p.errands step) :
    e.subject = step.subject := by
  simp only [errands, reactions, Batch.errands, List.mem_append, List.mem_map] at h
  rcases h with ⟨x, -, rfl⟩ | ⟨x, -, rfl⟩ | ⟨x, -, rfl⟩
  all_goals rfl

/-- Every errand of a step has a key of its own. -/
theorem pairwise_keys (p : Preview) (huuid : Text.IsUuid step.ritual) :
    (p.errands step).Pairwise fun e e' => e.key ≠ e'.key := by
  have hown : ∀ (b : Batch) scope actions,
      (b.errands scope 0 actions).Pairwise fun e e' => e.key ≠ e'.key :=
    fun b scope actions => List.pairwise_map.1 (b.nodup_keys scope 0 actions)
  have hreactions : (p.reactions step).Pairwise fun e e' => e.key ≠ e'.key := by
    refine List.pairwise_append.2 ⟨hown _ _ _, hown _ _ _, fun e he e' he' => ?_⟩
    exact Batch.key_ne_of_scope_ne huuid he he' rfl rfl nofun
  refine List.pairwise_append.2 ⟨hown _ _ _, hreactions, fun e he e' he' => ?_⟩
  rcases List.mem_append.1 he' with he' | he'
  · exact Batch.key_ne_of_scope_ne huuid he he' rfl rfl nofun
  · exact Batch.key_ne_of_scope_ne huuid he he' rfl rfl nofun

theorem counts_entries (p : Preview) (s : Store) (step : Step) :
    List.Forall₂ (Errand.Counts s) (p.errands step) (p.entries s step) :=
  List.rel_append (Batch.counts_entries rfl s p.reward) <|
    List.rel_append (Batch.counts_entries rfl s p.atTask) (Batch.counts_entries rfl s p.atEnd)

/-- A step books nothing. -/
theorem entries_of_makes {r : Ritual} {a : Assignment} {task : Task} {evidence : Evidence}
    {now : Instant} (h : (Change.stepping step r a task evidence now).Makes s t) :
    p.entries t step = p.entries s step := by
  have hsame : ∀ id, t.read? (transactionKey id) = s.read? (transactionKey id) :=
    h.untouched (c := .transactions) (by simp [Change.collections])
  rw [entries, entries, Batch.entries_congr hsame, Batch.entries_congr hsame,
    Batch.entries_congr hsame]

/-- Where no key of a step is on record, its entries are its actions. -/
theorem entries_of_unused (hunused : ∀ scope : Scope, scope.step? = some step → ∀ n,
    s.read? (transactionKey (scope.key n)) = none) :
    p.entries s step = p.actions.map (⟨·, false⟩) := by
  have hpart : ∀ (trigger : Option TriggerKind) (scope : Scope) actions,
      scope.step? = some step →
        (step.batch trigger scope).entries s actions = actions.map (⟨·, false⟩) := by
    intro trigger scope actions hscope
    refine Batch.entries_of_unused fun n _ key hkey => ?_
    cases hkey
    exact hunused scope hscope n
  rw [entries, hpart _ _ _ rfl, hpart _ _ _ rfl, hpart _ _ _ rfl, actions, List.map_append,
    List.map_append]

end Preview

namespace Completion

variable {s t u : Store} {step : Step} {evidence : Evidence} {r : Ritual} {a : Assignment}
  {task : Task} {now : Instant} {outcome : CompletionOutcome}

/-! ## What follows a step -/

theorem rewards_eq (step : Step) (r : Ritual) (task : Task) (now : Instant) :
    (recordOf step r task now).rewards = (step.batch none (.reward step)).errands (.reward step) 0
      (r.preview step task).reward := by
  rw [CompletionRecord.rewards, Ritual.preview]
  change (if task.tokenReward = 0 then [] else _) = _
  split <;> rfl

/-- What follows a step is what the preview says. -/
theorem reactions_eq (h : r.InProgress) (htask : r.task? step.index = some task) (now : Instant) :
    (recordOf step r task now).reactions r.conditions = (r.preview step task).reactions step := by
  have hlast := h.ritualCompleted_iff htask now
  rw [CompletionRecord.reactions, CompletionRecord.fired, CompletionRecord.fired,
    r.matchingActions_eq_asks, r.matchingActions_eq_asks, Preview.reactions, Ritual.preview]
  by_cases hend : step.index.toNat + 1 = r.tasks.length
  · rw [if_pos (hlast.2 hend), if_pos hend]
    rfl
  · rw [if_neg fun h => hend (hlast.1 h), if_neg hend]
    rfl

/-- **The outcome of a completion is as previewed.** -/
theorem honoured_of_followed (hinProgress : r.InProgress) (htask : r.task? step.index = some task)
    (h : Followed (recordOf step r task now) r.conditions t outcome u) :
    (r.preview step task).Honoured outcome ∧
      Course t ((r.preview step task).errands step) outcome.results u := by
  obtain ⟨t', hreward, hreactions⟩ := h
  rw [rewards_eq] at hreward
  rw [reactions_eq hinProgress htask] at hreactions
  have hresults := hreactions.map_results
  rw [Preview.reactions, List.map_append, Batch.map_errands, Batch.map_errands] at hresults
  refine ⟨⟨?_, hresults, ?_⟩, hreward.append hreactions⟩
  · rw [hreward.map_results, Batch.map_errands]
    rfl
  · have hactions := congrArg (List.map Prod.snd) hresults
    simpa [ActionLog.actions, Function.comp_def] using hactions

/-- Under the keys of a step that was not taken stands only what a client has put there. -/
theorem brought_of_present {ttl : Int} {es : List Event} {scope : Scope} {n : Nat}
    (hscope : scope.step? = some step) (huuid : Text.IsUuid step.ritual)
    (hopen : ((World.initial ttl).after es).store.read? step.key = none)
    (hpresent : ((World.initial ttl).after es).store.read? (transactionKey (scope.key n)) ≠ none) :
    ∃ c ∈ Event.calls es, c.Brings (scope.key n) := by
  have hs := World.regular_after ttl es
  have haccounted := accounted_after ttl es
  obtain ⟨tx, hget⟩ := hs.wellTyped.readable (α := Transaction) hpresent
  cases haccounted.transactions _ tx hget with
  | brought c hcall hbrings => exact ⟨c, hcall, hbrings⟩
  | drawn huuid => exact absurd rfl (Scope.key_ne_uuid huuid)
  | due scope' position ritual subject a hid hdue hfrom =>
    -- What is due in a scope of the step is due after the step only.
    have hderived := Scope.isDerived_of_step? hscope huuid
    have hderived' := isDerived_of_isAbout hs.wellTyped hs.mirrored haccounted
      (isAbout_of_due hs.mirrored hdue)
    obtain ⟨rfl, rfl⟩ := Scope.key_injective hderived hderived' hid
    have hrecorded : ∃ c, Recorded ((World.initial ttl).after es).store step c := by
      cases scope with
      | reward _ =>
        cases hscope
        obtain ⟨-, -, -, c, hc, -⟩ := hdue
        exact ⟨c, hc⟩
      | completion _ =>
        cases hscope
        obtain ⟨-, -, ⟨c, hc⟩, -⟩ := hdue
        exact ⟨c, hc⟩
      | ritualCompletion _ =>
        cases hscope
        obtain ⟨-, -, ⟨c, hc, -⟩, -⟩ := hdue
        exact ⟨c, hc⟩
      | streak _ _ _ | mood _ | named _ => cases hscope
    obtain ⟨c, hc, -⟩ := hrecorded
    exact absurd hopen (Store.present_of_get? hc)

/-- **A completion is tallied on its preview.** -/
theorem tallied_of_reported (hs : s.Regular) (h : Reported s step evidence outcome u) :
    ∃ r task, s.get? Ritual (Ritual.key step.ritual) = some r ∧ r.task? step.index = some task ∧
      r.subjectId = step.subject ∧ Text.IsUuid step.ritual ∧ s.read? step.key = none ∧
      s.Proceeds u ∧ (r.preview step task).Honoured outcome ∧
      Tallied step.subject s u ((r.preview step task).entries s step) outcome.results := by
  obtain ⟨r, a, task, now, t, hmakes, hfollowed⟩ := h
  have hr := hmakes.allowed.ritual
  have htask := hmakes.allowed.taken
  have ht := hmakes.regular hs
  obtain ⟨hid, hsubject, -⟩ := hs.mirrored.follows_of_stepping hs.wellTyped hmakes.allowed
  have huuid : Text.IsUuid step.ritual := hid ▸ (hs.mirrored.uuid _ r hr).1
  obtain ⟨honoured, hcourse⟩ := honoured_of_followed (hs.mirrored.progress _ r hr) htask hfollowed
  have hname : step.subject ≠ "" := hsubject ▸ (hs.housed _ r hr).1
  have htallied := hcourse.tallied ht hname (fun e => Preview.subject_of_mem_errands)
    ((Preview.pairwise_keys _ huuid).imp fun hne _ => hne.symm)
    (Preview.counts_entries _ t step)
  rw [Preview.entries_of_makes hmakes] at htallied
  have haccount : t.get? Account (accountKey step.subject) =
      s.get? Account (accountKey step.subject) :=
    hmakes.get?_untouched (c := .accounts) (by simp [Change.collections]) _
  exact ⟨r, task, hr, htask, hsubject, huuid, hmakes.allowed.new,
    Rely.engine.trans (hmakes.proceeds hs.wellTyped) (hcourse.proceeds ht), honoured,
    htallied.of_account haccount⟩

end Completion

open Completion (complete)

/-- **What follows a completion was previewed.** What a ritual asks for on a trigger is the same in
every later state: the actions of the conditions about such events whose test is true, in order and
with repetitions.

A completion that succeeds with nobody else there honours the preview that could be had before. The
reward of the task comes by itself, if there is one; then follows what was asked for on the
completion of the task and, after the last task only, on that of the ritual, each with its trigger.
The balance afterwards is the running balance of all these actions from the balance before, where
actions are passed over whose keys are on record. Only clients can have put such keys on record, who
have chosen them themselves, and unless one has, nothing is passed over. -/
theorem completions_honour_previews (ttl : Int) (es : List Event) :
    (∀ (id : String) (r : Ritual) (t : Trigger) (later : List Event) (setting : Setting),
      ((World.initial ttl).after es).store.get? Ritual (Ritual.key id) = some r →
      setting.store = ((World.initial ttl).after (es ++ later)).store →
      (Ritual.evaluate id t).run setting = (.ok (r.asks t), setting)) ∧
    ∀ (policy : RetryPolicy) (step : Step) (evidence : Evidence) (outcome : CompletionOutcome)
      (setting after : Setting), setting.store = ((World.initial ttl).after es).store →
      setting.Undisturbed → (complete policy step evidence).run setting = (.ok outcome, after) →
      ∃ (p : Preview) (r : Ritual) (task : Task), p.Foreseen setting step r task ∧
        p.Honoured outcome ∧
        (∀ t, (Ritual.evaluate step.ritual t).run after = (.ok (r.asks t), after)) ∧
        setting.store.read? (accountKey step.subject) ≠ none ∧
        Tallied step.subject setting.store after.store (p.entries setting.store step)
          outcome.results ∧
        (∀ (scope : Scope) (n : Nat), scope.step? = some step →
          setting.store.read? (transactionKey (scope.key n)) ≠ none →
            ∃ c ∈ Event.calls es, c.Brings (scope.key n)) ∧
        ((∀ c ∈ Event.calls es, ∀ (scope : Scope) (n : Nat), scope.step? = some step →
            ¬ c.Brings (scope.key n)) →
          Tallied step.subject setting.store after.store (p.actions.map (⟨·, false⟩))
            outcome.results) := by
  have hs := World.regular_after ttl es
  constructor
  · intro id r t later setting hr hlater
    refine Ritual.run_evaluate_later hs hr ?_ t
    rw [hlater, World.after_append]
    exact (World.sound_after ttl es).proceeds_after later
  · intro policy step evidence outcome setting after hreached halone hrun
    rw [← hreached] at hs
    have hok : ((complete policy step evidence).run setting).1 = .ok outcome :=
      congrArg Prod.fst hrun
    have hreported := Completion.reported_of_run hs halone hok
    rw [hrun] at hreported
    obtain ⟨r, task, hr, htask, hsubject, huuid, hopen, hproceeds, honoured, htallied⟩ :=
      Completion.tallied_of_reported hs hreported
    have hevaluate := Ritual.run_evaluate_later hs hr (Rely.engine.refl _)
    have hbrought : ∀ (scope : Scope) (n : Nat), scope.step? = some step →
        setting.store.read? (transactionKey (scope.key n)) ≠ none →
          ∃ c ∈ Event.calls es, c.Brings (scope.key n) := by
      intro scope n hscope hpresent
      rw [hreached] at hopen hpresent
      exact Completion.brought_of_present hscope huuid hopen hpresent
    refine ⟨r.preview step task, r, task,
      ⟨hr, htask, rfl, hevaluate _, _, hevaluate _, rfl⟩, honoured,
      Ritual.run_evaluate_later hs hr hproceeds, hsubject ▸ (hs.housed _ r hr).2, htallied,
      hbrought, fun hnone => ?_⟩
    rw [Preview.entries_of_unused] at htallied
    · exact htallied
    · intro scope hscope n
      by_contra hpresent
      obtain ⟨c, hcall, hbrings⟩ := hbrought scope n hscope hpresent
      exact hnone c hcall scope n hscope hbrings

/-- What is to follow `walk` is of all kinds, and earns its subject the reward without the
penalty. -/
theorem preview_honoured_in_walk :
    ∃ (p : Preview) (outcome : CompletionOutcome) (after : Setting),
      (complete ⟨1⟩ walk (.text "done")).run (.still walkStore ⟨1700000001, 0⟩) =
        (.ok outcome, after) ∧
      p = ⟨[.reward 7], [.unlockTask 0, .notify "Well done"], [.penalty 3]⟩ ∧
      p.Honoured outcome ∧
      Tallied "ana" walkStore after.store (p.actions.map (⟨·, false⟩)) outcome.results ∧
      runningBalance 0 (p.actions.map (⟨·, false⟩)) = 4 := by
  let start : Setting := .still walkStore ⟨1700000001, 0⟩
  have hruns : ((complete ⟨1⟩ walk (.text "done")).run start).1.toOption.isSome = true ∧
      (walkStore.get? Ritual (Ritual.key walk.ritual)).map (fun r =>
        (r.tasks.length, (r.task? walk.index).map (·.tokenReward))) = some (1, some 7) ∧
      ((Ritual.evaluate walk.ritual (.completion walk.index)).run start).1 =
        .ok [.unlockTask 0, .notify "Well done"] ∧
      ((Ritual.evaluate walk.ritual .ritualCompletion).run start).1 = .ok [.penalty 3] ∧
      ∀ c ∈ Event.calls walkBegun, c.supplied = [] := by
    decide +kernel
  obtain ⟨hok, hritual, hatTask, hatEnd, hsupplied⟩ := hruns
  cases hrun : (complete ⟨1⟩ walk (.text "done")).run start with
  | mk answer after =>
    rw [hrun] at hok
    cases answer with
    | error e => cases hok
    | ok outcome =>
      obtain ⟨-, hcompletions⟩ := completions_honour_previews 0 walkBegun
      obtain ⟨p, r, task, hforeseen, honoured, -, -, -, -, hplain⟩ := hcompletions ⟨1⟩ walk
        (.text "done") outcome start after rfl (Setting.undisturbed_still (by decide)) hrun
      have hstored : walkStore.get? Ritual (Ritual.key walk.ritual) = some r := hforeseen.stored
      rw [hstored, Option.map_some, hforeseen.taken] at hritual
      simp only [Option.map_some, Option.some.injEq, Prod.mk.injEq] at hritual
      obtain ⟨actions, hactions, hlast⟩ := hforeseen.atEnd
      have hp : p = ⟨[.reward 7], [.unlockTask 0, .notify "Well done"], [.penalty 3]⟩ := by
        obtain ⟨reward, atTask, atEnd⟩ := p
        have hreward : reward = _ := hforeseen.reward
        have htask : atTask = _ := Except.ok.inj ((congrArg Prod.fst hforeseen.atTask).symm.trans
          hatTask)
        have hend : atEnd = _ := hlast
        rw [hritual.2] at hreward
        rw [hritual.1, if_pos (by decide), Except.ok.inj ((congrArg Prod.fst hactions).symm.trans
          hatEnd)] at hend
        rw [hreward, htask, hend]
        rfl
      refine ⟨p, outcome, after, rfl, hp, honoured, hplain ?_, ?_⟩
      · rintro c hc scope n - ⟨text, htext, -⟩
        rw [hsupplied c hc] at htext
        cases htext
      · rw [hp]
        decide

/-- When a client has booked something else under the key of the reward of `walk`, the reward is
passed over. -/
theorem reward_passed_over_in_gifted :
    let store := ((World.initial 0).after (gifted ((Scope.reward walk).key 0) 1)).store
    let run := (complete ⟨1⟩ walk (.text "done")).run (.still store ⟨1700000001, 0⟩)
    run.1.map (fun outcome => outcome.results.map (fun x => (x.action, x.status))) =
        .ok [(.reward 5, .skipped "already applied")] ∧
      (store.get? Account (accountKey "ana")).map (·.tokenBalance.toInt) = some 1 ∧
      (run.2.store.get? Account (accountKey "ana")).map (·.tokenBalance.toInt) = some 1 ∧
      runningBalance 1 [⟨.reward 5, false⟩] = 6 := by
  decide +kernel

end RitualLedger
