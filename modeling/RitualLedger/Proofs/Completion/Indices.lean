import RitualLedger.Proofs.Command.Process
import RitualLedger.Proofs.Completion.Replay
import RitualLedger.Proofs.Rule.Comparison
import RitualLedger.Proofs.Text.Decimal

/-!
# The indices of completions

The conditions of a stored ritual were accepted for it and do not change, so those on completions
compare indices (`World.isVetted_after`). An index comes to them in two ways. A completion brings
that of a task of its ritual, of which there are fewer than `2 ^ 63`, so what follows it is what the
conditions ask for at the index itself (`World.completed_after`). A command that tests conditions
brings any word that it reads (`EngineCommand.tested`), and a word from `2 ^ 63` on is compared as
the negative number of the same bits. The main statement is `completions_compare_as_carried`.
-/

namespace RitualLedger

variable {s t : Store} {step : Step} {outcome : CompletionOutcome} {r : Ritual}

/-! ## Stored rules -/

/-- Every condition of a stored ritual is well formed. -/
def Store.IsVetted (s : Store) : Prop :=
  ∀ id r, s.get? Ritual (Ritual.key id) = some r →
    ∀ c ∈ r.conditions, c.WellFormed r.tasks.length

/-- Changes leave the conditions of stored rituals well formed. -/
theorem Change.Makes.isVetted {ch : Change} (h : ch.Makes s t) (hs : s.WellTyped)
    (hvetted : s.IsVetted) : t.IsVetted := by
  intro id r hget
  rcases h.ritual_cases hs hget with hsame | ⟨d, activity, now, rfl, rfl⟩ |
    ⟨step, r₀, a, task, evidence, now, rfl, rfl, rfl⟩
  · exact hvetted id r hsame
  · have hallowed := h.allowed
    rw [hallowed.count, hallowed.start]
    exact (Definition.validate_eq_ok_iff.1 hallowed.valid).conditions
  · -- A step changes neither the conditions nor how many tasks there are.
    have hterms := Completion.terms_advance r₀ (Completion.recordOf step r₀ task now)
    rw [Ritual.conditions_of_terms hterms, Ritual.length_of_terms hterms]
    exact hvetted _ r₀ h.allowed.ritual

/-- **In every run the conditions of stored rituals are well formed.** -/
theorem World.isVetted_after (ttl : Int) (es : List Event) :
    ((initial ttl).after es).store.IsVetted := by
  refine induction_on_changes ttl es nofun ?_
  intro s t c ch hs _ hvetted _ _ hmakes
  exact hmakes.isVetted hs hvetted

/-! ## Completions -/

namespace TriggerKind

variable {kind other : TriggerKind} {actions : List Action}

/-- Of actions with their triggers, those of one kind of trigger. -/
def actionsIn (kind : TriggerKind) (pairs : List (Option TriggerKind × Action)) : List Action :=
  (pairs.filter (·.1 = some kind)).map Prod.snd

theorem actionsIn_append (xs ys : List (Option TriggerKind × Action)) :
    kind.actionsIn (xs ++ ys) = kind.actionsIn xs ++ kind.actionsIn ys := by
  rw [actionsIn, List.filter_append, List.map_append]
  rfl

theorem actionsIn_own : kind.actionsIn (actions.map (some kind, ·)) = actions := by
  simp [actionsIn, List.filter_map, Function.comp_def]

theorem actionsIn_other (h : other ≠ kind) : kind.actionsIn (actions.map (some other, ·)) = [] := by
  simp [actionsIn, List.filter_map, Function.comp_def, h]

end TriggerKind

/-- The actions of an outcome that came of a kind of trigger. -/
def CompletionOutcome.triggeredBy (outcome : CompletionOutcome) (kind : TriggerKind) :
    List Action :=
  kind.actionsIn (outcome.actionsExecuted.results.map fun x => (x.trigger, x.action))

theorem AllReport.map_results {errands : List Errand} {results : List ActionResult}
    (h : AllReport s errands results) :
    results.map (fun x => (x.trigger, x.action)) = errands.map fun e => (e.trigger, e.action) := by
  induction h with
  | nil => rfl
  | @cons e result errands results hreports _ ih =>
    obtain ⟨answer, rfl, -⟩ := hreports
    rw [List.map_cons, List.map_cons, ih]
    cases answer <;> rfl

/-- What a completion has reported as triggered by it is what the conditions ask for. -/
theorem Completion.Fulfilled.triggeredBy (h : Fulfilled s step outcome) :
    ∃ r, s.get? Ritual (Ritual.key step.ritual) = some r ∧
      outcome.triggeredBy .completion =
        Condition.matchingActions r.conditions (.completion step.index) := by
  obtain ⟨c, r, ⟨-, rfl⟩, hr, -, hreactions⟩ := h
  refine ⟨r, hr, ?_⟩
  have hfired : ∀ t scope, (c.fired r.conditions t scope).map (fun e => (e.trigger, e.action)) =
      (Condition.matchingActions r.conditions t).map (some t.kind, ·) :=
    fun t scope => Batch.map_errands _ _ _
  rw [CompletionOutcome.triggeredBy, hreactions.map_results, CompletionRecord.reactions,
    List.map_append, TriggerKind.actionsIn_append, hfired]
  refine (congrArg₂ _ TriggerKind.actionsIn_own ?_).trans (List.append_nil _)
  -- What the end of the ritual triggers is listed behind, under a kind of its own.
  split
  · rw [hfired]
    exact TriggerKind.actionsIn_other (by decide)
  · rfl

/-- The index of a step on record is small: it is that of a task, and rituals have few tasks. -/
theorem Mirrored.index_lt (h : Mirrored s) {id : String} {c : CompletionRecord}
    (hc : s.get? CompletionRecord (Collection.completions.key id) = some c) :
    c.taskIndex.toNat < 2 ^ 63 := by
  obtain ⟨r, hr, hreports⟩ := h.records id c hc
  have hprogress := h.progress _ r hr
  calc c.taskIndex.toNat
      < r.currentTaskIndex.toNat := hreports.taken
    _ ≤ r.tasks.length := hprogress.pointer
    _ < 2 ^ 63 := hprogress.few

/-- **What a completed step has triggered** is what the conditions of its ritual ask for. -/
theorem World.completed_after {ttl : Int} {es : List Event} {client : Client}
    (hclient : client ∈ ((initial ttl).after es).clients)
    (hcompleted : client.Completed step outcome) :
    ∃ r, ((initial ttl).after es).store.get? Ritual (Ritual.key step.ritual) = some r ∧
      step.index.toNat < 2 ^ 63 ∧
      outcome.triggeredBy .completion =
        Condition.matchingActions r.conditions (.completion step.index) := by
  have hfulfilled : Completion.Fulfilled ((initial ttl).after es).store step outcome := by
    obtain ⟨evidence, own⟩ := hcompleted
    have hstored := fulfilled_after hclient rfl []
    rwa [List.append_nil] at hstored
  obtain ⟨r, hr, htriggered⟩ := hfulfilled.triggeredBy
  -- The step of a completion that has answered is on record, and so its index is small.
  obtain ⟨c, -, ⟨hc, rfl⟩, -, -, -⟩ := hfulfilled
  exact ⟨r, hr, (regular_after ttl es).mirrored.index_lt hc, htriggered⟩

/-! ## Tests by command -/

/-- What a test of the conditions of a ritual on a completion comes to. A text that writes an index
is read, and what the conditions ask for is shown and logged; another text is refused. -/
inductive EngineCommand.Tested (r : Ritual) (value : String) (s : Setting) :
    Except CommandError Json × Setting → Prop
  | shown {index : UInt64} {log : ActionLog} {after : Setting}
      (hwrites : Text.Writes value index.toNat)
      (hlog : log.actions = Condition.matchingActions r.conditions (.completion index)) :
      Tested r value s
        (.ok (EngineCommand.shown (.completion index)
          (Condition.matchingActions r.conditions (.completion index)) log), after)
  | refused {fault : Text.NumberFault} (hnone : ∀ index : UInt64, ¬ Text.Writes value index.toNat) :
      Tested r value s (.error (.number fault), s)

/-- **A command that tests conditions on a completion does so at the index that is written.** -/
theorem EngineCommand.tested {setting : Setting} {id : String} (hs : setting.store.Regular)
    (hr : setting.store.get? Ritual (Ritual.key id) = some r) (policy : RetryPolicy) (fs : Files)
    (subject value : String) (dryRun : Bool) :
    Tested r value setting
      (((evaluate id subject "completion" value dryRun).task policy fs).run setting) := by
  rw [run_task, dialogue, Dialogue.hold_checked]
  have hread : readTrigger "completion" value =
      ((Text.readWord value).mapError .number).map .completion := rfl
  cases hword : Text.readWord value with
  | error fault =>
    rw [hread, hword]
    refine .refused fun index hwrites => ?_
    cases hword.symm.trans (Text.readWord_eq_ok_iff.2 hwrites)
  | ok index =>
    rw [hread, hword]
    have hevaluate := Ritual.run_evaluate hs hr (.completion index)
    have hheld : (Dialogue.ask (.evaluate id (.completion index))
        (firing id subject (.completion index) dryRun)).hold policy setting =
          (firing id subject (.completion index) dryRun
            (Condition.matchingActions r.conditions (.completion index))).hold policy setting :=
      Dialogue.hold_of_ok (c := .evaluate id (.completion index)) hevaluate
    change Tested r value setting ((Dialogue.ask (.evaluate id (.completion index))
        (firing id subject (.completion index) dryRun)).hold policy setting)
    rw [hheld]
    have hwrites := Text.readWord_eq_ok_iff.1 hword
    cases dryRun with
    | true =>
      rw [hold_rehearsal]
      exact .shown hwrites (Batch.run_rehearse _ setting).1
    | false =>
      rw [hold_execution]
      exact .shown hwrites (Batch.actions_run _ setting)

/-! ## Main statement -/

/-- **Completions compare as the words that they carry.** A completion carries the index of its task
as a signed word: the index itself below `2 ^ 63`, a negative number from there on. An accepted
condition on completions has a comparand that is not negative, and fires exactly if its operator
relates the number that is carried to the comparand. This comes to what the index itself would come
to exactly if the index is below `2 ^ 63` or no order is asked for.

As the index grows on either side of `2 ^ 63`, what lower bounds ask for is kept, and what upper
bounds ask for is given up; across `2 ^ 63` it is the other way round.

In every run the indices of the steps on record are below `2 ^ 63`, and what a completion reports as
triggered by it is what the conditions ask for at its index. The conditions of stored rituals on
completions compare indices so, and a command that tests them shows what they ask for at the index
that is written, whichever word that is; another text is refused. -/
theorem completions_compare_as_carried (ttl : Int) (es : List Event) :
    (∀ (c : Condition) (place count : Nat), c.validate place count = .ok () →
      c.trigger = .completion → ∃ n, c.ComparesWith n) ∧
    (∀ (cs : List Condition) (i j : UInt64), i ≤ j →
      if i.toNat < 2 ^ 63 ∧ 2 ^ 63 ≤ j.toNat then
        Condition.Advances cs (.completion j) (.completion i)
      else Condition.Advances cs (.completion i) (.completion j)) ∧
    (∀ id c, ((World.initial ttl).after es).store.get? CompletionRecord
        (Collection.completions.key id) = some c → c.taskIndex.toNat < 2 ^ 63) ∧
    (∀ client ∈ ((World.initial ttl).after es).clients, ∀ step outcome,
      client.Completed step outcome →
      ∃ r, ((World.initial ttl).after es).store.get? Ritual (Ritual.key step.ritual) = some r ∧
        step.index.toNat < 2 ^ 63 ∧ outcome.triggeredBy .completion =
          Condition.matchingActions r.conditions (.completion step.index)) ∧
    ∀ (setting : Setting) (id : String) (r : Ritual),
      setting.store = ((World.initial ttl).after es).store →
      setting.store.get? Ritual (Ritual.key id) = some r →
      (∀ c ∈ r.conditions, c.trigger = .completion → ∃ n, c.ComparesWith n) ∧
      ∀ (policy : RetryPolicy) (fs : Files) (subject value : String) (dryRun : Bool),
        EngineCommand.Tested r value setting
          (((EngineCommand.evaluate id subject "completion" value dryRun).task policy fs).run
            setting) := by
  refine ⟨?_, ?_, ?_, ?_, ?_⟩
  · intro c place count hvalid htrigger
    exact (Condition.wellFormed_of_validate hvalid).exists_comparesWith htrigger
  · intro cs i j hij
    split
    · rename_i hcrossing
      exact Condition.advances_of_carried_le
        (Trigger.carried_lt_of_crossing hcrossing.1 hcrossing.2).le
    · rename_i hside
      refine Condition.advances_of_carried_le (Trigger.carried_le hij fun hi => ?_)
      exact Nat.not_le.1 fun hj => hside ⟨hi, hj⟩
  · exact fun id c hc => (World.regular_after ttl es).mirrored.index_lt hc
  · exact fun client hclient step outcome hcompleted => World.completed_after hclient hcompleted
  · intro setting id r hreached hr
    have hs : setting.store.Regular := hreached ▸ World.regular_after ttl es
    have hvetted : setting.store.IsVetted := hreached ▸ World.isVetted_after ttl es
    exact ⟨fun c hc => (hvetted id r hr c hc).exists_comparesWith, EngineCommand.tested hs hr⟩

/-- The condition on completions in the ritual of `walkBegun`. It is to hold of every index. -/
def walkRule : Condition := ⟨.completion, .ge, .number 0, [.unlockTask 0, .notify "Well done"]⟩

/-- The condition of `walk` holds of the index that is completed, of the larger one, and of no index
from `2 ^ 63` on: what it asks for is asked for by the completion, and not by the command. -/
theorem index_compared_in_walked :
    let setting : Setting := .still walkedStore ⟨1700000002, 0⟩
    walkRule.validate 0 1 = .ok () ∧
    (∀ index : UInt64, walkRule.fires (.completion index) = true ↔ index.toNat < 2 ^ 63) ∧
    Condition.Advances [walkRule] (.completion 0) (.completion 7) ∧
    Condition.Advances [walkRule] (.completion 9223372036854775808) (.completion 7) ∧
    (∃ client ∈ ((World.initial 0).after walked).clients, ∃ outcome,
      client.Completed walk outcome ∧
      outcome.triggeredBy .completion = [.unlockTask 0, .notify "Well done"]) ∧
    ∃ log after, ((EngineCommand.evaluate walk.ritual "ana" "completion" "9223372036854775808"
        true).task ⟨1⟩ .empty).run setting =
      (.ok (EngineCommand.shown (.completion 9223372036854775808) [] log), after) := by
  intro setting
  have hvalid : walkRule.validate 0 1 = .ok () := by decide +kernel
  have hasked : (walkedStore.get? Ritual (Ritual.key walk.ritual)).map (fun r =>
      (Condition.matchingActions r.conditions (.completion 0),
        Condition.matchingActions r.conditions (.completion 9223372036854775808))) =
      some ([.unlockTask 0, .notify "Well done"], []) := by
    decide +kernel
  obtain ⟨r, hr, hactions⟩ := Option.map_eq_some_iff.1 hasked
  obtain ⟨hatTask, hbeyond⟩ := Prod.mk.inj hactions
  obtain ⟨hconditions, hindices, -, hcompletions, hstored⟩ :=
    completions_compare_as_carried 0 walked
  refine ⟨hvalid, ?_, ?_, ?_, ?_, ?_⟩
  · obtain ⟨n, hcompares⟩ := hconditions walkRule 0 1 hvalid rfl
    have hzero : (n : Int) = 0 := by
      rw [← Int64.toInt_ofNat_of_lt hcompares.bound, ← Scalar.number.inj hcompares.comparand]
      rfl
    intro index
    rw [hcompares.carried, hzero]
    change 0 ≤ Trigger.carried index ↔ _
    rw [Trigger.carried]
    have hbound := index.toNat_lt
    split <;> omega
  · have hadvances := hindices [walkRule] 0 7 (by decide)
    rwa [if_neg (by decide)] at hadvances
  · have hadvances := hindices [walkRule] 7 9223372036854775808 (by decide)
    rwa [if_pos (by decide)] at hadvances
  · obtain ⟨client, hclient, outcome, hcompleted, -, -⟩ := completed_in_walked
    obtain ⟨r', hr', -, htriggered⟩ := hcompletions client hclient walk outcome hcompleted
    cases hr.symm.trans hr'
    exact ⟨client, hclient, outcome, hcompleted, htriggered.trans hatTask⟩
  · have hwrites : Text.Writes "9223372036854775808" (9223372036854775808 : UInt64).toNat :=
      Text.readWord_eq_ok_iff.1 (by decide +kernel)
    have hreached : setting.store = ((World.initial 0).after walked).store := by
      rw [Setting.store_still, walkedStore]
    obtain ⟨-, htested⟩ := hstored setting walk.ritual r hreached (by rw [hreached]; exact hr)
    have hshown := htested ⟨1⟩ .empty "ana" "9223372036854775808" true
    generalize ((EngineCommand.evaluate walk.ritual "ana" "completion" "9223372036854775808"
      true).task ⟨1⟩ .empty).run setting = run at hshown
    cases hshown with
    | refused hnone => exact absurd hwrites (hnone _)
    | @shown index log after hindex hlog =>
      obtain rfl : index = 9223372036854775808 := UInt64.toNat_inj.1 (hindex.unique hwrites)
      rw [hbeyond]
      exact ⟨log, after, rfl⟩

/-- The condition of `walk` is accepted, and `2 ^ 63`, which the command takes for an index, is not
below its comparand. Still the condition does not fire: what the ritual asks for at the index 0, it
does not ask for at `2 ^ 63`. -/
theorem large_index_passed_over_in_walk :
    let setting : Setting := .still walkStore ⟨1700000001, 0⟩
    walkRule.validate 0 1 = .ok () ∧
    EngineCommand.readTrigger "completion" "9223372036854775808" =
      .ok (.completion 9223372036854775808) ∧
    walkRule.operator.Relates (9223372036854775808 : UInt64).toNat 0 ∧
    walkRule.fires (.completion 9223372036854775808) = false ∧
    ((Ritual.evaluate walk.ritual (.completion 0)).run setting).1 =
      .ok [.unlockTask 0, .notify "Well done"] ∧
    ((Ritual.evaluate walk.ritual (.completion 9223372036854775808)).run setting).1 = .ok [] := by
  have hrun : walkRule.validate 0 1 = .ok () ∧
      EngineCommand.readTrigger "completion" "9223372036854775808" =
        .ok (.completion 9223372036854775808) ∧
      walkRule.fires (.completion 9223372036854775808) = false ∧
      ((Ritual.evaluate walk.ritual (.completion 0)).run (.still walkStore ⟨1700000001, 0⟩)).1 =
        .ok [.unlockTask 0, .notify "Well done"] ∧
      ((Ritual.evaluate walk.ritual (.completion 9223372036854775808)).run
        (.still walkStore ⟨1700000001, 0⟩)).1 = .ok [] := by
    decide +kernel
  obtain ⟨hvalid, hread, hpassed, hatTask, hbeyond⟩ := hrun
  exact ⟨hvalid, hread, Nat.zero_le _, hpassed, hatTask, hbeyond⟩

end RitualLedger
