import RitualLedger.Proofs.Completion.Course
import RitualLedger.Proofs.Rule.Soundness

/-!
# Rules conform to what was accepted

Completions, moods and streaks fire the conditions of a stored ritual. These were accepted when the
ritual was created, so they can be tested, and they ask for sound actions. Whoever is assigned to
the ritual is served by it, so the actions are in order, one after the other, through all that
follows a step.

In `accepted_rules_never_misfire` this holds of every store that the engine has reached.
-/

namespace RitualLedger

variable {s t u : Store} {ritual subject : String} {r : Ritual} {policy : RetryPolicy}

/-- Nobody else is there. -/
theorem eq_of_moves_alone {s t : Store} (h : (Contract.alone fun _ => True).moves () s t) : t = s :=
  (Contract.alone_alone _).still h

/-- The conditions of the ritual that serves a subject ask for sound actions. -/
theorem Ritual.keeps_evaluate_sound (hs : s.Serves ritual subject r) (trigger : Trigger) :
    (evaluate ritual trigger).Keeps (.alone fun _ => True) (fun _ _ _ => False)
      (fun actions _ t => t = s ∧ ∀ a ∈ actions, a.IsSound r.tasks.length) () s := by
  have hfound : ∀ t, (Contract.alone fun _ => True).moves () s t →
      ∃ r, t.get? Ritual (key ritual) = some r := by
    intro t ht
    rw [eq_of_moves_alone ht]
    exact ⟨r, hs.stored⟩
  refine (keeps_evaluate hfound trigger).imp (fun _ _ _ h => h) ?_
  rintro actions _ t ⟨-, ht, r', hr', rfl⟩
  obtain rfl := eq_of_moves_alone ht
  cases hs.stored.symm.trans hr'
  exact ⟨rfl, fun a => Condition.isSound_of_mem_matchingActions hs.governed.conditions⟩

/-! ## Completions -/

namespace Completion

variable {c : CompletionRecord}

theorem keeps_payReward_sound (hs : s.Serves c.ritualId c.subjectId r)
    (hreward : (c.tokenReward.toNat : Int) ≤ Condition.largestAmount) :
    (payReward policy c).Keeps (.alone fun _ => True)
      (fun reward _ t => s.Serving c.ritualId c.subjectId r reward.toList t) () s := by
  rw [payReward]
  split
  · exact .refl hs
  · rename_i hpositive
    have hsound : ∀ a ∈ [Action.reward c.tokenReward], a.IsSound r.tasks.length := by
      intro a ha
      rw [List.mem_singleton.1 ha]
      exact ⟨hpositive, hreward⟩
    refine Program.Keeps.bind (Batch.keeps_run_sound (b := c.batch none (.reward c.step)) rfl hs
      hsound) ?_
    rintro log _ t hserving
    refine ⟨hserving.serves, hserving.unlocks, fun x hx => hserving.results x ?_⟩
    exact List.mem_of_mem_head? (Option.mem_toList.1 hx)

theorem keeps_fire_sound (hs : s.Serves c.ritualId c.subjectId r) (trigger : Trigger)
    (scope : Scope) :
    (fire policy c trigger scope).Keeps (.alone fun _ => True) (fun _ _ _ => False)
      (fun log _ t => s.Serving c.ritualId c.subjectId r log.results t) () s := by
  refine .bind (Ritual.keeps_evaluate_sound hs trigger) ?_
  rintro actions _ s ⟨rfl, hsound⟩
  exact .lift (Batch.keeps_run_sound (b := c.batch (some trigger.kind) scope) rfl hs hsound)

/-- What follows a step is in order. -/
theorem keeps_followUp_sound (hs : s.Serves c.ritualId c.subjectId r)
    (hreward : (c.tokenReward.toNat : Int) ≤ Condition.largestAmount) :
    (followUp policy c).Keeps (.alone fun _ => True) (fun _ _ _ => False)
      (fun outcome _ t => s.Serving c.ritualId c.subjectId r outcome.results t) () s := by
  refine .bind (.lift (keeps_payReward_sound hs hreward)) ?_
  rintro reward _ s₁ hpaid
  refine .bind (keeps_fire_sound hpaid.serves _ _) ?_
  rintro log _ s₂ hfired
  split
  · refine .bind (keeps_fire_sound hfired.serves _ _) ?_
    rintro last _ t hlast
    exact .pure (hpaid.append (hfired.append hlast))
  · exact .pure (hpaid.append hfired)

variable {step : Step} {evidence : Evidence} {a : Assignment} {task : Task} {now : Instant}

/-- Who takes a step is served by its ritual, before and after. -/
theorem serves_of_stepping (hs : s.Regular)
    (hgoverned : s.IsGoverned)
    (h : (Change.stepping step r a task evidence now).Makes s t) :
    t.Serves step.ritual step.subject (advance r (recordOf step r task now)) := by
  have ht := h.regular hs
  have htaken := taken_of_course hs h (.done t)
  obtain ⟨a', ha', hassigned, -⟩ := htaken.assignment
  obtain ⟨r', hserves⟩ := ht.serves (h.isGoverned hs.wellTyped hgoverned) ha'
  rw [hassigned] at hserves
  cases htaken.ritual.symm.trans hserves.stored
  exact hserves

/-- A step unlocks nothing. -/
theorem unlocksBelow_of_stepping (hs : s.WellTyped) (count : Nat)
    (h : (Change.stepping step r a task evidence now).Makes s t) : s.UnlocksBelow count t := by
  intro subject a' ha' i hi
  rw [(Mirrored.stepped_of_makes hs h).assignment] at ha'
  split at ha'
  · rename_i hsubject
    cases ha'
    rw [hsubject]
    exact .inr ⟨a, h.allowed.assignment, hi⟩
  · exact .inr ⟨a', ha', hi⟩

end Completion

/-! ## Answers -/

/-- What is recorded for a subject, in a ritual or in none, is in order. -/
def Store.Answers (s : Store) (subject : String) (results : List ActionResult) (t : Store) :
    Option String → Prop
  | none => results = [] ∧ s.UnlocksBelow 0 t
  | some ritual => ∃ r, s.get? Ritual (Ritual.key ritual) = some r ∧
      s.UnlocksBelow r.tasks.length t ∧ ∀ x ∈ results, x.InOrder subject r.tasks.length

/-- A completion that succeeds is in order. -/
theorem Completion.keeps_complete_sound (policy : RetryPolicy) (step : Step) (evidence : Evidence)
    (hs : s.Regular) (hgoverned : s.IsGoverned) :
    (complete policy step evidence).Keeps (.alone fun _ => True) (fun _ _ _ => True)
      (fun outcome _ t => s.Answers step.subject outcome.results t (some step.ritual)) () s := by
  have hstep : (takeStep policy step evidence).Keeps (.alone fun _ => True) (fun _ _ _ => True)
      (fun c _ t => ∃ r a task now, c = recordOf step r task now ∧
        (Change.stepping step r a task evidence now).Makes s t) () s :=
    keeps_takeStep_alone (Contract.alone_alone _) hs (fun _ _ => trivial)
      fun r a task now t hmakes => ⟨(), trivial, r, a, task, now, rfl, hmakes⟩
  refine .bind hstep ?_
  rintro _ _ t ⟨r, a, task, now, rfl, hmakes⟩
  have hritual := hmakes.allowed.ritual
  have hreward := (hgoverned _ r hritual).rewards task
    (List.mem_of_getElem? hmakes.allowed.taken)
  have hlength : (advance r (recordOf step r task now)).tasks.length = r.tasks.length :=
    List.length_modify ..
  refine (keeps_followUp_sound (serves_of_stepping hs hgoverned hmakes) hreward).imp
    (fun _ _ _ _ => trivial) ?_
  rintro outcome _ u ⟨-, hunlocks, hresults⟩
  rw [hlength] at hunlocks hresults
  exact ⟨r, hritual, (unlocksBelow_of_stepping hs.wellTyped _ hmakes).trans hunlocks, hresults⟩

/-! ## Signals -/

/-- A signal is fired on the ritual that the subject follows, and is in order. -/
theorem Signal.keeps_fire_sound {trigger : Trigger} {scope : String → Scope} (hs : s.Regular)
    (hgoverned : s.IsGoverned) :
    (fire policy subject trigger scope).Keeps (.alone fun _ => True) (fun _ _ _ => False)
      (fun response _ t =>
        s.Answers subject response.actionsExecuted.results t response.ritualId) () s := by
  have hfind : (Assignment.find? subject).Keeps (.alone fun _ => True) (fun _ _ _ => False)
      (fun x _ t => t = s ∧ x = s.get? Assignment (Assignment.key subject)) () s := by
    refine .readRecord? (fun t ht => ?_) fun t ht => ?_
    · rw [eq_of_moves_alone ht]
      exact hs.wellTyped
    · rw [eq_of_moves_alone ht]
      exact ⟨rfl, rfl⟩
  refine .bind hfind ?_
  rintro x _ s ⟨rfl, hx⟩
  cases x with
  | none =>
    refine .bind .now ?_
    rintro now _ t ⟨-, ht, -⟩
    rw [eq_of_moves_alone ht]
    exact .pure ⟨rfl, .refl 0 s⟩
  | some a =>
    obtain ⟨r, hserves⟩ := hs.serves hgoverned hx.symm
    refine .bind (Ritual.keeps_evaluate_sound hserves trigger) ?_
    rintro actions _ s ⟨rfl, hsound⟩
    let batch : Batch := ⟨a.ritualId, subject, some trigger.kind, some (scope a.ritualId)⟩
    refine .bind (.lift (batch.keeps_run_sound rfl hserves hsound)) ?_
    rintro log _ t hserving
    exact .pure ⟨r, hserves.stored, hserving.unlocks, hserving.results⟩

/-- What is in order after a mood was logged is in order from before on. -/
theorem Store.Answers.of_put_mood {id : String} {body : Json} {results : List ActionResult}
    {ritual : Option String}
    (h : (s.put (Collection.moods.key id) body).Answers subject results t ritual) :
    s.Answers subject results t ritual := by
  have hunlocks : ∀ count, s.UnlocksBelow count (s.put (Collection.moods.key id) body) :=
    fun count => .of_same (get?_put_mood (c := .assignments) (by decide))
  cases ritual with
  | none => exact ⟨h.1, (hunlocks 0).trans h.2⟩
  | some ritual =>
    obtain ⟨r, hr, hbelow, hresults⟩ := h
    exact ⟨r, (get?_put_mood (by decide) ritual).symm.trans hr, (hunlocks _).trans hbelow, hresults⟩

theorem Store.IsGoverned.put_mood (h : s.IsGoverned) (id : String) (body : Json) :
    (s.put (Collection.moods.key id) body).IsGoverned :=
  fun key r hr => h key r ((get?_put_mood (by decide) key).symm.trans hr)

/-- A mood is logged, and fires the conditions of the ritual in order. -/
theorem Mood.keeps_log_sound (policy : RetryPolicy) (subject text : String) (hs : s.Regular)
    (hgoverned : s.IsGoverned) :
    (log policy subject text).Keeps (.alone fun _ => True)
      (fun _ _ _ => Text.isBlank text = true)
      (fun outcome _ t => s.Answers subject outcome.actionsExecuted.results t outcome.ritualId)
      () s := by
  have hread : (Operation.ofValidation (read text)).Keeps (.alone fun _ => True)
      (fun _ _ _ => Text.isBlank text = true) (fun _ _ t => t = s) () s := by
    refine .ofValidation (fun _ _ => rfl) fun fault hfault => ?_
    rw [read] at hfault
    split at hfault
    · assumption
    · cases hfault
  refine .bind hread ?_
  rintro mood _ s rfl
  refine .bind .now ?_
  rintro now _ s' ⟨-, hmoves, hnow⟩
  obtain rfl := eq_of_moves_alone hmoves
  let entry : MoodEntry := ⟨subject, mood, now⟩
  have happend : (liftM (Request.append Collection.moods.name (encode entry)) :
      Operation String).Keeps (.alone fun _ => True) (fun _ _ _ => Text.isBlank text = true)
        (fun _ _ t => ∃ id, t = s'.put (Collection.moods.key id) (encode entry)) () s' := by
    refine .lift fun t id ht _ => ⟨(), trivial, id, ?_⟩
    rw [eq_of_moves_alone ht]
    rfl
  refine .bind happend ?_
  rintro id _ _ ⟨id', rfl⟩
  -- The entry of the mood is no ritual and no assignment.
  refine .bind ((Signal.keeps_fire_sound (hs.put_mood id' hnow)
    (hgoverned.put_mood id' (encode entry))).imp (fun _ _ _ h => h.elim) fun _ _ _ h => h) ?_
  rintro response _ t hanswers
  exact .pure hanswers.of_put_mood

theorem Streak.keeps_report_sound (policy : RetryPolicy) (subject : String) (count : UInt32)
    (hs : s.Regular) (hgoverned : s.IsGoverned) :
    (report policy subject count).Keeps (.alone fun _ => True) (fun _ _ _ => False)
      (fun outcome _ t => s.Answers subject outcome.actionsExecuted.results t outcome.ritualId)
      () s :=
  .bind (Signal.keeps_fire_sound hs hgoverned) fun _ _ _ h => .pure h

/-! ## Misfires -/

open Completion (complete)

/-- **Accepted rules never misfire.** A condition that was accepted can be tested on every event
that it listens for, and so can every condition of a stored ritual.

With nobody else there, in any store that the engine has reached: of a completion that succeeds, of
a mood that is not blank, and of any streak, all results are in order. Actions succeed, or had been
applied before, or the ledger declined an amount for the sake of the subject's balance; and only
tasks of the ritual are unlocked. -/
theorem accepted_rules_never_misfire :
    (∀ (c : Condition) (index count : Nat) (t : Trigger), c.validate index count = .ok () →
      t.IsEvent → c.listensFor t.kind = true → ∃ passed, c.test t.value = .ok passed) ∧
    ∀ (ttl : Int) (es : List Event) (policy : RetryPolicy) (setting : Setting),
      setting.store = ((World.initial ttl).after es).store → setting.Undisturbed →
      (∀ (id : String) (r : Ritual) (c : Condition) (t : Trigger),
        setting.store.get? Ritual (Ritual.key id) = some r → c ∈ r.conditions → t.IsEvent →
        c.listensFor t.kind = true → ∃ passed, c.test t.value = .ok passed) ∧
      (∀ (step : Step) (evidence : Evidence) (outcome : CompletionOutcome),
        ((complete policy step evidence).run setting).1 = .ok outcome →
        setting.store.Answers step.subject outcome.results
          ((complete policy step evidence).run setting).2.store (some step.ritual)) ∧
      (∀ subject text : String,
        (Text.isBlank text = true ∧
          ∃ e, ((Mood.log policy subject text).run setting).1 = .error e) ∨
        ∃ outcome, ((Mood.log policy subject text).run setting).1 = .ok outcome ∧
          setting.store.Answers subject outcome.actionsExecuted.results
            ((Mood.log policy subject text).run setting).2.store outcome.ritualId) ∧
      ∀ (subject : String) (count : UInt32),
        ∃ outcome, ((Streak.report policy subject count).run setting).1 = .ok outcome ∧
          setting.store.Answers subject outcome.actionsExecuted.results
            ((Streak.report policy subject count).run setting).2.store outcome.ritualId := by
  refine ⟨fun c index count t hvalid ht hlistens =>
    (Condition.accepted_of_validate hvalid).test_ok ht hlistens, ?_⟩
  intro ttl es policy setting hreached halone
  have hs : setting.store.Regular := by
    rw [hreached]
    exact World.regular_after ttl es
  have hgoverned : setting.store.IsGoverned := by
    rw [hreached]
    exact World.isGoverned_after ttl es
  refine ⟨?_, ?_, ?_, ?_⟩
  · intro id r c t hr hc ht hlistens
    exact ((hgoverned id r hr).conditions c hc).test_ok ht hlistens
  · intro step evidence outcome hok
    have hkeeps := Completion.keeps_complete_sound policy step evidence hs hgoverned
    rcases hkeeps.run halone fun _ _ => trivial with ⟨e, _, herror, -⟩ | ⟨_, _, hok', hanswers⟩
    · cases hok.symm.trans herror
    · cases hok.symm.trans hok'
      exact hanswers
  · intro subject text
    have hkeeps := Mood.keeps_log_sound policy subject text hs hgoverned
    rcases hkeeps.run halone fun _ _ => trivial with ⟨e, _, herror, hblank⟩ | ⟨o, _, hok, hanswers⟩
    · exact .inl ⟨hblank, e, herror⟩
    · exact .inr ⟨o, hok, hanswers⟩
  · intro subject count
    have hkeeps := Streak.keeps_report_sound policy subject count hs hgoverned
    rcases hkeeps.run halone fun _ _ => trivial with ⟨_, _, _, hnever⟩ | ⟨o, _, hok, hanswers⟩
    · exact hnever.elim
    · exact ⟨o, hok, hanswers⟩

/-- The rules of the ritual in `walkStore`, fired by its only step. -/
theorem rules_fire_in_walk :
    (∃ passed, (⟨.completion, .ge, .number 0, [.unlockTask 0]⟩ : Condition).test
        (Trigger.completion 0).value = .ok passed) ∧
      ∃ outcome, ((complete ⟨1⟩ walk (.text "done")).run (.still walkStore ⟨1700000001, 0⟩)).1 =
          .ok outcome ∧ outcome.results.length = 4 ∧
        walkStore.Answers "ana" outcome.results
          ((complete ⟨1⟩ walk (.text "done")).run (.still walkStore ⟨1700000001, 0⟩)).2.store
          (some walk.ritual) := by
  obtain ⟨hconditions, hstores⟩ := accepted_rules_never_misfire
  refine ⟨hconditions _ 0 1 _ (by decide) (.completion 0) rfl, ?_⟩
  have hruns : ((complete ⟨1⟩ walk (.text "done")).run (.still walkStore ⟨1700000001, 0⟩)).1.map
      (fun outcome => outcome.results.length) = .ok 4 := by
    decide +kernel
  obtain ⟨-, hcompletions, -⟩ := hstores 0 walkBegun ⟨1⟩ (.still walkStore ⟨1700000001, 0⟩) rfl
    (Setting.undisturbed_still (by decide))
  cases hanswer : ((complete ⟨1⟩ walk (.text "done")).run (.still walkStore ⟨1700000001, 0⟩)).1 with
  | error e =>
    rw [hanswer] at hruns
    cases hruns
  | ok outcome =>
    rw [hanswer] at hruns
    exact ⟨outcome, rfl, Except.ok.inj hruns, hcompletions walk (.text "done") outcome hanswer⟩

end RitualLedger
