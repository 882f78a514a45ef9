import RitualLedger.Proofs.Completion.Open
import RitualLedger.Proofs.Rule.Course

/-!
# The course of a completion

What follows a step is a list of errands, in this order: the reward of the task, the actions that
its completion triggers, and after the last task those that the completion of the ritual triggers.
The list depends on the record of the step and on the conditions of its ritual, so it is the same
whenever it is drawn up. A client that is alone performs it (`Completion.keeps_followUp_alone`),
after it has taken the step or when it replays a step that is on record.
-/

namespace RitualLedger

/-! ## Errands of a step -/

namespace CompletionRecord

/-- The batch of a record in a scope. -/
def batch (c : CompletionRecord) (trigger : Option TriggerKind) (scope : Scope) : Batch :=
  ⟨c.ritualId, c.subjectId, trigger, some scope⟩

/-- The reward of the task, if there is one. -/
def rewards (c : CompletionRecord) : List Errand :=
  if c.tokenReward = 0 then []
  else (c.batch none (.reward c.step)).errands (.reward c.step) 0 [.reward c.tokenReward]

/-- The actions that a trigger asks for, in a scope. -/
def fired (c : CompletionRecord) (conditions : List Condition) (t : Trigger) (scope : Scope) :
    List Errand :=
  (c.batch (some t.kind) scope).errands scope 0 (Condition.matchingActions conditions t)

/-- All that the conditions ask for after a step, in order. -/
def reactions (c : CompletionRecord) (conditions : List Condition) : List Errand :=
  c.fired conditions (.completion c.taskIndex) (.completion c.step) ++
    if c.ritualCompleted then
      c.fired conditions .ritualCompletion (.ritualCompletion c.step)
    else []

/-- All that follows a step, in order. -/
def errands (c : CompletionRecord) (conditions : List Condition) : List Errand :=
  c.rewards ++ c.reactions conditions

end CompletionRecord

/-- The results of a completion, in the order of their actions. -/
def CompletionOutcome.results (o : CompletionOutcome) : List ActionResult :=
  o.baseReward.toList ++ o.actionsExecuted.results

namespace Completion

variable {γ : Type} {k : Contract γ} {g : γ} {policy : RetryPolicy} {s : Store}
  {c : CompletionRecord} {r : Ritual}

theorem keeps_payReward_alone (hk : k.Alone g) (hs : s.Regular)
    (hgives : ∀ u v, Underway s c.rewards v → k.gives g u g v) :
    (payReward policy c).Keeps k
      (fun reward g' t => g' = g ∧ Course s c.rewards reward.toList t) g s := by
  rw [CompletionRecord.rewards] at hgives ⊢
  rw [payReward]
  split
  · exact ⟨rfl, .done s⟩
  · rename_i hreward
    simp only [if_neg hreward] at hgives
    refine Program.Keeps.bind (Batch.keeps_run (b := c.batch none (.reward c.step)) rfl hk hs
      hgives) ?_
    rintro log g t ⟨rfl, hcourse⟩
    refine ⟨rfl, ?_⟩
    -- One errand has one result.
    cases hresults : log.results with
    | nil =>
      rw [hresults] at hcourse
      cases hcourse
    | cons first rest =>
      rw [hresults] at hcourse
      cases hcourse with
      | next hfirst hrest =>
        cases hrest
        exact .next hfirst (.done t)

theorem keeps_fire_alone (hk : k.Alone g) (hs : s.Regular)
    (hr : s.get? Ritual (Ritual.key c.ritualId) = some r) (t : Trigger) (scope : Scope)
    (hgives : ∀ u v, Underway s (c.fired r.conditions t scope) v → k.gives g u g v) :
    (fire policy c t scope).Keeps k (fun _ _ _ => False)
      (fun log g' u => g' = g ∧ Course s (c.fired r.conditions t scope) log.results u) g s := by
  have hfound : ∀ s', k.moves g s s' →
      ∃ r, s'.get? Ritual (Ritual.key c.ritualId) = some r := by
    intro s' hs'
    rw [hk.still hs']
    exact ⟨r, hr⟩
  refine .bind (Ritual.keeps_evaluate hfound t) ?_
  rintro actions g s' ⟨rfl, hmoves, r', hr', rfl⟩
  obtain rfl := hk.still hmoves
  cases hr.symm.trans hr'
  exact .lift (Batch.keeps_run (b := c.batch (some t.kind) scope) rfl hk hs hgives)

/-- An outcome reports what followed a step: the reward by itself, and then the reactions. -/
def Followed (c : CompletionRecord) (conditions : List Condition) (s : Store)
    (outcome : CompletionOutcome) (u : Store) : Prop :=
  ∃ t, Course s c.rewards outcome.baseReward.toList t ∧
    Course t (c.reactions conditions) outcome.actionsExecuted.results u

theorem Followed.course {conditions : List Condition} {outcome : CompletionOutcome} {u : Store}
    (h : Followed c conditions s outcome u) :
    Course s (c.errands conditions) outcome.results u := by
  obtain ⟨t, hreward, hreactions⟩ := h
  exact hreward.append hreactions

/-- **What follows a step is performed, alone.** -/
theorem keeps_followUp_alone (hk : k.Alone g) (hs : s.Regular)
    (hr : s.get? Ritual (Ritual.key c.ritualId) = some r)
    (hgives : ∀ u v, Underway s (c.errands r.conditions) v → k.gives g u g v) :
    (followUp policy c).Keeps k (fun _ _ _ => False)
      (fun outcome g' t => g' = g ∧ Followed c r.conditions s outcome t) g s := by
  rw [CompletionRecord.errands, CompletionRecord.reactions] at hgives
  -- The ritual is the same after every errand.
  have hstill : ∀ {u errands results}, Course s errands results u →
      u.get? Ritual (Ritual.key c.ritualId) = some r := by
    intro u errands results hcourse
    rw [Store.get?, (hcourse.sameProgress hs).rituals]
    exact hr
  refine .bind (.lift (keeps_payReward_alone hk hs ?_)) ?_
  · exact fun u v hunder => hgives u v (hunder.before _)
  rintro reward g s₁ ⟨rfl, hreward⟩
  have hs₁ := hreward.regular hs
  refine .bind (keeps_fire_alone hk hs₁ (hstill hreward) _ _ ?_) ?_
  · exact fun u v hunder => hgives u v ((hunder.before _).after hreward)
  rintro log g s₂ ⟨rfl, hlog⟩
  have hs₂ := hlog.regular hs₁
  split
  · rename_i hlast
    refine .bind (keeps_fire_alone hk hs₂ (hstill (hreward.append hlog)) _ _ ?_) ?_
    · intro u v hunder
      refine hgives u v ?_
      rw [if_pos hlast]
      exact (hunder.after hlog).after hreward
    · rintro last g t ⟨rfl, hcourse⟩
      refine .pure ⟨rfl, s₁, hreward, ?_⟩
      rw [CompletionRecord.reactions, if_pos hlast]
      exact hlog.append hcourse
  · rename_i hlast
    refine .pure ⟨rfl, s₁, hreward, ?_⟩
    rw [CompletionRecord.reactions, if_neg hlast, List.append_nil]
    exact hlog

/-- A step that is on record is replayed. -/
theorem keeps_replay_alone {step : Step} (hk : k.Alone g) (hs : s.Regular)
    (hc : s.get? CompletionRecord step.key = some c)
    (hr : s.get? Ritual (Ritual.key c.ritualId) = some r)
    (hgives : ∀ u v, Underway s (c.errands r.conditions) v → k.gives g u g v) :
    (replay policy step).Keeps k (fun _ _ _ => False)
      (fun outcome g' t => g' = g ∧ Course s (c.errands r.conditions) outcome.results t) g s := by
  have hfind : (find? step).Keeps k (fun _ _ _ => False)
      (fun x g' t => g' = g ∧ t = s ∧ x = some c) g s := by
    refine .readRecord? (fun s' hs' => ?_) fun s' hs' => ⟨rfl, hk.still hs', ?_⟩
    · rw [hk.still hs']
      exact hs.wellTyped
    · rw [hk.still hs']
      exact hc
  refine .bind hfind ?_
  rintro _ g s ⟨rfl, rfl, rfl⟩
  refine (keeps_followUp_alone hk hs hr hgives).imp (fun _ _ _ h => h) ?_
  exact fun outcome g' t h => ⟨h.1, h.2.course⟩

/-! ## Completions -/

variable {step : Step} {evidence : Evidence}

/-- A step is taken, and then its errands are performed. -/
inductive Completes (s : Store) (step : Step) (evidence : Evidence) (results : List ActionResult)
    (u : Store) : Prop
  | intro (r : Ritual) (a : Assignment) (task : Task) (now : Instant) (t : Store)
    (hstep : (Change.stepping step r a task evidence now).Makes s t)
    (hcourse : Course t ((recordOf step r task now).errands r.conditions) results u)

/-- A step is taken, and an outcome reports what followed it. -/
inductive Reported (s : Store) (step : Step) (evidence : Evidence) (outcome : CompletionOutcome)
    (u : Store) : Prop
  | intro (r : Ritual) (a : Assignment) (task : Task) (now : Instant) (t : Store)
    (hstep : (Change.stepping step r a task evidence now).Makes s t)
    (hfollowed : Followed (recordOf step r task now) r.conditions t outcome u)

theorem Reported.completes {outcome : CompletionOutcome} {u : Store}
    (h : Reported s step evidence outcome u) : Completes s step evidence outcome.results u := by
  obtain ⟨r, a, task, now, t, hstep, hfollowed⟩ := h
  exact ⟨r, a, task, now, t, hstep, hfollowed.course⟩

/-- A step is taken, and some of its errands are performed. -/
inductive OnTheWay (s : Store) (step : Step) (evidence : Evidence) (u : Store) : Prop
  | intro (r : Ritual) (a : Assignment) (task : Task) (now : Instant) (t : Store)
    (hstep : (Change.stepping step r a task evidence now).Makes s t)
    (hunder : Underway t ((recordOf step r task now).errands r.conditions) u)

/-- A step adds a record, and a record of its evidence. -/
theorem records_of_stepping {t : Store} {a : Assignment} {task : Task} {now : Instant}
    (h : (Change.stepping step r a task evidence now).Makes s t) :
    t.all CompletionRecord = s.all CompletionRecord ++ [recordOf step r task now] ∧
      t.all EvidenceRecord = s.all EvidenceRecord ++ [evidenceOf step task evidence now] := by
  let c := recordOf step r task now
  let ritual := (Ritual.key step.ritual, encode (advance r c))
  let assignment := (Assignment.key step.subject, encode (advanceAssignment a c))
  let record := (step.key, encode c)
  let proof := (evidenceKey task.id step.subject, encode (evidenceOf step task evidence now))
  have hrecords : (Change.stepping step r a task evidence now).writes =
      [ritual, assignment] ++ ((Record.collection CompletionRecord).key step.id, encode c) ::
        [proof] := rfl
  have hproofs : (Change.stepping step r a task evidence now).writes =
      [ritual, assignment, record] ++ ((Record.collection EvidenceRecord).key
        (task.id ++ ":" ++ step.subject), encode (evidenceOf step task evidence now)) :: [] := rfl
  refine ⟨h.all_snoc _ _ hrecords ?_ h.allowed.new h.allowed.fits,
    h.all_snoc _ _ hproofs ?_ h.allowed.newEvidence h.allowed.fits⟩
  all_goals simp [ritual, assignment, record, proof, Ritual.key, Assignment.key, Step.key,
    evidenceKey, Collection.key, Record.collection, Collection.name]

/-- What stands in a store after a step, in a ritual as it was. -/
structure Taken (s : Store) (step : Step) (r : Ritual) (c : CompletionRecord) (u : Store) :
    Prop where
  proceeds : s.Proceeds u
  record : u.get? CompletionRecord step.key = some c
  ritual : u.get? Ritual (Ritual.key step.ritual) = some (advance r c)
  assignment : ∃ a, u.get? Assignment (Assignment.key step.subject) = some a ∧
    a.ritualId = step.ritual ∧ a.currentTaskIndex = step.index + 1 ∧ a.status = statusAfter c

/-- **A step stands, whatever errands follow it.** -/
theorem taken_of_course {t u : Store} {a : Assignment} {task : Task} {now : Instant}
    {errands : List Errand} {results : List ActionResult} (hs : s.Regular)
    (hmakes : (Change.stepping step r a task evidence now).Makes s t)
    (hcourse : Course t errands results u) : Taken s step r (recordOf step r task now) u := by
  have ht := hmakes.regular hs
  have hsame := hcourse.sameProgress ht
  have hstepped := Mirrored.stepped_of_makes hs.wellTyped hmakes
  refine ⟨Rely.engine.trans (hmakes.proceeds hs.wellTyped) (hcourse.proceeds ht), ?_, ?_, ?_⟩
  · rw [Store.get?, Step.key, hsame.recorded]
    exact (hstepped.completion step.id).trans (if_pos rfl)
  · rw [Store.get?, hsame.rituals]
    exact (hstepped.ritual step.ritual).trans (if_pos rfl)
  · have hprogress := hsame.assignments step.subject
    rw [hstepped.assignment, if_pos rfl] at hprogress
    obtain ⟨a', ha', hprogress⟩ := Option.map_eq_some_iff.1 hprogress
    refine ⟨a', ha', ?_, ?_, ?_⟩
    · exact (congrArg Assignment.ritualId hprogress).trans hmakes.allowed.assigned
    · exact congrArg Assignment.currentTaskIndex hprogress
    · exact congrArg Assignment.status hprogress

/-- **A client that is alone completes a step if it is open.** -/
theorem keeps_complete_alone {fails : EngineError → γ → Store → Prop} (hk : k.Alone g)
    (hs : s.Regular) (hclosed : ¬ IsOpen s step evidence → ∀ e, fails e g s)
    (hgives : ∀ u v, OnTheWay s step evidence v → k.gives g u g v) :
    (complete policy step evidence).Keeps k fails
      (fun outcome g' u => g' = g ∧ Reported s step evidence outcome u) g s := by
  have hstep : (takeStep policy step evidence).Keeps k fails (fun c g' t => g' = g ∧
      ∃ r a task now, c = recordOf step r task now ∧
        (Change.stepping step r a task evidence now).Makes s t) g s := by
    refine keeps_takeStep_alone hk hs hclosed fun r a task now t hmakes => ⟨g, ?_, ?_⟩
    · exact hgives s t ⟨r, a, task, now, t, hmakes, .refl t _⟩
    · exact ⟨rfl, r, a, task, now, rfl, hmakes⟩
  refine .bind hstep ?_
  rintro _ g t ⟨rfl, r, a, task, now, rfl, hmakes⟩
  have hr := (taken_of_course hs hmakes (.done t)).ritual
  refine (keeps_followUp_alone hk (hmakes.regular hs) hr ?_).imp (fun _ _ _ h => h.elim) ?_
  · exact fun u v hunder => hgives u v ⟨r, a, task, now, t, hmakes, hunder⟩
  · rintro outcome g u ⟨rfl, hcourse⟩
    exact ⟨rfl, r, a, task, now, t, hmakes, hcourse⟩

theorem Completes.taken {results : List ActionResult} {u : Store}
    (h : Completes s step evidence results u) (hs : s.Regular) :
    ∃ r a task now, Open s step evidence r a task ∧
      Taken s step r (recordOf step r task now) u := by
  obtain ⟨r, a, task, now, t, hmakes, hcourse⟩ := h
  exact ⟨r, a, task, now, open_of_makes hmakes, taken_of_course hs hmakes hcourse⟩

theorem OnTheWay.taken {u : Store} (h : OnTheWay s step evidence u) (hs : s.Regular) :
    ∃ r a task now, Open s step evidence r a task ∧
      Taken s step r (recordOf step r task now) u := by
  obtain ⟨r, a, task, now, t, hmakes, first, results, -, hcourse⟩ := h
  exact ⟨r, a, task, now, open_of_makes hmakes, taken_of_course hs hmakes hcourse⟩

/-! ## Runs without others -/

variable {setting : Setting}

/-- A client that is alone completes an open step. It is refused one that is not open, and then
nothing is stored. -/
theorem complete_run_cases (policy : RetryPolicy) (hs : setting.store.Regular)
    (halone : setting.Undisturbed) :
    (∃ outcome, ((complete policy step evidence).run setting).1 = .ok outcome ∧
      Reported setting.store step evidence outcome
        ((complete policy step evidence).run setting).2.store) ∨
    ¬ IsOpen setting.store step evidence ∧
      (∃ e, ((complete policy step evidence).run setting).1 = .error e) ∧
      ((complete policy step evidence).run setting).2.store = setting.store := by
  have hkeeps : (complete policy step evidence).Keeps (.alone fun _ => True)
      (fun _ _ t => ¬ IsOpen setting.store step evidence ∧ t = setting.store)
      (fun outcome g u => g = () ∧ Reported setting.store step evidence outcome u) ()
      setting.store :=
    keeps_complete_alone (Contract.alone_alone _) hs (fun hclosed _ => ⟨hclosed, rfl⟩)
      fun _ _ _ => trivial
  rcases hkeeps.run halone fun _ _ => trivial with
    ⟨e, _, herror, hclosed, hsame⟩ | ⟨outcome, _, hok, hpost⟩
  · exact .inr ⟨hclosed, ⟨e, herror⟩, hsame⟩
  · exact .inl ⟨outcome, hok, hpost.2⟩

/-- An open step is completed. -/
theorem complete_run (policy : RetryPolicy) (hs : setting.store.Regular)
    (halone : setting.Undisturbed) (hopen : IsOpen setting.store step evidence) :
    ∃ outcome, ((complete policy step evidence).run setting).1 = .ok outcome ∧
      Completes setting.store step evidence outcome.results
        ((complete policy step evidence).run setting).2.store := by
  obtain ⟨outcome, hok, hreported⟩ | ⟨hclosed, -, -⟩ := complete_run_cases policy hs halone
  · exact ⟨outcome, hok, hreported.completes⟩
  · exact absurd hopen hclosed

/-- A step that is not open is refused, and nothing is stored. -/
theorem complete_run_of_closed (policy : RetryPolicy) (hs : setting.store.Regular)
    (halone : setting.Undisturbed) (hclosed : ¬ IsOpen setting.store step evidence) :
    (∃ e, ((complete policy step evidence).run setting).1 = .error e) ∧
      ((complete policy step evidence).run setting).2.store = setting.store := by
  obtain ⟨outcome, -, hreported⟩ | ⟨-, hrefused⟩ := complete_run_cases policy hs halone
  · obtain ⟨r, a, task, now, t, hmakes, -⟩ := hreported
    exact absurd ⟨r, a, task, open_of_makes hmakes⟩ hclosed
  · exact hrefused

/-- A completion that succeeds took the step, and its outcome reports what followed. -/
theorem reported_of_run {outcome : CompletionOutcome} (hs : setting.store.Regular)
    (halone : setting.Undisturbed)
    (hok : ((complete policy step evidence).run setting).1 = .ok outcome) :
    Reported setting.store step evidence outcome
      ((complete policy step evidence).run setting).2.store := by
  obtain ⟨outcome', hok', hreported⟩ | ⟨-, ⟨e, herror⟩, -⟩ := complete_run_cases policy hs halone
  · cases hok.symm.trans hok'
    exact hreported
  · cases hok.symm.trans herror

/-- A completion that succeeds took the step, which was open, and performed its errands. -/
theorem completes_of_run {outcome : CompletionOutcome} (hs : setting.store.Regular)
    (halone : setting.Undisturbed)
    (hok : ((complete policy step evidence).run setting).1 = .ok outcome) :
    Completes setting.store step evidence outcome.results
      ((complete policy step evidence).run setting).2.store :=
  (reported_of_run hs halone hok).completes

/-- A replay succeeds, and performs the errands of the record. -/
theorem replay_run (policy : RetryPolicy) (hs : setting.store.Regular)
    (halone : setting.Undisturbed) (hc : setting.store.get? CompletionRecord step.key = some c)
    (hr : setting.store.get? Ritual (Ritual.key c.ritualId) = some r) :
    ∃ outcome, ((replay policy step).run setting).1 = .ok outcome ∧
      Course setting.store (c.errands r.conditions) outcome.results
        ((replay policy step).run setting).2.store := by
  have hkeeps : (replay policy step).Keeps (.alone fun _ => True) (fun _ _ _ => False)
      (fun outcome g u => g = () ∧
        Course setting.store (c.errands r.conditions) outcome.results u) () setting.store :=
    keeps_replay_alone (Contract.alone_alone _) hs hc hr fun _ _ _ => trivial
  rcases hkeeps.run halone fun _ _ => trivial with ⟨_, _, _, hfalse⟩ | ⟨outcome, _, hok, hpost⟩
  · exact hfalse.elim
  · exact ⟨outcome, hok, hpost.2⟩

end Completion

/-! ## A ritual with one task -/

/-- The step of the only task in the ritual of `walkBegun`. -/
def walk : Step := ⟨"11111111-1111-4111-8111-111111111111", "ana", 0⟩

/-- A run that creates a ritual with one task. What follows it is of all kinds. -/
def walkBegun : List Event :=
  let ritual : Definition :=
    ⟨"kim", "ana", "Walk", "", [⟨"Go out", "", .any, 7⟩],
      [⟨.completion, .ge, .number 0, [.unlockTask 0, .notify "Well done"]⟩,
        ⟨.ritualCompletion, .eq, .flag true, [.penalty 3]⟩]⟩
  let served (client : Nat) (id : String) : Event := .served client ⟨none, ⟨1700000000, 0⟩, id⟩
  [.openAccount "kim", .openAccount "ana", .create ritual].map (.called ⟨1⟩) ++
    ([0, 0, 0, 1, 1, 1, 2].map (served · "") ++
      [served 2 walk.ritual, served 2 "22222222-2222-4222-8222-222222222222",
        served 2 "33333333-3333-4333-8333-333333333333"] ++
      (List.replicate 5 2).map (served · ""))

/-- What is stored after `walkBegun`. -/
def walkStore : Store := ((World.initial 0).after walkBegun).store

end RitualLedger
