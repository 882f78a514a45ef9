import RitualLedger.Proofs.Completion.Course
import RitualLedger.Proofs.Engine.Among
import RitualLedger.Proofs.Engine.Succession

/-!
# Unlocked tasks

A task that a call has reported as unlocked is unlocked in the assignment of the subject from then
on, for as long as this is an assignment to the same ritual; the step of a concurrent completion
does not lose it. The attempt that unlocks the task commits on the current assignment, and an
attempt that finds the task unlocked already has read an assignment from which all later ones
descend.

Together with what an earlier store tells about a later one, this is the append-only history of the
engine (`history_is_append_only`).
-/

namespace RitualLedger

variable {s t : Store} {ritual subject : String} {index : UInt64} {policy : RetryPolicy}
  {refuses : StoreError → Prop}

/-- Others make changes of the engine, and what they leave comes later. -/
def Rely.history : Rely where
  moves s t := s.Proceeds t ∧ (s.Regular → s.Precedes t)
  refl s := ⟨Rely.engine.refl s, fun _ => .refl s⟩
  trans h h' :=
    ⟨Rely.engine.trans h.1 h'.1, fun hs => (h.2 hs).trans (h'.2 (h.1.regular hs)) hs⟩
  le h := h.1.evolves.le

/-- The ritual is stored, and the task is unlocked if the subject is assigned to the ritual. -/
def Store.HasUnlocked (s : Store) (ritual subject : String) (index : UInt64) : Prop :=
  s.read? (Ritual.key ritual) ≠ none ∧
    ∀ a, s.get? Assignment (Assignment.key subject) = some a → a.ritualId = ritual →
      index ∈ a.unlockedTasks

/-- A task that is unlocked in the assignment of a subject. -/
theorem Store.Regular.hasUnlocked (hs : s.Regular) {a : Assignment}
    (hget : s.get? Assignment (Assignment.key subject) = some a) (hritual : a.ritualId = ritual)
    (hindex : index ∈ a.unlockedTasks) : s.HasUnlocked ritual subject index := by
  obtain ⟨r, hr, -⟩ := hs.mirrored.assigned subject a hget
  rw [hritual] at hr
  refine ⟨Store.present_of_get? hr, fun a' hget' _ => ?_⟩
  cases hget'.symm.trans hget
  exact hindex

/-- What is unlocked stays unlocked, whatever others do. -/
theorem Store.HasUnlocked.moved (h : s.HasUnlocked ritual subject index) (hs : s.Regular)
    (hst : Rely.history.moves s t) : t.HasUnlocked ritual subject index := by
  obtain ⟨hproceeds, hprecedes⟩ := hst
  have hprecedes := hprecedes hs
  refine ⟨hprecedes.present _ h.1, fun a' hget' hritual => ?_⟩
  -- The subject has followed the ritual before, since it would not have come back to it.
  have hassigned : s.IsAssigned subject ritual := by
    by_contra hleft
    obtain ⟨r, hr⟩ := hs.wellTyped.readable (α := Ritual) h.1
    obtain ⟨r', hr', hsame⟩ := hprecedes.subject hr
    have hfollows := (hproceeds.regular hs).mirrored.follows hr' hget' hritual
    have hname : a'.subjectId = subject :=
      ((hproceeds.regular hs).wellTyped.named (α := Assignment) hget').2
    have hsubject : r.subjectId = subject := hsame.symm.trans (hfollows.subject.symm.trans hname)
    rw [← hsubject] at hleft hget'
    exact (hprecedes.left ritual r hr hleft).2 ⟨a', hget', hritual⟩
  obtain ⟨a, hget, hsame⟩ := hassigned
  exact hprecedes.unlocked subject a a' hget hget' (hritual.trans hsame.symm) index
    (h.2 a hget hsame)

/-! ## Unlocking -/

namespace Action

/-- The assignment that a decision works with is the one that was read, to the ritual in
question. -/
theorem assignment_of_get {snapshot : Snapshot} {x : Option Assignment} {a : Assignment}
    (hget : snapshot.get (Assignment.key subject) = .ok x)
    (h : assignmentIn snapshot ritual subject = .ok a) : x = some a ∧ a.ritualId = ritual := by
  obtain ⟨x', hget', hx⟩ := ok_of_bind h
  cases hget.symm.trans hget'
  cases x with
  | none => cases hx
  | some a' =>
    simp only at hx
    split at hx
    · rename_i hritual
      cases hx
      exact ⟨rfl, hritual⟩
    · cases hx

/-- **A task that was unlocked is unlocked**, now or before. -/
theorem keeps_unlock (hs : s.Regular) :
    (unlock policy ritual subject index).Keeps (.among .history refuses) (fun _ _ _ => True)
      (fun effect _ s' => s'.HasUnlocked ritual subject index ∧
        ∃ newly, effect = .unlocked index newly) () s := by
  refine .bind .now ?_
  rintro now _ s₁ ⟨rfl, hs₁, hnow⟩
  have hregular : ∀ {u}, Rely.history.moves s₁ u → u.Regular :=
    fun hu => hu.1.regular (hs₁.1.regular hs)
  refine .transact (fun _ _ _ _ _ _ => trivial) (fun _ _ _ _ => trivial) ?_ ?_
  · intro snapshot t plan _ hgathered hdecision hwrites
    obtain ⟨u, ⟨hu, hut⟩, hget⟩ := hgathered.get (α := Assignment) subject List.mem_cons_self
      fun u hu => (hregular hu.1).wellTyped
    obtain ⟨a, hassigned, hdecided⟩ := ok_of_bind hdecision
    obtain ⟨hstored, hritual⟩ := assignment_of_get hget hassigned
    split at hdecided
    · rename_i hcontains
      cases hdecided
      exact ⟨((hregular hu).hasUnlocked hstored hritual
        (TaskSet.contains_iff.1 hcontains)).moved (hregular hu) hut, false, rfl⟩
    · cases hdecided
      cases hwrites
  · intro t plan u ht hcommits hknown
    obtain ⟨a, hassigned, hdecided⟩ := ok_of_bind hcommits.decided
    obtain ⟨hstored, hritual⟩ := assignment_of_assignmentIn List.mem_cons_self hassigned
    have hname : a.subjectId = subject :=
      ((hregular ht).wellTyped.named (α := Assignment) hstored).2
    split at hdecided
    · cases hdecided
      exact absurd rfl hcommits.writes
    · rename_i hlocked
      cases hdecided
      refine ⟨(), trivial, ?_⟩
      subst hname
      have hmakes : (Change.unlocking a index now).Makes t u :=
        ⟨⟨hnow, Bool.eq_false_iff.2 hlocked, hstored⟩, Store.apply_eq_putAll hcommits.applied⟩
      have hget := hmakes.assignment_of_unlocking (hregular ht).wellTyped a.subjectId
      rw [if_pos rfl] at hget
      exact ⟨(hmakes.regular (hregular ht)).hasUnlocked hget hritual
        (TaskSet.mem_insert.2 (.inl rfl)), true, rfl⟩

/-- An action that unlocks a task has done so when it succeeds. -/
theorem keeps_execute (hs : s.Regular) (a : Action) (key : Option String) :
    (a.execute policy ritual subject key).Keeps (.among .history refuses) (fun _ _ _ => True)
      (fun _ _ s' => ∀ index, a = .unlockTask index → s'.HasUnlocked ritual subject index)
      () s := by
  cases a with
  | unlockTask index =>
    refine (keeps_unlock hs).imp (fun _ _ _ h => h) ?_
    rintro _ _ s' ⟨hunlocked, -⟩ _ ⟨⟩
    exact hunlocked
  | reward _ | penalty _ | notify _ =>
    exact (Operation.Keeps.among _).imp (fun _ _ _ h => h) fun _ _ _ _ => nofun

end Action

/-! ## Batches -/

/-- A result that reports a task as unlocked. -/
def ActionResult.Unlocks (r : ActionResult) (index : UInt64) : Prop :=
  r.action = .unlockTask index ∧ r.status = .success

/-- A log that reports a task as unlocked. -/
def ActionLog.Unlocks (l : ActionLog) (index : UInt64) : Prop := ∃ r ∈ l.results, r.Unlocks index

/-- All tasks that are reported as unlocked are. -/
def Store.HasAllUnlocked (s : Store) (ritual subject : String) (results : List ActionResult) :
    Prop :=
  ∀ r ∈ results, ∀ index, r.Unlocks index → s.HasUnlocked ritual subject index

theorem Store.HasAllUnlocked.moved {results : List ActionResult}
    (h : s.HasAllUnlocked ritual subject results) (hs : s.Regular)
    (hst : Rely.history.moves s t) : t.HasAllUnlocked ritual subject results :=
  fun r hr index hunlocks => (h r hr index hunlocks).moved hs hst

namespace Batch

variable {b : Batch}

/-- A result that reports a task as unlocked comes from an action that has unlocked it. -/
theorem of_unlocks {a : Action} {answer : Except EngineError ActionEffect}
    (h : (b.result a answer).Unlocks index) : a = .unlockTask index ∧ ∃ e, answer = .ok e := by
  cases answer with
  | error e => cases h.2
  | ok effect => exact ⟨h.1, effect, rfl⟩

theorem keeps_runFrom_unlocked (hs : s.Regular) (position : Nat) (actions : List Action) :
    (b.runFrom policy position actions).Keeps (.among .history refuses)
      (fun results _ s' => s'.HasAllUnlocked b.ritual b.subject results) () s := by
  induction actions generalizing position s with
  | nil => exact fun r hr => absurd hr List.not_mem_nil
  | cons a rest ih =>
    refine Program.Keeps.bind (Program.Keeps.along (Action.keeps_execute hs a _)) ?_
    rintro answer _ s₁ ⟨hanswer, hs₁⟩
    have hregular := hs₁.1.regular hs
    refine Program.Keeps.bind (Program.Keeps.along (ih hregular (position + 1))) ?_
    rintro results _ s₂ ⟨hresults, hs₂⟩ r hr index hunlocks
    rcases List.mem_cons.1 hr with rfl | hr
    · obtain ⟨ha, effect, rfl⟩ := of_unlocks hunlocks
      exact (hanswer index ha).moved hregular hs₂
    · exact hresults r hr index hunlocks

theorem keeps_run_unlocked (b : Batch) (hs : s.Regular) (actions : List Action) :
    (b.run policy actions).Keeps (.among .history refuses)
      (fun log _ s' => s'.HasAllUnlocked b.ritual b.subject log.results) () s := by
  refine Program.Keeps.bind (Program.Keeps.along (keeps_runFrom_unlocked hs 0 actions)) ?_
  rintro results _ s₁ ⟨hresults, hs₁⟩ s₂ now hs₂ -
  exact hresults.moved (hs₁.1.regular hs) hs₂

end Batch

/-! ## Completions and signals -/

namespace Completion

variable {c : CompletionRecord}

theorem keeps_fire_unlocked (hs : s.Regular) (t : Trigger) (scope : Scope) :
    (fire policy c t scope).Keeps (.among .history refuses) (fun _ _ _ => True)
      (fun log _ s' => s'.HasAllUnlocked c.ritualId c.subjectId log.results) () s := by
  refine .bind (.among _) ?_
  rintro actions _ s₁ hs₁
  let b : Batch := ⟨c.ritualId, c.subjectId, some t.kind, some scope⟩
  exact .lift (Batch.keeps_run_unlocked b (hs₁.1.regular hs) actions)

theorem keeps_followUp_unlocked (hs : s.Regular) :
    (followUp policy c).Keeps (.among .history refuses) (fun _ _ _ => True)
      (fun o _ s' => s'.HasAllUnlocked o.ritualId o.subjectId o.actionsExecuted.results) () s := by
  refine .bind (.among _) ?_
  rintro reward _ s₁ hs₁
  have hregular := hs₁.1.regular hs
  refine .bind (.along (keeps_fire_unlocked hregular _ _)) ?_
  rintro log _ s₂ ⟨hlog, hs₂⟩
  split
  · refine .bind (.along (keeps_fire_unlocked (hs₂.1.regular hregular) _ _)) ?_
    rintro last _ s₃ ⟨hlast, hs₃⟩
    refine .pure fun r hr index hunlocks => ?_
    rcases List.mem_append.1 hr with hr | hr
    · exact (hlog r hr index hunlocks).moved (hs₂.1.regular hregular) hs₃
    · exact hlast r hr index hunlocks
  · exact .pure hlog

theorem keeps_complete_unlocked (hs : s.Regular) (step : Step) (evidence : Evidence) :
    (complete policy step evidence).Keeps (.among .history refuses) (fun _ _ _ => True)
      (fun o _ s' => s'.HasAllUnlocked o.ritualId o.subjectId o.actionsExecuted.results) () s := by
  refine .bind (.among _) ?_
  rintro c _ s₁ hs₁
  exact keeps_followUp_unlocked (hs₁.1.regular hs)

theorem keeps_replay_unlocked (hs : s.Regular) (step : Step) :
    (replay policy step).Keeps (.among .history refuses) (fun _ _ _ => True)
      (fun o _ s' => s'.HasAllUnlocked o.ritualId o.subjectId o.actionsExecuted.results) () s := by
  refine .bind (.among _) ?_
  rintro (_ | c) _ s₁ hs₁
  · exact .throw trivial
  · exact keeps_followUp_unlocked (hs₁.1.regular hs)

end Completion

/-- The tasks that are reported as unlocked in a ritual, if there is one. -/
def Store.HasUnlockedIn (s : Store) (ritual : Option String) (subject : String) (log : ActionLog) :
    Prop :=
  ∀ id ∈ ritual, s.HasAllUnlocked id subject log.results

theorem Signal.keeps_fire_unlocked (hs : s.Regular) (t : Trigger) (scope : String → Scope) :
    (fire policy subject t scope).Keeps (.among .history refuses) (fun _ _ _ => True)
      (fun o _ s' => s'.HasUnlockedIn o.ritualId subject o.actionsExecuted) () s := by
  refine .bind (.among _) ?_
  rintro (_ | a) _ s₁ hs₁
  · exact .bind (.among _) fun _ _ _ _ => .pure nofun
  · refine .bind (.among _) ?_
    rintro actions _ s₂ hs₂
    let b : Batch := ⟨a.ritualId, subject, some t.kind, some (scope a.ritualId)⟩
    refine .bind (.lift (Batch.keeps_run_unlocked b (hs₂.1.regular (hs₁.1.regular hs)) actions)) ?_
    rintro log _ s₃ hlog
    refine .pure ?_
    rintro id ⟨⟩
    exact hlog

theorem Mood.keeps_log_unlocked (hs : s.Regular) (text : String) :
    (log policy subject text).Keeps (.among .history refuses) (fun _ _ _ => True)
      (fun o _ s' => s'.HasUnlockedIn o.ritualId subject o.actionsExecuted) () s := by
  refine .bind (.among _) ?_
  rintro mood _ s₁ hs₁
  refine .bind (.among _) ?_
  rintro now _ s₂ hs₂
  refine .bind (.among _) ?_
  rintro id _ s₃ hs₃
  refine .bind (Signal.keeps_fire_unlocked (hs₃.1.regular (hs₂.1.regular (hs₁.1.regular hs))) _ _)
    fun o _ _ ho => .pure ho

/-! ## Calls -/

/-- Whether an answer reports a task of a ritual as unlocked for a subject. -/
def Call.Unlocks (ritual subject : String) (index : UInt64) : (c : Call) → c.Result → Prop
  | .execute a id name _, _ => id = ritual ∧ name = subject ∧ a = .unlockTask index
  | .executeBatch id name _ _ _, log => id = ritual ∧ name = subject ∧ log.Unlocks index
  | .complete _ _, o | .replay _, o =>
    o.ritualId = ritual ∧ o.subjectId = subject ∧ o.actionsExecuted.Unlocks index
  | .logMood name _, o | .reportStreak name _, o =>
    o.ritualId = some ritual ∧ name = subject ∧ o.actionsExecuted.Unlocks index
  | .replyMood name _, answer => ∃ o, answer = some o ∧
    o.ritualId = some ritual ∧ name = subject ∧ o.actionsExecuted.Unlocks index
  | _, _ => False

/-- All tasks that an answer reports as unlocked are. -/
def Call.Unlocked (s : Store) (c : Call) : Except EngineError c.Result → Prop
  | .ok answer => ∀ ritual subject index, c.Unlocks ritual subject index answer →
      s.HasUnlocked ritual subject index
  | .error _ => True

/-- What is unlocked stays unlocked after the answer. -/
theorem Call.Unlocked.moved {c : Call} {answer : Except EngineError c.Result}
    (h : c.Unlocked s answer) (hs : s.Regular) (hst : Rely.history.moves s t) :
    c.Unlocked t answer := by
  cases answer with
  | error e => trivial
  | ok answer =>
    exact fun ritual subject index hunlocks => (h ritual subject index hunlocks).moved hs hst

/-- **Every call has unlocked what it reports as unlocked.** -/
theorem Call.keeps_unlocked (hs : s.Regular) (c : Call) :
    (c.operation policy).program.Keeps (.among .history refuses)
      (fun answer _ s' => c.Unlocked s' answer) () s := by
  refine Operation.Keeps.program ?_
  cases c with
  | execute a id name key =>
    refine (Action.keeps_execute hs a key).imp (fun _ _ _ h => h) ?_
    rintro effect _ s' hunlocked ritual subject index ⟨rfl, rfl, ha⟩
    exact hunlocked index ha
  | executeBatch id name trigger scope actions =>
    let b : Batch := ⟨id, name, trigger, scope.map .named⟩
    refine .lift ((Batch.keeps_run_unlocked b hs actions).imp ?_)
    rintro log _ s' hlog ritual subject index ⟨rfl, rfl, r, hr, hunlocks⟩
    exact hlog r hr index hunlocks
  | complete step evidence =>
    refine (Completion.keeps_complete_unlocked hs step evidence).imp (fun _ _ _ h => h) ?_
    rintro o _ s' ho ritual subject index ⟨rfl, rfl, r, hr, hunlocks⟩
    exact ho r hr index hunlocks
  | replay step =>
    refine (Completion.keeps_replay_unlocked hs step).imp (fun _ _ _ h => h) ?_
    rintro o _ s' ho ritual subject index ⟨rfl, rfl, r, hr, hunlocks⟩
    exact ho r hr index hunlocks
  | logMood name text =>
    refine (Mood.keeps_log_unlocked hs text).imp (fun _ _ _ h => h) ?_
    rintro o _ s' ho ritual subject index ⟨hritual, rfl, r, hr, hunlocks⟩
    exact ho ritual hritual r hr index hunlocks
  | reportStreak name count =>
    refine .bind (Signal.keeps_fire_unlocked hs _ _) ?_
    rintro o _ s' ho
    refine .pure ?_
    rintro ritual subject index ⟨hritual, rfl, r, hr, hunlocks⟩
    exact ho ritual hritual r hr index hunlocks
  | replyMood name text =>
    refine .bind (.among _) ?_
    rintro (_ | prompt) _ s₁ hs₁
    · refine .pure ?_
      rintro ritual subject index ⟨o, ho, -⟩
      cases ho
    · refine .map ((Mood.keeps_log_unlocked (hs₁.1.regular hs) text).imp (fun _ _ _ h => h) ?_)
      rintro o _ s' ho ritual subject index ⟨_, ⟨⟩, hritual, rfl, r, hr, hunlocks⟩
      exact ho ritual hritual r hr index hunlocks
  | _ => exact (Operation.Keeps.among _).imp (fun _ _ _ h => h) fun _ _ _ _ _ _ _ h => h.elim

/-! ## Append-only history -/

/-- What an event does to the store comes later. -/
theorem World.Sound.history {w : World} (h : w.Sound) (hs : w.store.Regular) (e : Event) :
    Rely.history.moves w.store (w.step e).store :=
  ⟨h.proceeds e, fun _ => h.precedes hs e⟩

/-- **Append-only history and monotone progress.** Whatever calls overlap and however they end:
between any two moments of a run the store goes on as `Store.Precedes` says. And what a client has
reported as unlocked is unlocked at every later moment at which the subject is assigned to the same
ritual. -/
theorem history_is_append_only (ttl : Int) (es later : List Event) :
    let w := (World.initial ttl).after es
    let w' := (World.initial ttl).after (es ++ later)
    w.store.Precedes w'.store ∧
      ∀ c ∈ w.clients, ∀ answer, c.rest = .finish (.ok answer) →
        ∀ ritual subject index, c.call.Unlocks ritual subject index answer →
          ∀ a, w'.store.get? Assignment (Assignment.key subject) = some a → a.ritualId = ritual →
            index ∈ a.unlockedTasks := by
  intro w w'
  have hs : w.store.Regular := World.regular_after ttl es
  have hsound : w.Sound := World.sound_after ttl es
  have hlater : w' = w.after later := World.after_append _ es later
  rw [hlater]
  have hprecedes := hsound.precedes_after hs later
  refine ⟨hprecedes, ?_⟩
  intro c hc answer hanswer ritual subject index hunlocks a hget hritual
  obtain ⟨i, hi⟩ := List.mem_iff_getElem?.1 hc
  have hkeeps : c.rest.Keeps (.among .history fun _ => True)
      (fun answer _ s => c.call.Unlocked s answer) () w.store := by
    refine World.keeps_among (fun hsound hs e => hsound.history hs e)
      (fun policy call s hs => call.keeps_unlocked hs) ?_ (fun _ _ _ _ _ => trivial) hi
    exact fun call answer s t hs hst h => h.moved hs hst
  rw [hanswer] at hkeeps
  have hunlocked : w.store.HasUnlocked ritual subject index :=
    hkeeps ritual subject index hunlocks
  exact (hunlocked.moved hs ⟨hsound.proceeds_after later, fun _ => hprecedes⟩).2 a hget hritual

/-! ## An unlock that crosses a completion -/

/-- Whether a client has unlocked a task for a subject by executing an action. -/
def Client.hasUnlocked (ritual subject : String) (index : UInt64) : Client → Bool
  | ⟨.execute (.unlockTask i) id name _, _, .finish (.ok _)⟩ =>
    id = ritual ∧ name = subject ∧ i = index
  | _ => false

theorem Client.of_hasUnlocked {ritual subject : String} {index : UInt64} {c : Client}
    (h : c.hasUnlocked ritual subject index = true) : ∃ answer, c.rest = .finish (.ok answer) ∧
      c.call.Unlocks ritual subject index answer := by
  unfold hasUnlocked at h
  split at h
  · obtain ⟨rfl, rfl, rfl⟩ := of_decide_eq_true h
    exact ⟨_, rfl, rfl, rfl, rfl⟩
  · cases h

/-- A run in which a task is unlocked while a completion is about to commit. -/
def crossing : List Event :=
  walkBegun ++ [.called ⟨3⟩ (.complete walk (.text "done")),
      .called ⟨3⟩ (.execute (.unlockTask 5) walk.ritual walk.subject none)] ++
    (List.replicate 7 3 ++ List.replicate 3 4).map
      fun client => .served client ⟨none, ⟨1700000001, 0⟩, ""⟩

/-- How the completion of `crossing` goes on. -/
def crossed : List Event := List.replicate 40 (.served 3 ⟨none, ⟨1700000001, 0⟩, ""⟩)

/-- The completion of `crossing` starts over and does not lose the unlocked task. -/
theorem unlock_kept_in_crossing :
    ∃ a, ((World.initial 0).after (crossing ++ crossed)).store.get? Assignment
        (Assignment.key walk.subject) = some a ∧
      a.status = .completed ∧ 5 ∈ a.unlockedTasks := by
  have hreported : ∃ c ∈ ((World.initial 0).after crossing).clients,
      c.hasUnlocked walk.ritual walk.subject 5 = true := by
    decide +kernel
  have hcompleted : (((World.initial 0).after (crossing ++ crossed)).store.get? Assignment
      (Assignment.key walk.subject)).map (fun a => (a.ritualId, a.status)) =
        some (walk.ritual, .completed) := by
    decide +kernel
  obtain ⟨c, hc, hunlocked⟩ := hreported
  obtain ⟨answer, hanswer, hunlocks⟩ := Client.of_hasUnlocked hunlocked
  obtain ⟨a, hget, ha⟩ := Option.map_eq_some_iff.1 hcompleted
  obtain ⟨hritual, hstatus⟩ := Prod.mk.inj ha
  obtain ⟨-, hkept⟩ := history_is_append_only 0 crossing crossed
  exact ⟨a, hget, hstatus, hkept c hc answer hanswer _ _ 5 hunlocks a hget hritual⟩

end RitualLedger
