import RitualLedger.Proofs.Completion.Course

/-!
# The current task

The current task of a subject is looked up in the assignment and its ritual; a completion checks
these and writes the records besides. The two agree: a step is open exactly when it is the current
one and its task takes the evidence (`Completion.isOpen_iff`). So the current task can be completed,
and nothing else can. After its completion the next task is current, until there is none.

Records are written in the order of the tasks, one for each (`recorded_in_order`). Hence a ritual of
some number of tasks takes as many completions. The main statement is `only_current_completed`.
-/

namespace RitualLedger

variable {s t : Store} {subject : String}

/-! ## Looking it up -/

/-- The task that a subject should do next, as it stands in a store. -/
def Store.currentTask? (s : Store) (subject : String) : Option CurrentTask :=
  (s.get? Assignment (Assignment.key subject)).bind fun a =>
    if a.isComplete then none
    else (s.get? Ritual (Ritual.key a.ritualId)).bind fun r =>
      (r.task? a.currentTaskIndex).map fun task =>
        ⟨r, task, a.currentTaskIndex, ⟨a.currentTaskIndex + 1, UInt64.ofNat r.tasks.length⟩⟩

/-- A record of a typed store is read. -/
theorem run_readDocument? {α : Type} [Document α] [LawfulDocument α] [Record α] {id : String}
    {setting : Setting} (hs : setting.store.WellTyped) :
    (readDocument? ((Record.collection α).key id)).run setting =
      (.ok (setting.store.get? α ((Record.collection α).key id)), setting) :=
  Operation.run_readRecord? hs rfl

theorem Ritual.run_find? {setting : Setting} (hs : setting.store.Regular) (id : String) :
    (Ritual.find? id).run setting = (.ok (setting.store.get? Ritual (Ritual.key id)), setting) :=
  run_readDocument? hs.wellTyped

theorem Ritual.run_get {setting : Setting} {id : String} {r : Ritual}
    (hs : setting.store.Regular) (hr : setting.store.get? Ritual (Ritual.key id) = some r) :
    (Ritual.get id).run setting = (.ok r, setting) := by
  refine (Operation.run_bind (Ritual.run_find? hs id)).trans ?_
  rw [hr]
  rfl

theorem Ritual.run_evaluate {setting : Setting} {id : String} {r : Ritual}
    (hs : setting.store.Regular) (hr : setting.store.get? Ritual (Ritual.key id) = some r)
    (t : Trigger) :
    (Ritual.evaluate id t).run setting =
      (.ok (Condition.matchingActions r.conditions t), setting) :=
  Operation.run_bind (Ritual.run_get hs hr)

/-- **The current task is found as it stands.** The ritual of an assignment is stored. -/
theorem Assignment.run_currentTask? {setting : Setting} (hs : setting.store.Regular) :
    (Assignment.currentTask? subject).run setting =
      (.ok (setting.store.currentTask? subject), setting) := by
  have hfind : (Assignment.find? subject).run setting =
      (.ok (setting.store.get? Assignment (Assignment.key subject)), setting) :=
    run_readDocument? hs.wellTyped
  refine (Operation.run_bind hfind).trans ?_
  rw [Store.currentTask?]
  cases ha : setting.store.get? Assignment (Assignment.key subject) with
  | none => rfl
  | some a =>
    simp only [Option.bind_some]
    split
    · rfl
    · obtain ⟨r, hr, -⟩ := hs.mirrored.assigned subject a ha
      refine (Operation.run_bind (Ritual.run_get hs hr)).trans ?_
      rw [hr, Option.bind_some]
      cases r.task? a.currentTaskIndex with
      | none => rfl
      | some task => rfl

/-! ## What is current -/

/-- A task is the one that a subject should do next: the subject's assignment is active, assignment
and ritual point to it, and it is pending. -/
structure IsCurrent (s : Store) (subject : String) (c : CurrentTask) : Prop where
  assignment : ∃ a, s.get? Assignment (Assignment.key subject) = some a ∧ a.status = .active ∧
    a.ritualId = c.ritual.id ∧ a.currentTaskIndex = c.taskIndex
  ritual : s.get? Ritual (Ritual.key c.ritual.id) = some c.ritual
  subject : c.ritual.subjectId = subject
  pointer : c.ritual.currentTaskIndex = c.taskIndex
  task : c.ritual.task? c.taskIndex = some c.task
  pending : c.task.status = .pending ∧ c.task.completedAt = none
  counted : c.progress.current.toNat = c.taskIndex.toNat + 1
  total : c.progress.total.toNat = c.ritual.tasks.length
  inside : c.taskIndex.toNat < c.ritual.tasks.length

/-- An active assignment points inside its ritual. -/
theorem Store.Regular.active (hs : s.Regular) {a : Assignment}
    (ha : s.get? Assignment (Assignment.key subject) = some a) (hactive : a.status = .active) :
    ∃ c, s.currentTask? subject = some c ∧ IsCurrent s subject c ∧ c.ritual.id = a.ritualId ∧
      c.taskIndex = a.currentTaskIndex := by
  obtain ⟨r, hr, hfollows⟩ := hs.mirrored.assigned subject a ha
  have hprogress := hs.mirrored.progress _ r hr
  have hid : r.id = a.ritualId := hfollows.ritual.symm
  have hsubject : a.subjectId = subject := (hs.wellTyped.named (α := Assignment) ha).2
  have hinside : a.currentTaskIndex.toNat < r.tasks.length := by
    refine lt_of_le_of_ne (hfollows.pointer ▸ hprogress.pointer) fun hend => ?_
    rw [hfollows.pointer] at hend
    have hcompleted := hprogress.status.2 hend
    rw [← hfollows.status, hactive] at hcompleted
    cases hcompleted
  obtain ⟨task, htask⟩ : ∃ task, r.task? a.currentTaskIndex = some task :=
    ⟨_, List.getElem?_eq_getElem hinside⟩
  let c : CurrentTask :=
    ⟨r, task, a.currentTaskIndex, ⟨a.currentTaskIndex + 1, UInt64.ofNat r.tasks.length⟩⟩
  have hcurrent : s.currentTask? subject = some c := by
    rw [Store.currentTask?, ha, Option.bind_some, Assignment.isComplete_eq_false.2 hactive,
      if_neg Bool.false_ne_true, hr, Option.bind_some, htask]
    rfl
  obtain ⟨-, hdone⟩ := hprogress.tasks _ task htask
  rw [Task.IsDone, if_neg (hfollows.pointer ▸ lt_irrefl _)] at hdone
  have hfew := hprogress.few
  refine ⟨c, hcurrent, ⟨⟨a, ha, hactive, hid.symm, rfl⟩, ?_, ?_, hfollows.pointer.symm, htask,
    hdone, ?_, ?_, hinside⟩, hid, rfl⟩
  · rw [hid]
    exact hr
  · exact hfollows.subject.symm.trans hsubject
  · exact hprogress.toNat_next htask
  · exact UInt64.toNat_ofNat_of_lt (lt_trans hfew (by decide))

/-- **A subject has a current task exactly when its assignment is active.** -/
theorem Store.Regular.currentTask?_isSome (hs : s.Regular) :
    (s.currentTask? subject).isSome = true ↔
      ∃ a, s.get? Assignment (Assignment.key subject) = some a ∧ a.status = .active := by
  constructor
  · intro hsome
    obtain ⟨c, hc⟩ := Option.isSome_iff_exists.1 hsome
    obtain ⟨a, ha, hc⟩ := Option.bind_eq_some_iff.1 hc
    refine ⟨a, ha, Assignment.isComplete_eq_false.1 ?_⟩
    by_contra hcomplete
    rw [if_pos (Bool.eq_true_of_not_eq_false hcomplete)] at hc
    cases hc
  · rintro ⟨a, ha, hactive⟩
    obtain ⟨c, hc, -⟩ := hs.active ha hactive
    rw [hc]
    rfl

theorem Store.Regular.isCurrent (hs : s.Regular) {c : CurrentTask}
    (hc : s.currentTask? subject = some c) : IsCurrent s subject c := by
  obtain ⟨a, ha, hactive⟩ := hs.currentTask?_isSome.1 (by rw [hc]; rfl)
  obtain ⟨c', hc', hcurrent, -⟩ := hs.active ha hactive
  cases hc.symm.trans hc'
  exact hcurrent

/-! ## Completing it -/

namespace Completion

variable {step : Step} {evidence : Evidence} {policy : RetryPolicy} {results : List ActionResult}

/-- **A step is open exactly when it is the current one and its task takes the evidence.** -/
theorem isOpen_iff (hs : s.Regular) : IsOpen s step evidence ↔
    ∃ c, s.currentTask? step.subject = some c ∧ step.ritual = c.ritual.id ∧
      step.index = c.taskIndex ∧ c.task.evidenceKind.accepts evidence = true := by
  constructor
  · rintro ⟨r, a, task, h⟩
    obtain ⟨hactive, hindex⟩ := staleness?_eq_none_iff.1 h.current
    obtain ⟨c, hc, hcurrent, hritual, htask⟩ := hs.active h.assignment hactive
    rw [hindex] at htask
    rw [h.assigned] at hritual
    have hr := hcurrent.ritual
    rw [hritual] at hr
    have hsame : r = c.ritual := Option.some.inj (h.ritual.symm.trans hr)
    have htaken := h.taken
    rw [hsame, ← htask, hcurrent.task] at htaken
    rw [← Option.some.inj htaken] at h
    exact ⟨c, hc, hritual.symm, htask.symm, h.accepted⟩
  · rintro ⟨c, hc, hritual, hindex, haccepted⟩
    have hcurrent := hs.isCurrent hc
    obtain ⟨a, ha, hactive, hassigned, hpointer⟩ := hcurrent.assignment
    refine ⟨c.ritual, a, c.task, hritual ▸ hcurrent.ritual, ha, hassigned.trans hritual.symm, ?_,
      hindex ▸ hcurrent.task, haccepted⟩
    exact staleness?_eq_none_iff.2 ⟨hactive, hpointer.trans hindex.symm⟩

/-- After the current task the next one is current, until there is none. -/
theorem Completes.currentTask? {u : Store} (h : Completes s step evidence results u)
    (hs : s.Regular) {c : CurrentTask} (hc : s.currentTask? step.subject = some c) :
    if c.taskIndex.toNat + 1 = c.ritual.tasks.length then u.currentTask? step.subject = none
    else ∃ c', u.currentTask? step.subject = some c' ∧ c'.ritual.id = c.ritual.id ∧
      c'.taskIndex.toNat = c.taskIndex.toNat + 1 := by
  obtain ⟨r, a, task, now, hopen, htaken⟩ := h.taken hs
  obtain ⟨a', ha', hritual, hindex, hstatus⟩ := htaken.assignment
  have hu := htaken.proceeds.regular hs
  obtain ⟨c₀, hc₀, hritual₀, hindex₀, -⟩ := (isOpen_iff hs).1 ⟨r, a, task, hopen⟩
  cases hc.symm.trans hc₀
  have hsame : r = c.ritual := by
    have hstored := (hs.isCurrent hc).ritual
    rw [← hritual₀, hopen.ritual] at hstored
    exact Option.some.inj hstored
  have hprogress := hs.mirrored.progress _ r hopen.ritual
  have hlast := hprogress.ritualCompleted_iff hopen.taken now
  rw [statusAfter] at hstatus
  rw [← hindex₀, ← hsame]
  split
  · rename_i hend
    rw [if_pos (hlast.2 hend)] at hstatus
    refine Option.not_isSome_iff_eq_none.1 fun hsome => ?_
    obtain ⟨a₁, ha₁, hactive⟩ := hu.currentTask?_isSome.1 hsome
    cases ha'.symm.trans ha₁
    cases hstatus.symm.trans hactive
  · rename_i hmore
    rw [if_neg (mt hlast.1 hmore)] at hstatus
    obtain ⟨c', hc', -, hritual', hindex'⟩ := hu.active ha' hstatus
    refine ⟨c', hc', ?_, ?_⟩
    · rw [hritual', hritual, hritual₀, hsame]
    · rw [hindex', hindex]
      exact hprogress.toNat_next hopen.taken

/-! ## Completing what is left -/

/-- The task that an assignment points to is open, for evidence that it takes. -/
theorem isOpen_of_pointer (hs : s.Regular) {r : Ritual} {a : Assignment} {task : Task}
    (hr : s.get? Ritual (Ritual.key step.ritual) = some r)
    (ha : s.get? Assignment (Assignment.key step.subject) = some a)
    (hassigned : a.ritualId = step.ritual) (hindex : a.currentTaskIndex = step.index)
    (htask : r.task? step.index = some task)
    (haccepted : task.evidenceKind.accepts evidence = true) : IsOpen s step evidence := by
  have hfollows := hs.mirrored.follows hr ha hassigned
  have hactive : a.status = .active := by
    cases hstatus : a.status with
    | active => rfl
    | completed =>
      -- The pointer of a completed ritual is behind its last task.
      have hend := (hs.mirrored.progress _ r hr).status.1 (hfollows.status ▸ hstatus)
      rw [← hfollows.pointer, hindex] at hend
      have hinside := (List.getElem?_eq_some_iff.1 htask).1
      omega
  exact ⟨r, a, task, hr, ha, hassigned, staleness?_eq_none_iff.2 ⟨hactive, hindex⟩, htask,
    haccepted⟩

/-- Completes tasks one after the other, from an index on, with an evidence for each. -/
def completeFrom (policy : RetryPolicy) (ritual subject : String) :
    UInt64 → List Evidence → Operation Unit
  | _, [] => pure ()
  | index, evidence :: rest => do
    let _ ← complete policy ⟨ritual, subject, index⟩ evidence
    completeFrom policy ritual subject (index + 1) rest

/-- **Tasks that take the evidence are completed in their order, and then the ritual is.** -/
theorem keeps_completeFrom (policy : RetryPolicy) {γ : Type} {k : Contract γ} {g : γ}
    {ritual subject : String} {index : UInt64} {evidences : List Evidence} {r : Ritual}
    {a : Assignment} (hk : k.Alone g) (hs : s.Regular)
    (hr : s.get? Ritual (Ritual.key ritual) = some r)
    (ha : s.get? Assignment (Assignment.key subject) = some a) (hassigned : a.ritualId = ritual)
    (hindex : a.currentTaskIndex = index)
    (haccepted : List.Forall₂ (fun (task : Task) evidence => task.evidenceKind.accepts evidence)
      (r.tasks.drop index.toNat) evidences) (hgives : ∀ u v, k.gives g u g v) :
    (completeFrom policy ritual subject index evidences).Keeps k (fun _ _ _ => False)
      (fun _ _ t => ∃ r', t.get? Ritual (Ritual.key ritual) = some r' ∧ r'.status = .completed)
      g s := by
  induction evidences generalizing s index r a with
  | nil =>
    -- No task is left, so the pointer is behind the last one.
    have hprogress := hs.mirrored.progress _ r hr
    have hfollows := hs.mirrored.follows hr ha hassigned
    have hend := List.drop_eq_nil_iff.1 (List.forall₂_nil_right_iff.1 haccepted)
    have hpointer := hprogress.pointer
    refine .pure ⟨r, hr, hprogress.status.2 ?_⟩
    rw [← hfollows.pointer, hindex] at hpointer ⊢
    omega
  | cons evidence rest ih =>
    obtain ⟨task, others, hfirst, hothers, hdrop⟩ := List.forall₂_cons_right_iff.1 haccepted
    let step : Step := ⟨ritual, subject, index⟩
    have htask : r.task? index = some task := by
      rw [Ritual.task?, ← List.head?_drop, hdrop, List.head?_cons]
    have hopen : IsOpen s step evidence :=
      isOpen_of_pointer hs hr ha hassigned hindex htask hfirst
    refine .bind (keeps_complete_alone hk hs (fun hclosed => absurd hopen hclosed)
      fun u v _ => hgives u v) ?_
    rintro outcome g u ⟨rfl, hreported⟩
    obtain ⟨r₀, a₀, task₀, now, hopen₀, htaken⟩ := hreported.completes.taken hs
    obtain ⟨a', ha', hritual, hindex', -⟩ := htaken.assignment
    cases hr.symm.trans hopen₀.ritual
    have hnext := (hs.mirrored.progress _ r hr).toNat_next hopen₀.taken
    refine ih (htaken.proceeds.regular hs) htaken.ritual ha' hritual hindex' ?_
    -- The step changes nothing behind its task.
    have hothers' : (advance r (recordOf step r task₀ now)).tasks.drop (index + 1).toNat =
        others := by
      rw [hnext]
      refine (List.drop_modify_of_lt _ _ _ _ (Nat.lt_succ_self _)).trans ?_
      exact List.tail_drop.symm.trans (congrArg List.tail hdrop)
    rw [hothers']
    exact hothers

end Completion

/-! ## The order of records -/

/-- A change writes a record exactly when it takes a step. -/
theorem Change.Makes.records_cases {ch : Change} (h : ch.Makes s t) :
    (t.all CompletionRecord = s.all CompletionRecord ∧ Collection.completions ∉ ch.collections) ∨
    ∃ step r a task evidence now, ch = .stepping step r a task evidence now ∧
      t.all CompletionRecord = s.all CompletionRecord ++ [Completion.recordOf step r task now] := by
  cases ch with
  | stepping step r a task evidence now =>
    exact .inr ⟨step, r, a, task, evidence, now, rfl, (Completion.records_of_stepping h).1⟩
  | opening _ | booking _ _ _ _ _ | queueing _ _ | marking _ | unlocking _ _ _ | creating _ _ _ _
  | logging _ _ =>
    refine .inl ⟨h.all_untouched ?_, ?_⟩
    all_goals simp [Change.collections, Record.collection]

/-- The indices of the steps that are on record for a ritual, in the order of the records. -/
def Store.recordedSteps (s : Store) (ritual : String) : List Nat :=
  ((s.all CompletionRecord).filter (·.ritualId = ritual)).map (·.taskIndex.toNat)

/-- The steps of every ritual are recorded in order, up to the pointer. -/
def Store.RecordsInOrder (s : Store) : Prop :=
  ∀ id r, s.get? Ritual (Ritual.key id) = some r →
    s.recordedSteps id = List.range r.currentTaskIndex.toNat

/-- Of a ritual that is not there nothing is on record. -/
theorem Store.Regular.recordedSteps_of_absent (hs : s.Regular) {id : String}
    (habsent : s.read? (Ritual.key id) = none) : s.recordedSteps id = [] := by
  have hnone : (s.all CompletionRecord).filter (·.ritualId = id) = [] := by
    refine List.filter_eq_nil_iff.2 fun c hc => ?_
    obtain ⟨key, hget⟩ := (Store.mem_all hs.distinctKeys).1 hc
    obtain ⟨r, hr, -⟩ := hs.mirrored.records key c hget
    rw [decide_eq_true_iff]
    intro heq
    rw [heq] at hr
    exact Store.present_of_get? hr habsent
  rw [Store.recordedSteps, hnone]
  rfl

/-- Changes keep the records in order. -/
theorem Store.RecordsInOrder.preserved {ch : Change} (hordered : s.RecordsInOrder)
    (hs : s.Regular) (hmakes : ch.Makes s t) : t.RecordsInOrder := by
  intro id r hr
  rcases hmakes.records_cases with ⟨hrecords, hnostep⟩ |
    ⟨step, r₀, a, task, evidence, now, rfl, hrecords⟩
  · rw [Store.recordedSteps, hrecords]
    rcases hmakes.ritual_cases hs.wellTyped hr with hsame | ⟨d, activity, now, rfl, rfl⟩ |
      ⟨step, r₀, a, task, evidence, now, rfl, -, -⟩
    · exact hordered id r hsame
    · -- A new ritual points to its first task.
      have hpointer : r.currentTaskIndex.toNat = 0 := by
        rw [hmakes.allowed.start]
        rfl
      exact (hs.recordedSteps_of_absent hmakes.allowed.new).trans (by rw [hpointer]; rfl)
    · exact absurd (by simp [Change.collections]) hnostep
  · obtain ⟨hid, hsubject, hindex, -⟩ :=
      hs.mirrored.follows_of_stepping hs.wellTyped hmakes.allowed
    have hprogress := hs.mirrored.progress _ r₀ hmakes.allowed.ritual
    have hritual := (Mirrored.stepped_of_makes hs.wellTyped hmakes).ritual id
    rw [Store.recordedSteps, hrecords, List.filter_append, List.map_append]
    rw [hr] at hritual
    split at hritual
    · rename_i hstep
      subst hstep
      cases hritual
      have hbefore := hordered _ r₀ hmakes.allowed.ritual
      rw [Store.recordedSteps, hindex] at hbefore
      change _ = List.range (step.index + 1).toNat
      rw [hbefore, hprogress.toNat_next hmakes.allowed.taken, List.range_succ]
      simp [Completion.recordOf]
    · rename_i hother
      have hbefore := hordered id r hritual.symm
      rw [Store.recordedSteps] at hbefore
      rw [hbefore]
      simp [Completion.recordOf, Ne.symm hother]

theorem recordsInOrder_after (ttl : Int) (es : List Event) :
    ((World.initial ttl).after es).store.RecordsInOrder := by
  have h := World.induction_on_changes (P := fun s => s.Regular ∧ s.RecordsInOrder) ttl es
    ⟨Store.regular_empty, nofun⟩
    fun s t _ ch _ _ h _ _ hmakes => ⟨hmakes.regular h.1, h.2.preserved h.1 hmakes⟩
  exact h.2

/-! ## The main statement -/

open Completion (complete completeFrom)

/-- **The current task can be completed, and nothing else can.** In a store that the engine has
reached, and with nobody else there:

The current task of a subject is always found. There is one exactly when the subject's assignment is
active, and then it is the pending task that assignment and ritual point to. It is completed with
any evidence that it takes, and then the next task of the ritual is current, or none if it was the
last.
Any other step of the subject is refused, and so is other evidence, and the store stays as it is;
without a current task that is every step. With evidence for all tasks that are left, taken in their
order, the ritual is completed.

The steps that are on record for a ritual are those before its pointer, in their order. So a ritual
that is completed has taken one completion for each of its tasks. -/
theorem only_current_completed (ttl : Int) (es : List Event) (subject : String) :
    ∃ current : Option CurrentTask,
      (∀ setting : Setting, setting.store = ((World.initial ttl).after es).store →
        (Assignment.currentTask? subject).run setting = (.ok current, setting)) ∧
      (current.isSome = true ↔ ∃ a, ((World.initial ttl).after es).store.get? Assignment
        (Assignment.key subject) = some a ∧ a.status = .active) ∧
      (∀ c ∈ current, IsCurrent ((World.initial ttl).after es).store subject c) ∧
      (∀ c ∈ current, ∀ (policy : RetryPolicy) (evidence : Evidence) (setting : Setting),
        setting.store = ((World.initial ttl).after es).store → setting.Undisturbed →
        c.task.evidenceKind.accepts evidence = true →
        ∃ outcome, ((complete policy ⟨c.ritual.id, subject, c.taskIndex⟩ evidence).run setting).1 =
            .ok outcome ∧
          ∀ later : Setting, later.store =
              ((complete policy ⟨c.ritual.id, subject, c.taskIndex⟩ evidence).run setting).2.store →
            ∃ next, (Assignment.currentTask? subject).run later = (.ok next, later) ∧
              if c.taskIndex.toNat + 1 = c.ritual.tasks.length then next = none
              else ∃ c' ∈ next, c'.ritual.id = c.ritual.id ∧
                c'.taskIndex.toNat = c.taskIndex.toNat + 1) ∧
      (∀ (policy : RetryPolicy) (step : Step) (evidence : Evidence) (setting : Setting),
        setting.store = ((World.initial ttl).after es).store → setting.Undisturbed →
        step.subject = subject →
        (∀ c ∈ current, step.ritual ≠ c.ritual.id ∨ step.index ≠ c.taskIndex ∨
          c.task.evidenceKind.accepts evidence = false) →
        (∃ e, ((complete policy step evidence).run setting).1 = .error e) ∧
          ((complete policy step evidence).run setting).2.store = setting.store) ∧
      (∀ c ∈ current, ∀ (policy : RetryPolicy) (evidences : List Evidence) (setting : Setting),
        setting.store = ((World.initial ttl).after es).store → setting.Undisturbed →
        List.Forall₂ (fun (task : Task) evidence => task.evidenceKind.accepts evidence)
          (c.ritual.tasks.drop c.taskIndex.toNat) evidences →
        ((completeFrom policy c.ritual.id subject c.taskIndex evidences).run setting).1 = .ok () ∧
          ∃ r, ((completeFrom policy c.ritual.id subject c.taskIndex evidences).run
            setting).2.store.get? Ritual (Ritual.key c.ritual.id) = some r ∧
              r.status = .completed) ∧
      ∀ id r, ((World.initial ttl).after es).store.get? Ritual (Ritual.key id) = some r →
        ((World.initial ttl).after es).store.recordedSteps id =
          List.range r.currentTaskIndex.toNat ∧
        (r.status = .completed ↔ r.currentTaskIndex.toNat = r.tasks.length) := by
  have hs := World.regular_after ttl es
  have hordered := recordsInOrder_after ttl es
  generalize ((World.initial ttl).after es).store = s at hs hordered ⊢
  refine ⟨s.currentTask? subject, ?_, hs.currentTask?_isSome, fun c hc => hs.isCurrent hc, ?_, ?_,
    ?_, ?_⟩
  · rintro setting rfl
    exact Assignment.run_currentTask? hs
  · rintro c hc policy evidence setting rfl halone haccepted
    have hopen : Completion.IsOpen setting.store ⟨c.ritual.id, subject, c.taskIndex⟩ evidence :=
      (Completion.isOpen_iff hs).2 ⟨c, hc, rfl, rfl, haccepted⟩
    obtain ⟨outcome, hok, hcompletes⟩ := Completion.complete_run policy hs halone hopen
    refine ⟨outcome, hok, fun later hlater => ?_⟩
    rw [← hlater] at hcompletes
    obtain ⟨r, a, task, now, -, htaken⟩ := hcompletes.taken hs
    exact ⟨_, Assignment.run_currentTask? (htaken.proceeds.regular hs),
      hcompletes.currentTask? hs hc⟩
  · rintro policy step evidence setting rfl halone rfl hother
    refine Completion.complete_run_of_closed policy hs halone fun hopen => ?_
    obtain ⟨c, hc, hritual, hindex, haccepted⟩ := (Completion.isOpen_iff hs).1 hopen
    rcases hother c hc with h | h | h
    · exact h hritual
    · exact h hindex
    · cases haccepted.symm.trans h
  · rintro c hc policy evidences setting rfl halone haccepted
    have hcurrent := hs.isCurrent hc
    obtain ⟨a, ha, -, hassigned, hindex⟩ := hcurrent.assignment
    have hkeeps := Completion.keeps_completeFrom policy
      (Contract.alone_alone fun _ => True) hs hcurrent.ritual ha hassigned hindex haccepted
      fun _ _ => trivial
    rcases hkeeps.run halone fun _ _ => trivial with ⟨_, _, _, hfalse⟩ | ⟨_, _, hok, hcompleted⟩
    · exact hfalse.elim
    · exact ⟨hok, hcompleted⟩
  · exact fun id r hr => ⟨hordered id r hr, (hs.mirrored.progress id r hr).status⟩

/-- The only task of `walk` is completed, and then there is nothing left to do. -/
theorem only_walk_completed :
    ∃ outcome, ((complete ⟨1⟩ walk (.text "done")).run (.still walkStore ⟨1700000001, 0⟩)).1 =
        .ok outcome ∧
      ∀ later : Setting, later.store = ((complete ⟨1⟩ walk (.text "done")).run
          (.still walkStore ⟨1700000001, 0⟩)).2.store →
        (Assignment.currentTask? walk.subject).run later = (.ok none, later) := by
  obtain ⟨current, hfound, -, -, hcompleted, -⟩ := only_current_completed 0 walkBegun walk.subject
  have hwalk : ((Assignment.currentTask? walk.subject).run (.still walkStore ⟨1700000001, 0⟩)).1.map
      (fun x => x.map fun c => (c.ritual.id, c.taskIndex, c.task.evidenceKind,
        c.ritual.tasks.length)) = .ok (some (walk.ritual, walk.index, .any, 1)) := by
    decide +kernel
  rw [hfound _ rfl] at hwalk
  obtain ⟨c, rfl, hc⟩ := Option.map_eq_some_iff.1 (Except.ok.inj hwalk)
  simp only [Prod.mk.injEq] at hc
  obtain ⟨hritual, hindex, hkind, hlength⟩ := hc
  have hend := hcompleted c rfl ⟨1⟩ (.text "done") (.still walkStore ⟨1700000001, 0⟩) rfl
    (Setting.undisturbed_still (by decide)) (by rw [hkind]; rfl)
  rw [hritual, hindex, hlength] at hend
  obtain ⟨outcome, hok, hnext⟩ := hend
  refine ⟨outcome, hok, fun later hlater => ?_⟩
  obtain ⟨next, hrun, hnone⟩ := hnext later hlater
  rw [if_pos (by decide)] at hnone
  rw [hrun, hnone]

end RitualLedger
