import RitualLedger.Proofs.Completion.Course
import RitualLedger.Proofs.Engine.Contention
import RitualLedger.Proofs.Ritual.Checks
import RitualLedger.Proofs.Store.Apart

/-!
# What becomes of a definition

A definition that nobody interferes with becomes a ritual, or it is refused and nothing is written.
The refusal is that of the first broken check, where those of the two accounts come behind those of
the definition (`Ritual.creationChecks`). When none is broken, three documents are written: the
ritual, the assignment of its subject in place of an older one, and an entry in the log of
activities (`Ritual.Created`).
-/

namespace RitualLedger

/-! ## What writes add -/

/-- Of documents that are all different, writes add those that are not there. -/
theorem Store.added_of_nodup {s : Store} {ws : List (DocKey × Json)}
    (hkeys : (ws.map (·.1)).Nodup) :
    s.added ws = (ws.map (·.1)).filter fun k => (s.read? k).isNone := by
  induction ws generalizing s with
  | nil => rfl
  | cons w rest ih =>
    obtain ⟨hw, hrest⟩ := List.nodup_cons.1 hkeys
    have hsame : ∀ k ∈ rest.map (·.1), ((s.put w.1 w.2).read? k).isNone = (s.read? k).isNone := by
      intro k hk
      rw [read?_put_of_ne]
      rintro rfl
      exact hw hk
    rw [added, ih hrest, List.filter_congr hsame, List.map_cons, List.filter_cons]
    simp only [Option.isNone_iff_eq_none]

/-! ## Drawing several ids -/

/-- The values that will be drawn next. -/
def Source.upcoming {α : Type} (s : Source α) (n : Nat) : List α :=
  (List.range n).map fun k => s.value (s.drawn + k)

/-- The source after some values were drawn. -/
def Source.skip {α : Type} (s : Source α) (n : Nat) : Source α := { s with drawn := s.drawn + n }

theorem Source.upcoming_succ {α : Type} (s : Source α) (n : Nat) :
    s.upcoming (n + 1) = s.draw.1 :: s.draw.2.upcoming n := by
  rw [upcoming, List.range_succ_eq_map, List.map_cons, List.map_map]
  refine congrArg _ (List.map_congr_left fun k _ => congrArg s.value ?_)
  change s.drawn + (k + 1) = s.drawn + 1 + k
  omega

theorem Source.skip_succ {α : Type} (s : Source α) (n : Nat) :
    s.skip (n + 1) = s.draw.2.skip n := by
  simp only [skip, draw, Nat.add_assoc, Nat.add_comm 1 n]

namespace Ritual

theorem begun_cons (order : Nat) (t : TaskDefinition) (ts : List TaskDefinition) (id : String)
    (ids : List String) : begun order (t :: ts) (id :: ids) =
      ⟨id, UInt64.ofNat order, t.title, t.description, t.evidenceKind, t.tokenReward, .pending,
        none⟩ :: begun (order + 1) ts ids := by
  rw [begun, List.zip_cons_cons, List.zipIdx_cons, List.map_cons]
  rfl

/-- The tasks of a definition get the ids that come next. -/
theorem run_drawTasks (order : Nat) (ts : List TaskDefinition) (s : Setting) :
    (drawTasks order ts).run s =
      (begun order ts (s.ids.upcoming ts.length), { s with ids := s.ids.skip ts.length }) := by
  induction ts generalizing order s with
  | nil => rfl
  | cons t rest ih =>
    change ((drawTasks (order + 1) rest).bind _).run { s with ids := s.ids.draw.2 } = _
    rw [Program.run_bind, ih, List.length_cons, Source.upcoming_succ, Source.skip_succ, begun_cons]
    rfl

/-! ## Running the creation alone -/

/-- The ritual that is created from a definition in a setting. -/
def drafted (d : Definition) (s : Setting) : Ritual :=
  start d s.ids.draw.1 (begun 0 d.tasks (s.ids.draw.2.upcoming d.tasks.length)) s.clock.draw.1

/-- The id of the entry in the log of activities for it. -/
def draftedActivity (d : Definition) (s : Setting) : String :=
  (s.ids.draw.2.skip d.tasks.length).draw.1

variable {policy : RetryPolicy} {d : Definition} {setting : Setting}

theorem run_create_invalid {fault : ValidationError} (hinvalid : d.validate = .error fault) :
    (create policy d).run setting = (.error (.validation fault), setting) := by
  simp only [create, hinvalid]
  rfl

/-- A definition that passes is decided by one transaction on its ritual. -/
theorem run_create_valid (policy : RetryPolicy) (setting : Setting)
    (hvalid : d.validate = .ok ()) :
    ∃ later : Setting, later.store = setting.store ∧ later.intrusions = setting.intrusions ∧
      (create policy d).run setting =
        (transact policy (creationKeys (drafted d setting))
          (decideCreation (drafted d setting) (draftedActivity d setting)
            (drafted d setting).createdAt)).run later := by
  let timed : Setting := { setting with clock := setting.clock.draw.2 }
  let named : Setting := { timed with ids := timed.ids.draw.2 }
  let listed : Setting := { named with ids := named.ids.skip d.tasks.length }
  let later : Setting := { listed with ids := listed.ids.draw.2 }
  have hchecked : (Operation.ofValidation d.validate).run setting = (.ok (), setting) := by
    rw [hvalid]
    rfl
  have hnow : (liftM (Request.now : Program _) : Operation _).run setting =
      (.ok setting.clock.draw.1, timed) := rfl
  have hid : (liftM (Request.freshId : Program _) : Operation _).run timed =
      (.ok setting.ids.draw.1, named) := rfl
  have htasks : (liftM (drawTasks 0 d.tasks : Program _) : Operation _).run named =
      (.ok (begun 0 d.tasks (named.ids.upcoming d.tasks.length)), listed) := by
    rw [Operation.run_lift, run_drawTasks]
  have hactivity : (liftM (Request.freshId : Program _) : Operation _).run listed =
      (.ok (draftedActivity d setting), later) := rfl
  refine ⟨later, rfl, rfl, ?_⟩
  refine (Operation.run_bind hchecked).trans ?_
  refine (Operation.run_bind hnow).trans ?_
  refine (Operation.run_bind hid).trans ?_
  refine (Operation.run_bind htasks).trans ?_
  exact Operation.run_bind hactivity

/-! ## What is written -/

/-- What the creation of a ritual commits: ritual and entry must be new, the assignment need not
be. -/
def creationPlan (r : Ritual) (activity : String) : List Write :=
  [.insert (key r.id) (encode r),
    .put (Assignment.key r.subjectId) (encode (firstAssignment r r.createdAt)),
    .insert (Collection.activities.key activity) (encode (creation r r.createdAt))]

/-- The documents that are written then. -/
def creationWrites (r : Ritual) (activity : String) : List (DocKey × Json) :=
  (creationPlan r activity).map fun w => (w.key, w.body)

/-- A ritual was created: it can be read back, as can the assignment of its subject and an entry in
the log of activities; ritual and entry are new; no other document has changed; and what is new is
stored behind what was there. -/
structure Created (r : Ritual) (activity : String) (s t : Store) : Prop where
  ritual : t.get? Ritual (key r.id) = some r
  assignment : t.get? Assignment (Assignment.key r.subjectId) =
    some (firstAssignment r r.createdAt)
  entry : t.get? Activity (Collection.activities.key activity) = some (creation r r.createdAt)
  newRitual : s.read? (key r.id) = none
  newEntry : s.read? (Collection.activities.key activity) = none
  others : ∀ k ∉ (creationWrites r activity).map (·.1), t.read? k = s.read? k
  places : t.keys = s.keys ++
    ((creationWrites r activity).map (·.1)).filter fun k => (s.read? k).isNone

/-- The three documents have different names. -/
theorem nodup_creationWrites (r : Ritual) (activity : String) :
    ((creationWrites r activity).map (·.1)).Nodup := by
  have hne : ∀ {c c' : Collection} {i i' : String}, c ≠ c' → c.key i ≠ c'.key i' :=
    fun h => Collection.key_ne_of_ne h
  have hassignment : key r.id ≠ Assignment.key r.subjectId := hne (by decide)
  have hentry : key r.id ≠ Collection.activities.key activity := hne (by decide)
  have hrest : Assignment.key r.subjectId ≠ Collection.activities.key activity := hne (by decide)
  simp [creationWrites, creationPlan, Write.key, hassignment, hentry, hrest]

theorem created_of_writes {r : Ritual} {activity : String} {s : Store} (hr : Fits r)
    (hnew : s.read? (key r.id) = none)
    (hnewEntry : s.read? (Collection.activities.key activity) = none) :
    Created r activity s (s.putAll (creationWrites r activity)) := by
  have hkeys := nodup_creationWrites r activity
  have hread : ∀ {α : Type} [Document α] [LawfulDocument α] {k : DocKey} {x : α}, Fits x →
      (k, encode x) ∈ creationWrites r activity →
        (s.putAll (creationWrites r activity)).get? α k = some x := by
    intro α _ _ k x hx hmem
    obtain ⟨version, hversion⟩ := Store.read?_putAll_of_mem (s := s) hkeys hmem
    rw [Store.get?_of_read? hversion]
    exact decode_encode hx
  have hwrites : creationWrites r activity = [(key r.id, encode r),
      (Assignment.key r.subjectId, encode (firstAssignment r r.createdAt)),
      (Collection.activities.key activity, encode (creation r r.createdAt))] := rfl
  have hassignment : Fits (firstAssignment r r.createdAt) := ⟨hr.2.2, hr.2.2⟩
  have hentry : Fits (creation r r.createdAt) := hr.2.2
  refine ⟨hread hr (by simp [hwrites]), hread hassignment (by simp [hwrites]),
    hread hentry (by simp [hwrites]), hnew, hnewEntry, fun k hk => ?_, ?_⟩
  · exact Store.read?_putAll_of_notMem fun w hw heq => hk (List.mem_map.2 ⟨w, hw, heq⟩)
  · rw [Store.keys_putAll, Store.added_of_nodup hkeys]

/-- The tasks of a ritual that begins have not been completed, so it can be read back. -/
theorem fits_drafted (hvalid : d.validate = .ok ()) (hnow : Fits setting.clock.draw.1) :
    Fits (drafted d setting) := by
  have hconditions := Definition.fits_of_validateConditions
    (Definition.accepted_of_validate hvalid).conditions
  refine ⟨hconditions, fun t ht => ?_, hnow⟩
  obtain ⟨x, -, rfl⟩ := List.mem_map.1 ht
  exact nofun

/-! ## What becomes of it -/

/-- The checks of the accounts of a ritual. -/
def accountChecks (owner subject : String) (s : Store) : List (Check EngineError) :=
  [⟨(s.read? (Ledger.accountKey owner)).isNone, .notFound .account owner⟩,
    ⟨(s.read? (Ledger.accountKey subject)).isNone, .notFound .account subject⟩]

/-- The checks of a creation: those of the definition, then those of the accounts. -/
def creationChecks (d : Definition) (s : Store) : List (Check EngineError) :=
  d.checks.map (Check.map .validation) ++ accountChecks d.ownerId d.subjectId s

/-- **What becomes of a definition.** It is refused by its first broken check and nothing is
written, or none is broken and its ritual is created. -/
inductive CreationOutcome (d : Definition) (r : Ritual) (activity : String) (s : Store) :
    Except EngineError Ritual → Store → Prop
  | created {t : Store} (hchecks : Check.first? (creationChecks d s) = none)
    (h : Created r activity s t) : CreationOutcome d r activity s (.ok r) t
  | refused (e : EngineError) (h : Check.first? (creationChecks d s) = some e) :
    CreationOutcome d r activity s (.error e) s

/-- Where the checks of the definition are passed, those of the accounts are left. -/
theorem first?_creationChecks (d : Definition) (s : Store) :
    Check.first? (creationChecks d s) =
      match d.validate with
      | .error fault => some (.validation fault)
      | .ok _ => Check.first? (accountChecks d.ownerId d.subjectId s) := by
  rw [creationChecks, Check.first?_append, Check.first?_map, Definition.validate_eq_report,
    Check.report]
  cases Check.first? d.checks <;> rfl

/-- A creation is decided by the checks of the accounts. -/
theorem decideCreation_atOnce (r : Ritual) (activity : String) (s : Store) :
    decideCreation r activity r.createdAt (.atOnce s (creationKeys r)) =
      match Check.first? (accountChecks r.ownerId r.subjectId s) with
      | some e => .error e
      | none => .ok ⟨r, creationPlan r activity⟩ := by
  rw [decideCreation, Snapshot.has_atOnce (by simp [creationKeys]),
    Snapshot.has_atOnce (by simp [creationKeys])]
  simp only [Option.not_isSome, accountChecks, Check.first?_cons, Check.first?_nil]
  cases (s.read? (Ledger.accountKey r.ownerId)).isNone with
  | true => rfl
  | false => cases (s.read? (Ledger.accountKey r.subjectId)).isNone <;> rfl

/-- **A definition that nobody interferes with** is refused or becomes a ritual. -/
theorem outcome_of_run (halone : setting.Undisturbed)
    (hnew : setting.store.read? (key setting.ids.draw.1) = none)
    (hnewEntry :
      setting.store.read? (Collection.activities.key (draftedActivity d setting)) = none) :
    CreationOutcome d (drafted d setting) (draftedActivity d setting) setting.store
      ((create policy d).run setting).1 ((create policy d).run setting).2.store := by
  have hchecks := first?_creationChecks d setting.store
  cases hvalidate : d.validate with
  | error fault =>
    rw [run_create_invalid hvalidate]
    rw [hvalidate] at hchecks
    exact .refused _ hchecks
  | ok _ =>
    rw [hvalidate] at hchecks
    obtain ⟨later, hstore, hintrusions, hrun⟩ :=
      run_create_valid policy setting hvalidate
    rw [hrun, Program.run_transact_still policy (hintrusions.trans halone.intrusions), hstore,
      decideCreation_atOnce]
    change _ = Check.first?
      (accountChecks (drafted d setting).ownerId (drafted d setting).subjectId _) at hchecks
    rw [← hchecks]
    cases hfirst : Check.first? (creationChecks d setting.store) with
    | some e =>
      change CreationOutcome _ _ _ _ (.error e) later.store
      rw [hstore]
      exact .refused e hfirst
    | none =>
      have hnow : Fits setting.clock.draw.1 := halone.clock setting.clock.drawn
      have hnewInserted : ∀ k body, Write.insert k body ∈ creationPlan (drafted d setting)
          (draftedActivity d setting) → setting.store.read? k = none := by
        intro k body hmem
        simp only [creationPlan, List.mem_cons, Write.insert.injEq, reduceCtorEq, false_or,
          List.not_mem_nil, or_false] at hmem
        rcases hmem with ⟨rfl, -⟩ | ⟨rfl, -⟩
        · exact hnew
        · exact hnewEntry
      obtain ⟨t, ht⟩ := Store.apply_of_new
        (creationPlan (drafted d setting) (draftedActivity d setting))
        (nodup_creationWrites (drafted d setting) (draftedActivity d setting)) hnewInserted
      have hcreated : Created (drafted d setting) (draftedActivity d setting) setting.store t := by
        rw [Store.apply_eq_putAll ht]
        exact created_of_writes (fits_drafted hvalidate hnow) hnew hnewEntry
      simp only [ht]
      exact .created hfirst hcreated

/-! ## Exactly the well-formed definitions -/

/-- The accounts of owner and subject are there. -/
def Enrolled (d : Definition) (s : Store) : Prop :=
  s.read? (Ledger.accountKey d.ownerId) ≠ none ∧ s.read? (Ledger.accountKey d.subjectId) ≠ none

theorem first?_creationChecks_eq_none_iff {d : Definition} {s : Store} :
    Check.first? (creationChecks d s) = none ↔ d.WellFormed ∧ Enrolled d s := by
  rw [first?_creationChecks, ← Definition.validate_eq_ok_iff]
  cases d.validate with
  | error fault => simp
  | ok _ =>
    simp [accountChecks, Check.first?_cons_eq_none_iff, Enrolled, Option.isNone_eq_false_iff,
      Option.isSome_iff_ne_none, -Check.first?_cons]

theorem firstInvalid_of_first? {d : Definition} {s : Store} {index : Nat} {reason : String}
    (h : Check.first? (creationChecks d s) =
      some (.validation (.invalidCondition index reason))) : d.FirstInvalid index := by
  rw [first?_creationChecks] at h
  cases hvalidate : d.validate with
  | error fault =>
    rw [hvalidate] at h
    cases h
    exact Definition.firstInvalid_of_validate hvalidate
  | ok _ =>
    rw [hvalidate] at h
    obtain ⟨before, c, later, hsplit, -, -, herror⟩ := Check.first?_eq_some_iff.1 h
    have hc : c ∈ accountChecks d.ownerId d.subjectId s := by simp [hsplit]
    simp only [accountChecks, List.mem_cons, List.not_mem_nil, or_false] at hc
    rcases hc with rfl | rfl <;> cases herror

/-- **Exactly the well-formed definitions become rituals.** Whatever is stored, a definition that
nobody interferes with becomes a ritual if and only if it is well formed and its owner and its
subject have accounts; then its ritual is created. Otherwise nothing is written, and the refusal is
that of the first broken check, in the order of the definition and with the accounts last; so a
condition that is reported is the first that is not well formed. -/
theorem creation_takes_well_formed (policy : RetryPolicy) (d : Definition) (setting : Setting)
    (halone : setting.Undisturbed)
    (hnew : setting.store.read? (key setting.ids.draw.1) = none)
    (hnewEntry :
      setting.store.read? (Collection.activities.key (draftedActivity d setting)) = none) :
    let s := setting.store
    let answer := ((create policy d).run setting).1
    let t := ((create policy d).run setting).2.store
    ((∃ r, answer = .ok r) ↔ d.WellFormed ∧ Enrolled d s) ∧
    (∀ r, answer = .ok r → r = drafted d setting ∧ Created r (draftedActivity d setting) s t) ∧
    (∀ e, answer = .error e ↔ Check.IsFirst (creationChecks d s) e) ∧
    (∀ e, answer = .error e → t = s) ∧
    ∀ i reason, answer = .error (.validation (.invalidCondition i reason)) →
      d.FirstInvalid i := by
  intro s answer t
  have houtcome : CreationOutcome d (drafted d setting) (draftedActivity d setting) s answer t :=
    outcome_of_run halone hnew hnewEntry
  rw [← first?_creationChecks_eq_none_iff]
  simp only [← Check.first?_eq_some_iff]
  generalize answer = a, t = u at houtcome
  cases houtcome with
  | created hchecks h =>
    refine ⟨iff_of_true ⟨_, rfl⟩ hchecks, ?_, fun e => ?_, nofun, nofun⟩
    · rintro _ ⟨⟩
      exact ⟨rfl, h⟩
    · exact iff_of_false nofun (by rw [hchecks]; exact nofun)
  | refused e h =>
    refine ⟨iff_of_false nofun (by rw [h]; exact nofun), nofun, fun e' => ?_, fun _ _ => rfl, ?_⟩
    · rw [h]
      exact ⟨fun heq => congrArg some (Except.error.inj heq),
        fun heq => congrArg Except.error (Option.some.inj heq)⟩
    · rintro i reason ⟨⟩
      exact firstInvalid_of_first? h

/-- A walk with a photo at its end. -/
def stroll : Definition :=
  ⟨"kim", "ana", "Stroll", "", [⟨"Leave", "", .any, 2⟩, ⟨"Return", "", .photo, 0⟩],
    [⟨.mood, .eq, .text "calm", [.notify "Lovely"]⟩,
      ⟨.completion, .ge, .number 1, [.reward 1, .unlockTask 1]⟩]⟩

/-- A `stroll` for someone unknown, with two conditions that cannot be tested. -/
def strollAmiss : Definition :=
  { stroll with
    subjectId := "bob"
    conditions := [⟨.mood, .eq, .text "calm", [.notify "Lovely"]⟩,
      ⟨.mood, .gt, .text "calm", [.notify "Lovely"]⟩, ⟨.other "rain", .eq, .flag true, []⟩] }

/-- Where a `stroll` is created after the walk. -/
def strollSetting : Setting :=
  { Setting.still walkStore ⟨1700000001, 0⟩ with
    ids := ⟨fun n => (["44444444-4444-4444-8444-444444444444",
      "55555555-5555-4555-8555-555555555555", "66666666-6666-4666-8666-666666666666",
      "77777777-7777-4777-8777-777777777777"][n]?).getD "", 0⟩ }

theorem stroll_created_amiss_refused :
    let start := strollSetting
    (∃ r, ((create ⟨1⟩ stroll).run start).1 = .ok r ∧
      Created r "77777777-7777-4777-8777-777777777777" start.store
        ((create ⟨1⟩ stroll).run start).2.store) ∧
    ((create ⟨1⟩ strollAmiss).run start).1 = .error (.validation (.invalidCondition 1
      "operator '>' is not defined for text values")) ∧
    strollAmiss.FirstInvalid 1 := by
  intro start
  have hnow : (⟨1700000001, 0⟩ : Instant).IsNameable := by decide
  have halone : start.Undisturbed := ⟨rfl, fun _ => hnow⟩
  have hnew : start.store.read? (key start.ids.draw.1) = none := by decide +kernel
  have hnewEntry : ∀ d : Definition, d.tasks.length = 2 →
      start.store.read? (Collection.activities.key (draftedActivity d start)) = none := by
    intro d hd
    rw [draftedActivity, hd]
    decide +kernel
  have hform : stroll.WellFormed := Definition.validate_eq_ok_iff.1 (by decide +kernel)
  have henrolled : Enrolled stroll start.store := ⟨by decide +kernel, by decide +kernel⟩
  obtain ⟨hiff, hcreated, -⟩ :=
    creation_takes_well_formed ⟨1⟩ stroll start halone hnew (hnewEntry _ rfl)
  obtain ⟨r, hr⟩ := hiff.2 ⟨hform, henrolled⟩
  have hrefused : ((create ⟨1⟩ strollAmiss).run start).1 = .error (.validation
      (.invalidCondition 1 "operator '>' is not defined for text values")) := by
    decide +kernel
  obtain ⟨-, -, -, -, hfirst⟩ :=
    creation_takes_well_formed ⟨1⟩ strollAmiss start halone hnew (hnewEntry _ rfl)
  exact ⟨⟨r, hr, (hcreated r hr).2⟩, hrefused, hfirst 1 _ hrefused⟩

end Ritual

end RitualLedger
