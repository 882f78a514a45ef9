import RitualLedger.Proofs.Engine.Marking
import RitualLedger.Proofs.Engine.Turns
import RitualLedger.Proofs.Rule.Payment

/-!
# Failures leave no trace

A client that has failed has written nothing (`Call.traceless_operation`). In a world this means
that none of its turns has changed the store: what happened to the store meanwhile was done by
others. So a call whose step is committed cannot fail any more, and what goes wrong afterwards with
single actions is only recorded. Such an action has changed nothing either, in its own stretch of
the run.

The main statement is `failed_calls_leave_no_trace`.
-/

namespace RitualLedger

/-! ## Worlds -/

/-- The error that a client has ended with. -/
def Client.failure? (c : Client) : Option EngineError :=
  match c.rest with
  | .finish (.error e) => some e
  | _ => none

theorem Client.rest_of_failure? {c : Client} {e : EngineError} (h : c.failure? = some e) :
    c.rest = .finish (.error e) := by
  rw [failure?] at h
  split at h
  · rename_i e' hrest
    cases h
    exact hrest
  · cases h

namespace World

/-- The error that the client at a place has ended with. -/
def failure? (w : World) (i : Nat) : Option EngineError := w.clients[i]?.bind (·.failure?)

/-- Every turn of a client left the store as it was. -/
def LeavesNoTrace (w : World) (es : List Event) (i : Nat) : Prop :=
  ∀ before chance later, es = before ++ .served i chance :: later →
    (w.after (before ++ [.served i chance])).store = (w.after before).store

variable {w : World} {es : List Event} {e : Event} {i : Nat}

theorem LeavesNoTrace.concat (h : w.LeavesNoTrace es i)
    (he : ∀ chance, e = .served i chance → ((w.after es).step e).store = (w.after es).store) :
    w.LeavesNoTrace (es ++ [e]) i := by
  intro before chance later heq
  rcases turn_of_concat heq with ⟨behind, heq⟩ | ⟨rfl, rfl⟩
  · exact h before chance behind heq
  · rw [after_concat]
    exact he chance rfl

/-- What is known of the client at a place: whether it has left a trace is marked. -/
structure Traced (w : World) (es : List Event) (i : Nat) : Prop where
  client : ∀ c, (w.after es).clients[i]? = some c → ∃ g,
    c.rest.Keeps (.tracing .engine)
      (Operation.either (fun _ g _ => g = false) fun _ _ _ => True) g (w.after es).store ∧
    (g = false → w.LeavesNoTrace es i)
  nobody : (w.after es).clients[i]? = none → w.LeavesNoTrace es i

/-- A client that is there goes on, and is marked if it leaves a trace now. -/
theorem Traced.goes_on (h : w.Traced es i) (hv : (w.after es).Sound) {c : Client}
    (hc : (w.after es).clients[i]? = some c) : ∃ c' g,
      ((w.after es).step e).clients[i]? = some c' ∧
      c'.rest.Keeps (.tracing .engine)
        (Operation.either (fun _ g _ => g = false) fun _ _ _ => True) g
        ((w.after es).step e).store ∧
      (g = false → w.LeavesNoTrace (es ++ [e]) i) := by
  obtain ⟨g, hkeeps, hleaves⟩ := h.client c hc
  obtain ⟨c', g', hc', -, hkeeps', hgives⟩ := hv.keeps_step
    (fun _ => Operation.either (fun _ g _ => g = false) fun _ _ _ => True) hc hkeeps e
    (fun _ _ _ _ => trivial) id
    fun _ => ⟨hv.proceeds e, fun answer h => by cases answer <;> exact h⟩
  refine ⟨c', g', hc', hkeeps', ?_⟩
  rintro rfl
  rcases hgives with ⟨rfl, hstore⟩ | ⟨-, hmarked, -⟩
  · refine (hleaves rfl).concat fun chance he => ?_
    exact hstore.resolve_right fun helsewhere => helsewhere chance he
  · cases hmarked

/-- An event that finds no client at a place is no turn of one. -/
theorem Traced.idle (h : w.Traced es i) (hnone : (w.after es).clients[i]? = none) :
    w.LeavesNoTrace (es ++ [e]) i := by
  refine (h.nobody hnone).concat ?_
  rintro chance rfl
  rw [step_of_absent hnone]

theorem traced_after (ttl : Int) (es : List Event) (i : Nat) : (initial ttl).Traced es i := by
  induction es using List.reverseRecOn with
  | nil =>
    have hnone : (initial ttl).LeavesNoTrace [] i := by
      intro before chance later heq
      cases before <;> cases heq
    exact ⟨nofun, fun _ => hnone⟩
  | append_singleton es e ih =>
    constructor
    · intro c hc
      rw [after_concat] at hc ⊢
      cases hbefore : ((initial ttl).after es).clients[i]? with
      | some c₀ =>
        obtain ⟨c', g, hc', hkeeps, hleaves⟩ := ih.goes_on (e := e) (sound_after ttl es) hbefore
        cases hc.symm.trans hc'
        exact ⟨g, hkeeps, hleaves⟩
      | none =>
        obtain ⟨policy, call, rfl, hstore⟩ := entered hbefore hc
        refine ⟨false, ?_, fun _ => ih.idle hbefore⟩
        rw [hstore]
        exact Call.traceless_operation (regular_after ttl es) call
    · intro hnone
      rw [after_concat] at hnone
      exact ih.idle (absent_of_step hnone)

/-- A client that has failed has left no trace. -/
theorem leavesNoTrace_of_failure? {ttl : Int} {error : EngineError}
    (h : ((initial ttl).after es).failure? i = some error) :
    (initial ttl).LeavesNoTrace es i := by
  obtain ⟨c, hc, hfailure⟩ := Option.bind_eq_some_iff.1 h
  obtain ⟨g, hkeeps, hleaves⟩ := (traced_after ttl es i).client c hc
  rw [Client.rest_of_failure? hfailure] at hkeeps
  exact hleaves hkeeps

end World

/-! ## Runs amid others -/

namespace Program

variable {α β : Type}

theorem serve_bind {p : Program α} (hp : ∀ a, p ≠ finish a) (f : α → Program β) (scene : Scene)
    (chance : Chance) : (p.bind f).serve scene chance =
      ((p.serve scene chance).1.bind f, (p.serve scene chance).2) := by
  cases p with
  | finish a => exact absurd rfl (hp a)
  | read | commit | append | query | openPrompt | takePrompt | now | freshId => rfl

/-- A program followed by another runs like the first until that has finished. -/
theorem amid_bind_finish {p : Program α} {f : α → Program β} {scene : Scene}
    {hs : List Happening} {b : β} (h : ((p.bind f).amid scene hs).1 = finish b) :
    ∃ first rest a, hs = first ++ rest ∧ (p.amid scene first).1 = finish a ∧
      (∀ q, q <+: first → ((p.bind f).amid scene q).2 = (p.amid scene q).2) ∧
      (∀ q, (p.bind f).amid scene (first ++ q) = (f a).amid (p.amid scene first).2 q) := by
  induction hs generalizing p scene with
  | nil =>
    cases p with
    | finish a =>
      refine ⟨[], [], a, rfl, rfl, ?_, fun _ => rfl⟩
      intro q hq
      rw [List.prefix_nil.1 hq]
      rfl
    | read | commit | append | query | openPrompt | takePrompt | now | freshId => cases h
  | cons next rest ih =>
    by_cases hp : ∃ a, p = finish a
    · obtain ⟨a, rfl⟩ := hp
      refine ⟨[], next :: rest, a, rfl, rfl, ?_, fun _ => rfl⟩
      intro q hq
      rw [List.prefix_nil.1 hq]
      rfl
    · have hp : ∀ a, p ≠ finish a := fun a ha => hp ⟨a, ha⟩
      -- The first happening is one of the first program.
      obtain ⟨p', scene', hturn, hturn'⟩ : ∃ (p' : Program α) (scene' : Scene),
          (∀ hs, p.amid scene (next :: hs) = p'.amid scene' hs) ∧
            ∀ hs, (p.bind f).amid scene (next :: hs) = (p'.bind f).amid scene' hs := by
        cases next with
        | foreign stamps ws => exact ⟨p, _, fun _ => rfl, fun _ => rfl⟩
        | served chance =>
          refine ⟨_, _, fun hs => amid_served p scene chance hs, fun hs => ?_⟩
          rw [amid_served, serve_bind hp]
      rw [hturn'] at h
      obtain ⟨first, later, a, rfl, hfinish, hprefix, hrest⟩ := ih h
      refine ⟨next :: first, later, a, rfl, (congrArg Prod.fst (hturn first)).trans hfinish, ?_, ?_⟩
      · intro q hq
        cases q with
        | nil => rfl
        | cons next' q =>
          obtain ⟨rfl, hq'⟩ := List.cons_prefix_cons.1 hq
          rw [hturn, hturn']
          exact hprefix q hq'
      · intro q
        rw [List.cons_append, hturn', hturn]
        exact hrest q

/-- Whoever keeps a tracing contract amid others and has not marked a write has left the store to
the others. -/
theorem Keeps.amid_tracing {post : α → Bool → Store → Prop} {p : Program α} {g : Bool}
    {scene : Scene} {hs : List Happening} (h : p.Keeps (.tracing .anyone) post g scene.store)
    (hpost : ∀ a g s t, post a g s → post a g t)
    (hnow : ∀ chance, .served chance ∈ hs → chance.now.IsNameable) :
    ∃ g', (p.amid scene hs).1.Keeps (.tracing .anyone) post g' (p.amid scene hs).2.store ∧
      (g' = false → g = false ∧ (p.amid scene hs).2.store = scene.store.leftTo hs) := by
  induction hs generalizing p g scene with
  | nil => exact ⟨g, h, fun hg => ⟨hg, rfl⟩⟩
  | cons next rest ih =>
    have hrest : ∀ chance, .served chance ∈ rest → chance.now.IsNameable :=
      fun chance hmem => hnow chance (List.mem_cons_of_mem _ hmem)
    cases next with
    | foreign stamps ws =>
      have hmoves : (Contract.tracing .anyone).moves g scene.store
          (scene.store.intruded stamps ws) := Store.le_intruded
      let intruded : Scene := { scene with store := scene.store.intruded stamps ws }
      have hmoved : p.Keeps (.tracing .anyone) post g intruded.store :=
        h.moved hmoves fun a => hpost a g _ _
      exact ih hmoved hrest
    | served chance =>
      obtain ⟨g₁, hnext, hgives⟩ := h.serve (hnow chance List.mem_cons_self)
        (fun _ _ => trivial) (p.le_serve scene chance)
      obtain ⟨g', hkeeps, hmark⟩ := ih hnext hrest
      refine ⟨g', hkeeps, fun hg' => ?_⟩
      obtain ⟨rfl, hstore⟩ := hmark hg'
      rcases hgives with ⟨hsame, rfl⟩ | ⟨hmarked, -⟩
      · rw [hsame] at hstore
        exact ⟨rfl, hstore⟩
      · cases hmarked

end Program

/-- An operation that fails amid others has left the store to them. -/
theorem Operation.Traceless.store_of_error {α : Type} {o : Operation α} {scene : Scene}
    (h : o.Traceless .anyone scene.store) {hs : List Happening} {e : EngineError}
    (hnow : ∀ chance, .served chance ∈ hs → chance.now.IsNameable)
    (herror : (o.program.amid scene hs).1 = .finish (.error e)) :
    (o.program.amid scene hs).2.store = scene.store.leftTo hs := by
  obtain ⟨g, hkeeps, hmark⟩ := Program.Keeps.amid_tracing h (by
    intro answer g s t hanswer
    cases answer <;> exact hanswer) hnow
  rw [herror] at hkeeps
  exact (hmark hkeeps).2

/-! ## Batches -/

namespace Batch

variable {policy : RetryPolicy} {b : Batch} {actions : List Action} {scene : Scene}
  {hs : List Happening}

/-- An action of a batch that failed at a position: it had a stretch of the run for itself, and at
the end of it the store is as the others alone have left it. -/
structure FailedAt (policy : RetryPolicy) (b : Batch) (position : Nat) (result : ActionResult)
    (a : Action) (start : Scene) (stretch : List Happening) (after : Scene) : Prop where
  failed : ∃ e, result = b.result a (.error e) ∧
    (a.execute policy b.ritual b.subject (b.key position)).program.amid start stretch =
      (.finish (.error e), after)
  store : after.store = start.store.leftTo stretch

/-- An action that is recorded as failed has failed when it was executed. -/
theorem error_of_failed {a : Action} {answer : Except EngineError ActionEffect} {reason : String}
    {retriable : Bool} (h : (b.result a answer).status = .failed reason retriable) :
    ∃ e, answer = .error e := by
  cases answer with
  | error e => exact ⟨e, rfl⟩
  | ok effect =>
    simp only [result] at h
    split at h <;> cases h

theorem runFrom_failedAt {position : Nat} {results : List ActionResult}
    (hnow : ∀ chance, .served chance ∈ hs → chance.now.IsNameable)
    (h : ((b.runFrom policy position actions).amid scene hs).1 = .finish results) {j : Nat}
    {result : ActionResult} (hresult : results[j]? = some result) {reason : String}
    {retriable : Bool} (hfailed : result.status = .failed reason retriable) :
    ∃ a before stretch later, hs = before ++ stretch ++ later ∧ actions[j]? = some a ∧
      FailedAt policy b (position + j) result a
        ((b.runFrom policy position actions).amid scene before).2 stretch
        ((b.runFrom policy position actions).amid scene (before ++ stretch)).2 := by
  induction actions generalizing position results j scene hs with
  | nil =>
    have hnone : results = [] := by
      rw [runFrom] at h
      exact (Program.finish.inj ((congrArg Prod.fst (Program.amid_finish [] scene hs)).symm.trans
        h)).symm
    rw [hnone] at hresult
    cases hresult
  | cons a rest ih =>
    -- The first action has a stretch for itself, and the others run after it.
    obtain ⟨first, later, answer, rfl, hanswer, hfirst, hothers⟩ := Program.amid_bind_finish
      (p := (a.execute policy b.ritual b.subject (b.key position)).program) h
    have h' := (congrArg Prod.fst (hothers later)).symm.trans h
    obtain ⟨second, last, results', rfl, hresults', hsecond, hlast⟩ :=
      Program.amid_bind_finish (p := b.runFrom policy (position + 1) rest) h'
    have hresults : results = b.result a answer :: results' := by
      have h'' := (congrArg Prod.fst (hlast last)).symm.trans h'
      exact (Program.finish.inj ((congrArg Prod.fst (Program.amid_finish _ _ last)).symm.trans
        h'')).symm
    cases j with
    | zero =>
      rw [hresults] at hresult
      cases hresult
      obtain ⟨e, rfl⟩ := error_of_failed hfailed
      refine ⟨a, [], first, second ++ last, by simp, rfl, ⟨e, rfl, ?_⟩, ?_⟩
      · exact Prod.ext hanswer (hfirst first (List.prefix_refl first)).symm
      · refine (congrArg Scene.store (hfirst first (List.prefix_refl first))).trans ?_
        refine (Action.traceless_execute a b.ritual b.subject _).store_of_error ?_ hanswer
        exact fun chance hmem => hnow chance (List.mem_append_left _ hmem)
    | succ j =>
      rw [hresults] at hresult
      obtain ⟨a', before, stretch, behind, rfl, ha', hfailedAt⟩ := ih
        (fun chance hmem => hnow chance
          (List.mem_append_right _ (List.mem_append_left _ hmem))) hresults' hresult
      -- The scenes of the whole run are those of the run of the other actions.
      have hscene : ∀ q, q <+: before ++ stretch ++ behind →
          ((b.runFrom policy position (a :: rest)).amid scene (first ++ q)).2 =
            ((b.runFrom policy (position + 1) rest).amid
              ((a.execute policy b.ritual b.subject (b.key position)).program.amid scene first).2
              q).2 :=
        fun q hq => (congrArg Prod.snd (hothers q)).trans (hsecond q hq)
      refine ⟨a', first ++ before, stretch, behind ++ last, by simp, ha', ?_⟩
      rw [List.append_assoc first, hscene _ (List.prefix_append _ _),
        hscene before ⟨stretch ++ behind, by simp⟩, Nat.add_comm j 1, ← Nat.add_assoc]
      exact hfailedAt

/-- **An action that is recorded as failed has changed nothing.** -/
theorem run_failedAt {log : ActionLog}
    (hnow : ∀ chance, .served chance ∈ hs → chance.now.IsNameable)
    (h : ((b.run policy actions).amid scene hs).1 = .finish log) {j : Nat}
    {result : ActionResult} (hresult : log.results[j]? = some result) {reason : String}
    {retriable : Bool} (hfailed : result.status = .failed reason retriable) :
    ∃ a before stretch later, hs = before ++ stretch ++ later ∧ actions[j]? = some a ∧
      FailedAt policy b j result a ((b.run policy actions).amid scene before).2 stretch
        ((b.run policy actions).amid scene (before ++ stretch)).2 := by
  obtain ⟨first, last, results, rfl, hresults, hfirst, hlast⟩ :=
    Program.amid_bind_finish (p := b.runFrom policy 0 actions) h
  have hlog : results = log.results := by
    have h' := (congrArg Prod.fst (hlast last)).symm.trans h
    obtain ⟨second, last', time, rfl, -, -, hlast'⟩ :=
      Program.amid_bind_finish (p := Request.now) h'
    have h'' := (congrArg Prod.fst (hlast' last')).symm.trans h'
    have hsame := (congrArg Prod.fst (Program.amid_finish (ActionLog.mk time results)
      (Request.now.amid ((b.runFrom policy 0 actions).amid scene first).2 second).2
      last')).symm.trans h''
    exact congrArg ActionLog.results (Program.finish.inj hsame)
  rw [← hlog] at hresult
  obtain ⟨a, before, stretch, later, rfl, ha, hfailedAt⟩ := runFrom_failedAt
    (fun chance hmem => hnow chance (List.mem_append_left _ hmem)) hresults hresult hfailed
  refine ⟨a, before, stretch, later ++ last, by simp, ha, ?_⟩
  have hbefore : ((b.run policy actions).amid scene before).2 =
      ((b.runFrom policy 0 actions).amid scene before).2 :=
    hfirst before ⟨stretch ++ later, by simp⟩
  have hstretch : ((b.run policy actions).amid scene (before ++ stretch)).2 =
      ((b.runFrom policy 0 actions).amid scene (before ++ stretch)).2 :=
    hfirst _ (List.prefix_append _ _)
  rw [hbefore, hstretch]
  rw [Nat.zero_add] at hfailedAt
  exact hfailedAt

end Batch

/-! ## Failures -/

/-- **Failed operations leave no trace.** Whatever calls overlap: in every turn of a call that has
failed the store has stayed as it was, so all that has happened to it was done by other clients. In
particular a completion never fails once its step is committed. And when an action of a batch is
recorded as failed, with whatever happening in between, there is a stretch of the run in which the
action was executed, and at its end the store is what the others alone have made of it. -/
theorem failed_calls_leave_no_trace (ttl : Int) (es : List Event) :
    (∀ i e, ((World.initial ttl).after es).failure? i = some e →
      (World.initial ttl).LeavesNoTrace es i) ∧
    (∀ i c step evidence, ((World.initial ttl).after es).clients[i]? = some c →
      c.call = .complete step evidence →
      ∀ before chance later, es = before ++ .served i chance :: later →
        ((World.initial ttl).after before).store.read? step.key = none →
        ((World.initial ttl).after (before ++ [.served i chance])).store.read? step.key ≠ none →
        c.failure? = none) ∧
    ∀ (policy : RetryPolicy) (b : Batch) (actions : List Action) (scene : Scene)
      (hs : List Happening) (log : ActionLog),
      (∀ chance, .served chance ∈ hs → chance.now.IsNameable) →
      ((b.run policy actions).amid scene hs).1 = .finish log →
      ∀ (j : Nat) (result : ActionResult) (reason : String) (retriable : Bool),
        log.results[j]? = some result → result.status = .failed reason retriable →
        ∃ a before stretch later, hs = before ++ stretch ++ later ∧ actions[j]? = some a ∧
          Batch.FailedAt policy b j result a ((b.run policy actions).amid scene before).2 stretch
            ((b.run policy actions).amid scene (before ++ stretch)).2 := by
  refine ⟨fun i e => World.leavesNoTrace_of_failure?, ?_, ?_⟩
  · intro i c step evidence hc _ before chance later hes habsent hpresent
    cases hfailure : c.failure? with
    | none => rfl
    | some e =>
      -- A client that has failed has not written the record of the step.
      have hnone : ((World.initial ttl).after es).failure? i = some e := by
        rw [World.failure?, hc]
        exact hfailure
      rw [World.leavesNoTrace_of_failure? hnone before chance later hes] at hpresent
      exact absurd habsent hpresent
  · intro policy b actions scene hs log hnow h j result reason retriable hresult hfailed
    exact Batch.run_failedAt hnow h hresult hfailed

/-- In `contested` the call that comes too late has left no trace. -/
theorem no_trace_in_contested :
    ((World.initial 0).after contested).failure? 4 =
      some (.staleTask contestedStep.ritual 0 1) ∧
    (World.initial 0).LeavesNoTrace contested 4 := by
  have hfailure : ((World.initial 0).after contested).failure? 4 =
      some (.staleTask contestedStep.ritual 0 1) := by
    decide +kernel
  obtain ⟨hleaves, -⟩ := failed_calls_leave_no_trace 0 contested
  exact ⟨hfailure, hleaves 4 _ hfailure⟩

end RitualLedger
