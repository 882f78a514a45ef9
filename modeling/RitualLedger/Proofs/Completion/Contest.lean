import RitualLedger.Proofs.Completion.Race
import RitualLedger.Proofs.Completion.Reward
import RitualLedger.Proofs.Engine.Answers

/-!
# Contests for a step

A contest for a step is a run in which any number of clients complete the step, and nothing else
happens: racers come in, and each of their requests is served at some point, in any order.
`Completion.RaceAt` is the invariant of such a run. It says who has won, if anyone has. As long as
nobody has, the store is as it was at the start; and when someone has, everyone else finds the step
over.

So exactly one racer takes the step, whatever the order (`Completion.RaceAt.wonBy`). The step is
taken once then, with all that belongs to it (`Completion.TakenOnce`). And a contest ends, if only
its racers are served again and again (`Completion.wonBy_in_the_end`).
-/

namespace RitualLedger

/-! ## A step that is taken once -/

/-- The records of a step. -/
def Store.recordsOf (s : Store) (step : Step) : List CompletionRecord :=
  (s.all CompletionRecord).filter (·.step = step)

/-- The records of a subject's evidence for a task. -/
def Store.proofsOf (s : Store) (task subject : String) : List EvidenceRecord :=
  (s.all EvidenceRecord).filter fun e => e.taskId = task ∧ e.subjectId = subject

/-- The ritual and the assignment of a step point to a task. -/
def Store.PointsTo (s : Store) (step : Step) (index : Nat) : Prop :=
  ∃ r a, s.get? Ritual (Ritual.key step.ritual) = some r ∧
    s.get? Assignment (Assignment.key step.subject) = some a ∧ a.ritualId = step.ritual ∧
    r.currentTaskIndex.toNat = index ∧ a.currentTaskIndex.toNat = index

namespace Completion

variable {s t u : Store} {step : Step} {evidence : Evidence} {results : List ActionResult}
  {r : Ritual} {a : Assignment} {task : Task} {now : Instant}

/-- A step is taken once: the pointers go on by one task, there is one record of the step and one of
its evidence, and the reward is credited once if it can be, and otherwise not at all. -/
structure TakenOnce (s : Store) (step : Step) (evidence : Evidence) (task : Task) (u : Store) :
    Prop where
  start : s.PointsTo step step.index.toNat
  next : u.PointsTo step (step.index.toNat + 1)
  recorded : ∃ c e, u.recordsOf step = [c] ∧ u.proofsOf task.id step.subject = [e] ∧
    c.taskId = task.id ∧ e.evidence = evidence ∧ e.ritualId = step.ritual ∧
    e.submittedAt = c.completedAt
  rewarded : Payable s step task.tokenReward →
    ∃ tx, u.booked ((Scope.reward step).key 0) = [tx] ∧ tx.Credits step.subject task.tokenReward
  unrewarded : ¬ Payable s step task.tokenReward →
    u.booked ((Scope.reward step).key 0) = s.booked ((Scope.reward step).key 0)

/-- An open step is the one that ritual and assignment point to. -/
theorem Open.pointsTo (h : Open s step evidence r a task) (hs : s.Regular) :
    s.PointsTo step step.index.toNat := by
  obtain ⟨-, -, hindex, hfollows⟩ := hs.mirrored.follows_of_current hs.wellTyped h.ritual
    h.assignment h.assigned h.current
  refine ⟨r, a, h.ritual, h.assignment, h.assigned, ?_, ?_⟩
  · rw [hindex]
  · rw [hfollows.pointer, hindex]

/-- After a step ritual and assignment point to the next one. -/
theorem Taken.pointsTo {c : CompletionRecord} (h : Taken s step r c u)
    (hnext : c.nextTaskIndex = step.index + 1)
    (hindex : (step.index + 1).toNat = step.index.toNat + 1) :
    u.PointsTo step (step.index.toNat + 1) := by
  obtain ⟨a, ha, hassigned, hpointer, -⟩ := h.assignment
  refine ⟨advance r c, a, h.ritual, ha, hassigned, ?_, ?_⟩
  · exact (congrArg UInt64.toNat hnext).trans hindex
  · rw [hpointer, hindex]

/-- The records of a step and of its evidence are the only ones. -/
theorem recorded_of_course (hs : s.Regular)
    (hmakes : (Change.stepping step r a task evidence now).Makes s t) (hsame : t.SameProgress u) :
    u.recordsOf step = [recordOf step r task now] ∧
      u.proofsOf task.id step.subject = [evidenceOf step task evidence now] := by
  obtain ⟨hrecords, hproofs⟩ := records_of_stepping hmakes
  have hnone : (s.all CompletionRecord).filter (·.step = step) = [] := by
    refine hs.wellTyped.filter_all_of_absent (·.step.id) hs.distinctKeys
      (fun _ _ hname => hname) (fun c hc => ?_) hmakes.allowed.new
    rw [of_decide_eq_true hc]
  have hnone' : (s.all EvidenceRecord).filter
      (fun e => e.taskId = task.id ∧ e.subjectId = step.subject) = [] := by
    refine hs.wellTyped.filter_all_of_absent (fun e => e.taskId ++ ":" ++ e.subjectId)
      hs.distinctKeys (fun _ _ hname => hname) (fun e he => ?_)
      hmakes.allowed.newEvidence
    rw [(of_decide_eq_true he).1, (of_decide_eq_true he).2]
  constructor
  · rw [Store.recordsOf, hsame.records, hrecords, List.filter_append, hnone, List.nil_append]
    exact List.filter_cons_of_pos (decide_eq_true rfl)
  · rw [Store.proofsOf, hsame.proofs, hproofs, List.filter_append, hnone', List.nil_append]
    exact List.filter_cons_of_pos (decide_eq_true ⟨rfl, rfl⟩)

/-- **A completion takes its step once.** -/
theorem Completes.takenOnce (h : Completes s step evidence results u) (hs : s.Regular) :
    ∃ r task, s.get? Ritual (Ritual.key step.ritual) = some r ∧ r.task? step.index = some task ∧
      TakenOnce s step evidence task u := by
  obtain ⟨r, a, task, now, t, hmakes, hcourse⟩ := h
  have hopen := open_of_makes hmakes
  have hnext := (hs.mirrored.progress _ r hopen.ritual).toNat_next hopen.taken
  obtain ⟨hrecords, hproofs⟩ :=
    recorded_of_course hs hmakes (hcourse.sameProgress (hmakes.regular hs))
  obtain ⟨hrewarded, hunrewarded⟩ := booked_of_course hs hmakes hcourse
  exact ⟨r, task, hopen.ritual, hopen.taken, hopen.pointsTo hs,
    (taken_of_course hs hmakes hcourse).pointsTo rfl hnext,
    ⟨_, _, hrecords, hproofs, rfl, rfl, rfl, rfl⟩, hrewarded, hunrewarded⟩

/-! ## Races -/

/-- The events of a race for a step that is open in a world: a racer comes in, or one is served, and
the store is not locked. -/
def IsRace (w : World) (step : Step) : Event → Prop
  | .called policy call => 2 ≤ policy.maxAttempts ∧
    ∃ evidence, call = .complete step evidence ∧ IsOpen w.store step evidence
  | .served i chance => w.clients.length ≤ i ∧ chance.refusal = none

/-- What is to hold of the answer to a racer. -/
def RaceAnswer {α : Type} (s : Store) (step : Step) (evidence : Evidence) :
    Except EngineError α → Bool → Store → Prop :=
  Operation.either (fun e won u => won = false ∧ IsStale step e ∧ Over step u)
    fun _ won u => won = true ∧ ∃ results, Completes s step evidence results u

/-- A client completes the step, which was open at the start, and keeps to what racers do. -/
def Races (s₀ : Store) (step : Step) (c : Client) (won : Bool) (s : Store) : Prop :=
  ∃ evidence, c.call = .complete step evidence ∧ IsOpen s₀ step evidence ∧
    c.rest.Keeps (.racing s₀ step evidence) (RaceAnswer s₀ step evidence) won s

/-- How a race stands that has begun in a world, and who has won it, if anyone has. -/
structure RaceAt (w : World) (step : Step) (winner : Option Nat) (v : World) : Prop where
  racer : ∀ i c, w.clients.length ≤ i → v.clients[i]? = some c →
    Races w.store step c (Decidable.decide (winner = some i)) v.store
  unchanged : winner = none → v.store = w.store
  won : ∀ i, winner = some i → w.clients.length ≤ i ∧ (∃ c, v.clients[i]? = some c) ∧
    ∃ evidence, OnTheWay w.store step evidence v.store

variable {w v : World} {winner : Option Nat} {i j : Nat} {c : Client} {chance : Chance}

/-- A racer that has not won goes on after others have taken the step. -/
theorem Races.overtaken (h : Races s step c false t) (hproceeds : t.Proceeds u)
    (hover : Over step u) : Races s step c false u := by
  obtain ⟨evidence, hcall, hopen, hkeeps⟩ := h
  refine ⟨evidence, hcall, hopen, hkeeps.moved (.inr ⟨hproceeds, hover⟩) ?_⟩
  rintro (e | result) hanswer
  · exact ⟨rfl, hanswer.2.1, hover⟩
  · cases hanswer.1

theorem raceAt_start (w : World) (step : Step) : RaceAt w step none w where
  racer i c hi hc := absurd (List.getElem?_eq_some_iff.1 hc).1 (Nat.not_lt.2 hi)
  unchanged _ := rfl
  won _ h := by cases h

namespace RaceAt

/-- A race moves the store as racers rely on. -/
theorem moves (h : RaceAt w step winner v) (hs : w.store.Regular) :
    (Rely.racing step).moves w.store v.store := by
  cases winner with
  | none => exact .inl (h.unchanged rfl)
  | some j =>
    obtain ⟨-, -, evidence, hway⟩ := h.won j rfl
    obtain ⟨r, a, task, now, -, htaken⟩ := hway.taken hs
    exact .inr ⟨htaken.proceeds, hway.over hs⟩

/-- Another racer comes in. -/
theorem called (h : RaceAt w step winner v) (hs : w.store.Regular) {policy : RetryPolicy}
    {call : Call} (hrace : IsRace w step (.called policy call)) :
    RaceAt w step winner (v.step (.called policy call)) := by
  have hstore := v.store_called policy call
  refine ⟨fun i c hi hc => ?_, fun hnone => hstore.trans (h.unchanged hnone), fun i hwon => ?_⟩
  · rw [hstore]
    cases v.turn i (.called policy call) with
    | pause hclient => exact h.racer i c hi (hclient.symm.trans hc)
    | served _ _ he => cases he
    | entry policy' call' hnone hclient _ he =>
      cases he
      cases hc.symm.trans hclient
      obtain ⟨hpolicy, evidence, rfl, hopen⟩ := hrace
      have hphase : Decidable.decide (winner = some i) = false := by
        refine decide_eq_false fun hwon => ?_
        obtain ⟨-, ⟨c, hc⟩, -⟩ := h.won i hwon
        cases hnone.symm.trans hc
      rw [hphase]
      refine ⟨evidence, rfl, hopen, ?_⟩
      obtain ⟨r, a, task, hopen⟩ := hopen
      exact (keeps_complete_racing hs hopen hpolicy (h.moves hs)).imp (fun _ _ _ h => h)
        fun _ _ _ h => ⟨h.1, _, h.2⟩
  · obtain ⟨hi, ⟨c, hc⟩, hway⟩ := h.won i hwon
    obtain ⟨c', hc', -⟩ := World.client_stays hc (.called policy call)
    rw [hstore]
    exact ⟨hi, ⟨c', hc'⟩, hway⟩

/-- A racer has had a turn and written nothing. -/
theorem idle (h : RaceAt w step winner v) (hc : (v.step (.served j chance)).clients[j]? = some c)
    (hsame : (v.step (.served j chance)).store = v.store)
    (hraces : Races w.store step c (Decidable.decide (winner = some j)) v.store) :
    RaceAt w step winner (v.step (.served j chance)) := by
  refine ⟨fun i c₀ hi hc₀ => ?_, fun hnone => hsame.trans (h.unchanged hnone), fun i hwon => ?_⟩
  · rw [hsame]
    by_cases hij : i = j
    · subst hij
      cases hc.symm.trans hc₀
      exact hraces
    · rw [World.client_of_other hij] at hc₀
      exact h.racer i c₀ hi hc₀
  · obtain ⟨hi, ⟨c₀, hc₀⟩, hway⟩ := h.won i hwon
    obtain ⟨c', hc', -⟩ := World.client_stays hc₀ (.served j chance)
    rw [hsame]
    exact ⟨hi, ⟨c', hc'⟩, hway⟩

/-- A racer has had a turn and taken the step, or done what follows. Nobody else has won. -/
theorem taken (h : RaceAt w step winner v) (hs : w.store.Regular) (hv : v.Sound)
    (hj : w.clients.length ≤ j) (hc : (v.step (.served j chance)).clients[j]? = some c)
    (hopen : IsOpen w.store step evidence) (hfirst : winner ≠ some j → v.store = w.store)
    (hway : OnTheWay w.store step evidence (v.step (.served j chance)).store)
    (hraces : Races w.store step c true (v.step (.served j chance)).store) :
    RaceAt w step (some j) (v.step (.served j chance)) := by
  have hnobody : ∀ i, i ≠ j → winner ≠ some i := by
    rintro i hij rfl
    obtain ⟨-, -, evidence', hway'⟩ := h.won i rfl
    rw [hfirst fun heq => hij (Option.some.inj heq)] at hway'
    obtain ⟨r, a, task, hopen⟩ := hopen
    exact hopen.not_over (hway'.over hs)
  refine ⟨fun i c₀ hi hc₀ => ?_, nofun, ?_⟩
  · by_cases hij : i = j
    · subst hij
      cases hc.symm.trans hc₀
      rw [decide_eq_true rfl]
      exact hraces
    · rw [World.client_of_other hij] at hc₀
      have hothers := h.racer i c₀ hi hc₀
      rw [decide_eq_false (hnobody i hij)] at hothers
      rw [decide_eq_false fun heq => hij (Option.some.inj heq).symm]
      exact hothers.overtaken (hv.proceeds _) (hway.over hs)
  · rintro i ⟨⟩
    exact ⟨hj, ⟨c, hc⟩, evidence, hway⟩

/-- A racer is served. It may take the step, if nobody else has. -/
theorem served (h : RaceAt w step winner v) (hs : w.store.Regular) (hv : v.Sound)
    (hrace : IsRace w step (.served j chance)) :
    ∃ winner', RaceAt w step winner' (v.step (.served j chance)) := by
  obtain ⟨hj, hrefusal⟩ := hrace
  cases hc : v.clients[j]? with
  | none =>
    rw [World.step_of_absent hc]
    exact ⟨winner, h⟩
  | some c =>
    obtain ⟨evidence, hcall, hopen, hkeeps⟩ := h.racer j c hj hc
    have hrefuses : ∀ chance', Event.served j chance = .served j chance' →
        ∀ err ∈ chance'.refusal, (Contract.racing w.store step evidence).refuses err := by
      rintro _ ⟨⟩ err herr
      cases hrefusal.symm.trans herr
    obtain ⟨c', won, hc', hcall', hkeeps', hgives⟩ := hv.keeps_step
      (fun _ => RaceAnswer w.store step evidence) hc hkeeps (.served j chance) hrefuses id
      fun helsewhere => absurd rfl (helsewhere chance)
    have hraces : Races w.store step c' won (v.step (.served j chance)).store :=
      ⟨evidence, hcall'.trans hcall, hopen, hkeeps'⟩
    rcases hgives with ⟨rfl, hsame | helsewhere⟩ | ⟨-, rfl, hfirst, hway⟩
    · rw [hsame] at hraces
      exact ⟨winner, h.idle hc' hsame hraces⟩
    · exact absurd rfl (helsewhere chance)
    · exact ⟨some j, h.taken hs hv hj hc' hopen (fun hne => hfirst (decide_eq_false hne)) hway
        hraces⟩

end RaceAt

/-- **In a race someone has won, or nothing has changed.** -/
theorem raceAt_after (hw : w.Sound) (hs : w.store.Regular) {es : List Event}
    (hrace : ∀ e ∈ es, IsRace w step e) : ∃ winner, RaceAt w step winner (w.after es) := by
  induction es using List.reverseRecOn with
  | nil => exact ⟨none, raceAt_start w step⟩
  | append_singleton es e ih =>
    obtain ⟨winner, h⟩ := ih fun e he => hrace e (List.mem_append_left _ he)
    have he := hrace e (List.mem_append_right _ List.mem_cons_self)
    rw [World.after_concat]
    cases e with
    | called policy call => exact ⟨winner, h.called hs he⟩
    | served j chance => exact h.served hs (hw.after es) he

/-! ## The end of a race -/

/-- The racer at a place has won a race: it has completed the step, and all other racers were told
that it is stale. -/
structure WonBy (w : World) (step : Step) (v : World) (winner : Nat) : Prop where
  racer : w.clients.length ≤ winner
  ok : v.answer? winner = some (.ok ())
  completed : ∃ c evidence r task, v.clients[winner]? = some c ∧ c.call = .complete step evidence ∧
    w.store.get? Ritual (Ritual.key step.ritual) = some r ∧ r.task? step.index = some task ∧
    TakenOnce w.store step evidence task v.store
  others : ∀ i, w.clients.length ≤ i → i < v.clients.length → i ≠ winner →
    ∃ e, v.answer? i = some (.error e) ∧ IsStale step e

/-- What has come of a racer that has its answer. -/
theorem RaceAt.answer (h : RaceAt w step winner v) (hi : w.clients.length ≤ i)
    {answer : Except EngineError Unit} (hanswer : v.answer? i = some answer) :
    (winner = some i ∧ answer = .ok () ∧ ∃ c evidence results, v.clients[i]? = some c ∧
      c.call = .complete step evidence ∧ Completes w.store step evidence results v.store) ∨
    winner ≠ some i ∧ ∃ e, answer = .error e ∧ IsStale step e ∧ Over step v.store ∧
      ∃ evidence, IsOpen w.store step evidence := by
  obtain ⟨c, hc, hanswer⟩ := Option.bind_eq_some_iff.1 hanswer
  obtain ⟨result, hresult, rfl⟩ := Option.map_eq_some_iff.1 hanswer
  obtain ⟨evidence, hcall, hopen, hkeeps⟩ := h.racer i c hi hc
  rw [Program.rest_of_result? hresult] at hkeeps
  cases result with
  | ok result =>
    obtain ⟨hwon, results, hcompletes⟩ := hkeeps
    exact .inl ⟨of_decide_eq_true hwon, rfl, c, evidence, results, hc, hcall, hcompletes⟩
  | error e =>
    obtain ⟨hlost, hstale, hover⟩ := hkeeps
    exact .inr ⟨of_decide_eq_false hlost, e, rfl, hstale, hover, evidence, hopen⟩

/-- When a racer has its answer someone has won: the step was there to be taken, or is over. -/
theorem RaceAt.exists_winner (h : RaceAt w step winner v) (hi : w.clients.length ≤ i)
    {answer : Except EngineError Unit} (hanswer : v.answer? i = some answer) :
    ∃ j, winner = some j := by
  rcases h.answer hi hanswer with ⟨hwon, -⟩ | ⟨-, -, -, -, hover, evidence, r, a, task, hopen⟩
  · exact ⟨i, hwon⟩
  · refine Option.ne_none_iff_exists'.1 fun hnone => ?_
    rw [h.unchanged hnone] at hover
    exact hopen.not_over hover

/-- **When all racers have their answers one of them has won.** -/
theorem RaceAt.wonBy (h : RaceAt w step winner v) (hs : w.store.Regular)
    (hracers : w.clients.length < v.clients.length) (hall : v.AllAnswered w.clients.length) :
    ∃ winner, WonBy w step v winner := by
  obtain ⟨answer, hanswer⟩ := hall _ le_rfl hracers
  obtain ⟨j, rfl⟩ := h.exists_winner le_rfl hanswer
  obtain ⟨hj, ⟨c, hc⟩, -⟩ := h.won j rfl
  obtain ⟨answer, hanswer⟩ := hall j hj (List.getElem?_eq_some_iff.1 hc).1
  rcases h.answer hj hanswer with ⟨-, rfl, c, evidence, results, hc, hcall, hcompletes⟩ | ⟨hne, -⟩
  · obtain ⟨r, task, hr, htask, htaken⟩ := hcompletes.takenOnce hs
    refine ⟨j, hj, hanswer, ⟨c, evidence, r, task, hc, hcall, hr, htask, htaken⟩, ?_⟩
    intro i hi hlength hij
    obtain ⟨answer, hanswer⟩ := hall i hi hlength
    rcases h.answer hi hanswer with ⟨hwon, -⟩ | ⟨-, e, rfl, hstale, -⟩
    · exact absurd (Option.some.inj hwon).symm hij
    · exact ⟨e, hanswer, hstale⟩
  · exact absurd rfl hne

/-- **A contest is won in the end.** Its racers have come in and are served again and again. -/
theorem wonBy_in_the_end (hw : w.Sound) (hs : w.store.Regular) {f : Nat → Event} {n : Nat}
    (hrace : ∀ m, IsRace w step (f m))
    (hcalls : ∀ m ≥ n, ∀ policy call, f m ≠ .called policy call)
    (hracers : w.clients.length < (w.afterFirst f n).clients.length)
    (hserved : ∀ i, w.clients.length ≤ i → i < (w.afterFirst f n).clients.length →
      w.KeepsServing f i) : ∃ m ≥ n, ∃ winner, WonBy w step (w.afterFirst f m) winner := by
  obtain ⟨m, hm, hlength, hall⟩ := World.allAnswered hcalls hserved
  have hevents : ∀ e ∈ (List.range m).map f, IsRace w step e := by
    intro e he
    obtain ⟨k, -, rfl⟩ := List.mem_map.1 he
    exact hrace k
  obtain ⟨winner, h⟩ := raceAt_after hw hs hevents
  exact ⟨m, hm, h.wonBy hs (hlength ▸ hracers) hall⟩

end Completion

end RitualLedger
