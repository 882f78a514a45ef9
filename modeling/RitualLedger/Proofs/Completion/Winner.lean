import RitualLedger.Proofs.Completion.Contest
import RitualLedger.Proofs.Completion.Current

/-!
# One winner for each step

Among clients of all kinds a racer may lose its step for other reasons than that it is stale: the
subject may have been given another ritual, or its commits may be refused too often. `World.RunsAt`
follows a racer through such a run and marks when it takes the step. It takes the step, and says so,
or it has written nothing and says why. And what is on record once is not recorded again, so at most
one client takes a step (`World.takes_unique`).

The main statement is `one_winner_per_step`.
-/

namespace RitualLedger

/-! ## Among others -/

open Completion (IsOpen IsRace Loses Records TakenOnce WonBy)

namespace World

variable {w : World} {es : List Event} {e : Event} {step : Step} {i j : Nat}

/-- A client puts a step on record, in one of its turns. -/
def Takes (w : World) (es : List Event) (step : Step) (i : Nat) : Prop :=
  ∃ before chance later, es = before ++ .served i chance :: later ∧
    Records step (w.after before).store (w.after (before ++ [.served i chance])).store

theorem takes_concat : w.Takes (es ++ [e]) step i ↔ w.Takes es step i ∨
    (∃ chance, e = .served i chance) ∧
      Records step (w.after es).store (w.after (es ++ [e])).store := by
  constructor
  · rintro ⟨before, chance, later, heq, hrecords⟩
    rcases turn_of_concat heq with ⟨behind, heq⟩ | ⟨rfl, rfl⟩
    · exact .inl ⟨before, chance, behind, heq, hrecords⟩
    · exact .inr ⟨⟨chance, rfl⟩, hrecords⟩
  · rintro (⟨before, chance, later, rfl, hrecords⟩ | ⟨⟨chance, rfl⟩, hrecords⟩)
    · exact ⟨before, chance, later ++ [e], by simp, hrecords⟩
    · exact ⟨es, chance, [], rfl, hrecords⟩

/-- **At most one client takes a step.** What is on record stays there. -/
theorem takes_unique (hw : w.Sound) (hi : w.Takes es step i) (hj : w.Takes es step j) : i = j := by
  have hrecorded : ∀ {es i}, w.Takes es step i → (w.after es).store.read? step.key ≠ none := by
    rintro _ i ⟨before, chance, later, rfl, -, hpresent⟩
    rw [List.append_cons, after_append]
    exact Store.present_of_le ((hw.after _).proceeds_after later).evolves.le hpresent
  -- By induction on the run: nobody takes the step once it is on record.
  induction es using List.reverseRecOn with
  | nil =>
    obtain ⟨before, chance, later, heq, -⟩ := hi
    cases before <;> cases heq
  | append_singleton es e ih =>
    rcases takes_concat.1 hi with hi | ⟨⟨chance, rfl⟩, habsent, -⟩
    · rcases takes_concat.1 hj with hj | ⟨-, habsent, -⟩
      · exact ih hi hj
      · exact absurd habsent (hrecorded hi)
    · rcases takes_concat.1 hj with hj | ⟨⟨chance', heq⟩, -⟩
      · exact absurd habsent (hrecorded hj)
      · cases heq
        rfl

/-- How a client runs that completes a step which was open at the start. It is marked when it takes
the step. -/
structure RunsAt (w : World) (es : List Event) (step : Step) (i : Nat) : Prop where
  client : ∀ c evidence, (w.after es).clients[i]? = some c → c.call = .complete step evidence →
    IsOpen w.store step evidence → ∃ marked,
      c.rest.Keeps (.marking .engine (· = .locked) (Records step))
        (Operation.either (fun e marked _ => marked = false ∧ Loses step e)
          fun _ marked _ => marked = true) marked (w.after es).store ∧
      (marked = true ↔ w.Takes es step i)
  nobody : (w.after es).clients[i]? = none → ¬ w.Takes es step i

/-- At the start nobody has come in. -/
theorem runsAt_start (hi : w.clients.length ≤ i) : w.RunsAt [] step i where
  client c evidence hc := absurd (List.getElem?_eq_some_iff.1 hc).1 (Nat.not_lt.2 hi)
  nobody _ := by
    rintro ⟨before, chance, later, heq, -⟩
    cases before <;> cases heq

/-- A racer that is there goes on, and is marked if it takes the step now. -/
theorem RunsAt.goes_on (h : w.RunsAt es step i) (hw : w.Sound) {c : Client} {evidence : Evidence}
    (hlocked : ∀ chance, e = .served i chance → ∀ err ∈ chance.refusal, err = .locked)
    (hc : (w.after es).clients[i]? = some c) (hcall : c.call = .complete step evidence)
    (hopen : IsOpen w.store step evidence) : ∃ c' marked,
      (w.after (es ++ [e])).clients[i]? = some c' ∧ c'.rest.Keeps
        (.marking .engine (· = .locked) (Records step))
        (Operation.either (fun e marked _ => marked = false ∧ Loses step e)
          fun _ marked _ => marked = true) marked (w.after (es ++ [e])).store ∧
      (marked = true ↔ w.Takes (es ++ [e]) step i) := by
  have hv := hw.after es
  obtain ⟨marked, hkeeps, hmarked⟩ := h.client c evidence hc hcall hopen
  obtain ⟨c', marked', hc', -, hkeeps', hgives⟩ := hv.keeps_step
    (fun _ => Operation.either (fun e marked _ => marked = false ∧ Loses step e)
      fun _ marked _ => marked = true) hc hkeeps e hlocked id
    fun _ => ⟨hv.proceeds e, fun answer h => by cases answer <;> exact h⟩
  rw [takes_concat, after_concat]
  refine ⟨c', marked', hc', hkeeps', ?_⟩
  rcases hgives with ⟨rfl, hstill⟩ | ⟨hturn, rfl, hfirst⟩
  · rw [hmarked]
    refine (or_iff_left ?_).symm
    rintro ⟨⟨chance, he⟩, habsent, hpresent⟩
    rw [hstill.resolve_right fun helsewhere => helsewhere chance he] at hpresent
    exact hpresent habsent
  · refine iff_of_true rfl ?_
    cases marked with
    | true => exact .inl (hmarked.1 rfl)
    | false => exact .inr ⟨hturn, hfirst rfl⟩

/-- An event that brings no client to a place is no turn that takes the step. -/
theorem RunsAt.idle (h : w.RunsAt es step i) (hnone : (w.after es).clients[i]? = none) :
    ¬ w.Takes (es ++ [e]) step i := by
  rw [takes_concat, after_concat]
  rintro (htakes | ⟨⟨chance, rfl⟩, habsent, hpresent⟩)
  · exact h.nobody hnone htakes
  · rw [step_of_absent hnone] at hpresent
    exact hpresent habsent

/-- A racer goes on in any event, or comes in. -/
theorem RunsAt.concat (h : w.RunsAt es step i) (hw : w.Sound) (hs : w.store.Regular)
    (hlocked : ∀ chance, e = .served i chance → ∀ err ∈ chance.refusal, err = .locked) :
    w.RunsAt (es ++ [e]) step i := by
  constructor
  · intro c evidence hc hcall hopen
    cases hbefore : (w.after es).clients[i]? with
    | some c₀ =>
      obtain ⟨c', hc', hsame⟩ := client_stays hbefore e
      rw [← after_concat] at hc'
      cases hc.symm.trans hc'
      obtain ⟨c', marked, hc', hkeeps, hmarked⟩ :=
        h.goes_on hw hlocked hbefore (hsame.symm.trans hcall) hopen
      cases hc.symm.trans hc'
      exact ⟨marked, hkeeps, hmarked⟩
    | none =>
      rw [after_concat] at hc ⊢
      obtain ⟨policy, call, rfl, hstore⟩ := entered hbefore hc
      cases hcall
      obtain ⟨r, a, task, hopen⟩ := hopen
      refine ⟨false, ?_, iff_of_false nofun (h.idle hbefore)⟩
      rw [hstore]
      exact Completion.keeps_complete_among hs hopen (hw.proceeds_after es)
  · intro hnone
    rw [after_concat] at hnone
    exact h.idle (absent_of_step hnone)

/-- **A racer among others takes the step, or writes nothing.** -/
theorem runsAt_after (hw : w.Sound) (hs : w.store.Regular) (hi : w.clients.length ≤ i)
    (hlocked : ∀ chance, .served i chance ∈ es → ∀ e ∈ chance.refusal, e = .locked) :
    w.RunsAt es step i := by
  induction es using List.reverseRecOn with
  | nil => exact runsAt_start hi
  | append_singleton es e ih =>
    refine (ih fun chance he => hlocked chance (List.mem_append_left _ he)).concat hw hs ?_
    rintro chance rfl
    exact hlocked chance (List.mem_append_right _ List.mem_cons_self)

/-- What has come of a racer among others that has its answer. -/
theorem RunsAt.answer {c : Client} {evidence : Evidence} (h : w.RunsAt es step i)
    (hc : (w.after es).clients[i]? = some c) (hcall : c.call = .complete step evidence)
    (hopen : IsOpen w.store step evidence) {answer : Except EngineError Unit}
    (hanswer : (w.after es).answer? i = some answer) :
    answer = .ok () ∧ w.Takes es step i ∨
      ∃ e, answer = .error e ∧ Loses step e ∧ ¬ w.Takes es step i := by
  obtain ⟨c', hc', hanswer⟩ := Option.bind_eq_some_iff.1 hanswer
  cases hc.symm.trans hc'
  obtain ⟨result, hresult, rfl⟩ := Option.map_eq_some_iff.1 hanswer
  obtain ⟨marked, hkeeps, hmarked⟩ := h.client c evidence hc hcall hopen
  rw [Program.rest_of_result? hresult] at hkeeps
  cases result with
  | ok result => exact .inl ⟨rfl, hmarked.1 hkeeps⟩
  | error e =>
    obtain ⟨hunmarked, hloses⟩ := hkeeps
    refine .inr ⟨e, rfl, hloses, fun htakes => ?_⟩
    cases hunmarked.symm.trans (hmarked.2 htakes)

end World

/-! ## The main statement -/

/-- **One winner for each step.** Take a world that the engine has reached.

When any number of clients complete a step that is open there, and nothing else happens, then one of
them wins, in whatever order their requests are served: it succeeds, all others are told that the
step is stale, ritual and assignment point to the next task, there is one record of the step and one
of the winner's evidence, and the reward of the task is credited once if there is one, its key is
not in use and the balance can hold it, and otherwise not at all. The contest ends if its racers are
served again and again.

When anything else happens besides, at most one client takes the step. A racer that is answered has
succeeded and taken the step; or it has failed, because the step is stale, the subject has another
ritual, its attempts are used up or the store is locked, and then it has not taken the step. And
whoever is served again and again is answered. -/
theorem one_winner_per_step (ttl : Int) (es : List Event) (step : Step) {w : World}
    (hreached : w = (World.initial ttl).after es) :
    (∀ race : List Event, (∀ e ∈ race, IsRace w step e) →
      w.clients.length < (w.after race).clients.length →
      (w.after race).AllAnswered w.clients.length →
      ∃ winner, WonBy w step (w.after race) winner) ∧
    (∀ (race : Nat → Event) (n : Nat), (∀ m, IsRace w step (race m)) →
      (∀ m ≥ n, ∀ policy call, race m ≠ .called policy call) →
      w.clients.length < (w.afterFirst race n).clients.length →
      (∀ i, w.clients.length ≤ i → i < (w.afterFirst race n).clients.length →
        w.KeepsServing race i) →
      ∃ m ≥ n, ∃ winner, WonBy w step (w.afterFirst race m) winner) ∧
    (∀ (run : List Event) (i : Nat) (c : Client) (evidence : Evidence)
      (answer : Except EngineError Unit), w.clients.length ≤ i →
      (w.after run).clients[i]? = some c → c.call = .complete step evidence →
      IsOpen w.store step evidence →
      (∀ chance, .served i chance ∈ run → ∀ e ∈ chance.refusal, e = .locked) →
      (w.after run).answer? i = some answer →
      answer = .ok () ∧ w.Takes run step i ∨
        ∃ e, answer = .error e ∧ Loses step e ∧ ¬ w.Takes run step i) ∧
    (∀ (run : List Event) (i j : Nat), w.Takes run step i → w.Takes run step j → i = j) ∧
    ∀ (run : Nat → Event) (n i : Nat), i < (w.afterFirst run n).clients.length →
      w.KeepsServing run i → ∃ m ≥ n, ∃ answer, (w.afterFirst run m).answer? i = some answer := by
  have hw : w.Sound := by
    rw [hreached]
    exact World.sound_after ttl es
  have hs : w.store.Regular := by
    rw [hreached]
    exact World.regular_after ttl es
  refine ⟨?_, ?_, ?_, fun run i j => World.takes_unique hw, ?_⟩
  · intro race hrace hracers hall
    obtain ⟨winner, h⟩ := Completion.raceAt_after hw hs hrace
    exact h.wonBy hs hracers hall
  · exact fun race n => Completion.wonBy_in_the_end hw hs
  · intro run i c evidence answer hi hc hcall hopen hlocked
    exact (World.runsAt_after hw hs hi hlocked).answer hc hcall hopen
  · exact fun run n i hi hserved => World.answered hserved (List.getElem?_eq_getElem hi)

/-! ## Two racers -/

/-- An endless contest of two racers for a step, who take turns. Their places are given. -/
def twoRacers (step : Step) (first : Nat) : Nat → Event
  | 0 => .called ⟨2⟩ (.complete step (.text "done"))
  | 1 => .called ⟨2⟩ (.complete step (.text "done too"))
  | n + 2 => .served (first + n % 2) ⟨none, ⟨1700000001, 0⟩, ""⟩

variable {w : World} {step : Step} {first : Nat}

/-- Two racers race when the task is current and takes any evidence. -/
theorem isRace_twoRacers (hs : w.store.Regular) (hfirst : w.clients.length = first)
    (hcurrent : ∃ c ∈ w.store.currentTask? step.subject, c.ritual.id = step.ritual ∧
      c.taskIndex = step.index ∧ c.task.evidenceKind = .any) (n : Nat) :
    IsRace w step (twoRacers step first n) := by
  obtain ⟨c, hc, hritual, hindex, hkind⟩ := hcurrent
  have hopen : ∀ evidence, IsOpen w.store step evidence := fun evidence =>
    (Completion.isOpen_iff hs).2 ⟨c, hc, hritual.symm, hindex.symm, by rw [hkind]; rfl⟩
  match n with
  | 0 => exact ⟨le_rfl, _, rfl, hopen _⟩
  | 1 => exact ⟨le_rfl, _, rfl, hopen _⟩
  | n + 2 => exact ⟨hfirst.trans_le (Nat.le_add_right first (n % 2)), rfl⟩

/-- Both racers are served again and again, if they have their answers at some point. -/
theorem keepsServing_twoRacers {n : Nat} {answer : Except EngineError Unit} {i : Nat} (hi : i < 2)
    (hanswer : (w.afterFirst (twoRacers step first) n).answer? (first + i) = some answer) :
    w.KeepsServing (twoRacers step first) (first + i) := by
  intro k
  have hturn : twoRacers step first (2 * (n + k) + i + 2) =
      .served (first + i) ⟨none, ⟨1700000001, 0⟩, ""⟩ := by
    rw [twoRacers]
    congr 2
    omega
  refine ⟨2 * (n + k) + i + 2, by omega, _, hturn, ?_⟩
  have hdraws := World.draws_of_answered
    (World.answer?_afterFirst hanswer (m := 2 * (n + k) + i + 2) (by omega))
  rw [hturn]
  refine ⟨by decide, fun h => ?_⟩
  cases hdraws.symm.trans h

/-- The beginning of a contest for the only task of `walk`. -/
def walkRace : List Event := (List.range 56).map (twoRacers walk 3)

/-- The only task of `walk` is completed by one of two racers. -/
theorem one_winner_in_walk :
    (∃ winner, WonBy ((World.initial 0).after walkBegun) walk
      (((World.initial 0).after walkBegun).after walkRace) winner) ∧
    (∃ m ≥ 2, ∃ winner, WonBy ((World.initial 0).after walkBegun) walk
      (((World.initial 0).after walkBegun).afterFirst (twoRacers walk 3) m) winner) ∧
    ((World.initial 0).after walkBegun).Takes walkRace walk 3 ∧
    ¬ ((World.initial 0).after walkBegun).Takes walkRace walk 4 := by
  obtain ⟨w, hreached⟩ : ∃ w, w = (World.initial 0).after walkBegun := ⟨_, rfl⟩
  have hrun : (w.clients.length = 3 ∧
        (w.store.currentTask? walk.subject).map (fun c => (c.ritual.id, c.taskIndex,
          c.task.evidenceKind)) = some (walk.ritual, walk.index, .any)) ∧
      (w.afterFirst (twoRacers walk 3) 2).clients.length = 5 ∧
      (w.afterFirst (twoRacers walk 3) 56).clients.length = 5 ∧
      (w.afterFirst (twoRacers walk 3) 56).answer? 3 = some (.ok ()) ∧
      (w.afterFirst (twoRacers walk 3) 56).answer? 4 =
        some (.error (.staleTask walk.ritual 0 1)) := by
    rw [hreached]
    decide +kernel
  obtain ⟨⟨hfirst, hwalk⟩, htwo, hlast, hok, hstale⟩ := hrun
  have hw : w.Sound := hreached ▸ World.sound_after 0 walkBegun
  have hs : w.store.Regular := hreached ▸ World.regular_after 0 walkBegun
  obtain ⟨c, hc, heq⟩ := Option.map_eq_some_iff.1 hwalk
  simp only [Prod.mk.injEq] at heq
  have hrace := isRace_twoRacers hs hfirst ⟨c, hc, heq⟩
  have hracers : ∀ e ∈ walkRace, IsRace w walk e := by
    intro e he
    obtain ⟨n, -, rfl⟩ := List.mem_map.1 he
    exact hrace n
  have hplaces : ∀ i, w.clients.length ≤ i → i < 5 → i = 3 ∨ i = 4 := by omega
  obtain ⟨hwon, hend, hanswers, -⟩ := one_winner_per_step 0 walkBegun walk hreached
  have htakes : ∀ i answer, w.clients.length ≤ i →
      (w.afterFirst (twoRacers walk 3) 56).answer? i = some answer →
      answer = .ok () ∧ w.Takes walkRace walk i ∨
        ∃ e, answer = .error e ∧ Loses walk e ∧ ¬ w.Takes walkRace walk i := by
    intro i answer hi hanswer
    obtain ⟨c, hc, -⟩ := Option.bind_eq_some_iff.1 hanswer
    obtain ⟨winner, h⟩ := Completion.raceAt_after hw hs hracers
    obtain ⟨evidence, hcall, hopen, -⟩ := h.racer i c hi hc
    refine hanswers _ i c evidence answer hi hc hcall hopen ?_ hanswer
    intro chance hmem e he
    rw [(hracers _ hmem).2] at he
    cases he
  rw [← hreached]
  refine ⟨hwon _ hracers ?_ ?_, hend (twoRacers walk 3) 2 hrace ?_ ?_ ?_, ?_, ?_⟩
  · change w.clients.length < (w.afterFirst (twoRacers walk 3) 56).clients.length
    omega
  · intro i hi hlength
    rcases hplaces i hi (hlast ▸ hlength) with rfl | rfl
    · exact ⟨_, hok⟩
    · exact ⟨_, hstale⟩
  · rintro (_ | _ | m) hm policy call
    · cases hm
    · omega
    · exact nofun
  · omega
  · intro i hi hlength
    rcases hplaces i hi (htwo ▸ hlength) with rfl | rfl
    · exact keepsServing_twoRacers (i := 0) (by decide) hok
    · exact keepsServing_twoRacers (i := 1) (by decide) hstale
  · rcases htakes 3 _ (by omega) hok with ⟨-, htakes⟩ | ⟨e, herror, -⟩
    · exact htakes
    · cases herror
  · rcases htakes 4 _ (by omega) hstale with ⟨herror, -⟩ | ⟨e, -, -, hnot⟩
    · cases herror
    · exact hnot

/-- A run after which the subject of `walk` has the ritual, and a transaction of a given key has
brought it a given amount. -/
def gifted (key : String) (amount : UInt64) : List Event :=
  let ritual : Definition := ⟨"kim", "ana", "Walk", "", [⟨"Go out", "", .any, 5⟩], []⟩
  let gift : TransactionRequest :=
    { TransactionRequest.plain .reward none (some "ana") amount with key := some key }
  let served (client : Nat) (id : String) : Event := .served client ⟨none, ⟨1700000000, 0⟩, id⟩
  [.openAccount "kim", .openAccount "ana", .apply gift, .create ritual].map (.called ⟨1⟩) ++
    ([0, 0, 0, 1, 1, 1, 2, 2, 2, 2, 3].map (served · "") ++
      [served 3 walk.ritual, served 3 "22222222-2222-4222-8222-222222222222",
        served 3 "33333333-3333-4333-8333-333333333333"] ++
      (List.replicate 5 3).map (served · ""))

/-- Two racers race for `walk`, whose task has a reward. One completes the step and the other one is
told that it is stale, but the reward is not credited. -/
structure RewardLost (w : World) : Prop where
  race : ∀ n, IsRace w walk (twoRacers walk 4 n)
  reward : ∃ c ∈ w.store.currentTask? walk.subject, c.task.tokenReward = 5
  won : (w.afterFirst (twoRacers walk 4) 34).answer? 4 = some (.ok ())
  lost : (w.afterFirst (twoRacers walk 4) 34).answer? 5 =
    some (.error (.staleTask walk.ritual 0 1))
  uncredited : ∀ tx ∈ (w.afterFirst (twoRacers walk 4) 34).store.booked
    ((Scope.reward walk).key 0), tx.amount ≠ 5

/-- Whether a reward is lost is seen in the first turns of the race. -/
theorem rewardLost (hs : w.store.Regular)
    (hrun : w.clients.length = 4 ∧
      (w.store.currentTask? walk.subject).map (fun c =>
        (c.ritual.id, c.taskIndex, c.task.evidenceKind, c.task.tokenReward)) =
          some (walk.ritual, walk.index, .any, 5) ∧
      (w.afterFirst (twoRacers walk 4) 34).answer? 4 = some (.ok ()) ∧
      (w.afterFirst (twoRacers walk 4) 34).answer? 5 =
        some (.error (.staleTask walk.ritual 0 1)) ∧
      ∀ tx ∈ (w.afterFirst (twoRacers walk 4) 34).store.booked ((Scope.reward walk).key 0),
        tx.amount ≠ 5) : RewardLost w := by
  obtain ⟨hfirst, hwalk, hwon, hlost, huncredited⟩ := hrun
  obtain ⟨c, hc, heq⟩ := Option.map_eq_some_iff.1 hwalk
  simp only [Prod.mk.injEq] at heq
  obtain ⟨hritual, hindex, hkind, hreward⟩ := heq
  exact ⟨isRace_twoRacers hs hfirst ⟨c, hc, hritual, hindex, hkind⟩, ⟨c, hc, hreward⟩, hwon,
    hlost, huncredited⟩

/-- A reward is lost when the account is full, and when its key is in use. -/
theorem reward_lost_in_gifted :
    RewardLost ((World.initial 0).after (gifted "gift" 9223372036854775807)) ∧
    RewardLost ((World.initial 0).after (gifted ((Scope.reward walk).key 0) 1)) := by
  refine ⟨rewardLost (World.regular_after 0 _) ?_, rewardLost (World.regular_after 0 _) ?_⟩
  all_goals decide +kernel

end RitualLedger
