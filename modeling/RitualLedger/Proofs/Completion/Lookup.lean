import Mathlib.Data.List.TakeWhile
import RitualLedger.Proofs.Completion.Course
import RitualLedger.Proofs.Engine.Answers
import RitualLedger.Proofs.Engine.Passage
import RitualLedger.Proofs.Rule.Confinement

/-!
# Looking completions up

A completion is recorded under the id of its step, in which ritual, subject and index are parted by
colons. Subjects may contain colons themselves, so several texts for ritual and subject make up the
same id. The id of a ritual contains no colon; so an id can only be that of a record if it is read
with the ritual ending at the first colon (`Step.asRead`).

A look-up is answered with whatever is stored under the id, and a replay follows that record up. So
they answer for the step as it is read, which is the step that was asked for exactly if the text for
the ritual contains no colon (`lookups_answer_for_the_step_as_read`).
-/

namespace RitualLedger

open Text (NoColon)

/-! ## Ids of steps -/

namespace Step

/-- The step that an id is read as: the ritual ends at the first colon. -/
def asRead (step : Step) : Step :=
  match step.ritual.toList.dropWhile (· != ':') with
  | [] => step
  | _ :: rest =>
    { step with
      ritual := String.ofList (step.ritual.toList.takeWhile (· != ':'))
      subject := String.ofList rest ++ ":" ++ step.subject }

theorem noColon_asRead (step : Step) : NoColon step.asRead.ritual := by
  have htaken : ':' ∉ step.ritual.toList.takeWhile (· != ':') := by
    intro hmem
    have hne := List.mem_takeWhile_imp hmem
    simp at hne
  rw [asRead]
  split
  · rename_i hnone
    rw [List.dropWhile_eq_nil_iff] at hnone
    intro hmem
    have hne := hnone ':' hmem
    simp at hne
  · rw [NoColon, String.toList_ofList]
    exact htaken

theorem id_asRead (step : Step) : step.asRead.id = step.id := by
  rw [asRead]
  split
  · rfl
  · rename_i colon rest hrest
    have hcolon : colon = ':' := by
      have hhead := List.head?_dropWhile_not (· != ':') step.ritual.toList
      rw [hrest] at hhead
      simpa using hhead
    have hsplit : step.ritual =
        String.ofList (step.ritual.toList.takeWhile (· != ':')) ++ ":" ++ String.ofList rest := by
      apply String.toList_inj.1
      have happend := List.takeWhile_append_dropWhile (p := (· != ':')) (l := step.ritual.toList)
      rw [hrest, hcolon] at happend
      simpa using happend.symm
    apply String.toList_inj.1
    rw [id, id]
    conv_rhs => rw [hsplit]
    simp

/-- A step is read as itself exactly if its ritual contains no colon. -/
theorem asRead_eq_iff {step : Step} : step.asRead = step ↔ NoColon step.ritual := by
  constructor
  · intro h
    rw [← h]
    exact step.noColon_asRead
  · intro h
    exact eq_of_id step.noColon_asRead h step.id_asRead

end Step

variable {s : Store} {step : Step} {c : CompletionRecord}

/-- **A record is found for the step as it is read**, and that step was taken. -/
theorem Store.Regular.step_of_record (hs : s.Regular)
    (hc : s.get? CompletionRecord step.key = some c) : c.step = step.asRead ∧
      ∃ r, s.get? Ritual (Ritual.key step.asRead.ritual) = some r := by
  obtain ⟨r, hr, hreports⟩ := hs.mirrored.records step.id c hc
  have hritual : NoColon c.step.ritual := by
    change NoColon c.ritualId
    rw [hreports.ritual]
    exact (hs.mirrored.uuid _ r hr).1.noColon
  have hnamed : c.step.id = step.id := (hs.wellTyped.named (α := CompletionRecord) hc).2
  have hsame : c.step = step.asRead :=
    Step.eq_of_id hritual step.noColon_asRead (hnamed.trans step.id_asRead.symm)
  rw [← hsame]
  exact ⟨rfl, r, hr⟩

/-! ## Clients that keep to one subject and one ritual -/

/-- A client writes for one subject of one ritual only. It is in a phase for them from its first
write on. -/
def Contract.confining : Contract (Option (String × String)) where
  rely _ := .engine
  refuses _ := True
  known := Rely.engine.moves
  gives g s g' t := ∃ subject ritual, g' = some (subject, ritual) ∧ (g = none ∨ g = g') ∧
    s.Confines subject ritual t

namespace Contract

variable {subject ritual : String}

theorem amid_confining : confining.Amid := ⟨id, fun _ => trivial, id⟩

theorem admits_confining (subject ritual : String) :
    confining.Admits subject ritual fun g => g = none ∨ g = some (subject, ritual) where
  moves := id
  gives hg hs hc hmakes :=
    ⟨_, .inr rfl, subject, ritual, rfl, hg, hmakes.confines hs.wellTyped hc⟩

/-- All that such a client has written is for the two. -/
theorem Leads.confines {turns : List (Store × Store)} {g : Option (String × String)}
    (h : confining.Leads none turns g) (hg : g = none ∨ g = some (subject, ritual)) :
    ∀ turn ∈ turns, turn.1.Confines subject ritual turn.2 := by
  induction h with
  | start => exact nofun
  | still _ s ih =>
    intro turn hturn
    rcases List.mem_append.1 hturn with hturn | hturn
    · exact ih hg turn hturn
    · rw [List.mem_singleton.1 hturn]
      exact s.confines_refl subject ritual
  | given _ hgives ih =>
    obtain ⟨subject', ritual', rfl, hbefore, hconfines⟩ := hgives
    cases hg.resolve_left nofun
    intro turn hturn
    rcases List.mem_append.1 hturn with hturn | hturn
    · exact ih hbefore turn hturn
    · rw [List.mem_singleton.1 hturn]
      exact hconfines

end Contract

/-! ## Look-ups and replays in a run -/

namespace Completion

open Contract (confining)

/-- What is replayed with the record that was found, and for whom something may have been
written. -/
def Replayed (step : Step) (answer : Except EngineError CompletionOutcome)
    (g : Option (String × String)) : Option CompletionRecord → Prop
  | none => answer = .error (.notFound .completion step.id) ∧ g = none
  | some c => (∃ o, answer = .ok o ∧ o.step = c.step) ∧
    (g = none ∨ g = some (c.subjectId, c.ritualId))

theorem find?_ne_finish (step : Step) (answer : Except EngineError (Option CompletionRecord)) :
    (find? step).program ≠ .finish answer := by
  rintro ⟨⟩

theorem serve_find? {scene : Scene} (hs : scene.store.Regular) (step : Step) (chance : Chance) :
    (find? step).program.serve scene chance =
      (.finish (.ok (scene.store.get? CompletionRecord step.key)), scene) :=
  Operation.serve_readRecord? hs.wellTyped step.id chance

theorem begins_find (step : Step) : (Call.findCompletion step).Begins confining none
    fun scene _ answer g =>
      answer = .ok (scene.store.get? CompletionRecord step.key) ∧ g = none where
  busy _ := find?_ne_finish step
  idle _ _ _ := rfl
  keeps policy scene chance hs := by
    change ((find? step).program.serve scene chance).1.Keeps _ _ _ _
    rw [serve_find? hs]
    exact ⟨rfl, rfl⟩

theorem begins_replay (step : Step) : (Call.replay step).Begins confining none
    fun scene _ answer g =>
      Replayed step answer g (scene.store.get? CompletionRecord step.key) where
  busy := by rintro policy answer ⟨⟩
  idle _ _ _ := rfl
  keeps policy scene chance hs := by
    change ((replay policy step).program.serve scene chance).1.Keeps _ _ _ _
    rw [replay, Operation.serve_bind (find?_ne_finish step) (serve_find? hs step chance)]
    cases hc : scene.store.get? CompletionRecord step.key with
    | none => exact ⟨rfl, rfl⟩
    | some c =>
      obtain ⟨r, hr, -⟩ := hs.mirrored.records step.id c hc
      refine Program.Keeps.imp (keeps_followUp_within
        (Contract.admits_confining c.subjectId c.ritualId) hs hr
        ⟨.inl rfl, Rely.engine.refl scene.store⟩) ?_
      rintro (e | o) g s' hanswer
      · exact hanswer.elim
      · exact ⟨⟨o, rfl, hanswer.1⟩, hanswer.2.1⟩

end Completion

namespace World

open Contract (confining)

variable {ttl : Int} {es : List Event} {i : Nat} {own : List String}

theorem leavesNoTrace_of_confining (h : confining.Leads none ((initial ttl).turns i es) none) :
    (initial ttl).LeavesNoTrace es i := by
  refine leavesNoTrace_of_unmarked h ?_
  rintro g s t ⟨subject, ritual, hnone, -⟩
  cases hnone

/-- A look-up finds what is stored under the id when it is made, and writes nothing. -/
theorem found_of_answer {answer : Except EngineError (Option CompletionRecord)}
    (hc : ((initial ttl).after es).clients[i]? =
      some ⟨.findCompletion step, own, .finish answer⟩) :
    (initial ttl).LeavesNoTrace es i ∧ ∃ before chance,
      (initial ttl).FirstTurn es i (.findCompletion step) before chance ∧
      answer = .ok (((initial ttl).after before).store.get? CompletionRecord step.key) := by
  obtain ⟨before, chance, g, hfirst, ⟨hanswer, rfl⟩, hleads⟩ :=
    begun_of_answer Contract.amid_confining (Completion.begins_find step) hc
  exact ⟨leavesNoTrace_of_confining hleads, before, chance, hfirst, hanswer⟩

/-- A replay fails and writes nothing, or follows up the record of the step as it is read. -/
theorem replayed_of_answer {answer : Except EngineError CompletionOutcome}
    (hc : ((initial ttl).after es).clients[i]? = some ⟨.replay step, own, .finish answer⟩) :
    ∃ before chance, (initial ttl).FirstTurn es i (.replay step) before chance ∧
      ((((initial ttl).after before).store.get? CompletionRecord step.key = none ∧
        answer = .error (.notFound .completion step.id) ∧ (initial ttl).LeavesNoTrace es i) ∨
      ∃ c o r, ((initial ttl).after before).store.get? CompletionRecord step.key = some c ∧
        answer = .ok o ∧ o.step = step.asRead ∧
        ((initial ttl).after es).store.get? Ritual (Ritual.key step.asRead.ritual) = some r ∧
        ∀ turn ∈ (initial ttl).turns i es,
          turn.1.Confines step.asRead.subject step.asRead.ritual turn.2) := by
  obtain ⟨before, chance, g, hfirst, hreplayed, hleads⟩ :=
    begun_of_answer Contract.amid_confining (Completion.begins_replay step) hc
  change Completion.Replayed step answer g
    (((initial ttl).after before).store.get? CompletionRecord step.key) at hreplayed
  refine ⟨before, chance, hfirst, ?_⟩
  cases hfound : ((initial ttl).after before).store.get? CompletionRecord step.key with
  | none =>
    rw [hfound] at hreplayed
    obtain ⟨hanswer, rfl⟩ := hreplayed
    exact .inl ⟨rfl, hanswer, leavesNoTrace_of_confining hleads⟩
  | some c =>
    rw [hfound] at hreplayed
    obtain ⟨⟨o, hanswer, hstep⟩, hg⟩ := hreplayed
    obtain ⟨hread, r, hr⟩ := (regular_after ttl before).step_of_record hfound
    obtain ⟨r', hr', -⟩ := hfirst.proceeds.evolves.rituals _ r hr
    refine .inr ⟨c, o, r', rfl, hanswer, hstep.trans hread, hr', ?_⟩
    rw [← hread]
    exact hleads.confines hg

end World

/-! ## Answers -/

/-- **Look-ups and replays answer for the step as its id is read**, with the ritual ending at the
first colon, and that is the step that was asked for exactly if the text for its ritual contains no
colon. A look-up answers with the record that is stored when it is made, which is one of the step as
it is read, and writes nothing. If there is no record then, a replay answers that it was not found,
and writes nothing. Otherwise the outcome names the step as it is read, whose ritual is stored, and
whatever the replay adds or changes belongs to the subject and the ritual of that step. No other
answer is given; and in an endless run every client that is served again and again is answered. -/
theorem lookups_answer_for_the_step_as_read (ttl : Int) (es : List Event) (i : Nat)
    (own : List String) (step : Step) :
    let w := World.initial ttl
    (step.asRead = step ↔ NoColon step.ritual) ∧
    (∀ answer, (w.after es).clients[i]? = some ⟨.findCompletion step, own, .finish answer⟩ →
      w.LeavesNoTrace es i ∧ ∃ before chance,
        w.FirstTurn es i (.findCompletion step) before chance ∧
        answer = .ok ((w.after before).store.get? CompletionRecord step.key) ∧
        ∀ c, answer = .ok (some c) → c.step = step.asRead) ∧
    (∀ answer, (w.after es).clients[i]? = some ⟨.replay step, own, .finish answer⟩ →
      ∃ before chance, w.FirstTurn es i (.replay step) before chance ∧
        (((w.after before).store.get? CompletionRecord step.key = none ∧
          answer = .error (.notFound .completion step.id) ∧ w.LeavesNoTrace es i) ∨
        ∃ c o r, (w.after before).store.get? CompletionRecord step.key = some c ∧
          answer = .ok o ∧ o.step = step.asRead ∧
          (w.after es).store.get? Ritual (Ritual.key step.asRead.ritual) = some r ∧
          ∀ turn ∈ w.turns i es,
            turn.1.Confines step.asRead.subject step.asRead.ritual turn.2)) ∧
    ∀ f n, w.KeepsServing f i → i < (w.afterFirst f n).clients.length →
      ∃ m ≥ n, ∃ answer, (w.afterFirst f m).answer? i = some answer := by
  intro w
  refine ⟨Step.asRead_eq_iff, ?_, fun answer => World.replayed_of_answer, ?_⟩
  · intro answer hc
    obtain ⟨htrace, before, chance, hfirst, hanswer⟩ := World.found_of_answer hc
    refine ⟨htrace, before, chance, hfirst, hanswer, ?_⟩
    intro c hsome
    have hfound := Except.ok.inj (hanswer.symm.trans hsome)
    exact ((World.regular_after ttl before).step_of_record hfound).1
  · intro f n hserved hi
    exact World.answered hserved (List.getElem?_eq_getElem hi)

/-- A step of a subject whose name contains a colon. -/
def colonWalk : Step := ⟨walk.ritual, "a:b", 0⟩

/-- The same id, parted differently. -/
def colonMisread : Step := ⟨walk.ritual ++ ":a", "b", 0⟩

/-- A step that is looked up in vain. -/
def colonMissing : Step := ⟨walk.ritual, "b", 0⟩

/-- A run in which `colonWalk` is completed, and `colonMisread` is looked up and replayed, and
`colonMissing` as well. -/
def colonWalked : List Event :=
  let ritual : Definition := ⟨"kim", "a:b", "Walk", "", [⟨"Go out", "", .any, 7⟩], []⟩
  let served (id : String) (client : Nat) : Event := .served client ⟨none, ⟨1700000000, 0⟩, id⟩
  [.openAccount "kim", .openAccount "a:b", .create ritual, .complete colonWalk (.text "done"),
      .findCompletion colonMisread, .replay colonMisread,
      .replay colonMissing].map (.called ⟨1⟩) ++
    ([0, 0, 0, 1, 1, 1, 2].map (served "") ++
      [served walk.ritual 2, served "22222222-2222-4222-8222-222222222222" 2,
        served "33333333-3333-4333-8333-333333333333" 2] ++
      (List.replicate 5 2 ++ List.replicate 8 3 ++ [4] ++ List.replicate 40 5 ++ [6]).map
        (served ""))

/-- What the clients of `colonWalked` that look something up come to. -/
theorem lookedUp_in_colonWalked : ∃ own own' own'' c o,
    ((World.initial 0).after colonWalked).clients[4]? =
      some ⟨.findCompletion colonMisread, own, .finish (.ok (some c))⟩ ∧ c.step = colonWalk ∧
    ((World.initial 0).after colonWalked).clients[5]? =
      some ⟨.replay colonMisread, own', .finish (.ok o)⟩ ∧ o.step = colonWalk ∧
    ((World.initial 0).after colonWalked).clients[6]? =
      some ⟨.replay colonMissing, own'',
        .finish (.error (.notFound .completion colonMissing.id))⟩ ∧
    ((World.initial 0).after colonWalked).store.get? Ritual (Ritual.key colonMisread.ritual) =
      none := by
  let step (answer : Except EngineError CompletionOutcome) := answer.map (·.step)
  have hrun : (((World.initial 0).after colonWalked).answerTo? 4
        (.findCompletion colonMisread)).map (fun answer : Except EngineError
          (Option CompletionRecord) => answer.map (·.map (·.step))) =
            some (.ok (some colonWalk)) ∧
      (((World.initial 0).after colonWalked).answerTo? 5 (.replay colonMisread)).map step =
        some (.ok colonWalk) ∧
      (((World.initial 0).after colonWalked).answerTo? 6 (.replay colonMissing)).map step =
        some (.error (.notFound .completion colonMissing.id)) ∧
      ((World.initial 0).after colonWalked).store.get? Ritual (Ritual.key colonMisread.ritual) =
        none := by
    decide +kernel
  obtain ⟨hfound, hreplayed, hmissing, hnone⟩ := hrun
  obtain ⟨answer, hanswer, hstep⟩ := Option.map_eq_some_iff.1 hfound
  obtain ⟨answer', hanswer', hstep'⟩ := Option.map_eq_some_iff.1 hreplayed
  obtain ⟨answer'', hanswer'', herror⟩ := Option.map_eq_some_iff.1 hmissing
  obtain ⟨own, hclient⟩ := World.client_of_answerTo? hanswer
  obtain ⟨own', hclient'⟩ := World.client_of_answerTo? hanswer'
  obtain ⟨own'', hclient''⟩ := World.client_of_answerTo? hanswer''
  rcases answer with e | c?
  · cases hstep
  rcases answer' with e | o
  · cases hstep'
  rcases answer'' with e | o'
  · cases herror
    obtain ⟨c, rfl, hc⟩ := Option.map_eq_some_iff.1 (Except.ok.inj hstep)
    exact ⟨own, own', own'', c, o, hclient, hc, hclient', Except.ok.inj hstep', hclient'', hnone⟩
  · cases herror

/-- In `colonWalked` the replay of `colonMisread` works for the subject of `colonWalk`, and the one
that finds nothing leaves no trace. -/
theorem replays_confined_in_colonWalked :
    (∀ turn ∈ (World.initial 0).turns 5 colonWalked,
      turn.1.Confines "a:b" walk.ritual turn.2) ∧
    (World.initial 0).LeavesNoTrace colonWalked 6 := by
  obtain ⟨-, own, own', -, o, -, -, hreplayed, -, hmissing, -⟩ := lookedUp_in_colonWalked
  obtain ⟨-, -, hreplay, -⟩ :=
    lookups_answer_for_the_step_as_read 0 colonWalked 5 own colonMisread
  obtain ⟨-, -, hreplay', -⟩ :=
    lookups_answer_for_the_step_as_read 0 colonWalked 6 own' colonMissing
  have hread : colonMisread.asRead = colonWalk := by decide
  constructor
  · obtain ⟨-, -, -, ⟨-, hnone, -⟩ | ⟨_, _, _, -, -, -, -, hconfined⟩⟩ := hreplay _ hreplayed
    · cases hnone
    · rw [hread] at hconfined
      exact hconfined
  · obtain ⟨-, -, -, ⟨-, -, htrace⟩ | ⟨_, _, _, -, hok, -⟩⟩ := hreplay' _ hmissing
    · exact htrace
    · cases hok

/-- In `colonWalked` a look-up and a replay for the subject `b` answer for the subject `a:b`, and
the ritual that they were asked for does not exist. -/
theorem answered_for_another_subject_in_colonWalked : ∃ own own' c o,
    ((World.initial 0).after colonWalked).clients[4]? =
      some ⟨.findCompletion colonMisread, own, .finish (.ok (some c))⟩ ∧
    ((World.initial 0).after colonWalked).clients[5]? =
      some ⟨.replay colonMisread, own', .finish (.ok o)⟩ ∧
    c.ritualId ≠ colonMisread.ritual ∧ c.subjectId ≠ colonMisread.subject ∧
    o.ritualId ≠ colonMisread.ritual ∧ o.subjectId ≠ colonMisread.subject ∧
    ((World.initial 0).after colonWalked).store.get? Ritual (Ritual.key colonMisread.ritual) =
      none := by
  obtain ⟨own, own', -, c, o, hfound, hc, hreplayed, ho, -, hnone⟩ := lookedUp_in_colonWalked
  have hdiffer : colonWalk.ritual ≠ colonMisread.ritual ∧
      colonWalk.subject ≠ colonMisread.subject := by decide
  refine ⟨own, own', c, o, hfound, hreplayed, ?_, ?_, ?_, ?_, hnone⟩
  · exact fun h => hdiffer.1 ((congrArg Step.ritual hc).symm.trans h)
  · exact fun h => hdiffer.2 ((congrArg Step.subject hc).symm.trans h)
  · exact fun h => hdiffer.1 ((congrArg Step.ritual ho).symm.trans h)
  · exact fun h => hdiffer.2 ((congrArg Step.subject ho).symm.trans h)

end RitualLedger
