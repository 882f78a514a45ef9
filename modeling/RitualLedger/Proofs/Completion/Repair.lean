import RitualLedger.Proofs.Completion.Course

/-!
# Repair by replay

A completion that is cut short after its step has performed some of its errands, and those that come
first. Whoever replays it then performs them all, from the first on: what was done is skipped,
because it is settled, and the rest is done. If nothing would have gone wrong in a completion that
was not cut short, nothing goes wrong in the replay, and it comes to a store that differs from what
the whole completion would have left in times only. That is `replay_repairs`.
-/

namespace RitualLedger

namespace Completion

variable {s t t' u : Store} {step : Step} {evidence : Evidence} {r r' : Ritual}
  {a a' : Assignment} {task task' : Task} {now now' : Instant}

/-- A step that is taken twice from the same store, at different times, leaves stores that are
alike, and the same errands. -/
theorem alike_of_makes (hs : s.WellTyped)
    (h : (Change.stepping step r a task evidence now).Makes s t)
    (h' : (Change.stepping step r' a' task' evidence now').Makes s t') :
    t.Alike t' ∧ (recordOf step r' task' now').errands r'.conditions =
      (recordOf step r task now).errands r.conditions := by
  cases h.allowed.ritual.symm.trans h'.allowed.ritual
  cases h.allowed.assignment.symm.trans h'.allowed.assignment
  cases h.allowed.taken.symm.trans h'.allowed.taken
  have hsame := Store.Alike.refl s
  refine ⟨⟨?_, ?_, ?_, fun subject => ?_⟩, rfl⟩
  · exact hsame.accounts_of_untouched h h' (by simp [Change.collections])
      (by simp [Change.collections])
  · exact hsame.ledger_of_untouched h h' (by simp [Change.collections])
      (by simp [Change.collections])
  · exact hsame.queue_of_untouched h h' (by simp [Change.collections])
      (by simp [Change.collections])
  · rw [(Mirrored.stepped_of_makes hs h).assignment, (Mirrored.stepped_of_makes hs h').assignment]
    split
    · rfl
    · rfl

/-- What a completion that was cut short after its step may leave of a store. Nobody else was
there. -/
inductive CutShort (policy : RetryPolicy) (s : Store) (step : Step) (evidence : Evidence) :
    Store → Prop
  | intro (scene : Scene) (chances : List Chance) (hstore : scene.store = s)
    (hchances : ∀ chance ∈ chances, chance.refusal = none ∧ chance.now.IsNameable)
    (hstep : ((complete policy step evidence).program.amid scene
      (chances.map .served)).2.store.read? step.key ≠ none) :
    CutShort policy s step evidence
      ((complete policy step evidence).program.amid scene (chances.map .served)).2.store

/-- Whoever was cut short after the step was on the way. -/
theorem CutShort.onTheWay {policy : RetryPolicy} (h : CutShort policy s step evidence u)
    (hs : s.Regular) (hopen : IsOpen s step evidence) : OnTheWay s step evidence u := by
  cases h with
  | intro scene chances hstore hchances hstep =>
    subst hstore
    have hkeeps : (complete policy step evidence).Keeps
        (.alone (OnTheWay scene.store step evidence)) (fun _ _ _ => True)
        (fun outcome g v => g = () ∧ Reported scene.store step evidence outcome v) ()
        scene.store :=
      keeps_complete_alone (Contract.alone_alone _) hs (fun _ _ => trivial) fun _ _ h => h
    rcases Program.Keeps.amid_served hkeeps hchances with hsame | hreached
    · -- The step is on record now, and it cannot have been before.
      obtain ⟨r, a, task, h⟩ := hopen
      have hnow : Instant.IsNameable ⟨0, 0⟩ := by decide
      rw [hsame] at hstep
      exact absurd (h.allowed hs hnow).new hstep
    · exact hreached

end Completion

open Completion (CutShort complete replay)

/-- **A replay repairs a completion that was cut short.** Suppose that a completion would go well
from end to end, in a store that the engine has reached. If it is cut short instead at any point
after its step, then a replay leads to a store like that of the whole completion: the accounts are
the same, and so are the ledger, the notifications and the assignments, in their order, but for the
times. Any further replay leaves the store as it is. -/
theorem replay_repairs (ttl : Int) (es : List Event) {policy policy' policy'' : RetryPolicy}
    {step : Step} {evidence : Evidence} {setting again : Setting} {outcome : CompletionOutcome}
    (hreached : setting.store = ((World.initial ttl).after es).store)
    (halone : setting.Undisturbed)
    (hok : ((complete policy step evidence).run setting).1 = .ok outcome)
    (hfine : ∀ r ∈ outcome.results, r.IsFine)
    (hcut : CutShort policy' setting.store step evidence again.store)
    (halone' : again.Undisturbed) :
    (∃ outcome', ((replay policy'' step).run again).1 = .ok outcome') ∧
    ((complete policy step evidence).run setting).2.store.Alike
      ((replay policy'' step).run again).2.store ∧
    ∀ (policy : RetryPolicy) (later : Setting), later.Undisturbed →
      later.store = ((replay policy'' step).run again).2.store →
      ((replay policy step).run later).2.store = later.store := by
  have hs : setting.store.Regular := by
    rw [hreached]
    exact World.regular_after ttl es
  obtain ⟨r, a, task, now, t, hmakes, hwhole⟩ := Completion.completes_of_run hs halone hok
  obtain ⟨r', a', task', now', t', hmakes', hunder⟩ :=
    hcut.onTheWay hs ⟨r, a, task, Completion.open_of_makes hmakes⟩
  obtain ⟨halike, herrands⟩ := Completion.alike_of_makes hs.wellTyped hmakes hmakes'
  have ht := hmakes.regular hs
  have ht' := hmakes'.regular hs
  obtain ⟨first, results, hprefix, hdone⟩ := hunder
  -- What the replay reads is there since the step, and stays.
  have htaken := Completion.taken_of_course hs hmakes' hdone
  have hu := hdone.regular ht'
  obtain ⟨outcome', hok', hagain⟩ := Completion.replay_run policy'' hu halone'
    htaken.record htaken.ritual
  obtain ⟨hrepaired, hnothing⟩ := Course.repaired (herrands ▸ hwhole) hfine halike ht ht'
    ⟨first, results, hprefix, hdone⟩ hagain
  refine ⟨⟨outcome', hok'⟩, hrepaired, ?_⟩
  intro policy later halone'' hstore
  have hagain' := Completion.taken_of_course hs hmakes' (hdone.append hagain)
  rw [← hstore] at hagain' hnothing hagain
  obtain ⟨outcome'', -, hlater⟩ := Completion.replay_run policy (hagain.regular hu)
    halone'' hagain'.record hagain'.ritual
  exact hnothing _ _ hlater

/-- What is left when a completion is cut short as soon as the reward of the task is paid. -/
def walkCut : Store :=
  ((complete ⟨1⟩ walk (.text "done")).program.amid ⟨walkStore, .empty 0⟩
    ((List.replicate 12 ⟨none, ⟨1700000001, 0⟩, ""⟩).map .served)).2.store

/-- In `walkCut` nobody was told of the completion. The replay repairs it. -/
theorem replay_repairs_walkCut :
    walkCut.read? (Ledger.transactionKey ((Scope.reward walk).key 0)) ≠ none ∧
      walkCut.read? (Notification.key ((Scope.completion walk).key 1)) = none ∧
      ((complete ⟨1⟩ walk (.text "done")).run (.still walkStore ⟨1700000001, 0⟩)).2.store.Alike
        ((replay ⟨1⟩ walk).run (.still walkCut ⟨1700000002, 0⟩)).2.store := by
  have hruns : ((complete ⟨1⟩ walk (.text "done")).run (.still walkStore ⟨1700000001, 0⟩)).1.map
        (fun outcome => outcome.results.map (·.status)) = .ok (List.replicate 4 .success) ∧
      walkCut.read? walk.key ≠ none ∧
      walkCut.read? (Ledger.transactionKey ((Scope.reward walk).key 0)) ≠ none ∧
      walkCut.read? (Notification.key ((Scope.completion walk).key 1)) = none := by
    decide +kernel
  obtain ⟨hwhole, hstep, hpaid, hsilent⟩ := hruns
  obtain ⟨outcome, hok, hstatus⟩ : ∃ outcome,
      ((complete ⟨1⟩ walk (.text "done")).run (.still walkStore ⟨1700000001, 0⟩)).1 = .ok outcome ∧
        outcome.results.map (·.status) = List.replicate 4 .success := by
    generalize ((complete ⟨1⟩ walk (.text "done")).run (.still walkStore ⟨1700000001, 0⟩)).1 =
      answer at hwhole
    cases answer with
    | error e => cases hwhole
    | ok outcome => exact ⟨outcome, rfl, Except.ok.inj hwhole⟩
  have hfine : ∀ r ∈ outcome.results, r.IsFine := by
    intro r hr reason retriable hfailed
    have hmem : r.status ∈ List.replicate 4 .success :=
      hstatus ▸ List.mem_map_of_mem hr
    cases hfailed.symm.trans (List.eq_of_mem_replicate hmem)
  have hcut : CutShort ⟨1⟩ walkStore walk (.text "done") walkCut := by
    refine .intro ⟨walkStore, .empty 0⟩ _ rfl ?_ hstep
    intro chance hmem
    rw [List.eq_of_mem_replicate hmem]
    exact ⟨rfl, by decide⟩
  obtain ⟨-, halike, -⟩ := @replay_repairs 0 walkBegun ⟨1⟩ ⟨1⟩ ⟨1⟩ walk (.text "done")
    (.still walkStore ⟨1700000001, 0⟩) (.still walkCut ⟨1700000002, 0⟩) outcome rfl
    (Setting.undisturbed_still (by decide)) hok hfine hcut (Setting.undisturbed_still (by decide))
  exact ⟨hpaid, hsilent, halike⟩

end RitualLedger
