import RitualLedger.Proofs.Engine.Discipline

/-!
# Contention is invisible

No operation of the engine notices that others rewrite documents with the bodies that they have, as
long as they do so less often than a transaction is attempted. The decisions of all transactions
look at bodies alone, and ids and times are drawn before the first attempt, so that a repeated
attempt decides as the first one would have; an operation with several transactions cannot meet more
rewriting in all of them than it can meet in one.
-/

namespace RitualLedger

variable {n : Nat} {policy : RetryPolicy}

/-- Any failure will do. -/
theorem decides_anyhow {α : Type} (r : Except EngineError α) : Decides (fun _ => True) r := by
  cases r with
  | ok a => exact .ok trivial
  | error e => exact .error trivial

/-- **Programs that do not notice contention**, as long as there is less of it than there are
attempts. -/
def Discipline.steady (hn : n < policy.maxAttempts) : Discipline policy where
  holds post p := p.Steady n ∧ ∀ s, post (p.run s).1
  fails _ := True
  prompts := True
  own _ _ := trivial
  finish h := ⟨.pure, fun _ => h⟩
  bind hp hf := by
    refine ⟨fun s t h => ?_, fun s => ?_⟩
    · obtain ⟨hanswer, hrest⟩ := hp.1 s t h
      rw [Program.run_bind, Program.run_bind, hanswer]
      exact (hf _ (hp.2 t)).1 _ _ hrest
    · rw [Program.run_bind]
      exact (hf _ (hp.2 s)).2 _
  now := ⟨.now, fun _ => trivial⟩
  freshId := ⟨.freshId, fun _ => trivial⟩
  append _ _ := ⟨.append, fun _ => trivial⟩
  openPrompt _ _ := ⟨.openPrompt, fun _ => trivial⟩
  takePrompt _ _ := ⟨.takePrompt, fun _ => trivial⟩
  read _ := ⟨Operation.Steady.readDocument?, fun _ => decides_anyhow _⟩
  query _ _ := ⟨Operation.Steady.queryDocuments, fun _ => decides_anyhow _⟩
  transact _ _ _ hreads := ⟨Operation.Steady.transact hn hreads, fun _ => decides_anyhow _⟩

/-- **No call notices contention** that stays below the number of attempts. -/
theorem Call.operation_steady (c : Call) (hn : n < policy.maxAttempts) :
    (c.operation policy).Steady n :=
  (c.operation_follows (.steady hn) fun _ => trivial).1

/-- **Contention is invisible.** Whatever is stored, whatever is asked for and however documents are
rewritten meanwhile: if this happens less often than transactions are attempted, the answer is the
one that would have been given without it, and the same documents are left in the same order with
the same bodies. -/
theorem contention_is_invisible (c : Call) (policy : RetryPolicy) (s : Setting) {n : Nat}
    {script : List Intrusion} (hscript : Script.Rewriting n script) (hn : n < policy.maxAttempts) :
    let disturbed := (c.operation policy).run { s with intrusions := script }
    let undisturbed := (c.operation policy).run { s with intrusions := [] }
    disturbed.1 = undisturbed.1 ∧
      disturbed.2.store.bodies = undisturbed.2.store.bodies ∧
      disturbed.2.prompts = undisturbed.2.prompts := by
  have hshadows : Setting.Shadows n { s with intrusions := script } { s with intrusions := [] } :=
    ⟨rfl, rfl, rfl, rfl, hscript, rfl⟩
  obtain ⟨hanswer, hleft⟩ := c.operation_steady hn _ _ hshadows
  exact ⟨hanswer, hleft.bodies, hleft.prompts⟩

/-- The step of `walk` is taken with two attempts although its ritual is rewritten before the first
commit. One attempt would not do. -/
theorem contention_invisible_in_walk :
    let setting : Setting := .still walkStore ⟨1700000001, 0⟩
    let script := [Intrusion.touch (Ritual.key walk.ritual)]
    let step (attempts : Nat) := Completion.complete ⟨attempts⟩ walk (.text "done")
    ((step 2).run { setting with intrusions := script }).1 =
        ((step 2).run { setting with intrusions := [] }).1 ∧
      ((step 2).run { setting with intrusions := script }).2.store.bodies =
        ((step 2).run { setting with intrusions := [] }).2.store.bodies ∧
      ((step 1).run { setting with intrusions := script }).1 =
        .error (.store (.retriesExhausted 1)) := by
  have hinvisible := contention_is_invisible (.complete walk (.text "done")) ⟨2⟩
    (.still walkStore ⟨1700000001, 0⟩)
    (.rewrite (Intrusion.rewrites_touch (Ritual.key walk.ritual)) .quiet) (show 1 < 2 by decide)
  exact ⟨hinvisible.1, hinvisible.2.1, by decide +kernel⟩

end RitualLedger
