import RitualLedger.Proofs.Engine.Contention

/-!
# How often a closure is tried

A *closure* decides what a transaction writes. It is called once in each attempt, with what is
stored then; it may remember things from one attempt to the next, and it may let programs run before
its plan is committed, its own or those of others. `Closure.loop` is the loop over such a closure.

An attempt *conflicts* when the commit of its plan meets a conflict, and it *ends* the loop
otherwise (`Closure.Conflicts`, `Closure.Ends`): the closure has failed, or there is nothing to
write, or the commit has gone through or was refused. So a run of the loop is a sequence of attempts
that conflict, each beginning where the one before has left the store, and then one more that ends
the loop, unless there are as many conflicts as attempts are allowed (`Closure.Outcome`).
-/

namespace RitualLedger

/-- What decides on the plan of a transaction. -/
abbrev Closure (σ α : Type) := Snapshot → StateT σ Program (Except EngineError (Plan α))

/-- A commit under a script fails for a conflict, or because others hold the store. -/
theorem Setting.commit_error {s : Setting} {stamps : List Stamp} {ws : List Write} {e : StoreError}
    (h : (s.commit stamps ws).1 = .error e) : (∃ key, e = .conflict key) ∨ e = .locked := by
  rw [Setting.commit] at h
  split at h
  · rename_i e' now hturn
    cases h
    rw [Setting.intrude] at hturn
    split at hturn
    · cases hturn
    · cases hturn
      exact .inr rfl
    · split at hturn
      · cases hturn
      · rename_i hcommit
        cases hturn
        exact .inl (Store.commit_error hcommit)
  · split at h
    · cases h
    · rename_i hcommit
      cases h
      exact .inl (Store.commit_error hcommit)

/-! ## Stages -/

/-- Where the loop is: what its closure remembers, and the setting. -/
structure Stage (σ : Type) where
  memory : σ
  setting : Setting

namespace Stage

variable {σ α β : Type}

/-- Runs a program that has access to the memory. -/
def run (x : Stage σ) (m : StateT σ Program α) : α × Stage σ :=
  let ((a, memory), setting) := (m.run x.memory).run x.setting
  (a, ⟨memory, setting⟩)

/-- What is stored under some keys. -/
def snapshot (x : Stage σ) (keys : List DocKey) : Snapshot := .atOnce x.setting.store keys

/-- Commits a plan that was made on a snapshot, after the others had their turn. -/
def commit (x : Stage σ) (snapshot : Snapshot) (plan : Plan α) :
    Except StoreError Unit × Stage σ :=
  let (answer, setting) := x.setting.commit snapshot.stamps plan.writes
  (answer, { x with setting := setting })

theorem run_bind (x : Stage σ) (m : StateT σ Program α) (f : α → StateT σ Program β) :
    x.run (m >>= f) = (x.run m).2.run (f (x.run m).1) := by
  have hbind : ((m >>= f).run x.memory).run x.setting =
      ((m.run x.memory).bind fun r => (f r.1).run r.2).run x.setting := rfl
  rw [run, hbind, Program.run_bind]
  rfl

theorem run_lift (x : Stage σ) (p : Program α) :
    x.run (liftM p) = ((p.run x.setting).1, { x with setting := (p.run x.setting).2 }) := by
  have hlift : ((liftM p : StateT σ Program α).run x.memory).run x.setting =
      (p.bind fun a => .finish (a, x.memory)).run x.setting := rfl
  rw [run, hlift, Program.run_bind]
  rfl

theorem run_commit (x : Stage σ) (snapshot : Snapshot) (plan : Plan α) :
    x.run (liftM (Request.commit snapshot.stamps plan.writes)) = x.commit snapshot plan :=
  x.run_lift _

/-- A commit fails for a conflict, or because others hold the store. -/
theorem commit_error {x y : Stage σ} {snapshot : Snapshot} {plan : Plan α} {e : StoreError}
    (h : x.commit snapshot plan = (.error e, y)) : (∃ key, e = .conflict key) ∨ e = .locked :=
  Setting.commit_error (congrArg Prod.fst h)

end Stage

namespace Closure

variable {σ α : Type}

/-- Calls a closure with what is stored under some keys. -/
def call (f : Closure σ α) (keys : List DocKey) (x : Stage σ) :
    Except EngineError (Plan α) × Stage σ :=
  x.run (f (x.snapshot keys))

/-- Makes up to `left` attempts after `made` that met a conflict. -/
def loop (f : Closure σ α) (keys : List DocKey) (left made : Nat) (x : Stage σ) :
    Except EngineError α × Stage σ :=
  x.run (attempts keys f left made)

/-! ## Attempts -/

/-- An attempt makes a plan with writes, and the commit of the plan meets a conflict. -/
inductive Conflicts (f : Closure σ α) (keys : List DocKey) (x y : Stage σ) : Prop
  | intro (plan : Plan α) (z : Stage σ) (key : String) (hcall : f.call keys x = (.ok plan, z))
    (hwrites : plan.writes ≠ [])
    (hcommit : z.commit (x.snapshot keys) plan = (.error (.conflict key), y))

/-- An attempt comes to an answer. -/
inductive Ends (f : Closure σ α) (keys : List DocKey) (x : Stage σ) :
    Except EngineError α → Stage σ → Prop
  /-- The closure has failed, and nothing is committed. -/
  | failed {e : EngineError} {y : Stage σ} (hcall : f.call keys x = (.error e, y)) :
    Ends f keys x (.error e) y
  /-- There is nothing to write, and nothing is committed. -/
  | idle {plan : Plan α} {y : Stage σ} (hcall : f.call keys x = (.ok plan, y))
    (hwrites : plan.writes = []) : Ends f keys x (.ok plan.result) y
  | committed {plan : Plan α} {y z : Stage σ} (hcall : f.call keys x = (.ok plan, z))
    (hwrites : plan.writes ≠ []) (hcommit : z.commit (x.snapshot keys) plan = (.ok (), y)) :
    Ends f keys x (.ok plan.result) y
  /-- The commit has failed, but not for a conflict. -/
  | refused {plan : Plan α} {y z : Stage σ} {e : StoreError}
    (hcall : f.call keys x = (.ok plan, z)) (hwrites : plan.writes ≠ [])
    (hcommit : z.commit (x.snapshot keys) plan = (.error e, y)) (he : ∀ key, e ≠ .conflict key) :
    Ends f keys x (.error (.store e)) y

variable {f : Closure σ α} {keys : List DocKey} {x y : Stage σ}

/-- Every attempt meets a conflict or comes to an answer. -/
theorem conflicts_or_ends (f : Closure σ α) (keys : List DocKey) (x : Stage σ) :
    (∃ y, f.Conflicts keys x y) ∨ ∃ answer y, f.Ends keys x answer y := by
  rcases hcall : f.call keys x with ⟨decided, z⟩
  cases decided with
  | error e => exact .inr ⟨_, _, .failed hcall⟩
  | ok plan =>
    by_cases hwrites : plan.writes = []
    · exact .inr ⟨_, _, .idle hcall hwrites⟩
    · rcases hcommit : z.commit (x.snapshot keys) plan with ⟨answer, y⟩
      cases answer with
      | ok _ => exact .inr ⟨_, _, .committed hcall hwrites hcommit⟩
      | error e =>
        cases e with
        | conflict key => exact .inl ⟨y, plan, z, key, hcall, hwrites, hcommit⟩
        | retriesExhausted _ | openFailed _ _ | queryFailed _ | locked | serialization _
        | poisoned => exact .inr ⟨_, _, .refused hcall hwrites hcommit nofun⟩

/-! ## The loop -/

/-- What the loop does first: it reads the snapshot, calls the closure and commits its plan. -/
theorem loop_succ (left made : Nat) (x : Stage σ) :
    f.loop keys (left + 1) made x =
      match f.call keys x with
      | (.error e, y) => (.error e, y)
      | (.ok plan, z) =>
        if plan.writes.isEmpty then (.ok plan.result, z)
        else
          match z.commit (x.snapshot keys) plan with
          | (.ok (), y) => (.ok plan.result, y)
          | (.error (.conflict _), y) => f.loop keys left (made + 1) y
          | (.error e, y) => (.error (.store e), y) := by
  have hread : x.run (liftM (Snapshot.read keys : Program Snapshot)) = (x.snapshot keys, x) := by
    rw [Stage.run_lift, Snapshot.read, Snapshot.run_extend]
    rfl
  rw [loop, attempts, Stage.run_bind, hread, Stage.run_bind]
  rcases hcall : f.call keys x with ⟨decided, z⟩
  rw [show x.run (f (x.snapshot keys)) = (decided, z) from hcall]
  cases decided with
  | error e => rfl
  | ok plan =>
    dsimp only
    split
    · rfl
    · rw [Stage.run_bind, Stage.run_commit]
      rcases hcommit : z.commit (x.snapshot keys) plan with ⟨answer, y⟩
      cases answer with
      | ok _ => rfl
      | error e => cases e <;> rfl

/-- After a conflict the loop starts over. -/
theorem loop_of_conflicts (h : f.Conflicts keys x y) (left made : Nat) :
    f.loop keys (left + 1) made x = f.loop keys left (made + 1) y := by
  obtain ⟨plan, z, key, hcall, hwrites, hcommit⟩ := h
  have hisEmpty : ¬plan.writes.isEmpty = true := fun h => hwrites (List.isEmpty_iff.1 h)
  rw [loop_succ, hcall]
  simp only [if_neg hisEmpty, hcommit]

/-- An attempt that comes to an answer ends the loop. -/
theorem loop_of_ends {answer : Except EngineError α} (h : f.Ends keys x answer y)
    (left made : Nat) : f.loop keys (left + 1) made x = (answer, y) := by
  rw [loop_succ]
  cases h with
  | failed hcall => rw [hcall]
  | idle hcall hwrites =>
    rw [hcall]
    simp only [hwrites, List.isEmpty_nil, if_true]
  | @committed plan _ _ hcall hwrites hcommit =>
    have hisEmpty : ¬plan.writes.isEmpty = true := fun h => hwrites (List.isEmpty_iff.1 h)
    rw [hcall]
    simp only [if_neg hisEmpty, hcommit]
  | @refused plan _ _ e hcall hwrites hcommit he =>
    have hisEmpty : ¬plan.writes.isEmpty = true := fun h => hwrites (List.isEmpty_iff.1 h)
    rw [hcall]
    simp only [if_neg hisEmpty, hcommit]

/-- Attempts that meet conflicts one after the other, with the snapshots that the closure was
called with. -/
inductive Retries (f : Closure σ α) (keys : List DocKey) : List Snapshot → Stage σ → Stage σ → Prop
  | none {x : Stage σ} : Retries f keys [] x x
  | cons {x y z : Stage σ} {seen : List Snapshot} (hconflicts : f.Conflicts keys x y)
    (hrest : Retries f keys seen y z) : Retries f keys (x.snapshot keys :: seen) x z

theorem loop_of_retries {seen : List Snapshot} (h : f.Retries keys seen x y) (left made : Nat) :
    f.loop keys (seen.length + left) made x = f.loop keys left (made + seen.length) y := by
  induction h generalizing made with
  | none => simp
  | @cons x y z seen hconflicts _ ih =>
    rw [List.length_cons, Nat.add_right_comm, loop_of_conflicts hconflicts, ih, Nat.add_assoc,
      Nat.add_comm 1]

/-- What a run of the loop comes to, and the snapshots that the closure was called with. -/
inductive Outcome (f : Closure σ α) (keys : List DocKey) (limit : Nat) (start : Stage σ) :
    Except EngineError α → Stage σ → List Snapshot → Prop
  /-- The attempt after those that met a conflict has ended the loop. -/
  | ended {seen : List Snapshot} {x y : Stage σ} {answer : Except EngineError α}
    (hretries : f.Retries keys seen start x) (hleft : seen.length < limit)
    (hends : f.Ends keys x answer y) :
    Outcome f keys limit start answer y (seen ++ [x.snapshot keys])
  /-- All attempts have met a conflict. -/
  | exhausted {seen : List Snapshot} {y : Stage σ} (hretries : f.Retries keys seen start y)
    (hall : seen.length = limit) :
    Outcome f keys limit start (.error (.store (.retriesExhausted limit))) y seen

/-- Some outcome comes of every number of attempts. -/
theorem exists_outcome (f : Closure σ α) (keys : List DocKey) (limit : Nat) (start : Stage σ) :
    ∃ answer y seen, f.Outcome keys limit start answer y seen := by
  induction limit generalizing start with
  | zero => exact ⟨_, start, [], .exhausted .none rfl⟩
  | succ limit ih =>
    rcases f.conflicts_or_ends keys start with ⟨x, hconflicts⟩ | ⟨answer, y, hends⟩
    · obtain ⟨_, y, _, houtcome⟩ := ih x
      cases houtcome with
      | ended hretries hleft hends =>
        exact ⟨_, y, _, .ended (.cons hconflicts hretries) (Nat.succ_lt_succ hleft) hends⟩
      | exhausted hretries hall =>
        exact ⟨_, y, _, .exhausted (.cons hconflicts hretries) (congrArg Nat.succ hall)⟩
    · exact ⟨answer, y, _, .ended .none limit.succ_pos hends⟩

variable {limit : Nat} {start : Stage σ} {answer : Except EngineError α} {seen : List Snapshot}

/-- A closure that was tried often enough has used up all attempts. -/
theorem loop_of_exhausted (hretries : f.Retries keys seen start y) (hall : seen.length = limit) :
    f.loop keys limit 0 start = (.error (.store (.retriesExhausted limit)), y) := by
  have hloop := loop_of_retries hretries 0 0
  rw [Nat.add_zero, Nat.zero_add, hall] at hloop
  exact hloop

theorem loop_of_ended (hretries : f.Retries keys seen start x) (hleft : seen.length < limit)
    (hends : f.Ends keys x answer y) : f.loop keys limit 0 start = (answer, y) := by
  obtain ⟨left, rfl⟩ := Nat.exists_eq_add_of_lt hleft
  rw [Nat.add_assoc, loop_of_retries hretries, loop_of_ends hends]

/-- The outcome is what the loop returns. -/
theorem Outcome.loop (h : f.Outcome keys limit start answer y seen) :
    f.loop keys limit 0 start = (answer, y) := by
  cases h with
  | ended hretries hleft hends => exact loop_of_ended hretries hleft hends
  | exhausted hretries hall => exact loop_of_exhausted hretries hall

theorem Outcome.length_le (h : f.Outcome keys limit start answer y seen) : seen.length ≤ limit := by
  cases h with
  | ended _ hleft _ =>
    rw [List.length_append]
    exact hleft
  | exhausted _ hall => exact hall.le

/-- **When the attempts are used up.** All of them have met conflicts, if it is not the closure that
says so. -/
theorem Outcome.exhausted_iff (h : f.Outcome keys limit start answer y seen) (n : Nat) :
    answer = .error (.store (.retriesExhausted n)) ↔
      (n = limit ∧ ∃ seen, f.Retries keys seen start y ∧ seen.length = limit) ∨
        ∃ x seen, f.Retries keys seen start x ∧ seen.length < limit ∧
          f.call keys x = (.error (.store (.retriesExhausted n)), y) := by
  constructor
  · intro hanswer
    cases h with
    | exhausted hretries hall =>
      cases hanswer
      exact .inl ⟨rfl, _, hretries, hall⟩
    | ended hretries hleft hends =>
      cases hends with
      | failed hcall =>
        cases hanswer
        exact .inr ⟨_, _, hretries, hleft, hcall⟩
      | idle | committed => cases hanswer
      | refused _ _ hcommit he =>
        cases hanswer
        rcases Stage.commit_error hcommit with ⟨key, hconflict⟩ | hlocked
        · cases hconflict
        · cases hlocked
  · have hloop := h.loop
    rintro (⟨rfl, seen', hretries, hall⟩ | ⟨x, seen', hretries, hleft, hcall⟩)
    · exact congrArg Prod.fst (hloop.symm.trans (loop_of_exhausted hretries hall))
    · exact congrArg Prod.fst (hloop.symm.trans (loop_of_ended hretries hleft (.failed hcall)))

/-- A closure that is always too late: another write of its document lands before its own. -/
def latecomer (key : DocKey) : Closure Nat Unit := fun _ => do
  let _ ← (Request.commit [] [.put key (.int 0)] : Program _)
  modify (· + 1)
  pure (.ok ⟨(), [.put key (.int 1)]⟩)

example :
    let key : DocKey := ⟨"counters", "c"⟩
    let run := (latecomer key).loop [key] 2 0 ⟨0, .still .empty ⟨0, 0⟩⟩
    run.1 = .error (.store (.retriesExhausted 2)) ∧ run.2.memory = 2 := by decide +kernel

/-! ## Counting the calls -/

/-- The closure with a record of the snapshots that it is called with. -/
def logged (f : Closure σ α) : Closure (σ × List Snapshot) α := fun snapshot m => do
  let (decided, memory) ← f snapshot m.1
  pure (decided, (memory, m.2 ++ [snapshot]))

end Closure

/-- A stage with a record of snapshots. -/
def Stage.logging {σ : Type} (x : Stage σ) (record : List Snapshot) : Stage (σ × List Snapshot) :=
  ⟨(x.memory, record), x.setting⟩

theorem Stage.commit_logging {σ α : Type} {x y : Stage σ} {snapshot : Snapshot} {plan : Plan α}
    {r : Except StoreError Unit} (h : x.commit snapshot plan = (r, y)) (record : List Snapshot) :
    (x.logging record).commit snapshot plan = (r, y.logging record) :=
  congrArg (fun c => (c.1, c.2.logging record)) h

namespace Closure

variable {σ α : Type} {f : Closure σ α} {keys : List DocKey} {x y start : Stage σ} {limit : Nat}
  {answer : Except EngineError α} {seen : List Snapshot} {record : List Snapshot}

theorem call_logged {decided : Except EngineError (Plan α)} (h : f.call keys x = (decided, y))
    (record : List Snapshot) : f.logged.call keys (x.logging record) =
      (decided, y.logging (record ++ [x.snapshot keys])) := by
  have hbind : f.logged.call keys (x.logging record) =
      (let ((decided, memory), setting) := ((f (x.snapshot keys) x.memory).bind fun r =>
        .finish (r.1, (r.2, record ++ [x.snapshot keys]))).run x.setting
      (decided, ⟨memory, setting⟩)) := rfl
  rw [hbind, Program.run_bind]
  exact congrArg (fun c => (c.1, c.2.logging (record ++ [x.snapshot keys]))) h

theorem Conflicts.logged (h : f.Conflicts keys x y) :
    f.logged.Conflicts keys (x.logging record) (y.logging (record ++ [x.snapshot keys])) := by
  obtain ⟨plan, z, key, hcall, hwrites, hcommit⟩ := h
  exact ⟨plan, _, key, call_logged hcall record, hwrites, Stage.commit_logging hcommit _⟩

theorem Ends.logged (h : f.Ends keys x answer y) :
    f.logged.Ends keys (x.logging record) answer (y.logging (record ++ [x.snapshot keys])) := by
  cases h with
  | failed hcall => exact .failed (call_logged hcall record)
  | idle hcall hwrites => exact .idle (call_logged hcall record) hwrites
  | committed hcall hwrites hcommit =>
    exact .committed (call_logged hcall record) hwrites (Stage.commit_logging hcommit _)
  | refused hcall hwrites hcommit he =>
    exact .refused (call_logged hcall record) hwrites (Stage.commit_logging hcommit _) he

theorem Retries.logged (h : f.Retries keys seen x y) (record : List Snapshot) :
    f.logged.Retries keys seen (x.logging record) (y.logging (record ++ seen)) := by
  induction h generalizing record with
  | none =>
    rw [List.append_nil]
    exact .none
  | @cons x y z seen hconflicts _ ih =>
    have hrest := ih (record ++ [x.snapshot keys])
    rw [List.append_assoc, List.singleton_append] at hrest
    exact .cons hconflicts.logged hrest

/-- The record does not change the outcome, and lists the snapshots of all calls. -/
theorem Outcome.logged (h : f.Outcome keys limit start answer y seen) :
    f.logged.loop keys limit 0 (start.logging []) = (answer, y.logging seen) := by
  cases h with
  | ended hretries hleft hends => exact loop_of_ended (hretries.logged []) hleft hends.logged
  | exhausted hretries hall => exact loop_of_exhausted (hretries.logged []) hall

/-! ## The engine's transactions -/

/-- A decision that depends on the snapshot alone. -/
def ofDecision (decision : Snapshot → Except EngineError (Plan α)) : Closure Unit α :=
  fun snapshot => pure (decision snapshot)

/-- **A transaction of the engine** is the loop over a closure that remembers nothing and does
nothing else. -/
theorem run_transact (policy : RetryPolicy) (keys : List DocKey)
    (decision : Snapshot → Except EngineError (Plan α)) (setting : Setting) :
    (transact policy keys decision).run setting =
      (((ofDecision decision).loop keys policy.limit 0 ⟨(), setting⟩).1,
        ((ofDecision decision).loop keys policy.limit 0 ⟨(), setting⟩).2.setting) := by
  suffices hloop : ∀ left made setting, (tries keys decision left made).run setting =
      (((ofDecision decision).loop keys left made ⟨(), setting⟩).1,
        ((ofDecision decision).loop keys left made ⟨(), setting⟩).2.setting) from
    hloop policy.limit 0 setting
  intro left
  induction left with
  | zero => exact fun _ _ => rfl
  | succ left ih =>
    intro made setting
    have hcall : (ofDecision decision).call keys ⟨(), setting⟩ =
        (decision (.atOnce setting.store keys), ⟨(), setting⟩) := rfl
    rw [Program.run_attempt, loop_succ, hcall, conclude]
    cases decision (.atOnce setting.store keys) with
    | error e => rfl
    | ok plan =>
      dsimp only
      split
      · rfl
      · rw [Program.run]
        rcases hcommit : setting.commit (Snapshot.atOnce setting.store keys).stamps plan.writes with
          ⟨answer, later⟩
        have hstage : Stage.commit ⟨(), setting⟩ (Stage.snapshot ⟨(), setting⟩ keys) plan =
            (answer, ⟨(), later⟩) := congrArg (fun c => (c.1, Stage.mk () c.2)) hcommit
        rw [hstage]
        cases answer with
        | ok _ => rfl
        | error e =>
          cases e with
          | conflict key => exact ih (made + 1) later
          | retriesExhausted _ | openFailed _ _ | queryFailed _ | locked | serialization _
          | poisoned => rfl

end Closure

end RitualLedger
