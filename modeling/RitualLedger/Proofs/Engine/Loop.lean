import RitualLedger.Proofs.Engine.Serving
import RitualLedger.Proofs.Engine.Snapshot

/-!
# Inside the optimistic loop

A client in the loop of `attempts` is at one of four points: it is about to read a key, it is about
to commit, or it has finished with an error or with a plan that writes nothing. `InLoop` lists the
points, and says of each what the client has seen so far.

Serving such a client (`InLoop.serve`) brings it to another point of the loop and leaves the store
alone, or it commits; then the decision on the snapshot of the store at that moment asks for exactly
the writes that are applied, and the client has finished with the result of that decision.
-/

namespace RitualLedger

section

variable {α : Type} (keys : List DocKey) (decision : Snapshot → Except EngineError (Plan α))

/-- What an attempt does with the answer to its commit. -/
def settle (left made : Nat) (result : α) :
    Except StoreError Unit → Program (Except EngineError α)
  | .ok () => .finish (.ok result)
  | .error (.conflict _) =>
    attempts keys (fun s => (pure (decision s) : Program _)) left (made + 1)
  | .error e => .finish (.error (.store e))

/-- What an attempt does with its snapshot. -/
def conclude (left made : Nat) (snapshot : Snapshot) : Program (Except EngineError α) :=
  match decision snapshot with
  | .error e => .finish (.error e)
  | .ok plan =>
    if plan.writes.isEmpty then .finish (.ok plan.result)
    else .commit snapshot.stamps plan.writes (settle keys decision left made plan.result)

/-- The attempts of a transaction whose decision depends on the snapshot alone. -/
def tries (left made : Nat) : Program (Except EngineError α) :=
  attempts keys (fun s => (pure (decision s) : Program _)) left made

theorem tries_succ (left made : Nat) :
    tries keys decision (left + 1) made =
      (Snapshot.read keys).bind (conclude keys decision left made) :=
  rfl

/-- A transaction makes one attempt at least. -/
theorem program_transact (policy : RetryPolicy) : (transact policy keys decision).program =
    tries keys decision (policy.limit - 1 + 1) 0 := by
  have hlimit : policy.limit = policy.limit - 1 + 1 := by
    rw [RetryPolicy.limit]
    omega
  rw [← hlimit]
  rfl

/-- A client somewhere in the loop, as it may be when the store is the given one. -/
inductive InLoop (store : Store) : Program (Except EngineError α) → Prop
  | reading {snapshot : Snapshot} {key : DocKey} {rest : List DocKey} {left made : Nat}
      (hseen : snapshot.Seen store) (hkeys : snapshot.Completes (key :: rest) keys)
      (hnew : snapshot.covers key = false) :
      InLoop store (.read key fun doc =>
        (Snapshot.extend ⟨snapshot.docs ++ [(key, doc)]⟩ rest).bind
          (conclude keys decision left made))
  | committing {snapshot : Snapshot} {plan : Plan α} {left made : Nat}
      (hseen : snapshot.Seen store) (hkeys : snapshot.Completes [] keys)
      (hdecision : decision snapshot = .ok plan) (hwrites : plan.writes ≠ []) :
      InLoop store
        (.commit snapshot.stamps plan.writes (settle keys decision left made plan.result))
  | refused (e : EngineError) : InLoop store (.finish (.error e))
  | idle {snapshot : Snapshot} {plan : Plan α} (hdecision : decision snapshot = .ok plan)
      (hwrites : plan.writes = []) : InLoop store (.finish (.ok plan.result))

end

variable {α : Type} {keys : List DocKey} {decision : Snapshot → Except EngineError (Plan α)}
  {store later : Store} {p : Program (Except EngineError α)}

/-- What other clients commit does not throw a client out of the loop. -/
theorem InLoop.mono (h : InLoop keys decision store p) (hle : store ≤ later) :
    InLoop keys decision later p := by
  cases h with
  | reading hseen hkeys hnew => exact .reading (hseen.mono hle) hkeys hnew
  | committing hseen hkeys hdecision hwrites =>
    exact .committing (hseen.mono hle) hkeys hdecision hwrites
  | refused e => exact .refused e
  | idle hdecision hwrites => exact .idle hdecision hwrites

theorem inLoop_conclude {snapshot : Snapshot} (left made : Nat) (hseen : snapshot.Seen store)
    (hkeys : snapshot.Completes [] keys) :
    InLoop keys decision store (conclude keys decision left made snapshot) := by
  rw [conclude]
  cases hdecision : decision snapshot with
  | error e => exact .refused e
  | ok plan =>
    by_cases hwrites : plan.writes = []
    · simp only [hwrites, List.isEmpty_nil, if_true]
      exact .idle hdecision hwrites
    · have hisEmpty : ¬plan.writes.isEmpty = true := fun h => hwrites (List.isEmpty_iff.1 h)
      simp only [if_neg hisEmpty]
      exact .committing hseen hkeys hdecision hwrites

theorem inLoop_extend {snapshot : Snapshot} {rest : List DocKey} (left made : Nat)
    (hseen : snapshot.Seen store) (hkeys : snapshot.Completes rest keys) :
    InLoop keys decision store
      ((snapshot.extend rest).bind (conclude keys decision left made)) := by
  induction rest with
  | nil => exact inLoop_conclude left made hseen hkeys
  | cons key rest ih =>
    rw [Snapshot.extend]
    cases hcovers : snapshot.covers key with
    | true =>
      rw [if_pos rfl]
      exact ih (hkeys.skip hcovers)
    | false =>
      rw [if_neg Bool.false_ne_true]
      exact .reading hseen hkeys hcovers

theorem inLoop_tries (left made : Nat) :
    InLoop keys decision store (tries keys decision left made) := by
  cases left with
  | zero => exact .refused _
  | succ left =>
    rw [tries_succ]
    exact inLoop_extend left made Snapshot.seen_empty (Snapshot.completes_empty keys)

theorem inLoop_transact (policy : RetryPolicy) :
    InLoop keys decision store (transact policy keys decision).program :=
  inLoop_tries policy.limit 0

theorem inLoop_settle_error (left made : Nat) (result : α) (e : StoreError) :
    InLoop keys decision store (settle keys decision left made result (.error e)) := by
  cases e with
  | conflict _ => exact inLoop_tries left (made + 1)
  | retriesExhausted _ | openFailed _ _ | queryFailed _ | locked | serialization _ | poisoned =>
    exact .refused _

/-- The decision that a client in the loop commits when the store allows it. -/
structure Commits (keys : List DocKey) (decision : Snapshot → Except EngineError (Plan α))
    (store : Store) (plan : Plan α) (after : Store) : Prop where
  decided : decision (Snapshot.atOnce store keys) = .ok plan
  writes : plan.writes ≠ []
  applied : store.apply plan.writes = .ok after

/-- A commit from a torn snapshot goes through only where the snapshot is the current one. -/
theorem Commits.of_commit {snapshot : Snapshot} {plan : Plan α} {after : Store}
    (hseen : snapshot.Seen store) (hkeys : snapshot.Completes [] keys)
    (hdecision : decision snapshot = .ok plan) (hwrites : plan.writes ≠ [])
    (hcommit : store.commit snapshot.stamps plan.writes = .ok after) :
    Commits keys decision store plan after := by
  obtain ⟨hcurrent, happly⟩ := Store.commit_eq_ok hcommit
  refine ⟨?_, hwrites, happly⟩
  rw [← Snapshot.eq_atOnce hseen hkeys hcurrent, hdecision]

/-- **One turn in the loop.** It leads to another point of the loop and leaves the store alone, or
it commits what the decision on the current store asks for, and the client has its result. -/
theorem InLoop.serve {scene : Scene} (h : InLoop keys decision scene.store p) (chance : Chance) :
    (InLoop keys decision scene.store (p.serve scene chance).1 ∧
        (p.serve scene chance).2 = scene) ∨
      ∃ plan after, Commits keys decision scene.store plan after ∧
        p.serve scene chance = (.finish (.ok plan.result), { scene with store := after }) := by
  cases h with
  | reading hseen hkeys hnew =>
    exact .inl ⟨inLoop_extend _ _ hseen.snoc (hkeys.snoc hnew), rfl⟩
  | refused e => exact .inl ⟨.refused e, rfl⟩
  | idle hdecision hwrites => exact .inl ⟨.idle hdecision hwrites, rfl⟩
  | @committing snapshot plan left made hseen hkeys hdecision hwrites =>
    rcases Program.serve_commit scene chance
      (settle keys decision left made plan.result) with ⟨e, hserve⟩ | ⟨after, hcommit, hserve⟩
    · rw [hserve]
      exact .inl ⟨inLoop_settle_error left made plan.result e, rfl⟩
    · exact .inr ⟨plan, after, .of_commit hseen hkeys hdecision hwrites hcommit, hserve⟩

end RitualLedger
