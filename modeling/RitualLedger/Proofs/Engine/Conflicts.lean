import RitualLedger.Proofs.Engine.Discretion
import RitualLedger.Proofs.Engine.Retries
import RitualLedger.Proofs.Engine.Turns

/-!
# What becomes of conflicts

A conflict makes the optimistic loop start over, as often as it is allowed to, and then the attempts
are used up. Nobody outside the loop ever sees one: not as the answer to a call, and not in a log.
A log has only the message of a failure, but no other failure has the message of a conflict
(`EngineError.message_ne`).
-/

namespace RitualLedger

/-! ## The wording of a conflict -/

namespace Text

/-- Whether neither of two texts begins with the other. -/
def Diverge (a b : String) : Prop := ¬ BeginsWith a b ∧ ¬ BeginsWith b a

instance {a b : String} : Decidable (Diverge a b) := inferInstanceAs (Decidable (_ ∧ _))

/-- Texts that begin differently are different. -/
theorem Diverge.ne {a b s t : String} (h : Diverge a b) (hs : BeginsWith s a)
    (ht : BeginsWith t b) : s ≠ t := by
  rintro rfl
  rcases List.prefix_or_prefix_of_prefix hs ht with hprefix | hprefix
  · exact h.2 hprefix
  · exact h.1 hprefix

end Text

open Text (BeginsWith beginsWith_append Diverge)

/-- The beginning of the message of a failure of the store. -/
def StoreError.opening : StoreError → String
  | .conflict _ => "Transaction conflict on '"
  | .retriesExhausted _ => "Transaction still conflicting after "
  | .openFailed _ _ => "Failed to open database at "
  | .queryFailed _ => "Query failed: "
  | .locked => "Database is locked"
  | .serialization _ => "Document serialization failed: "
  | .poisoned => "Database connection poisoned"

theorem StoreError.message_beginsWith (e : StoreError) : BeginsWith e.message e.opening := by
  cases e with
  | queryFailed reason | serialization reason => exact beginsWith_append _ _
  | conflict key => exact (beginsWith_append _ _).append _
  | retriesExhausted attempts => exact (beginsWith_append _ _).append _
  | openFailed path reason => exact ((beginsWith_append _ _).append _).append _
  | locked | poisoned => exact List.prefix_refl _

/-- Another failure of the store has another message than a conflict. -/
theorem StoreError.message_ne {e : StoreError} (h : ∀ key, e ≠ .conflict key) (key : String) :
    e.message ≠ (conflict key).message := by
  have hdiverge : Diverge e.opening (conflict key).opening := by
    cases e with
    | conflict key' => exact absurd rfl (h key')
    | retriesExhausted _ | openFailed _ _ | queryFailed _ | locked | serialization _ | poisoned =>
      dsimp only [opening]
      decide
  exact hdiverge.ne e.message_beginsWith (conflict key).message_beginsWith

namespace EngineError

/-- The beginning of the message of a failure. -/
def opening : EngineError → String
  | .notFound kind _ => kind.name
  | .insufficientBalance _ _ _ => "Insufficient token balance for '"
  | .staleTask _ _ _ => "Cannot complete task "
  | .validation _ => "Validation error: "
  | .store _ => "Storage error: "
  | .config _ => "Configuration error: "

theorem message_beginsWith (e : EngineError) : BeginsWith e.message e.opening := by
  cases e with
  | notFound kind id => exact ((beginsWith_append _ _).append _).append _
  | insufficientBalance subject balance requested =>
    exact ((((beginsWith_append _ _).append _).append _).append _).append _
  | staleTask ritual submitted current =>
    exact ((((beginsWith_append _ _).append _).append _).append _).append _
  | validation e | store e | config e => exact beginsWith_append _ _

/-- **The message tells a conflict from everything else.** -/
theorem message_ne {e conflict : EngineError} (h : ¬ e.IsConflict)
    (hconflict : conflict.IsConflict) : e.message ≠ conflict.message := by
  obtain ⟨key, rfl⟩ := hconflict
  have hother : Diverge e.opening "Storage error: " → e.message ≠ (store (.conflict key)).message :=
    fun hdiverge => hdiverge.ne e.message_beginsWith (message_beginsWith (store (.conflict key)))
  cases e with
  | store e =>
    intro heq
    have hmessage : e.message = (StoreError.conflict key).message :=
      (String.append_right_inj _).1 heq
    exact StoreError.message_ne (fun key' he => h ⟨key', congrArg store he⟩) key hmessage
  | notFound kind id =>
    refine hother ?_
    dsimp only [opening]
    cases kind <;> decide
  | insufficientBalance _ _ _ | staleTask _ _ _ | validation _ | config _ =>
    refine hother ?_
    dsimp only [opening]
    decide

end EngineError

/-! ## Calls -/

/-- An answer to a call is no conflict, and none of the actions that it tells of has failed with the
message of one. -/
def Call.HidesConflicts (c : Call) (answer : Except EngineError c.Result) : Prop :=
  ∀ e : EngineError, e.IsConflict → answer ≠ .error e ∧
    ∀ a, answer = .ok a → ∀ r ∈ c.results a, ∀ retriable, r.status ≠ .failed e.message retriable

theorem Call.Discreet.hidesConflicts {c : Call} {answer : Except EngineError c.Result}
    (h : c.Discreet answer) : c.HidesConflicts answer := by
  intro e he
  constructor
  · rintro rfl
    exact h he
  · rintro a rfl r hr retriable hstatus
    obtain ⟨e', he', hmessage, -⟩ := h r hr _ _ hstatus
    exact EngineError.message_ne he' he hmessage.symm

/-- A call has kept conflicts to itself so far, and will. -/
theorem World.always_discreet {ttl : Int} {es : List Event} {i : Nat} {c : Client}
    (hc : ((initial ttl).after es).clients[i]? = some c) : c.rest.Always True c.call.Discreet := by
  induction es using List.reverseRecOn generalizing c with
  | nil => cases hc
  | append_singleton es e ih =>
    rw [after_concat] at hc
    cases hbefore : ((initial ttl).after es).clients[i]? with
    | none =>
      obtain ⟨policy, call, rfl, -⟩ := entered hbefore hc
      exact call.always_discreet policy
    | some c₀ =>
      rcases client_step hbefore e with hsame | ⟨chance, hserved⟩
      · cases hsame.symm.trans hc
        exact ih hbefore
      · cases hserved.symm.trans hc
        exact (ih hbefore).serve _ chance

/-- **Retries are bounded, and conflicts stay inside.** Whatever is stored, whatever others do and
whatever a closure does: the loop calls it as often as it is retried, each time with what is stored
after the last conflict, and at most as often as it may; the attempts are used up when all of them
have met conflicts, unless the closure says so itself. So whatever is stored and whatever others do,
also when calls overlap, no call answers with a conflict and no log tells of one. -/
theorem conflicts_stay_inside :
    (∀ {σ α : Type} (policy : RetryPolicy) (keys : List DocKey) (f : Closure σ α) (start : Stage σ),
      ∃ answer final seen, f.loop keys policy.limit 0 start = (answer, final) ∧
        f.Outcome keys policy.limit start answer final seen ∧
        f.logged.loop keys policy.limit 0 (start.logging []) = (answer, final.logging seen) ∧
        seen.length ≤ max 1 policy.maxAttempts ∧
        ∀ n, answer = .error (.store (.retriesExhausted n)) ↔
          (n = max 1 policy.maxAttempts ∧
            ∃ seen, f.Retries keys seen start final ∧ seen.length = max 1 policy.maxAttempts) ∨
          ∃ x seen, f.Retries keys seen start x ∧ seen.length < max 1 policy.maxAttempts ∧
            f.call keys x = (.error (.store (.retriesExhausted n)), final)) ∧
    (∀ (policy : RetryPolicy) (c : Call) (setting : Setting),
      c.HidesConflicts ((c.operation policy).run setting).1) ∧
    ∀ (ttl : Int) (es : List Event), ∀ client ∈ ((World.initial ttl).after es).clients,
      ∀ answer, client.rest = .finish answer → client.call.HidesConflicts answer := by
  refine ⟨?_, ?_, ?_⟩
  · intro σ α policy keys f start
    obtain ⟨answer, final, seen, houtcome⟩ := f.exists_outcome keys policy.limit start
    exact ⟨answer, final, seen, houtcome.loop, houtcome, houtcome.logged, houtcome.length_le,
      houtcome.exhausted_iff⟩
  · intro policy c setting
    exact ((c.always_discreet policy).run setting).hidesConflicts
  · intro ttl es client hclient answer hanswer
    obtain ⟨i, hi⟩ := List.mem_iff_getElem?.1 hclient
    have halways := World.always_discreet hi
    rw [hanswer] at halways
    exact Call.Discreet.hidesConflicts halways

end RitualLedger
