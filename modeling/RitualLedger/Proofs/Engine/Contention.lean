import RitualLedger.Proofs.Store.Bodies

/-!
# Contention

Other clients may rewrite documents with the bodies that they have, just before a commit. Nothing
is different then but versions; still the commit meets a stale stamp, and the transaction starts
over. `Script.Rewriting n script` says that this happens at most `n` times.

`Program.Steady n` says that a program does not notice it: in two settings that agree but for
versions, where the others are still in one of them and rewrite at most `n` times in the other, the
program has the same answer and leaves settings that agree but for versions. Every step of a program
is steady by itself, and a transaction is steady when it depends on the bodies that it reads alone
and has more than `n` attempts (`Program.Steady.tries`): as long as the others stay below the
number of attempts, one attempt meets current stamps.
-/

namespace RitualLedger

/-! ## Scripts -/

/-- What others do before a commit: they rewrite documents with the bodies that they have. -/
def Intrusion.Rewrites : Intrusion → Prop
  | .writes ws => ∀ s, ∀ w ∈ ws s, w.Rewrites s
  | .locked => False

/-- The others let a commit pass. -/
def Intrusion.idle : Intrusion := .writes fun _ => []

/-- A script in which the others rewrite documents before at most some number of commits. -/
inductive Script.Rewriting : Nat → List Intrusion → Prop
  | quiet {n : Nat} : Rewriting n []
  | pass {n : Nat} {rest : List Intrusion} : Rewriting n rest → Rewriting n (.idle :: rest)
  | rewrite {n : Nat} {i : Intrusion} {rest : List Intrusion} :
    i.Rewrites → Rewriting n rest → Rewriting (n + 1) (i :: rest)

/-- The others rewrite a document if it is there. -/
def Intrusion.touch (key : DocKey) : Intrusion :=
  .writes fun s => (s.read? key).toList.map fun doc => .put key doc.body

theorem Intrusion.rewrites_touch (key : DocKey) : (touch key).Rewrites := by
  intro s w hw
  obtain ⟨doc, hdoc, rfl⟩ := List.mem_map.1 hw
  exact ⟨doc, Option.mem_toList.1 hdoc, rfl⟩

theorem Script.Rewriting.succ {n : Nat} {script : List Intrusion} (h : Rewriting n script) :
    Rewriting (n + 1) script := by
  induction h with
  | quiet => exact .quiet
  | pass _ ih => exact .pass ih
  | rewrite hi _ ih => exact .rewrite hi ih

/-! ## Snapshots without versions -/

namespace Snapshot

/-- Snapshots that differ in nothing but versions. -/
def SameBodies (s t : Snapshot) : Prop :=
  ∀ key, (s.doc? key).map (·.body) = (t.doc? key).map (·.body)

variable {s t : Snapshot}

theorem SameBodies.has (h : s.SameBodies t) (key : DocKey) : s.has key = t.has key := by
  have hbody := congrArg Option.isSome (h key)
  rwa [Option.isSome_map, Option.isSome_map] at hbody

theorem SameBodies.get {α : Type} [Document α] (h : s.SameBodies t) (key : DocKey) :
    s.get (α := α) key = t.get key := by
  have hbody := h key
  rw [Snapshot.get, Snapshot.get]
  cases hs : s.doc? key with
  | none =>
    rw [hs] at hbody
    rw [Option.map_eq_none_iff.1 hbody.symm]
  | some doc =>
    rw [hs] at hbody
    obtain ⟨doc', hdoc', hsame⟩ := Option.map_eq_some_iff.1 hbody.symm
    rw [hdoc']
    simp only [hsame]

theorem docs_atOnce_congr {u v : Store} (h : u.bodies = v.bodies) (keys : List DocKey) :
    (atOnce u keys).docs.map (fun d => (d.1, d.2.map (·.body))) =
      (atOnce v keys).docs.map fun d => (d.1, d.2.map (·.body)) := by
  suffices hextend : ∀ s t : Snapshot, s.docs.map (fun d => (d.1, d.2.map (·.body))) =
      t.docs.map (fun d => (d.1, d.2.map (·.body))) →
      (extendFrom u s keys).docs.map (fun d => (d.1, d.2.map (·.body))) =
        (extendFrom v t keys).docs.map fun d => (d.1, d.2.map (·.body)) from hextend _ _ rfl
  induction keys with
  | nil => exact fun s t hst => hst
  | cons key rest ih =>
    intro s t hst
    have hcovers : s.covers key = t.covers key := by
      have hkeys := congrArg (List.map Prod.fst) hst
      simp only [List.map_map, Function.comp_def] at hkeys
      rw [Bool.eq_iff_iff, covers_iff, covers_iff, hkeys]
    rw [extendFrom, extendFrom, hcovers]
    split
    · exact ih s t hst
    · refine ih _ _ ?_
      rw [List.map_append, List.map_append, hst]
      simp [Store.body_congr h key]

/-- Stores with the same bodies give snapshots with the same bodies. -/
theorem sameBodies_atOnce {u v : Store} (h : u.bodies = v.bodies) (keys : List DocKey) :
    (atOnce u keys).SameBodies (atOnce v keys) := by
  have hlookup : ∀ (s : Snapshot) key, (s.doc? key).map (·.body) =
      ((s.docs.map fun d => (d.1, d.2.map (·.body))).lookup key).join := by
    intro s key
    rw [doc?]
    induction s.docs with
    | nil => rfl
    | cons d rest ih =>
      rw [List.map_cons, List.lookup_cons, List.lookup_cons]
      cases key == d.1 with
      | true => cases d.2 <;> rfl
      | false => exact ih
  intro key
  rw [hlookup, hlookup, docs_atOnce_congr h]

/-- A decision that depends on the bodies that it reads alone. -/
def Reads {α : Type} (decision : Snapshot → Except EngineError (Plan α)) : Prop :=
  ∀ s t, SameBodies s t → decision s = decision t

end Snapshot

/-! ## Settings -/

namespace Setting

/-- The first setting is the second one but for versions; the others are still in the second one and
rewrite at most some number of times in the first. -/
structure Shadows (n : Nat) (s t : Setting) : Prop where
  bodies : s.store.bodies = t.store.bodies
  prompts : s.prompts = t.prompts
  clock : s.clock = t.clock
  ids : s.ids = t.ids
  script : Script.Rewriting n s.intrusions
  still : t.intrusions = []

variable {n : Nat} {s t : Setting}

theorem Shadows.with_store (h : s.Shadows n t) {u v : Store} (huv : u.bodies = v.bodies) :
    Shadows n { s with store := u } { t with store := v } :=
  ⟨huv, h.prompts, h.clock, h.ids, h.script, h.still⟩

theorem Shadows.succ (h : s.Shadows n t) : s.Shadows (n + 1) t :=
  ⟨h.bodies, h.prompts, h.clock, h.ids, h.script.succ, h.still⟩

/-- **What the others do before a commit.** They let it pass, or they rewrite, which they can do
once less from then on. -/
theorem Shadows.intrude (h : s.Shadows n t) : ∃ s', s.intrude = (.ok (), s') ∧
    (s'.store = s.store ∧ s'.Shadows n t ∨ ∃ m, n = m + 1 ∧ s'.Shadows m t) := by
  obtain ⟨hbodies, hprompts, hclock, hids, hscript, hstill⟩ := h
  obtain ⟨store, prompts, intrusions, clock, ids⟩ := s
  cases hscript with
  | quiet => exact ⟨_, rfl, .inl ⟨rfl, hbodies, hprompts, hclock, hids, .quiet, hstill⟩⟩
  | pass hrest => exact ⟨_, rfl, .inl ⟨rfl, hbodies, hprompts, hclock, hids, hrest, hstill⟩⟩
  | @rewrite m i rest hi hrest =>
    cases i with
    | locked => exact hi.elim
    | writes ws =>
      obtain ⟨u, hu, hsame⟩ := Store.apply_rewrites (hi store)
      refine ⟨⟨u, prompts, rest, clock, ids⟩, ?_, .inr ⟨m, rfl, hsame.trans hbodies, hprompts,
        hclock, hids, hrest, hstill⟩⟩
      have hcommit : store.commit [] (ws store) = .ok u := hu
      simp only [Setting.intrude, hcommit]

end Setting

/-! ## Steady programs -/

namespace Program

variable {α β : Type} {n : Nat}

/-- A program does not notice that others rewrite documents at most some number of times. -/
def Steady (n : Nat) (p : Program α) : Prop :=
  ∀ s t, Setting.Shadows n s t → (p.run s).1 = (p.run t).1 ∧ (p.run s).2.Shadows n (p.run t).2

theorem Steady.pure {a : α} : Steady n (Pure.pure a) := fun _ _ h => ⟨rfl, h⟩

theorem Steady.bind {p : Program α} {f : α → Program β} (hp : Steady n p)
    (hf : ∀ a, Steady n (f a)) : Steady n (p >>= f) := by
  intro s t h
  obtain ⟨hanswer, hrest⟩ := hp s t h
  change ((p.bind f).run s).1 = ((p.bind f).run t).1 ∧
    ((p.bind f).run s).2.Shadows n ((p.bind f).run t).2
  rw [run_bind, run_bind, hanswer]
  exact hf _ _ _ hrest

/-! ### Single requests -/

theorem Steady.now : Steady n Request.now := by
  intro s t h
  refine ⟨congrArg (fun c => c.draw.1) h.clock, ?_⟩
  exact ⟨h.bodies, h.prompts, congrArg (fun c => c.draw.2) h.clock, h.ids, h.script, h.still⟩

theorem Steady.freshId : Steady n Request.freshId := by
  intro s t h
  refine ⟨congrArg (fun c => c.draw.1) h.ids, ?_⟩
  exact ⟨h.bodies, h.prompts, h.clock, congrArg (fun c => c.draw.2) h.ids, h.script, h.still⟩

theorem Steady.append {collection : String} {body : Json} :
    Steady n (Request.append collection body) := by
  intro s t h
  have hid : s.ids.draw.1 = t.ids.draw.1 := congrArg (fun c => c.draw.1) h.ids
  refine ⟨hid, ?_, h.prompts, h.clock, congrArg (fun c => c.draw.2) h.ids, h.script, h.still⟩
  change (s.store.put ⟨collection, s.ids.draw.1⟩ body).bodies =
    (t.store.put ⟨collection, t.ids.draw.1⟩ body).bodies
  rw [hid]
  exact Store.bodies_put_congr h.bodies _ _

theorem Steady.openPrompt {prompt : MoodPrompt} : Steady n (Request.openPrompt prompt) := by
  intro s t h
  refine ⟨rfl, h.bodies, ?_, congrArg (fun c => c.draw.2) h.clock, h.ids, h.script, h.still⟩
  change s.prompts.put s.clock.draw.1 prompt.subjectId prompt =
    t.prompts.put t.clock.draw.1 prompt.subjectId prompt
  rw [h.prompts, h.clock]

theorem Steady.takePrompt {subject : String} : Steady n (Request.takePrompt subject) := by
  intro s t h
  have htake : s.prompts.take s.clock.draw.1 subject = t.prompts.take t.clock.draw.1 subject := by
    rw [h.prompts, h.clock]
  refine ⟨?_, h.bodies, ?_, congrArg (fun c => c.draw.2) h.clock, h.ids, h.script, h.still⟩
  · exact congrArg (fun taken => taken.1) htake
  · exact congrArg (fun taken => taken.2) htake

/-! ### Transactions -/

section

variable {keys : List DocKey} {decision : Snapshot → Except EngineError (Plan α)}
  {s t : Setting}

/-- One attempt of a transaction, run from the snapshot of the store. -/
theorem run_attempt (left made : Nat) (s : Setting) :
    (tries keys decision (left + 1) made).run s =
      (conclude keys decision left made (.atOnce s.store keys)).run s := by
  rw [tries_succ, run_bind, Snapshot.read, Snapshot.run_extend]
  rfl

/-- A decision that fails ends the transaction. -/
theorem run_attempt_refused {e : EngineError} (left made : Nat)
    (hdecision : decision (.atOnce s.store keys) = .error e) :
    (tries keys decision (left + 1) made).run s =
      (.error e, s) := by
  rw [run_attempt]
  simp only [conclude, hdecision]
  rfl

/-- A plan without writes is the answer. -/
theorem run_attempt_idle {plan : Plan α} (left made : Nat)
    (hdecision : decision (.atOnce s.store keys) = .ok plan) (hwrites : plan.writes = []) :
    (tries keys decision (left + 1) made).run s =
      (.ok plan.result, s) := by
  rw [run_attempt]
  simp only [conclude, hdecision, hwrites, List.isEmpty_nil, if_true]
  rfl

/-- A plan with writes is committed after the others had their turn. -/
theorem run_attempt_commit {plan : Plan α} {s' : Setting} (left made : Nat)
    (hdecision : decision (.atOnce s.store keys) = .ok plan) (hwrites : plan.writes ≠ [])
    (hintrude : s.intrude = (.ok (), s')) :
    (tries keys decision (left + 1) made).run s =
      match s'.store.commit (Snapshot.atOnce s.store keys).stamps plan.writes with
      | .ok u => (.ok plan.result, { s' with store := u })
      | .error _ =>
        (tries keys decision left (made + 1)).run s' := by
  have hisEmpty : ¬plan.writes.isEmpty = true := hwrites ∘ List.isEmpty_iff.1
  rw [run_attempt]
  simp only [conclude, hdecision, if_neg hisEmpty, run, Setting.commit, hintrude]
  cases hcommit : s'.store.commit (Snapshot.atOnce s.store keys).stamps plan.writes with
  | ok u => rfl
  | error e =>
    obtain ⟨text, rfl⟩ := Store.commit_error hcommit
    rfl

/-- The commit of an attempt: the writes are applied, or the attempt has failed because the others
have rewritten something. -/
theorem commit_of_turn {n : Nat} {s' : Setting} {ws : List Write}
    (hturn : s'.store = s.store ∧ s'.Shadows n t ∨ ∃ m, n = m + 1 ∧ s'.Shadows m t) :
    s'.store.commit (Snapshot.atOnce s.store keys).stamps ws = s'.store.apply ws ∨
      ∃ m e, n = m + 1 ∧ s'.Shadows m t ∧
        s'.store.commit (Snapshot.atOnce s.store keys).stamps ws = .error e := by
  rcases hturn with ⟨hsame, -⟩ | ⟨m, hm, hshadows⟩
  · rw [hsame]
    exact .inl Store.commit_atOnce
  · cases hstale : s'.store.staleStamp? (Snapshot.atOnce s.store keys).stamps with
    | none => exact .inl (by rw [Store.commit, hstale])
    | some stamp => exact .inr ⟨m, _, hm, hshadows, by rw [Store.commit, hstale]⟩

theorem shadows_of_turn {n : Nat} {s' : Setting}
    (hturn : s'.store = s.store ∧ s'.Shadows n t ∨ ∃ m, n = m + 1 ∧ s'.Shadows m t) :
    s'.Shadows n t := by
  rcases hturn with ⟨-, hshadows⟩ | ⟨m, rfl, hshadows⟩
  · exact hshadows
  · exact hshadows.succ

/-- Where the others are still, writes that go through do so at once. -/
theorem run_tries_still {plan : Plan α} {u : Store} (left made : Nat) (h : t.intrusions = [])
    (hdecision : decision (.atOnce t.store keys) = .ok plan)
    (happly : t.store.apply plan.writes = .ok u) :
    (tries keys decision (left + 1) made).run t =
      (.ok plan.result, { t with store := u }) := by
  by_cases hwrites : plan.writes = []
  · rw [hwrites] at happly
    cases happly
    exact run_attempt_idle left made hdecision hwrites
  · have hintrude : t.intrude = (.ok (), t) := by rw [Setting.intrude, h]
    rw [run_attempt_commit left made hdecision hwrites hintrude, Store.commit_atOnce, happly]

/-- Where the others are still, writes that do not go through use up all attempts. -/
theorem run_tries_still_doomed {plan : Plan α} {e : StoreError} (left made : Nat)
    (h : t.intrusions = []) (hdecision : decision (.atOnce t.store keys) = .ok plan)
    (happly : t.store.apply plan.writes = .error e) :
    (tries keys decision left made).run t =
      (.error (.store (.retriesExhausted (left + made))), t) := by
  have hwrites : plan.writes ≠ [] := by
    intro hnil
    rw [hnil] at happly
    cases happly
  have hintrude : t.intrude = (.ok (), t) := by rw [Setting.intrude, h]
  induction left generalizing made with
  | zero =>
    rw [Nat.zero_add]
    rfl
  | succ left ih =>
    rw [run_attempt_commit left made hdecision hwrites hintrude, Store.commit_atOnce, happly,
      Nat.add_right_comm]
    exact ih (made + 1)

/-- A transaction ends with the first decision that fails. -/
theorem run_transact_refused {policy : RetryPolicy} {e : EngineError}
    (hdecision : decision (.atOnce s.store keys) = .error e) :
    (transact policy keys decision).run s = (.error e, s) := by
  change (transact policy keys decision).program.run s = _
  rw [program_transact]
  exact run_attempt_refused _ _ hdecision

/-- A transaction that has nothing to write ends with its first decision. -/
theorem run_transact_idle {policy : RetryPolicy} {plan : Plan α}
    (hdecision : decision (.atOnce s.store keys) = .ok plan) (hwrites : plan.writes = []) :
    (transact policy keys decision).run s = (.ok plan.result, s) := by
  change (transact policy keys decision).program.run s = _
  rw [program_transact]
  exact run_attempt_idle _ _ hdecision hwrites

/-- **Where the others are still, a transaction is decided on the store as it is.** -/
theorem run_transact_still (policy : RetryPolicy) (h : t.intrusions = []) :
    (transact policy keys decision).run t =
      match decision (.atOnce t.store keys) with
      | .error e => (.error e, t)
      | .ok plan =>
        match t.store.apply plan.writes with
        | .ok u => (.ok plan.result, { t with store := u })
        | .error _ => (.error (.store (.retriesExhausted policy.limit)), t) := by
  cases hdecision : decision (.atOnce t.store keys) with
  | error e => exact run_transact_refused hdecision
  | ok plan =>
    cases happly : t.store.apply plan.writes with
    | error e =>
      simp only [happly]
      exact run_tries_still_doomed policy.limit 0 h hdecision happly
    | ok u =>
      simp only [happly]
      change (transact policy keys decision).program.run t = _
      rw [program_transact]
      exact run_tries_still _ _ h hdecision happly

/-- Writes that do not go through use up all attempts, whatever the others do. -/
theorem run_tries_doomed {n : Nat} {plan : Plan α} {e : StoreError} (left made : Nat)
    (hreads : Snapshot.Reads decision) (h : s.Shadows n t)
    (hdecision : decision (.atOnce t.store keys) = .ok plan)
    (happly : t.store.apply plan.writes = .error e) : ∃ s',
      (tries keys decision left made).run s =
        (.error (.store (.retriesExhausted (left + made))), s') ∧ s'.Shadows n t := by
  induction left generalizing s made with
  | zero => exact ⟨s, by rw [Nat.zero_add]; rfl, h⟩
  | succ left ih =>
    have hdecision' : decision (.atOnce s.store keys) = .ok plan :=
      (hreads _ _ (Snapshot.sameBodies_atOnce h.bodies keys)).trans hdecision
    have hwrites : plan.writes ≠ [] := by
      intro hnil
      rw [hnil] at happly
      cases happly
    obtain ⟨s', hintrude, hturn⟩ := h.intrude
    have hshadows := shadows_of_turn hturn
    have hcommit : ∃ e', s'.store.commit (Snapshot.atOnce s.store keys).stamps plan.writes =
        .error e' := by
      rcases commit_of_turn hturn with hcommit | ⟨-, e', -, -, hcommit⟩
      · exact ⟨e, hcommit.trans (Store.apply_congr_error hshadows.bodies.symm happly)⟩
      · exact ⟨e', hcommit⟩
    obtain ⟨e', hcommit⟩ := hcommit
    obtain ⟨s'', hrun, hlast⟩ := ih (made + 1) hshadows
    refine ⟨s'', ?_, hlast⟩
    rw [run_attempt_commit left made hdecision' hwrites hintrude, hcommit]
    exact hrun.trans (by rw [Nat.add_assoc, Nat.add_comm 1])

/-- Writes that go through do so at the first attempt that meets current stamps, and the others do
not keep up with the attempts. -/
theorem run_tries_granted {n : Nat} {plan : Plan α} {u : Store} (left made : Nat)
    (hreads : Snapshot.Reads decision) (h : s.Shadows n t) (hleft : n < left)
    (hdecision : decision (.atOnce t.store keys) = .ok plan)
    (happly : t.store.apply plan.writes = .ok u) : ∃ s',
      (tries keys decision left made).run s =
        (.ok plan.result, s') ∧ s'.Shadows n { t with store := u } := by
  induction left generalizing s made n with
  | zero => exact absurd hleft (Nat.not_lt_zero n)
  | succ left ih =>
    have hdecision' : decision (.atOnce s.store keys) = .ok plan :=
      (hreads _ _ (Snapshot.sameBodies_atOnce h.bodies keys)).trans hdecision
    by_cases hwrites : plan.writes = []
    · rw [hwrites] at happly
      cases happly
      exact ⟨s, run_attempt_idle left made hdecision' hwrites, h⟩
    · obtain ⟨s', hintrude, hturn⟩ := h.intrude
      have hshadows := shadows_of_turn hturn
      rcases commit_of_turn hturn with hcommit | ⟨m, e, rfl, hshadows', hcommit⟩
      · obtain ⟨u', hu', hbodies⟩ := Store.apply_congr_ok hshadows.bodies.symm happly
        refine ⟨{ s' with store := u' }, ?_, hshadows.with_store hbodies.symm⟩
        rw [run_attempt_commit left made hdecision' hwrites hintrude, hcommit, hu']
      · obtain ⟨s'', hrun, hlast⟩ := ih (made + 1) hshadows' (by omega)
        refine ⟨s'', ?_, hlast.succ⟩
        rw [run_attempt_commit left made hdecision' hwrites hintrude, hcommit]
        exact hrun

/-- **The rule for transactions.** A decision that depends on bodies alone comes to the same, when
there are more attempts than times that the others rewrite something. -/
theorem Steady.tries {left made : Nat} (hreads : Snapshot.Reads decision) (hleft : n < left) :
    Steady n (tries keys decision left made) := by
  intro s t h
  obtain ⟨left, rfl⟩ : ∃ k, left = k + 1 := ⟨left - 1, by omega⟩
  cases hdecision : decision (.atOnce t.store keys) with
  | error e =>
    have hdecision' : decision (.atOnce s.store keys) = .error e :=
      (hreads _ _ (Snapshot.sameBodies_atOnce h.bodies keys)).trans hdecision
    rw [run_attempt_refused left made hdecision, run_attempt_refused left made hdecision']
    exact ⟨rfl, h⟩
  | ok plan =>
    cases happly : t.store.apply plan.writes with
    | error e =>
      obtain ⟨s', hs, hshadows⟩ := run_tries_doomed (left + 1) made hreads h hdecision happly
      rw [hs, run_tries_still_doomed (left + 1) made h.still hdecision happly]
      exact ⟨rfl, hshadows⟩
    | ok u =>
      obtain ⟨s', hs, hshadows⟩ :=
        run_tries_granted (left + 1) made hreads h hleft hdecision happly
      rw [hs, run_tries_still left made h.still hdecision happly]
      exact ⟨rfl, hshadows⟩

end

end Program

/-! ## Steady operations -/

namespace Operation

variable {α β : Type} {n : Nat}

/-- An operation does not notice that others rewrite documents at most some number of times. -/
def Steady (n : Nat) (o : Operation α) : Prop := o.program.Steady n

theorem Steady.ofExcept {r : Except EngineError α} : Steady n (.ofExcept r) := Program.Steady.pure

theorem Steady.bind {o : Operation α} {f : α → Operation β} (ho : Steady n o)
    (hf : ∀ a, Steady n (f a)) : Steady n (o >>= f) := by
  refine Program.Steady.bind ho ?_
  rintro (e | a)
  · exact Program.Steady.pure
  · exact hf a

theorem Steady.readDocument? [Document α] {key : DocKey} :
    Steady n (readDocument? (α := α) key) := by
  intro s t h
  change ((RitualLedger.readDocument? key).run s).1 = ((RitualLedger.readDocument? key).run t).1 ∧
    ((RitualLedger.readDocument? key).run s).2.Shadows n ((RitualLedger.readDocument? key).run t).2
  rw [run_readDocument, run_readDocument]
  exact ⟨(Snapshot.sameBodies_atOnce h.bodies [key]).get key, h⟩

theorem Steady.queryDocuments [Document α] {q : Query} :
    Steady n (queryDocuments (α := α) q) := by
  refine Steady.bind ?_ fun found => .ofExcept
  intro s t h
  exact ⟨congrArg (fun found => found.mapError EngineError.store) (q.run_congr h.bodies), h⟩

theorem Steady.transact {policy : RetryPolicy} {keys : List DocKey}
    {decision : Snapshot → Except EngineError (Plan α)} (hn : n < policy.maxAttempts)
    (hreads : Snapshot.Reads decision) : Steady n (transact policy keys decision) :=
  Program.Steady.tries hreads (hn.trans_le (le_max_right _ _))

end Operation

end RitualLedger
