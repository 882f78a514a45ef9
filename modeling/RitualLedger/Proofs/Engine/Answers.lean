import RitualLedger.Proofs.Engine.Turns

/-!
# Answers

A client has its answer when its program has come to the end, and keeps it (`World.answer?_step`).
Whether it gets there is up to whoever serves it, not to the other clients: every program ends after
some number of requests, whatever the answers to them are, because attempts are limited and no
operation starts over otherwise. So in an endless run a client that is served again and again has
its answer in the end (`World.answered`), and so do any number of clients together
(`World.allAnswered`).
-/

namespace RitualLedger

/-- The result of a program that has come to the end. -/
def Program.result? {α : Type} : Program α → Option α
  | .finish result => some result
  | _ => none

/-- The answer that a client has got, but for what it says. -/
def Client.answer? (c : Client) : Option (Except EngineError Unit) :=
  c.rest.result?.map fun answer => answer.map fun _ => ()

/-- A program that has come to the end stays there. -/
theorem Program.rest_of_result? {α : Type} {p : Program α} {a : α} (h : p.result? = some a) :
    p = .finish a := by
  cases p with
  | finish result => exact congrArg finish (Option.some.inj h)
  | read | commit | append | query | openPrompt | takePrompt | now | freshId => cases h

deriving instance DecidableEq for Call

/-- The answer of a client, if it has come in with a call and has got one. -/
def Client.answerTo? (call : Call) (c : Client) : Option (Except EngineError call.Result) :=
  if h : c.call = call then (h ▸ c.rest).result? else none

theorem Client.eq_of_answerTo? {call : Call} {c : Client} {answer : Except EngineError call.Result}
    (h : c.answerTo? call = some answer) : ∃ own, c = ⟨call, own, .finish answer⟩ := by
  obtain ⟨call', own, rest⟩ := c
  rw [answerTo?] at h
  split at h
  · rename_i heq
    obtain rfl : call' = call := heq
    exact ⟨own, congrArg (Client.mk call' own) (Program.rest_of_result? h)⟩
  · cases h

/-- No program goes on for ever. -/
theorem Program.acc_serve {α : Type} (p : Program α) :
    Acc (fun q p : Program α => p.result? = none ∧ ∃ scene chance, q = (p.serve scene chance).1)
      p := by
  -- What is left after a request is a part of the program.
  induction p with
  | finish result => exact ⟨_, fun _ h => by cases h.1⟩
  | openPrompt prompt next ih => exact ⟨_, by rintro _ ⟨-, scene, chance, rfl⟩; exact ih⟩
  | commit stamps ws next ih =>
    refine ⟨_, ?_⟩
    rintro _ ⟨-, scene, chance, rfl⟩
    rcases serve_commit scene chance next with ⟨e, h⟩ | ⟨t, -, h⟩
    · rw [h]
      exact ih _
    · rw [h]
      exact ih _
  | read _ _ ih | append _ _ _ ih | query _ _ ih | takePrompt _ _ ih | now _ ih | freshId _ ih =>
    exact ⟨_, by rintro _ ⟨-, scene, chance, rfl⟩; exact ih _⟩

namespace World

variable {w : World} {i : Nat} {e : Event} {c : Client}

/-- The answer of the client at a place. -/
def answer? (w : World) (i : Nat) : Option (Except EngineError Unit) :=
  w.clients[i]?.bind (·.answer?)

/-- The answer of the client at a place to a call. -/
def answerTo? (w : World) (i : Nat) (call : Call) : Option (Except EngineError call.Result) :=
  w.clients[i]?.bind (·.answerTo? call)

theorem client_of_answerTo? {call : Call} {answer : Except EngineError call.Result}
    (h : w.answerTo? i call = some answer) :
    ∃ own, w.clients[i]? = some ⟨call, own, .finish answer⟩ := by
  obtain ⟨c, hc, hanswer⟩ := Option.bind_eq_some_iff.1 h
  obtain ⟨own, rfl⟩ := Client.eq_of_answerTo? hanswer
  exact ⟨own, hc⟩

/-- A client whose turn it is moves on. -/
theorem client_of_served {chance : Chance} (hpossible : w.Possible (.served i chance))
    (hc : w.clients[i]? = some c) :
    (w.step (.served i chance)).clients[i]? = some (c.serve w.scene chance).1 := by
  rw [step, if_pos hpossible, happen_served hc]
  exact List.getElem?_set_self (List.getElem?_eq_some_iff.1 hc).1

/-- An answer is kept. -/
theorem answer?_step {answer : Except EngineError Unit} (h : w.answer? i = some answer) :
    (w.step e).answer? i = some answer := by
  obtain ⟨c, hc, hanswer⟩ := Option.bind_eq_some_iff.1 h
  rw [answer?]
  rcases client_step hc e with hsame | ⟨chance, hserved⟩
  · rw [hsame]
    exact hanswer
  · obtain ⟨result, hresult, rfl⟩ := Option.map_eq_some_iff.1 hanswer
    have hrest : (c.rest.serve w.scene chance).1 = c.rest := by
      rw [Program.rest_of_result? hresult]
      rfl
    rw [hserved, Option.bind_some]
    change ((c.rest.serve w.scene chance).1.result?).map _ = _
    rw [hrest, hresult]
    rfl

/-- Whoever has an answer draws nothing any more. -/
theorem draws_of_answered {answer : Except EngineError Unit} (h : w.answer? i = some answer) :
    w.draws i = false := by
  obtain ⟨c, hc, hanswer⟩ := Option.bind_eq_some_iff.1 h
  obtain ⟨result, hresult, -⟩ := Option.map_eq_some_iff.1 hanswer
  rw [draws, hc, Option.any_some, Program.rest_of_result? hresult]
  rfl

/-- All clients from a place on have their answers. -/
def AllAnswered (w : World) (first : Nat) : Prop :=
  ∀ i, first ≤ i → i < w.clients.length → ∃ answer, w.answer? i = some answer

/-- No client comes in when one is served. -/
theorem length_of_served {chance : Chance} :
    (w.step (.served i chance)).clients.length = w.clients.length := by
  rw [step]
  split
  · simp only [happen]
    split
    · rfl
    · exact List.length_set
  · rfl

/-! ## Endless runs -/

/-- The world after the first events of an endless run. -/
def afterFirst (w : World) (f : Nat → Event) (n : Nat) : World := w.after ((List.range n).map f)

/-- A client is served again and again. -/
def KeepsServing (w : World) (f : Nat → Event) (i : Nat) : Prop :=
  ∀ n, ∃ m ≥ n, ∃ chance, f m = .served i chance ∧ (w.afterFirst f m).Possible (f m)

variable {f : Nat → Event} {n : Nat}

theorem afterFirst_succ (w : World) (f : Nat → Event) (n : Nat) :
    w.afterFirst f (n + 1) = (w.afterFirst f n).step (f n) := by
  rw [afterFirst, List.range_succ, List.map_append]
  exact w.after_concat _ _

theorem answer?_afterFirst {answer : Except EngineError Unit}
    (h : (w.afterFirst f n).answer? i = some answer) {m : Nat} (hm : n ≤ m) :
    (w.afterFirst f m).answer? i = some answer := by
  induction m, hm using Nat.le_induction with
  | base => exact h
  | succ m hm ih =>
    rw [afterFirst_succ]
    exact answer?_step ih

/-- A client that is served again and again has a next turn. -/
theorem next_turn (hserved : w.KeepsServing f i) (hc : (w.afterFirst f n).clients[i]? = some c) :
    ∃ m > n, ∃ scene chance,
      (w.afterFirst f m).clients[i]? = some (c.serve scene chance).1 := by
  obtain ⟨m, hm, chance, hf, hpossible⟩ := hserved n
  by_contra! hnone
  -- Otherwise the client is where it was when its turn comes.
  have hsame : ∀ k, n ≤ k → k ≤ m → (w.afterFirst f k).clients[i]? = some c := by
    intro k hk
    induction k, hk using Nat.le_induction with
    | base => exact fun _ => hc
    | succ k hk ih =>
      intro hkm
      have hturn := client_step (ih (Nat.le_of_succ_le hkm)) (f k)
      rw [← afterFirst_succ] at hturn
      refine hturn.resolve_right ?_
      rintro ⟨chance, hserved⟩
      exact hnone (k + 1) (Nat.lt_succ_of_le hk) _ chance hserved
  refine hnone (m + 1) (Nat.lt_succ_of_le hm) (w.afterFirst f m).scene chance ?_
  rw [afterFirst_succ, hf]
  exact client_of_served (hf ▸ hpossible) (hsame m hm le_rfl)

/-- **A client that is served again and again gets its answer.** -/
theorem answered (hserved : w.KeepsServing f i)
    (hc : (w.afterFirst f n).clients[i]? = some c) :
    ∃ m ≥ n, ∃ answer, (w.afterFirst f m).answer? i = some answer := by
  obtain ⟨call, own, p⟩ := c
  -- By induction on what is left of the program, turn by turn.
  induction p.acc_serve generalizing own n with
  | intro p _ ih =>
    cases hresult : p.result? with
    | some result =>
      refine ⟨n, le_rfl, result.map fun _ => (), ?_⟩
      rw [answer?, hc, Option.bind_some, Client.answer?, hresult]
      rfl
    | none =>
      obtain ⟨m, hm, scene, chance, hturn⟩ := next_turn hserved hc
      obtain ⟨m', hm', hanswer⟩ := ih _ ⟨hresult, scene, chance, rfl⟩ _ hturn
      exact ⟨m', hm.le.trans hm', hanswer⟩

/-- Any number of clients that are served again and again all get their answers. -/
theorem all_of_answered (clients : List Nat)
    (hserved : ∀ i ∈ clients, w.KeepsServing f i ∧ i < (w.afterFirst f n).clients.length) :
    ∃ m ≥ n, ∀ i ∈ clients, ∃ answer, (w.afterFirst f m).answer? i = some answer := by
  induction clients with
  | nil => exact ⟨n, le_rfl, nofun⟩
  | cons i rest ih =>
    obtain ⟨m, hm, hrest⟩ := ih fun j hj => hserved j (List.mem_cons_of_mem i hj)
    obtain ⟨hi, hlength⟩ := hserved i List.mem_cons_self
    obtain ⟨m', hm', answer, hanswer⟩ := answered hi (List.getElem?_eq_getElem hlength)
    refine ⟨max m m', hm.trans (le_max_left m m'), fun j hj => ?_⟩
    rcases List.mem_cons.1 hj with rfl | hj
    · exact ⟨answer, answer?_afterFirst hanswer (le_max_right m m')⟩
    · obtain ⟨answer', hanswer'⟩ := hrest j hj
      exact ⟨answer', answer?_afterFirst hanswer' (le_max_left m m')⟩

/-- **When nobody else comes in, everyone gets an answer in the end.** -/
theorem allAnswered {first : Nat} (hcalls : ∀ m ≥ n, ∀ policy call, f m ≠ .called policy call)
    (hserved : ∀ i, first ≤ i → i < (w.afterFirst f n).clients.length → w.KeepsServing f i) :
    ∃ m ≥ n, (w.afterFirst f m).clients.length = (w.afterFirst f n).clients.length ∧
      (w.afterFirst f m).AllAnswered first := by
  have hlength : ∀ m, n ≤ m →
      (w.afterFirst f m).clients.length = (w.afterFirst f n).clients.length := by
    intro m hm
    induction m, hm using Nat.le_induction with
    | base => rfl
    | succ m hm ih =>
      rw [afterFirst_succ]
      cases he : f m with
      | called policy call => exact absurd he (hcalls m hm policy call)
      | served j chance => exact length_of_served.trans ih
  let clients := (List.range (w.afterFirst f n).clients.length).filter (first ≤ ·)
  have hclients : ∀ i ∈ clients,
      w.KeepsServing f i ∧ i < (w.afterFirst f n).clients.length := by
    intro i hi
    obtain ⟨hi, hfirst⟩ := List.mem_filter.1 hi
    have hinside := List.mem_range.1 hi
    exact ⟨hserved i (of_decide_eq_true hfirst) hinside, hinside⟩
  obtain ⟨m, hm, hall⟩ := all_of_answered clients hclients
  refine ⟨m, hm, hlength m hm, fun i hfirst hi => hall i ?_⟩
  rw [hlength m hm] at hi
  exact List.mem_filter.2 ⟨List.mem_range.2 hi, decide_eq_true hfirst⟩

end World

end RitualLedger
