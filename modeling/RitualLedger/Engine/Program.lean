import RitualLedger.Session
import RitualLedger.Signal.Prompt
import RitualLedger.Store.Query

/-!
# Programs

The operations of the engine are programs: trees of requests to their surroundings, each followed
by what is done with the answer. A request reads one document, commits writes, appends or queries
documents, opens or takes a mood prompt, reads the clock, or draws a fresh id. So a client is a
value, and its steps can be interleaved with those of other clients at any request.

`Program.run` is the interpretation with one client in the foreground: the others are a script with
one entry for each commit, which says what they commit just before it, or that they hold the store.
An *operation* is a program that may fail with an error of the engine.
-/

namespace RitualLedger

/-- A program with a result. -/
inductive Program (α : Type) where
  | finish (result : α)
  /-- Reads one document. -/
  | read (key : DocKey) (next : Option Versioned → Program α)
  /-- Applies writes if the stamps are current. -/
  | commit (stamps : List Stamp) (writes : List Write) (next : Except StoreError Unit → Program α)
  /-- Adds a document under a fresh id, which is the answer. -/
  | append (collection : String) (body : Json) (next : String → Program α)
  | query (q : Query) (next : Except StoreError (List (String × Json)) → Program α)
  /-- Opens a prompt for its subject. -/
  | openPrompt (prompt : MoodPrompt) (next : Program α)
  /-- Takes the live prompt of a subject. -/
  | takePrompt (subject : String) (next : Option MoodPrompt → Program α)
  | now (next : Instant → Program α)
  | freshId (next : String → Program α)

namespace Program

variable {α β : Type}

/-- Goes on with another program after the result. -/
def bind (p : Program α) (f : α → Program β) : Program β :=
  match p with
  | finish result => f result
  | read key next => read key fun a => (next a).bind f
  | commit stamps writes next => commit stamps writes fun a => (next a).bind f
  | append collection body next => append collection body fun a => (next a).bind f
  | query q next => query q fun a => (next a).bind f
  | openPrompt prompt next => openPrompt prompt (next.bind f)
  | takePrompt subject next => takePrompt subject fun a => (next a).bind f
  | now next => now fun a => (next a).bind f
  | freshId next => freshId fun a => (next a).bind f

instance : Monad Program where
  pure := finish
  bind := bind

theorem bind_finish (p : Program α) : p.bind finish = p := by
  induction p with
  | finish => rfl
  | read key next ih => simp only [bind, ih]
  | commit stamps writes next ih => simp only [bind, ih]
  | append collection body next ih => simp only [bind, ih]
  | query q next ih => simp only [bind, ih]
  | openPrompt prompt next ih => simp only [bind, ih]
  | takePrompt subject next ih => simp only [bind, ih]
  | now next ih => simp only [bind, ih]
  | freshId next ih => simp only [bind, ih]

theorem bind_assoc {γ : Type} (p : Program α) (f : α → Program β) (g : β → Program γ) :
    (p.bind f).bind g = p.bind fun a => (f a).bind g := by
  induction p with
  | finish => rfl
  | read key next ih => simp only [bind, ih]
  | commit stamps writes next ih => simp only [bind, ih]
  | append collection body next ih => simp only [bind, ih]
  | query q next ih => simp only [bind, ih]
  | openPrompt prompt next ih => simp only [bind, ih]
  | takePrompt subject next ih => simp only [bind, ih]
  | now next ih => simp only [bind, ih]
  | freshId next ih => simp only [bind, ih]

instance : LawfulMonad Program :=
  LawfulMonad.mk' Program bind_finish (fun _ _ => rfl) bind_assoc

end Program

/-! ## Single requests -/

namespace Request

/-- Reads one document. -/
def read (key : DocKey) : Program (Option Versioned) := .read key .finish

/-- Applies writes if the stamps are current. -/
def commit (stamps : List Stamp) (writes : List Write) : Program (Except StoreError Unit) :=
  .commit stamps writes .finish

/-- Adds a document under a fresh id. -/
def append (collection : String) (body : Json) : Program String := .append collection body .finish

/-- Answers a query. -/
def query (q : Query) : Program (Except StoreError (List (String × Json))) := .query q .finish

/-- Opens a prompt for its subject. -/
def openPrompt (prompt : MoodPrompt) : Program Unit := .openPrompt prompt (.finish ())

/-- Takes the live prompt of a subject. -/
def takePrompt (subject : String) : Program (Option MoodPrompt) := .takePrompt subject .finish

/-- Reads the clock. -/
def now : Program Instant := .now .finish

/-- Draws an id that no one has drawn before. -/
def freshId : Program String := .freshId .finish

end Request

/-! ## Running -/

/-- What other clients do just before a commit. -/
inductive Intrusion where
  /-- They commit writes of their own, which may depend on what they find. -/
  | writes (ws : Store → List Write)
  /-- They hold the store, so that the commit fails. -/
  | locked

/-- A source of values that are drawn one after another. -/
structure Source (α : Type) where
  value : Nat → α
  drawn : Nat

/-- The next value and the source after it. -/
def Source.draw {α : Type} (s : Source α) : α × Source α :=
  (s.value s.drawn, { s with drawn := s.drawn + 1 })

/-- What programs run in. -/
structure Setting where
  store : Store
  prompts : Sessions MoodPrompt
  /-- What other clients do, one entry for each commit to come. -/
  intrusions : List Intrusion
  clock : Source Instant
  ids : Source String

namespace Setting

/-- Lets the other clients do what the script says next. -/
def intrude (s : Setting) : Except StoreError Unit × Setting :=
  match s.intrusions with
  | [] => (.ok (), s)
  | .locked :: rest => (.error .locked, { s with intrusions := rest })
  | .writes ws :: rest =>
    match s.store.commit [] (ws s.store) with
    | .ok store => (.ok (), { s with store := store, intrusions := rest })
    | .error e => (.error e, { s with intrusions := rest })

/-- Commits after the other clients had their turn. -/
def commit (s : Setting) (stamps : List Stamp) (ws : List Write) :
    Except StoreError Unit × Setting :=
  match s.intrude with
  | (.error e, s) => (.error e, s)
  | (.ok (), s) =>
    match s.store.commit stamps ws with
    | .ok store => (.ok (), { s with store := store })
    | .error e => (.error e, s)

/-- Adds a document under a fresh id. -/
def append (s : Setting) (collection : String) (body : Json) : String × Setting :=
  let (id, ids) := s.ids.draw
  (id, { s with ids := ids, store := s.store.put ⟨collection, id⟩ body })

/-- Opens a prompt now. -/
def openPrompt (s : Setting) (prompt : MoodPrompt) : Setting :=
  let (now, clock) := s.clock.draw
  { s with clock := clock, prompts := s.prompts.put now prompt.subjectId prompt }

/-- Takes the prompt of a subject if it is live now. -/
def takePrompt (s : Setting) (subject : String) : Option MoodPrompt × Setting :=
  let (now, clock) := s.clock.draw
  let (prompt, prompts) := s.prompts.take now subject
  (prompt, { s with clock := clock, prompts := prompts })

end Setting

/-- Runs a program to its result. -/
def Program.run {α : Type} : Program α → Setting → α × Setting
  | finish result, s => (result, s)
  | read key next, s => (next (s.store.read? key)).run s
  | commit stamps writes next, s =>
    let (answer, s) := s.commit stamps writes
    (next answer).run s
  | append collection body next, s =>
    let (id, s) := s.append collection body
    (next id).run s
  | query q next, s => (next (q.run s.store)).run s
  | openPrompt prompt next, s => next.run (s.openPrompt prompt)
  | takePrompt subject next, s =>
    let (prompt, s) := s.takePrompt subject
    (next prompt).run s
  | now next, s =>
    let (t, clock) := s.clock.draw
    (next t).run { s with clock := clock }
  | freshId next, s =>
    let (id, ids) := s.ids.draw
    (next id).run { s with ids := ids }

/-- Running one program after another runs the second where the first has ended. -/
theorem Program.run_bind {α β : Type} (p : Program α) (f : α → Program β) (s : Setting) :
    (p.bind f).run s = (f (p.run s).1).run (p.run s).2 := by
  induction p generalizing s with
  | finish => rfl
  | read key next ih => simp only [Program.bind, Program.run, ih]
  | commit stamps writes next ih => simp only [Program.bind, Program.run, ih]
  | append collection body next ih => simp only [Program.bind, Program.run, ih]
  | query q next ih => simp only [Program.bind, Program.run, ih]
  | openPrompt prompt next ih => simp only [Program.bind, Program.run, ih]
  | takePrompt subject next ih => simp only [Program.bind, Program.run, ih]
  | now next ih => simp only [Program.bind, Program.run, ih]
  | freshId next ih => simp only [Program.bind, Program.run, ih]

/-! ## Operations -/

/-- A program that may fail. -/
abbrev Operation (α : Type) := ExceptT EngineError Program α

namespace Operation

variable {α : Type}

/-- The program of an operation. -/
def program (o : Operation α) : Program (Except EngineError α) := ExceptT.run o

/-- An operation that is decided already. -/
def ofExcept (r : Except EngineError α) : Operation α := ExceptT.mk (.finish r)

/-- A request that may fail in the store. -/
def ofStore (p : Program (Except StoreError α)) : Operation α :=
  ExceptT.mk (p.bind fun r => .finish (r.mapError .store))

/-- A check that may refuse. -/
def ofValidation (r : Except ValidationError α) : Operation α :=
  ofExcept (r.mapError .validation)

/-- Fails because something is missing. -/
def notFound (kind : EntityKind) (id : String) : Operation α :=
  ofExcept (.error (.notFound kind id))

/-- Runs an operation to its result. -/
def run (o : Operation α) (s : Setting) : Except EngineError α × Setting := o.program.run s

end Operation

end RitualLedger
