import RitualLedger.Engine.Program
import RitualLedger.Proofs.Store.History

/-!
# Serving requests one at a time

A client is a program, and a program moves only when one of its requests is served. Between two
requests of a client anything may happen to the store. `Program.serve` serves one request in a
scene, which is the store with the open prompts; a `Chance` says what else the answer depends on.

`Program.amid` lets one client run amid the commits of others, in whatever order a list of
happenings gives. `Program.run`, which runs a client to its end under a script, is such a run
(`Program.run_eq_amid`).
-/

namespace RitualLedger

/-- What clients share. -/
structure Scene where
  store : Store
  prompts : Sessions MoodPrompt

/-- What an answer depends on besides the scene. -/
structure Chance where
  /-- Why the store refuses to commit anything now, if it does. -/
  refusal : Option StoreError
  /-- What the clock says. -/
  now : Instant
  /-- The id that is drawn. -/
  id : String

namespace Scene

/-- Commits unless the store refuses to. -/
def commit (scene : Scene) (chance : Chance) (stamps : List Stamp) (ws : List Write) :
    Except StoreError Unit × Scene :=
  match chance.refusal with
  | some e => (.error e, scene)
  | none =>
    match scene.store.commit stamps ws with
    | .ok store => (.ok (), { scene with store := store })
    | .error e => (.error e, scene)

/-- Puts a document. -/
def put (scene : Scene) (key : DocKey) (body : Json) : Scene :=
  { scene with store := scene.store.put key body }

end Scene

namespace Program

variable {α β : Type}

/-- Serves the next request. A program that has finished stays as it is. -/
def serve (p : Program α) (scene : Scene) (chance : Chance) : Program α × Scene :=
  match p with
  | finish result => (finish result, scene)
  | read key next => (next (scene.store.read? key), scene)
  | commit stamps writes next =>
    let (answer, after) := scene.commit chance stamps writes
    (next answer, after)
  | append collection body next => (next chance.id, scene.put ⟨collection, chance.id⟩ body)
  | query q next => (next (q.run scene.store), scene)
  | openPrompt prompt next =>
    (next, { scene with prompts := scene.prompts.put chance.now prompt.subjectId prompt })
  | takePrompt subject next =>
    let (prompt, prompts) := scene.prompts.take chance.now subject
    (next prompt, { scene with prompts := prompts })
  | now next => (next chance.now, scene)
  | freshId next => (next chance.id, scene)

/-- The store after a commit is the one before, if the commit was refused. -/
theorem serve_commit {stamps : List Stamp} {ws : List Write} (scene : Scene) (chance : Chance)
    (next : Except StoreError Unit → Program α) :
    (∃ e, (commit stamps ws next).serve scene chance = (next (.error e), scene)) ∨
      ∃ store, scene.store.commit stamps ws = .ok store ∧
        (commit stamps ws next).serve scene chance =
          (next (.ok ()), { scene with store := store }) := by
  simp only [serve, Scene.commit]
  cases chance.refusal with
  | some e => exact .inl ⟨e, rfl⟩
  | none =>
    cases hcommit : scene.store.commit stamps ws with
    | error e => exact .inl ⟨e, rfl⟩
    | ok store => exact .inr ⟨store, rfl, rfl⟩

theorem le_serve (p : Program α) (scene : Scene) (chance : Chance) :
    scene.store ≤ (p.serve scene chance).2.store := by
  cases p with
  | commit stamps ws next =>
    rcases serve_commit scene chance next with
      ⟨e, h⟩ | ⟨store, hcommit, h⟩
    · rw [h]
    · rw [h]
      exact Store.le_commit hcommit
  | append collection body next => exact Store.le_put
  | finish | read | query | openPrompt | takePrompt | now | freshId => exact le_refl _

end Program

/-! ## One client amid others -/

/-- What happens next. -/
inductive Happening where
  /-- The client's next request is served. -/
  | served (chance : Chance)
  /-- Another client commits. -/
  | foreign (stamps : List Stamp) (writes : List Write)

namespace Store

/-- The store after another client has tried to commit. -/
def intruded (s : Store) (stamps : List Stamp) (ws : List Write) : Store :=
  match s.commit stamps ws with
  | .ok t => t
  | .error _ => s

theorem le_intruded {s : Store} {stamps : List Stamp} {ws : List Write} :
    s ≤ s.intruded stamps ws := by
  rw [intruded]
  split
  · rename_i t hcommit
    exact le_commit hcommit
  · exact le_refl s

/-- What the other clients alone make of a store. -/
def leftTo (s : Store) : List Happening → Store
  | [] => s
  | .served _ :: rest => s.leftTo rest
  | .foreign stamps ws :: rest => (s.intruded stamps ws).leftTo rest

end Store

namespace Program

variable {α : Type}

/-- Runs a client amid others. -/
def amid (p : Program α) (scene : Scene) : List Happening → Program α × Scene
  | [] => (p, scene)
  | .served chance :: rest =>
    let (next, after) := p.serve scene chance
    next.amid after rest
  | .foreign stamps ws :: rest =>
    p.amid { scene with store := scene.store.intruded stamps ws } rest

theorem amid_served (p : Program α) (scene : Scene) (chance : Chance) (hs : List Happening) :
    p.amid scene (.served chance :: hs) =
      (p.serve scene chance).1.amid (p.serve scene chance).2 hs := rfl

theorem amid_append (p : Program α) (scene : Scene) (hs hs' : List Happening) :
    p.amid scene (hs ++ hs') = (p.amid scene hs).1.amid (p.amid scene hs).2 hs' := by
  induction hs generalizing p scene with
  | nil => rfl
  | cons h rest ih =>
    cases h with
    | served chance => exact ih _ _
    | foreign stamps ws => exact ih _ _

/-- A run goes on where its beginning has led. -/
theorem amid_of_first {p q : Program α} {scene after : Scene} {last : Program α × Scene}
    (first : List Happening) (hfirst : p.amid scene first = (q, after))
    (hrest : ∃ hs, q.amid after hs = last) : ∃ hs, p.amid scene hs = last := by
  obtain ⟨hs, hrest⟩ := hrest
  refine ⟨first ++ hs, ?_⟩
  rw [amid_append, hfirst]
  exact hrest

/-- A client that has finished leaves the store to the others. -/
theorem amid_finish (result : α) (scene : Scene) (hs : List Happening) :
    (finish result).amid scene hs =
      (finish result, { scene with store := scene.store.leftTo hs }) := by
  induction hs generalizing scene with
  | nil => rfl
  | cons h rest ih =>
    cases h with
    | served chance => exact ih scene
    | foreign stamps ws => exact ih _

end Program

/-! ## Scripted runs -/

/-- What clients share, in the setting of a scripted run. -/
def Setting.scene (s : Setting) : Scene := ⟨s.store, s.prompts⟩

/-- A commit under a script is a commit of the others' followed by one's own. -/
theorem Setting.commit_eq_amid {α : Type} (s : Setting) (stamps : List Stamp) (ws : List Write)
    (next : Except StoreError Unit → Program α) : ∃ hs,
      (Program.commit stamps ws next).amid s.scene hs =
        (next (s.commit stamps ws).1, (s.commit stamps ws).2.scene) := by
  obtain ⟨store, prompts, intrusions, clock, ids⟩ := s
  -- Other chances than a refusal make no difference to a commit.
  let chance (refusal : Option StoreError) : Chance := ⟨refusal, clock.value 0, ""⟩
  have alone : ∀ store' : Store, ∀ rest : List Intrusion,
      (Program.commit stamps ws next).amid ⟨store', prompts⟩ [.served (chance none)] =
        match store'.commit stamps ws with
        | .ok t => (next (.ok ()), ⟨t, prompts⟩)
        | .error e => (next (.error e), ⟨store', prompts⟩) := by
    intro store' rest
    simp only [Program.amid, Program.serve, Scene.commit, chance]
    cases store'.commit stamps ws <;> rfl
  cases intrusions with
  | nil =>
    refine ⟨[.served (chance none)], (alone store []).trans ?_⟩
    simp only [Setting.commit, intrude]
    cases store.commit stamps ws <;> rfl
  | cons first rest =>
    cases first with
    | locked => exact ⟨[.served (chance (some .locked))], rfl⟩
    | writes others =>
      cases hothers : store.commit [] (others store) with
      | error e =>
        refine ⟨[.served (chance (some e))], ?_⟩
        simp only [Setting.commit, intrude, hothers]
        rfl
      | ok store' =>
        refine ⟨[.foreign [] (others store), .served (chance none)], ?_⟩
        have hstore : store.intruded [] (others store) = store' := by
          rw [Store.intruded, hothers]
        rw [Program.amid, scene, hstore]
        refine (alone store' rest).trans ?_
        simp only [Setting.commit, intrude, hothers]
        cases store'.commit stamps ws <;> rfl

/-- A scripted run to the end is a run amid others. -/
theorem Program.run_eq_amid {α : Type} (p : Program α) (s : Setting) : ∃ hs,
    p.amid s.scene hs = (finish (p.run s).1, (p.run s).2.scene) := by
  let anytime : Chance := ⟨none, s.clock.value 0, ""⟩
  induction p generalizing s with
  | finish result => exact ⟨[], rfl⟩
  | read key next ih => exact amid_of_first [.served anytime] rfl (ih _ s)
  | commit stamps ws next ih =>
    obtain ⟨first, hfirst⟩ := s.commit_eq_amid stamps ws next
    exact amid_of_first first hfirst (ih _ _)
  | append collection body next ih =>
    exact amid_of_first [.served { anytime with id := s.ids.draw.1 }] rfl
      (ih _ (s.append collection body).2)
  | query q next ih => exact amid_of_first [.served anytime] rfl (ih _ s)
  | openPrompt prompt next ih =>
    exact amid_of_first [.served { anytime with now := s.clock.draw.1 }] rfl
      (ih (s.openPrompt prompt))
  | takePrompt subject next ih =>
    exact amid_of_first [.served { anytime with now := s.clock.draw.1 }] rfl
      (ih _ (s.takePrompt subject).2)
  | now next ih =>
    exact amid_of_first [.served { anytime with now := s.clock.draw.1 }] rfl
      (ih _ { s with clock := s.clock.draw.2 })
  | freshId next ih =>
    exact amid_of_first [.served { anytime with id := s.ids.draw.1 }] rfl
      (ih _ { s with ids := s.ids.draw.2 })

end RitualLedger
