import RitualLedger.Proofs.Files.Growth

/-!
# Keeping a document store

`Files.documents` is what is stored at a place; a file without a store holds no documents. Where a
document store is kept, another may take its place: nothing else about the files depends on what is
stored. `Files.Resembles` compares files but for the stores in them. Paths lead to the same places
there, and texts are read alike.
-/

namespace RitualLedger

namespace Files

variable {fs later last : Files} {place p : Place} {path : String} {store store' : Store}

/-! ## Documents -/

/-- The documents in the file at a place. -/
def documents (fs : Files) (place : Place) : Store := (storeOf? (fs.node? place)).getD .empty

theorem node?_saveDatabase (h : place ≠ []) :
    (fs.saveDatabase place store).node? place = some (.database store) := node?_set_self h

theorem documents_saveDatabase (h : place ≠ []) :
    (fs.saveDatabase place store).documents place = store := by
  rw [documents, node?_saveDatabase h]
  rfl

theorem nodes_saveDatabase : (fs.saveDatabase place store).nodes = (place, .database store) ::
    fs.nodes.filter fun n => n.1 != place && Stays (companionPlaces place) n := by
  rw [saveDatabase, set, nodes_removeFiles, List.filter_filter]

/-- Of two stores that are kept at a place the second one is there. -/
theorem saveDatabase_saveDatabase :
    (fs.saveDatabase place store).saveDatabase place store' = fs.saveDatabase place store' := by
  have hnodes : ((fs.saveDatabase place store).saveDatabase place store').nodes =
      (fs.saveDatabase place store').nodes := by
    rw [nodes_saveDatabase, nodes_saveDatabase, nodes_saveDatabase,
      List.filter_cons_of_neg (by simp), List.filter_filter]
    simp only [Bool.and_self]
  exact congrArg (Files.mk · fs.workingDirectory) hnodes

/-- What only adds to the files keeps all documents. -/
theorem Extends.documents (h : fs.Extends later) (p : Place) :
    later.documents p = fs.documents p := by
  rw [Files.documents, Files.documents]
  rcases h.node p with hsame | ⟨hnone, hnew⟩
  · rw [hsame]
  · rw [hnone]
    cases hnode : later.node? p with
    | none => rfl
    | some node =>
      cases node with
      | database store => exact absurd hnode (hnew store)
      | directory | other => rfl
      | text content =>
        simp only [storeOf?]
        split <;> rfl

/-! ## Files that differ in stores only -/

/-- The same stands everywhere, but for what is stored. -/
structure Resembles (fs later : Files) : Prop where
  start : later.workingDirectory = fs.workingDirectory
  node : ∀ p, later.node? p = fs.node? p ∨
    ∃ store store', fs.node? p = some (.database store) ∧ later.node? p = some (.database store')

theorem Resembles.requireDirectory (h : fs.Resembles later) (p : Place) :
    later.requireDirectory p = fs.requireDirectory p := by
  rw [Files.requireDirectory, Files.requireDirectory]
  rcases h.node p with hsame | ⟨store, store', hnode, hnode'⟩
  · rw [hsame]
  · rw [hnode, hnode']

theorem Resembles.step (h : fs.Resembles later) : later.step = fs.step := by
  funext p name
  rw [Files.step, Files.step, h.requireDirectory]

theorem Resembles.walk (h : fs.Resembles later) (path : String) :
    later.walk path = fs.walk path := by
  rw [Files.walk, Files.walk, h.step, start_eq h.start]

/-- Texts are read alike. -/
theorem Resembles.readText (h : fs.Resembles later) (path : String) :
    later.readText path = fs.readText path := by
  rw [Files.readText, Files.readText, h.walk]
  refine bind_congr fun p => ?_
  rcases h.node p with hsame | ⟨store, store', hnode, hnode'⟩
  · rw [hsame]
  · rw [hnode, hnode']

variable (fs store store') in
/-- Whatever is kept at a place, the files are the same otherwise. -/
theorem resembles_saveDatabase (h : place ≠ []) :
    (fs.saveDatabase place store).Resembles (fs.saveDatabase place store') := by
  refine ⟨rfl, fun p => ?_⟩
  by_cases hp : p = place
  · subst hp
    exact .inr ⟨store, store', node?_saveDatabase h, node?_saveDatabase h⟩
  · rw [saveDatabase, saveDatabase, node?_set_of_ne hp, node?_set_of_ne hp]
    exact .inl rfl

end Files

end RitualLedger
