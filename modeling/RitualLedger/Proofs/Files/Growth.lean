import RitualLedger.Files.Database
import RitualLedger.Proofs.Ritual.Definition

/-!
# Files that grow

Whatever is done on the way to a document store only adds to the files: directories that are
missing, and files where nothing stands (`Files.Extends`). Directories stay even when a store is
kept, so a path that could be walked can be walked again (`Files.Grows.walk`), and creating the
directories along a path once more changes nothing (`Files.createDirectories_again`).
-/

namespace RitualLedger.Files

variable {fs later last : Files} {place p : Place} {places : List Place} {node : FileNode}
  {store : Store}

/-! ## What stands where -/

@[simp]
theorem node?_root : fs.node? [] = some .directory := rfl

theorem node?_of_ne (h : place ≠ []) : fs.node? place = fs.nodes.lookup place := by
  rw [node?, List.isEmpty_eq_false_iff.2 h]
  rfl

/-- A place where something else than a directory stands, or nothing, is not the root. -/
theorem ne_root (h : fs.node? place ≠ some .directory) : place ≠ [] := by
  rintro rfl
  exact h rfl

theorem node?_set_self (h : place ≠ []) : (fs.set place node).node? place = some node := by
  rw [node?_of_ne h, set, List.lookup_cons_self]

theorem lookup_filter {keep : Place × FileNode → Bool} {nodes : List (Place × FileNode)}
    (h : ∀ n ∈ nodes, n.1 = p → keep n = true) :
    (nodes.filter keep).lookup p = nodes.lookup p := by
  induction nodes with
  | nil => rfl
  | cons n rest ih =>
    have hrest := ih fun m hm => h m (List.mem_cons_of_mem n hm)
    by_cases hn : n.1 = p
    · rw [List.filter_cons_of_pos (h n List.mem_cons_self hn), List.lookup_cons, List.lookup_cons,
        hn, beq_self_eq_true]
    · have hne : (p == n.1) = false := beq_false_of_ne (Ne.symm hn)
      cases hkeep : keep n with
      | true =>
        rw [List.filter_cons_of_pos hkeep, List.lookup_cons, List.lookup_cons, hne]
        exact hrest
      | false =>
        rw [List.filter_cons_of_neg (by simp [hkeep]), List.lookup_cons, hne]
        exact hrest

theorem node?_set_of_ne (h : p ≠ place) : (fs.set place node).node? p = fs.node? p := by
  by_cases hp : p = []
  · rw [hp, node?_root, node?_root]
  · rw [node?_of_ne hp, node?_of_ne hp, set, List.lookup_cons, beq_false_of_ne h]
    exact lookup_filter fun n _ hn => by simp [hn, h]

theorem node?_removeFiles (h : p ∉ places) : (fs.removeFiles places).node? p = fs.node? p := by
  by_cases hp : p = []
  · rw [hp, node?_root, node?_root]
  · rw [node?_of_ne hp, node?_of_ne hp, removeFiles]
    exact lookup_filter fun n _ hn => by simp [hn, h]

/-- Whether a node stays when the files at some places are removed. -/
def Stays (places : List Place) (n : Place × FileNode) : Bool :=
  !places.contains n.1 || match n.2 with
    | .directory => true
    | _ => false

theorem nodes_removeFiles : (fs.removeFiles places).nodes = fs.nodes.filter (Stays places) := rfl

/-- Only files are removed. -/
theorem directory_removeFiles (h : fs.node? p = some .directory) :
    (fs.removeFiles places).node? p = some .directory := by
  by_cases hp : p = []
  · rw [hp, node?_root]
  · rw [node?_of_ne hp] at h
    rw [node?_of_ne hp, nodes_removeFiles]
    obtain ⟨before, behind, hnodes, hbefore⟩ := List.lookup_eq_some_iff.1 h
    refine List.lookup_eq_some_iff.2 ⟨before.filter (Stays places), behind.filter (Stays places),
      ?_, fun n hn => hbefore n (List.mem_filter.1 hn).1⟩
    rw [hnodes, List.filter_append, List.filter_cons_of_pos (by simp [Stays])]

/-- Where files are removed no document store is left. -/
theorem node?_removeFiles_of_mem (h : p ∈ places) {node : FileNode}
    (hnode : (fs.removeFiles places).node? p = some node) : node = .directory := by
  by_cases hp : p = []
  · subst hp
    exact (Option.some.inj hnode).symm
  · rw [node?_of_ne hp, nodes_removeFiles] at hnode
    obtain ⟨before, behind, hnodes, -⟩ := List.lookup_eq_some_iff.1 hnode
    have hmem : (p, node) ∈ fs.nodes.filter (Stays places) := hnodes ▸ by simp
    have hstays : Stays places (p, node) = true := (List.mem_filter.1 hmem).2
    cases node <;> simp_all [Stays]

/-! ## Growing -/

/-- Directories stay where they are. -/
structure Grows (fs later : Files) : Prop where
  start : later.workingDirectory = fs.workingDirectory
  directory : ∀ p, fs.node? p = some .directory → later.node? p = some .directory

/-- What is there stays as it is, and documents are not added. -/
structure Extends (fs later : Files) : Prop where
  start : later.workingDirectory = fs.workingDirectory
  node : ∀ p, later.node? p = fs.node? p ∨
    fs.node? p = none ∧ ∀ store, later.node? p ≠ some (.database store)

theorem Grows.refl (fs : Files) : fs.Grows fs := ⟨rfl, fun _ => id⟩

theorem Grows.trans (h : fs.Grows later) (h' : later.Grows last) : fs.Grows last :=
  ⟨h'.start.trans h.start, fun p hp => h'.directory p (h.directory p hp)⟩

theorem Extends.refl (fs : Files) : fs.Extends fs := ⟨rfl, fun _ => .inl rfl⟩

theorem Extends.trans (h : fs.Extends later) (h' : later.Extends last) : fs.Extends last := by
  refine ⟨h'.start.trans h.start, fun p => ?_⟩
  rcases h.node p with hsame | ⟨hnone, hnew⟩
  · rw [← hsame]
    exact h'.node p
  · rcases h'.node p with hsame | ⟨-, hlast⟩
    · exact .inr ⟨hnone, by rwa [hsame]⟩
    · exact .inr ⟨hnone, hlast⟩

/-- What is there stays. -/
theorem Extends.stays (h : fs.Extends later) (hp : fs.node? p ≠ none) :
    later.node? p = fs.node? p :=
  (h.node p).resolve_right fun hnew => hp hnew.1

theorem Extends.grows (h : fs.Extends later) : fs.Grows later where
  start := h.start
  directory p hp := by
    rw [h.stays (by simp [hp]), hp]

theorem extends_set (hnone : fs.node? place = none) (hnode : ∀ store, node ≠ .database store) :
    fs.Extends (fs.set place node) := by
  refine ⟨rfl, fun p => ?_⟩
  by_cases hp : p = place
  · subst hp
    rw [node?_set_self (ne_root (by simp [hnone] : fs.node? p ≠ some .directory))]
    exact .inr ⟨hnone, fun store heq => hnode store (Option.some.inj heq)⟩
  · exact .inl (node?_set_of_ne hp)

theorem extends_makeFile (fs : Files) (place : Place) : fs.Extends (fs.makeFile place) := by
  rw [makeFile]
  split
  · exact .refl fs
  · rename_i hnone
    exact extends_set (by simpa using hnone) fun _ => nofun

/-- Keeping a store leaves the directories, unless one stands in its place. -/
theorem grows_saveDatabase (hplace : fs.node? place ≠ some .directory) :
    fs.Grows (fs.saveDatabase place store) := by
  refine ⟨rfl, fun p hp => ?_⟩
  have hne : p ≠ place := by
    rintro rfl
    exact hplace hp
  rw [saveDatabase, node?_set_of_ne hne]
  exact directory_removeFiles hp

/-! ## Walking where more is there -/

theorem Grows.requireDirectory (h : fs.Grows later) (hp : fs.requireDirectory p = .ok ()) :
    later.requireDirectory p = .ok () := by
  have hdirectory : fs.node? p = some .directory := by
    simp only [Files.requireDirectory] at hp
    split at hp
    · cases hp
    · assumption
    · cases hp
  simp only [Files.requireDirectory, h.directory p hdirectory]

theorem Grows.step (h : fs.Grows later) {name : String} (hp : fs.step p name = .ok place) :
    later.step p name = .ok place := by
  rw [Files.step] at hp ⊢
  obtain ⟨_, hrequire, hname⟩ := ok_of_bind hp
  rw [h.requireDirectory hrequire]
  exact hname

theorem Grows.steps (h : fs.Grows later) {names : List String}
    (hp : names.foldlM fs.step p = .ok place) : names.foldlM later.step p = .ok place := by
  induction names generalizing p with
  | nil => exact hp
  | cons name rest ih =>
    rw [List.foldlM_cons] at hp ⊢
    obtain ⟨next, hstep, hrest⟩ := ok_of_bind hp
    rw [h.step hstep]
    exact ih hrest

theorem start_eq (h : later.workingDirectory = fs.workingDirectory) (path : String) :
    later.start path = fs.start path := by
  rw [start, start, h]

/-- A path that could be walked leads to the same place. -/
theorem Grows.walk (h : fs.Grows later) {path : String} (hwalk : fs.walk path = .ok place) :
    later.walk path = .ok place := by
  simp only [Files.walk, start_eq h.start] at hwalk ⊢
  split at hwalk
  · cases hwalk
  split at hwalk
  · cases hwalk
  split at hwalk
  · cases hwalk
  rename_i hnul hempty hlong
  rw [if_neg hnul, if_neg hempty, if_neg hlong]
  exact h.steps hwalk

/-! ## Texts -/

/-- The text of what stands at a place. -/
def textOf : Option FileNode → Except FileFault String
  | none => .error .notFound
  | some .directory => .error .isDirectory
  | some (.text content) => .ok content
  | some (.database _) | some .other => .error .notText

theorem readText_eq (fs : Files) (path : String) :
    fs.readText path = (fs.walk path).bind fun p => textOf (fs.node? p) := rfl

theorem node?_of_textOf_eq_notFound (h : textOf (fs.node? p) = .error .notFound) :
    fs.node? p = none := by
  cases hnode : fs.node? p with
  | none => rfl
  | some node =>
    rw [hnode] at h
    cases node <;> cases h

theorem node?_of_textOf_eq_ok {text : String} (h : textOf (fs.node? p) = .ok text) :
    fs.node? p = some (.text text) := by
  cases hnode : fs.node? p with
  | none =>
    rw [hnode] at h
    cases h
  | some node =>
    rw [hnode] at h
    cases node <;> cases h
    rfl

/-- A text that is written where no file was found is there. -/
theorem readText_of_writeText {path text : String} (hnone : fs.readText path = .error .notFound)
    (h : fs.writeText path text = .ok later) :
    fs.Extends later ∧ later.readText path = .ok text := by
  rw [writeText] at h
  obtain ⟨p, hwalk, hwrite⟩ := ok_of_bind h
  rw [readText_eq, hwalk] at hnone
  have hnode := node?_of_textOf_eq_notFound hnone
  rw [hnode] at hwrite
  cases hwrite
  have hextends : fs.Extends (fs.set p (.text text)) := extends_set hnode fun _ => nofun
  refine ⟨hextends, ?_⟩
  rw [readText_eq, hextends.grows.walk hwalk]
  change textOf ((fs.set p (.text text)).node? p) = _
  rw [node?_set_self (ne_root (by simp [hnode] : fs.node? p ≠ some .directory))]
  rfl

/-! ## Creating directories -/

theorem stepCreating_of_directory {q : Place} {name : String} (hstep : fs.step p name = .ok q)
    (hdirectory : fs.node? q = some .directory) : stepCreating (fs, p) name = .ok (fs, q) := by
  rw [stepCreating, hstep]
  change Except.bind (.ok q) _ = _
  simp only [Except.bind, hdirectory]

/-- A step that creates a directory does nothing where it was made before. -/
theorem stepCreating_again {name : String} {r : Files × Place}
    (h : stepCreating (fs, p) name = .ok r) :
    fs.Extends r.1 ∧
      ∀ last, r.1.Grows last → stepCreating (last, p) name = .ok (last, r.2) := by
  rw [stepCreating] at h
  obtain ⟨q, hstep, hmade⟩ := ok_of_bind h
  have hcases : r.2 = q ∧ fs.Extends r.1 ∧ r.1.node? q = some .directory := by
    cases hnode : fs.node? q with
    | none =>
      rw [hnode] at hmade
      cases hmade
      exact ⟨rfl, extends_set hnode fun _ => nofun,
        node?_set_self (ne_root (by simp [hnode] : fs.node? q ≠ some .directory))⟩
    | some node =>
      rw [hnode] at hmade
      cases node with
      | directory =>
        cases hmade
        exact ⟨rfl, .refl fs, hnode⟩
      | text _ | database _ | other => cases hmade
  obtain ⟨rfl, hextends, hdirectory⟩ := hcases
  refine ⟨hextends, fun last hlast => ?_⟩
  exact stepCreating_of_directory ((hextends.grows.trans hlast).step hstep)
    (hlast.directory r.2 hdirectory)

theorem stepsCreating_again {names : List String} {r : Files × Place}
    (h : names.foldlM stepCreating (fs, p) = .ok r) :
    fs.Extends r.1 ∧
      ∀ last, r.1.Grows last → names.foldlM stepCreating (last, p) = .ok (last, r.2) := by
  induction names generalizing fs p with
  | nil =>
    cases h
    exact ⟨.refl fs, fun _ _ => rfl⟩
  | cons name rest ih =>
    rw [List.foldlM_cons] at h
    obtain ⟨next, hstep, hsteps⟩ := ok_of_bind h
    obtain ⟨hfirst, hagain⟩ := stepCreating_again hstep
    obtain ⟨hrest, hagain'⟩ := ih hsteps
    refine ⟨hfirst.trans hrest, fun last hlast => ?_⟩
    rw [List.foldlM_cons, hagain last (hrest.grows.trans hlast)]
    exact hagain' last hlast

theorem stepExisting_again (h : fs.Grows later) {name : String}
    (hstep : fs.stepExisting p name = .ok ()) : later.stepExisting p name = .ok () := by
  rw [stepExisting] at hstep ⊢
  obtain ⟨q, hq, hrequire⟩ := ok_of_bind hstep
  rw [h.step hq]
  exact h.requireDirectory hrequire

/-- Creating directories refuses the path, or creates one after another; then one may have to be
there. -/
theorem createDirectories_cases (path : String) :
    (∀ fs : Files, ∃ fault, fs.createDirectories path = .error fault) ∨
      ∃ (names : List String) (existing : Option String), ∀ fs : Files,
        fs.createDirectories path = (names.foldlM stepCreating (fs, fs.start path)).bind fun r =>
          (existing.forM (r.1.stepExisting r.2)).bind fun _ => .ok r.1 := by
  by_cases hnul : path.toList.contains '\x00' = true
  · exact .inl fun fs => ⟨_, if_pos hnul⟩
  by_cases hlong : longestPath < path.utf8ByteSize
  · exact .inl fun fs => ⟨_, (if_neg hnul).trans (if_pos hlong)⟩
  right
  cases hpoint : Path.endsInPlace path with
  | false =>
    refine ⟨Path.moves path, none, fun fs => ?_⟩
    simp only [createDirectories, if_neg hnul, if_neg hlong, hpoint]
    rfl
  | true =>
    refine ⟨(Path.moves path).dropLast, (Path.moves path).getLast?, fun fs => ?_⟩
    simp only [createDirectories, if_neg hnul, if_neg hlong, hpoint]
    cases (Path.moves path).getLast? <;> rfl

/-- **Directories that were created need not be created again.** -/
theorem createDirectories_again {path : String} (h : fs.createDirectories path = .ok later) :
    fs.Extends later ∧ ∀ last, later.Grows last → last.createDirectories path = .ok last := by
  rcases createDirectories_cases path with hrefused | ⟨names, existing, hcreate⟩
  · obtain ⟨fault, hfault⟩ := hrefused fs
    cases h.symm.trans hfault
  rw [hcreate] at h
  obtain ⟨r, hsteps, hexisting⟩ := ok_of_bind h
  obtain ⟨_, hthere, hlater⟩ := ok_of_bind hexisting
  cases hlater
  obtain ⟨hextends, hagain⟩ := stepsCreating_again hsteps
  refine ⟨hextends, fun last hlast => ?_⟩
  have hstart : last.start path = fs.start path := start_eq (hextends.grows.trans hlast).start path
  have hthere' : existing.forM (last.stepExisting r.2) = .ok () := by
    cases existing with
    | none => rfl
    | some name => exact stepExisting_again hlast hthere
  rw [hcreate, hstart, hagain last hlast]
  change (existing.forM (last.stepExisting r.2)).bind _ = _
  rw [hthere']
  rfl

/-- Creating directories only adds to the files, as far as it gets. -/
theorem extends_createDirectories {path : String} (h : fs.createDirectories path = .ok later) :
    fs.Extends later := (createDirectories_again h).1

end RitualLedger.Files
