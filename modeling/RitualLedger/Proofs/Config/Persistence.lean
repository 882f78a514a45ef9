import RitualLedger.Proofs.Config.Reading
import RitualLedger.Proofs.Engine.Reopening

/-!
# Configurations persist

What is saved is loaded again, and a configuration that TOML does not have leaves the file as it was
(`Config.configurations_persist`). A file that was written by hand may give some fields only; then
the others have their defaults.

Where the file can be written once, it can be written again: a text is put in the place of what
stands there, and all directories stay.
-/

namespace RitualLedger

namespace Files

variable {fs : Files} {p : Place} {node : FileNode}

/-- Something that is put in the place of a file leaves the directories. -/
theorem grows_set (h : fs.node? p ≠ some .directory) : fs.Grows (fs.set p node) := by
  refine ⟨rfl, fun q hq => ?_⟩
  have hne : q ≠ p := by
    rintro rfl
    exact h hq
  rw [node?_set_of_ne hne, hq]

/-- A text is written at the end of a path, unless a directory stands there. -/
theorem writeText_of_walk {path : String} (hwalk : fs.walk path = .ok p)
    (h : fs.node? p ≠ some .directory) (text : String) :
    fs.writeText path text = .ok (fs.set p (.text text)) := by
  rw [writeText, hwalk]
  dsimp only [bind, Except.bind]
  split
  · next hdirectory => exact absurd hdirectory h
  · rfl

end Files

namespace Config

variable {e : Environment} {fs later last : Files} {c saved : Config} {p : Place}

/-! ## Where a configuration can be saved -/

/-- The path of the configuration's file. -/
def filePath (e : Environment) : String := Path.join e.directoryPath fileName

/-- The data directory is there, and at the place of the file stands no directory. -/
structure Ready (e : Environment) (p : Place) (fs : Files) : Prop where
  directory : fs.createDirectories e.directoryPath = .ok fs
  walk : fs.walk (filePath e) = .ok p
  free : fs.node? p ≠ some .directory

/-- A configuration can be saved, as far as the files are concerned: the data directory is there or
can be created, and the file can be written then. -/
def Usable (e : Environment) (fs : Files) : Prop :=
  ∃ later p, fs.createDirectories e.directoryPath = .ok later ∧
    later.walk (filePath e) = .ok p ∧ later.node? p ≠ some .directory

theorem Usable.ready (h : Usable e fs) : ∃ later p,
    fs.createDirectories e.directoryPath = .ok later ∧ Ready e p later := by
  obtain ⟨later, p, hcreate, hwalk, hfree⟩ := h
  exact ⟨later, p, hcreate, (Files.createDirectories_again hcreate).2 _ (.refl later), hwalk, hfree⟩

/-- Nothing but the file changes when a text is written. -/
theorem Ready.set (h : Ready e p fs) (text : String) : Ready e p (fs.set p (.text text)) := by
  have hgrows : fs.Grows (fs.set p (.text text)) := Files.grows_set h.free
  refine ⟨(Files.createDirectories_again h.directory).2 _ hgrows, hgrows.walk h.walk, ?_⟩
  rw [Files.node?_set_self (Files.ne_root h.free)]
  exact nofun

theorem run_openDirectory_of_create (hcreate : fs.createDirectories e.directoryPath = .ok later) :
    e.openDirectory.run fs = (.ok e.directoryPath, later) := by
  rw [Environment.run_openDirectory, hcreate]

/-! ## Saving and loading -/

/-- A configuration that TOML has is written into the file. -/
theorem run_save (hcreate : fs.createDirectories e.directoryPath = .ok later)
    (h : Ready e p later) (hc : c.isWritable = true) :
    (save e c).run fs = (.ok (), later.set p (.text c.text)) := by
  have htext : c.toToml? = some c.text := if_pos hc
  have hwalk : later.walk (Path.join e.directoryPath fileName) = .ok p := h.walk
  rw [save_eq htext, FileAction.run_bind_ok (run_openDirectory_of_create hcreate),
    FileAction.run_change, Files.writeText_of_walk hwalk h.free]
  rfl

/-- A configuration that TOML does not have is not written. -/
theorem run_save_of_not_writable (hcreate : fs.createDirectories e.directoryPath = .ok later)
    (hc : c.isWritable = false) : (save e c).run fs =
      (.error (.saveFailed (filePath e) "an integer is too large for TOML"), later) := by
  have htext : c.toToml? = none := if_neg (by simp [hc])
  rw [save, FileAction.run_bind_ok (run_openDirectory_of_create hcreate), saveTo, htext]
  rfl

/-- **Saving succeeds exactly for the configurations that TOML has.** -/
theorem save_succeeds_iff (h : Usable e fs) :
    (∃ last, (save e c).run fs = (.ok (), last)) ↔ c.isWritable = true := by
  obtain ⟨later, p, hcreate, hready⟩ := h.ready
  refine ⟨fun ⟨last, hsave⟩ => ?_, fun hc => ⟨_, run_save hcreate hready hc⟩⟩
  by_contra hc
  rw [run_save_of_not_writable hcreate (by simpa using hc)] at hsave
  cases hsave

/-- Saving leaves the files, or fails in the data directory that was created, or has written the
file. -/
theorem run_save_cases (e : Environment) (c : Config) (fs : Files) :
    (∃ error last, (save e c).run fs = (.error error, last) ∧ fs.Extends last) ∨
      (Usable e fs ∧ c.isWritable = true) := by
  cases hcreate : fs.createDirectories e.directoryPath with
  | error fault =>
    have hopen : e.openDirectory.run fs =
        (.error (.dataDirectory e.directoryPath fault.message), fs) := by
      rw [Environment.run_openDirectory, hcreate]
    rw [save, FileAction.run_bind_error hopen]
    exact .inl ⟨_, fs, rfl, .refl fs⟩
  | ok later =>
    have hextends := Files.extends_createDirectories hcreate
    cases hc : c.isWritable with
    | false => exact .inl ⟨_, later, run_save_of_not_writable hcreate hc, hextends⟩
    | true =>
      have htext : c.toToml? = some c.text := if_pos hc
      rw [save_eq htext, FileAction.run_bind_ok (run_openDirectory_of_create hcreate),
        FileAction.run_change]
      cases hwrite : later.writeText (Path.join e.directoryPath fileName) c.text with
      | error fault => exact .inl ⟨_, later, rfl, hextends⟩
      | ok last =>
        rw [Files.writeText] at hwrite
        obtain ⟨p, hwalk, hwrite⟩ := ok_of_bind hwrite
        refine .inr ⟨⟨later, p, hcreate, hwalk, fun hdirectory => ?_⟩, rfl⟩
        rw [hdirectory] at hwrite
        cases hwrite

/-- A configuration that was saved is kept in its file. -/
theorem kept_save (h : Ready e p fs) (hc : c.isWritable = true) :
    Kept e c (fs.set p (.text c.text)) := by
  have hwalk := (h.set c.text).walk
  refine ⟨c.text, ?_, ofToml?_text hc⟩
  rw [Files.readText_eq]
  change ((fs.set p (.text c.text)).walk (filePath e)).bind _ = _
  rw [hwalk]
  change Files.textOf ((fs.set p (.text c.text)).node? p) = _
  rw [Files.node?_set_self (Files.ne_root h.free)]
  rfl

/-- What is kept is loaded. -/
theorem run_load_of_kept (hcreate : fs.createDirectories e.directoryPath = .ok fs)
    (h : Kept e c fs) : (load e).run fs = (.ok c, fs) := by
  obtain ⟨text, hread, hparse⟩ := h
  exact run_load_of_text hcreate hread hparse

/-- What a successful save has done. -/
theorem of_run_save (h : (save e c).run fs = (.ok (), last)) :
    ∃ p, Ready e p last ∧ Kept e c last := by
  rcases run_save_cases e c fs with ⟨error, last', hsave, -⟩ | ⟨husable, hc⟩
  · cases hsave.symm.trans h
  · obtain ⟨later, p, hcreate, hready⟩ := husable.ready
    rw [run_save hcreate hready hc] at h
    cases h
    exact ⟨p, hready.set c.text, kept_save hready hc⟩

/-- **What was saved is loaded.** -/
theorem run_load_of_run_save (h : (save e c).run fs = (.ok (), last)) :
    (load e).run last = (.ok c, last) := by
  obtain ⟨p, hready, hkept⟩ := of_run_save h
  exact run_load_of_kept hready.directory hkept

/-- **A save that fails leaves all texts as they were.** -/
theorem extends_of_run_save {error : ConfigError} (h : (save e c).run fs = (.error error, last)) :
    fs.Extends last := by
  rcases run_save_cases e c fs with ⟨error', last', hsave, hextends⟩ | ⟨husable, hc⟩
  · cases hsave.symm.trans h
    exact hextends
  · obtain ⟨_, hsave⟩ := (save_succeeds_iff husable).2 hc
    cases hsave.symm.trans h

/-! ## One save after the other -/

/-- The files after configurations were saved one after the other, each of them with success or
not. -/
def saveAll (e : Environment) (fs : Files) (cs : List Config) : Files :=
  cs.foldl (fun fs c => ((save e c).run fs).2) fs

/-- One more save keeps the file ready; it holds the new configuration, or what it held before. -/
theorem Ready.save (h : Ready e p fs) (hkept : Kept e saved fs) (c : Config) :
    Ready e p ((Config.save e c).run fs).2 ∧
      Kept e (if c.isWritable then c else saved) ((Config.save e c).run fs).2 := by
  cases hc : c.isWritable with
  | true =>
    rw [run_save h.directory h hc]
    exact ⟨h.set c.text, kept_save h hc⟩
  | false =>
    rw [run_save_of_not_writable h.directory hc]
    exact ⟨h, hkept⟩

/-- The last configuration that could be saved is kept. -/
theorem Ready.saveAll (h : Ready e p fs) (hkept : Kept e saved fs) (cs : List Config) :
    Ready e p (Config.saveAll e fs cs) ∧
      Kept e ((cs.filter isWritable).getLastD saved) (Config.saveAll e fs cs) := by
  induction cs generalizing fs saved with
  | nil => exact ⟨h, hkept⟩
  | cons c cs ih =>
    obtain ⟨hready, hkept'⟩ := h.save hkept c
    obtain ⟨hlast, hkept''⟩ := ih hready hkept'
    refine ⟨hlast, ?_⟩
    have hfold : Config.saveAll e fs (c :: cs) =
        Config.saveAll e ((Config.save e c).run fs).2 cs := rfl
    rw [hfold]
    cases hc : c.isWritable with
    | true =>
      rw [List.filter_cons_of_pos hc, List.getLastD_cons]
      simpa [hc] using hkept''
    | false =>
      rw [List.filter_cons_of_neg (by simp [hc])]
      simpa [hc] using hkept''

/-! ## All together -/

/-- The numbers of a configuration. -/
def numbers (c : Config) : List Nat :=
  [c.ledger.maxAttempts.toNat, c.ledger.backoffBaseMs.toNat, c.ledger.backoffMaxMs.toNat,
    c.sessions.ttlSecs.toNat]

theorem isWritable_iff_numbers : c.isWritable = true ↔ ∀ n ∈ c.numbers, n ≤ 2 ^ 63 - 1 := by
  have hattempts := c.ledger.maxAttempts.toNat_lt
  rw [isWritable_iff]
  simp only [numbers, List.forall_mem_cons, List.not_mem_nil, false_implies, implies_true, and_true]
  omega

/-- A text that gives some fields is loaded as the default with these fields in their places. -/
theorem run_load_of_offers {text : String} {j : Json}
    (hcreate : fs.createDirectories e.directoryPath = .ok later)
    (hread : later.readText (filePath e) = .ok text) (hdoc : Toml.document? text = some j)
    (h : Offers j) : ∃ c, (load e).run fs = (.ok c, later) ∧
      ∀ l, c.leafJson l = (given j l).getD (default.leafJson l) := by
  obtain ⟨c, hparse, hfields⟩ := ofToml?_of_offers hdoc h
  refine ⟨c, ?_, hfields⟩
  have hread' : later.readText (Path.join e.directoryPath fileName) = .ok text := hread
  rw [load, FileAction.run_bind_ok (run_openDirectory_of_create hcreate)]
  dsimp only
  rw [FileAction.run_look_bind, hread']
  dsimp only
  rw [hparse]
  rfl

/-- **Configurations persist.** Where the file can be written, a configuration is saved exactly if
all its numbers are at most 2⁶³ - 1, whatever its text is. What was saved is loaded. A save that
fails leaves every text as it was, so that after any saves the last configuration that could be
saved is loaded. A text that gives some fields, and leaves others or whole sections out, is loaded
as the default with exactly these fields in their places. -/
theorem configurations_persist (e : Environment) (fs : Files) :
    (∀ c, Usable e fs →
      ((∃ last, (save e c).run fs = (.ok (), last)) ↔ ∀ n ∈ c.numbers, n ≤ 2 ^ 63 - 1)) ∧
    (∀ c last, (save e c).run fs = (.ok (), last) → (load e).run last = (.ok c, last)) ∧
    (∀ c error last, (save e c).run fs = (.error error, last) →
      ∀ path text, fs.readText path = .ok text → last.readText path = .ok text) ∧
    (∀ saved last cs, (save e saved).run fs = (.ok (), last) →
      (load e).run (saveAll e last cs) =
        (.ok ((cs.filter isWritable).getLastD saved), saveAll e last cs)) ∧
    ∀ later text j, fs.createDirectories e.directoryPath = .ok later →
      later.readText (filePath e) = .ok text → Toml.document? text = some j → Offers j →
      ∃ c, (load e).run fs = (.ok c, later) ∧
        ∀ l, c.leafJson l = (given j l).getD (default.leafJson l) := by
  refine ⟨fun c husable => (save_succeeds_iff husable).trans isWritable_iff_numbers,
    fun c last => run_load_of_run_save, ?_, ?_, fun later text j => run_load_of_offers⟩
  · intro c error last hsave path text hread
    exact Files.readText_of_extends (extends_of_run_save hsave) hread
  · intro saved last cs hsave
    obtain ⟨p, hready, hkept⟩ := of_run_save hsave
    obtain ⟨hready', hkept'⟩ := hready.saveAll hkept cs
    exact run_load_of_kept hready'.directory hkept'

/-- A directory is created below the root. -/
theorem createDirectories_data :
    Files.empty.createDirectories "/data" = .ok (Files.empty.set ["data"] .directory) := by
  have hnul : ¬ "/data".toList.contains '\x00' = true := by decide
  have hlong : ¬ Files.longestPath < "/data".utf8ByteSize := by decide +kernel
  have hmoves : Path.moves "/data" = ["data"] := by decide +kernel
  have hpoint : Path.endsInPlace "/data" = false := by decide +kernel
  have hstart : Files.empty.start "/data" = [] := by decide +kernel
  rw [Files.createDirectories, if_neg hnul, if_neg hlong, hmoves, hpoint, hstart]
  rfl

/-- A path with quotes, a backslash and a line end is saved and loaded. A configuration with a
number that TOML does not have is refused, and the one before it is still loaded. A file that only
gives the number of attempts is loaded with that number and the default of all else. -/
theorem configurations_persist_in_data :
    let e : Environment := ⟨some "/data", none, none⟩
    let c : Config := { default with storage := ⟨"it's \"a\" \\ b\n\u0001.db"⟩ }
    let large : Config := { default with sessions := ⟨9223372036854775808⟩ }
    let hand : Files := (Files.empty.set ["data"] .directory).set ["data", "config.toml"]
      (.text "[ledger]\nmax_attempts = 3\n")
    (∃ last, (save e c).run .empty = (.ok (), last) ∧ (load e).run last = (.ok c, last) ∧
      (load e).run (saveAll e last [large]) = (.ok c, saveAll e last [large])) ∧
    (¬ ∃ last, (save e large).run .empty = (.ok (), last)) ∧
    (load e).run hand = (.ok { default with ledger := { defaultLedger with maxAttempts := 3 } },
      hand) := by
  intro e c large hand
  have husable : Usable e .empty :=
    ⟨_, ["data", "config.toml"], createDirectories_data, by decide +kernel, nofun⟩
  obtain ⟨hsucceeds, hloads, -, hlast, -⟩ := configurations_persist e .empty
  obtain ⟨last, hsave⟩ := (hsucceeds c husable).2 (by decide)
  refine ⟨⟨last, hsave, hloads c last hsave, hlast c last [large] hsave⟩,
    fun hlarge => absurd ((hsucceeds large husable).1 hlarge) (by decide), ?_⟩
  -- The file gives one field, which TOML reads as a document.
  have hdoc : Toml.document? "[ledger]\nmax_attempts = 3\n" =
      some (.obj [("ledger", .obj [("max_attempts", .int 3)])]) := by
    have hline : Toml.Line.Sound ⟨"max_attempts", "3".toList, .int 3⟩ :=
      sound_number (n := 3) (by decide) (by decide)
    have htable : Toml.Table.Sound ⟨"ledger", [⟨"max_attempts", "3".toList, .int 3⟩]⟩ :=
      ⟨by decide, by simpa using hline, by decide⟩
    have htables : ∀ t ∈ [⟨"ledger", [⟨"max_attempts", "3".toList, .int 3⟩]⟩], Toml.Table.Sound t :=
      List.forall_mem_singleton.2 htable
    have hread := Toml.document?_documentText htables (by decide)
    exact hread
  have hoffers : Offers (.obj [("ledger", .obj [("max_attempts", .int 3)])]) := by
    refine ⟨fun s part hpart => ?_, fun l v hv => ?_⟩
    · cases s <;> cases hpart
      exact ⟨_, rfl⟩
    · cases l <;> cases hv
      exact ⟨by decide, by decide⟩
  obtain ⟨-, -, -, -, hgiven⟩ := configurations_persist e hand
  have hthere : hand.createDirectories "/data" = .ok hand :=
    (Files.createDirectories_again createDirectories_data).2 hand (Files.grows_set nofun)
  obtain ⟨found, hload, hfields⟩ := hgiven hand _ _ hthere (by decide +kernel) hdoc hoffers
  have hfound : found = { default with ledger := { defaultLedger with maxAttempts := 3 } } := by
    have hattempts : found.leafJson .maxAttempts = .int 3 := hfields .maxAttempts
    have hthree : encode (3 : UInt32) = .int 3 := rfl
    refine eq_of_leafJson fun l => ?_
    cases l with
    | maxAttempts => exact hattempts.trans hthree.symm
    | backoffBaseMs => exact hfields .backoffBaseMs
    | backoffMaxMs => exact hfields .backoffMaxMs
    | ttlSecs => exact hfields .ttlSecs
    | databaseFile => exact hfields .databaseFile
  rw [hload, hfound]

end Config

end RitualLedger
