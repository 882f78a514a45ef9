import RitualLedger.Engine.Opening
import RitualLedger.Proofs.Files.Names
import RitualLedger.Proofs.Files.Saving

/-!
# Opening the engine again

Opening the engine only adds to the files, and keeps the store that it has found
(`Environment.run_openEngine`). So an engine that cannot be opened leaves all documents as they are.

An engine that is opened again stands where the last one was left (`Environment.Opened.again`): the
directories along its paths are there, the configuration is read back, and the path of the documents
leads to the same place. What may go wrong is only that the store was put in the way of a path that
has to be walked again, or in the place of the configuration; then the files cannot be opened a
second time.
-/

namespace RitualLedger

/-! ## Actions on files -/

namespace FileAction

variable {ε ε' α β : Type} {fs later last : Files}

theorem run_bind (x : FileAction ε α) (f : α → FileAction ε β) (fs : Files) :
    (x >>= f).run fs = match x.run fs with
      | (.ok a, later) => (f a).run later
      | (.error e, later) => (.error e, later) := by
  change ExceptT.bindCont f (x.run fs).1 (x.run fs).2 = _
  obtain ⟨_ | _, _⟩ := x.run fs <;> rfl

theorem run_bind_ok {x : FileAction ε α} {f : α → FileAction ε β} {a : α}
    (h : x.run fs = (.ok a, later)) : (x >>= f).run fs = (f a).run later := by
  rw [run_bind, h]

theorem run_bind_error {x : FileAction ε α} {f : α → FileAction ε β} {e : ε}
    (h : x.run fs = (.error e, later)) : (x >>= f).run fs = (.error e, later) := by
  rw [run_bind, h]

theorem run_change (f : Files → Except ε Files) (fs : Files) :
    (change f).run fs = match f fs with
      | .ok later => (.ok (), later)
      | .error e => (.error e, fs) := rfl

theorem run_look (f : Files → Except ε α) (fs : Files) : (look f).run fs = (f fs, fs) := rfl

/-- What is seen decides how to go on. -/
theorem run_look_bind (f : Files → α) (g : α → FileAction ε β) (fs : Files) :
    (look (fun fs => .ok (f fs)) >>= g).run fs = (g (f fs)).run fs := run_bind_ok rfl

theorem run_adapt (g : ε → ε') (x : FileAction ε α) (fs : Files) :
    FileAction.run (ExceptT.adapt g x) fs = ((x.run fs).1.mapError g, (x.run fs).2) := rfl

end FileAction

variable {e : Environment} {fs later last : Files} {c : Config} {o : OpenEngine} {place : Place}

/-! ## The data directory and the configuration -/

theorem Environment.run_openDirectory (e : Environment) (fs : Files) :
    e.openDirectory.run fs = match fs.createDirectories e.directoryPath with
      | .ok later => (.ok e.directoryPath, later)
      | .error fault => (.error (.dataDirectory e.directoryPath fault.message), fs) := by
  rw [openDirectory, FileAction.run_bind, FileAction.run_change]
  cases fs.createDirectories e.directoryPath <;> rfl

namespace Config

/-- The default can be read where it was written. -/
theorem ofToml?_default : default.toToml?.bind ofToml? = some default := by decide +kernel

theorem save_eq {text : String} (h : c.toToml? = some text) : save e c = (do
    let directory ← e.openDirectory
    FileAction.change fun fs => (fs.writeText (Path.join directory fileName) text).mapError
      fun fault => .saveFailed (Path.join directory fileName) fault.message) := by
  simp only [save, saveTo, h]

/-- A configuration can be read from its file. -/
def Kept (e : Environment) (c : Config) (fs : Files) : Prop :=
  ∃ text, fs.readText (Path.join e.directoryPath fileName) = .ok text ∧ ofToml? text = some c

/-- The default is saved where no configuration was found, or nothing changes. -/
theorem run_save_default (hfs : fs.createDirectories e.directoryPath = .ok fs)
    (hfound : fs.readText (Path.join e.directoryPath fileName) = .error .notFound) :
    (∃ error, (save e default).run fs = (.error error, fs)) ∨
      ∃ last, (save e default).run fs = (.ok (), last) ∧ fs.Extends last ∧ Kept e default last := by
  obtain ⟨text, htext, hback⟩ := Option.bind_eq_some_iff.1 ofToml?_default
  have hopen : e.openDirectory.run fs = (.ok e.directoryPath, fs) := by
    rw [Environment.run_openDirectory, hfs]
  rw [save_eq htext, FileAction.run_bind_ok hopen, FileAction.run_change]
  cases hwrite : fs.writeText (Path.join e.directoryPath fileName) text with
  | error fault => exact .inl ⟨_, rfl⟩
  | ok last =>
    obtain ⟨hextends, hread⟩ := Files.readText_of_writeText hfound hwrite
    exact .inr ⟨last, rfl, hextends, text, hread, hback⟩

/-- **Loading only adds to the files**, and a configuration that was loaded is kept in its file. -/
theorem run_load (e : Environment) (fs : Files) :
    (∃ error last, (load e).run fs = (.error error, last) ∧ fs.Extends last) ∨
      ∃ c later last, (load e).run fs = (.ok c, last) ∧
        fs.createDirectories e.directoryPath = .ok later ∧ later.Extends last ∧ Kept e c last := by
  cases hcreate : fs.createDirectories e.directoryPath with
  | error fault =>
    have hopen : e.openDirectory.run fs =
        (.error (.dataDirectory e.directoryPath fault.message), fs) := by
      rw [Environment.run_openDirectory, hcreate]
    rw [load, FileAction.run_bind_error hopen]
    exact .inl ⟨_, fs, rfl, .refl fs⟩
  | ok later =>
    obtain ⟨hextends, hagain⟩ := Files.createDirectories_again hcreate
    have hopen : e.openDirectory.run fs = (.ok e.directoryPath, later) := by
      rw [Environment.run_openDirectory, hcreate]
    rw [load, FileAction.run_bind_ok hopen]
    dsimp only
    rw [FileAction.run_look_bind]
    cases hread : later.readText (Path.join e.directoryPath fileName) with
    | ok text =>
      dsimp only
      cases hparse : ofToml? text with
      | some c => exact .inr ⟨c, later, later, rfl, rfl, .refl later, text, hread, hparse⟩
      | none => exact .inl ⟨_, later, rfl, hextends⟩
    | error fault =>
      cases fault with
      | notFound =>
        dsimp only
        rcases run_save_default (hagain later (.refl later)) hread with
          ⟨error, hsave⟩ | ⟨last, hsave, hadds, hkept⟩
        · rw [FileAction.run_bind_error hsave]
          exact .inl ⟨error, later, rfl, hextends⟩
        · rw [FileAction.run_bind_ok hsave]
          exact .inr ⟨default, later, last, rfl, rfl, hadds, hkept⟩
      | _ => exact .inl ⟨_, later, rfl, hextends⟩

/-- A configuration that is found is loaded. -/
theorem run_load_of_text {text : String} (hfs : fs.createDirectories e.directoryPath = .ok fs)
    (hread : fs.readText (Path.join e.directoryPath fileName) = .ok text)
    (hparse : ofToml? text = some c) : (load e).run fs = (.ok c, fs) := by
  have hopen : e.openDirectory.run fs = (.ok e.directoryPath, fs) := by
    rw [Environment.run_openDirectory, hfs]
  rw [load, FileAction.run_bind_ok hopen]
  dsimp only
  rw [FileAction.run_look_bind, hread]
  dsimp only
  rw [hparse]
  rfl

/-- What is found in place of a configuration and cannot be read is left alone. -/
theorem run_load_of_fault {fault : FileFault}
    (hfs : fs.createDirectories e.directoryPath = .ok fs)
    (hread : fs.readText (Path.join e.directoryPath fileName) = .error fault)
    (hfault : fault ≠ .notFound) : ∃ error, (load e).run fs = (.error error, fs) := by
  have hopen : e.openDirectory.run fs = (.ok e.directoryPath, fs) := by
    rw [Environment.run_openDirectory, hfs]
  rw [load, FileAction.run_bind_ok hopen]
  dsimp only
  rw [FileAction.run_look_bind, hread]
  cases fault with
  | notFound => exact absurd rfl hfault
  | _ => exact ⟨_, rfl⟩

end Config

/-! ## Opening -/

theorem Files.readText_of_extends {path text : String} (h : fs.Extends later)
    (hread : fs.readText path = .ok text) : later.readText path = .ok text := by
  rw [readText_eq] at hread ⊢
  obtain ⟨p, hwalk, htext⟩ := ok_of_bind hread
  rw [h.grows.walk hwalk]
  have hnode := node?_of_textOf_eq_ok htext
  change textOf (later.node? p) = _
  rw [h.stays (by simp [hnode]), htext]

theorem Config.Kept.extends {c : Config} (hkept : Kept e c fs) (h : fs.Extends later) :
    Kept e c later := by
  obtain ⟨text, hread, hparse⟩ := hkept
  exact ⟨text, Files.readText_of_extends h hread, hparse⟩

/-- A path leads to the place of a store without a look at any file. -/
theorem Files.place_of_databasePlace? {path : String} (h : fs.databasePlace? path = some place) :
    place = (Path.components path).foldl Path.follow (fs.start path) := by
  have hsteps : ∀ (names : List String) (p q : Place), names.foldlM fs.storeStep p = some q →
      q = names.foldl Path.follow p := by
    intro names
    induction names with
    | nil =>
      rintro p q ⟨⟩
      rfl
    | cons name rest ih =>
      intro p q hq
      rw [List.foldlM_cons] at hq
      obtain ⟨next, hstep, hrest⟩ := Option.bind_eq_some_iff.1 hq
      have hnext : next = Path.follow p name := by
        rw [storeStep] at hstep
        split at hstep
        · exact (Option.some.inj hstep).symm
        split at hstep
        · exact (Option.some.inj hstep).symm
        · cases hstep
      rw [List.foldl_cons, ← hnext]
      exact ih next q hrest
  rw [databasePlace?] at h
  split at h
  · cases h
  obtain ⟨p, hp, hlast⟩ := Option.bind_eq_some_iff.1 h
  rw [← hsteps _ _ _ hp]
  dsimp only at hlast
  split at hlast
  · cases hlast
  split at hlast
  · exact (Option.some.inj hlast).symm
  · cases hlast

theorem Files.place_of_openPlace {path : String} (h : fs.openPlace path = .ok place) :
    place = (Path.components path).foldl Path.follow (fs.start path) := by
  refine place_of_databasePlace? ?_
  rw [openPlace] at h
  cases hplace : fs.databasePlace? path with
  | none =>
    rw [hplace] at h
    cases h
  | some p =>
    rw [hplace] at h
    dsimp only at h
    split at h
    · cases h
    · cases h
      rfl

theorem Files.of_loadDatabase {store : Store} (h : fs.loadDatabase place = .ok store) :
    storeOf? (fs.node? place) = some store ∧ fs.hasRoomBeside place = true := by
  rw [loadDatabase] at h
  split at h
  · cases h
  · rename_i hstore
    split at h
    · rename_i hroom
      cases h
      exact ⟨hstore, hroom⟩
    · cases h

namespace Environment

/-- The path of the documents. -/
def databasePath (e : Environment) (c : Config) : String :=
  Path.join e.directoryPath c.storage.databaseFile

/-- What opening does under a configuration: the store at the end of a path is opened. -/
def openStore (path : String) (c : Config) : FileAction EngineError OpenEngine := do
  let place ← FileAction.look fun fs => (fs.openPlace path).mapError .store
  FileAction.change fun fs => .ok (fs.makeFile place)
  let store ← FileAction.look fun fs => (fs.loadDatabase place).mapError .store
  FileAction.change fun fs => .ok (fs.saveDatabase place store)
  pure ⟨c, place, store⟩

theorem run_openStore (path : String) (c : Config) (fs : Files) :
    (openStore path c).run fs = match fs.openPlace path with
      | .error error => (.error (.store error), fs)
      | .ok place => match (fs.makeFile place).loadDatabase place with
        | .error error => (.error (.store error), fs.makeFile place)
        | .ok store => (.ok ⟨c, place, store⟩, (fs.makeFile place).saveDatabase place store) := by
  rw [openStore, FileAction.run_bind, FileAction.run_look]
  cases hplace : fs.openPlace path with
  | error error => rfl
  | ok place =>
    simp only
    change FileAction.run (_ >>= _) fs = _
    rw [FileAction.run_bind, FileAction.run_change]
    change FileAction.run (_ >>= _) (fs.makeFile place) = _
    rw [FileAction.run_bind, FileAction.run_look]
    cases (fs.makeFile place).loadDatabase place with
    | error error => rfl
    | ok store =>
      change FileAction.run (_ >>= _) (fs.makeFile place) = _
      rw [FileAction.run_bind, FileAction.run_change]
      rfl

/-- Opening first loads the configuration. -/
theorem run_openEngine_of_load (hload : (Config.load e).run fs = (.ok c, later))
    (hcreate : later.createDirectories e.directoryPath = .ok later) :
    e.openEngine.run fs = (openStore (e.databasePath c) c).run later := by
  have hload' : FileAction.run (ExceptT.adapt EngineError.config (Config.load e)) fs =
      (.ok c, later) := by
    rw [FileAction.run_adapt, hload]
    rfl
  have hopen : FileAction.run (ExceptT.adapt EngineError.config e.openDirectory) later =
      (.ok e.directoryPath, later) := by
    rw [FileAction.run_adapt, run_openDirectory, hcreate]
    rfl
  rw [openEngine, FileAction.run_bind_ok hload', FileAction.run_bind_ok hopen]
  rfl

/-- Files on which the engine was opened, just before its store is kept. -/
structure Opened (e : Environment) (fs : Files) (o : OpenEngine) (ready : Files) : Prop where
  adds : fs.Extends ready
  directory : ∀ last, ready.Grows last → last.createDirectories e.directoryPath = .ok last
  kept : Config.Kept e o.config ready
  place : o.place = (Path.components (e.databasePath o.config)).foldl Path.follow
    (ready.start (e.databasePath o.config))
  stored : Files.storeOf? (ready.node? o.place) = some o.store
  room : ready.hasRoomBeside o.place = true

/-- **Opening fails and only adds to the files, or keeps the store that was found.** -/
theorem run_openEngine (e : Environment) (fs : Files) :
    (∃ error last, e.openEngine.run fs = (.error error, last) ∧ fs.Extends last) ∨
      ∃ o ready, e.openEngine.run fs = (.ok o, ready.saveDatabase o.place o.store) ∧
        Opened e fs o ready := by
  rcases Config.run_load e fs with ⟨error, last, hload, hadds⟩ |
    ⟨c, later, last, hload, hcreate, hadds, hkept⟩
  · have hload' : FileAction.run (ExceptT.adapt EngineError.config (Config.load e)) fs =
        (.error (.config error), last) := by
      rw [FileAction.run_adapt, hload]
      rfl
    rw [openEngine, FileAction.run_bind_error hload']
    exact .inl ⟨_, last, rfl, hadds⟩
  · obtain ⟨hextends, hagain⟩ := Files.createDirectories_again hcreate
    have hlast : fs.Extends last := hextends.trans hadds
    rw [run_openEngine_of_load hload (hagain last hadds.grows), run_openStore]
    cases hplace : last.openPlace (e.databasePath c) with
    | error error => exact .inl ⟨_, last, rfl, hlast⟩
    | ok place =>
      have hmade := last.extends_makeFile place
      dsimp only
      cases hstore : (last.makeFile place).loadDatabase place with
      | error error => exact .inl ⟨_, _, rfl, hlast.trans hmade⟩
      | ok store =>
        have hloaded := Files.of_loadDatabase hstore
        refine .inr ⟨⟨c, place, store⟩, last.makeFile place, rfl, hlast.trans hmade, ?_,
          hkept.extends hmade, ?_, hloaded.1, hloaded.2⟩
        · exact fun later hgrows => hagain later (hadds.grows.trans (hmade.grows.trans hgrows))
        · rw [Files.start_eq hmade.start]
          exact Files.place_of_openPlace hplace

theorem Opened.place_ne_root {ready : Files} (h : Opened e fs o ready) : o.place ≠ [] := by
  have hdatabase : ready.node? o.place ≠ some .directory := by
    intro hdirectory
    have hstored := h.stored
    rw [hdirectory] at hstored
    cases hstored
  exact Files.ne_root hdatabase

/-- Opening does not change the documents. -/
theorem Opened.documents {ready : Files} (h : Opened e fs o ready) :
    fs.documents o.place = o.store := by
  rw [← h.adds.documents, Files.documents, h.stored]
  rfl

theorem Opened.grows {ready : Files} (h : Opened e fs o ready) (s : Store) :
    ready.Grows (ready.saveDatabase o.place s) := by
  refine Files.grows_saveDatabase fun hdirectory => ?_
  have hstored := h.stored
  rw [hdirectory] at hstored
  cases hstored

/-- Where a store is kept the configuration is still there, unless the store took its place and it
cannot be loaded any more. -/
theorem Opened.load {ready : Files} (h : Opened e fs o ready) (s : Store) :
    (Config.load e).run (ready.saveDatabase o.place s) =
        (.ok o.config, ready.saveDatabase o.place s) ∨
      ∃ error, (Config.load e).run (ready.saveDatabase o.place s) =
        (.error error, ready.saveDatabase o.place s) := by
  obtain ⟨text, hread, hparse⟩ := h.kept
  rw [Files.readText_eq] at hread
  obtain ⟨p, hwalk, htext⟩ := ok_of_bind hread
  have hgrows := h.grows s
  have hread' :
      (ready.saveDatabase o.place s).readText (Path.join e.directoryPath Config.fileName) =
        Files.textOf ((ready.saveDatabase o.place s).node? p) := by
    rw [Files.readText_eq, hgrows.walk hwalk]
    rfl
  by_cases hp : p = o.place
  · rw [hp, Files.node?_saveDatabase h.place_ne_root] at hread'
    exact .inr (Config.run_load_of_fault (h.directory _ hgrows) hread' nofun)
  · have hsame : (ready.saveDatabase o.place s).node? p = ready.node? p := by
      rw [Files.saveDatabase, Files.node?_set_of_ne hp,
        Files.node?_removeFiles (Files.configuration_notMem_companionPlaces hwalk)]
    rw [hsame, htext] at hread'
    exact .inl (Config.run_load_of_text (h.directory _ hgrows) hread' hparse)

/-- **An engine that is opened again is the one that was left.** When a store was kept and the files
can be opened again, the store is found under the same configuration at the same place, and the
files stay as they are. -/
theorem Opened.again {ready : Files} (h : Opened e fs o ready) (s : Store)
    (hopens : ∃ o' fs', e.openEngine.run (ready.saveDatabase o.place s) = (.ok o', fs')) :
    e.openEngine.run (ready.saveDatabase o.place s) =
      (.ok { o with store := s }, ready.saveDatabase o.place s) := by
  obtain ⟨o', fs', hopen⟩ := hopens
  have hgrows := h.grows s
  rcases h.load s with hload | ⟨error, hload⟩
  · rw [run_openEngine_of_load hload (h.directory _ hgrows), run_openStore] at hopen ⊢
    cases hplace : (ready.saveDatabase o.place s).openPlace (e.databasePath o.config) with
    | error error =>
      rw [hplace] at hopen
      cases hopen
    | ok place =>
      -- The path leads to the same place, and there is the store that was kept.
      have hsame : place = o.place := by
        refine (Files.place_of_openPlace hplace).trans ?_
        rw [Files.start_eq hgrows.start]
        exact h.place.symm
      subst hsame
      have hnode : (ready.saveDatabase o.place s).node? o.place = some (.database s) :=
        Files.node?_saveDatabase h.place_ne_root
      have hmade : (ready.saveDatabase o.place s).makeFile o.place =
          ready.saveDatabase o.place s := by
        rw [Files.makeFile, hnode]
        rfl
      rw [hplace] at hopen
      dsimp only at hopen ⊢
      rw [hmade] at hopen ⊢
      cases hstore : (ready.saveDatabase o.place s).loadDatabase o.place with
      | error error =>
        rw [hstore] at hopen
        cases hopen
      | ok store =>
        have hstored := (Files.of_loadDatabase hstore).1
        rw [hnode] at hstored
        cases hstored
        dsimp only
        rw [Files.saveDatabase_saveDatabase]
  · have hload' : FileAction.run (ExceptT.adapt EngineError.config (Config.load e))
        (ready.saveDatabase o.place s) =
          (.error (.config error), ready.saveDatabase o.place s) := by
      rw [FileAction.run_adapt, hload]
      rfl
    rw [openEngine, FileAction.run_bind_error hload'] at hopen
    cases hopen

end Environment

end RitualLedger
