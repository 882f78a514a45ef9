import RitualLedger.Proofs.Document.Exchanged
import RitualLedger.Proofs.Ritual.Definition
import RitualLedger.Proofs.Text.Decimal

/-!
# Settings by their names

A setting is named by a path into the JSON value of the configuration, with points between the
names. `Config.get` and `Config.set` look such names up in a table. Here the path is walked instead:
`Config.get` shows the value at its end (`Config.get_eq_walk`), and `Config.set` reads the new value
as one of the kind that stands there, puts it in its place, and reads the whole as a configuration
(`Config.set_eq_walk`). So the table has all the names that lead somewhere, and no others.
-/

namespace RitualLedger

/-! ## Refused records -/

namespace Document

variable {α β : Type} {fields : Json.Fields} {part : String}

/-- A reader refuses the parts of an object. -/
def Refuses (reader : PartReader α) (fields : Json.Fields) : Prop :=
  reader .json (.named fields) = none

theorem Refuses.bind {reader : PartReader α} {next : α → PartReader β}
    (h : Refuses reader fields) : Refuses (reader >>= next) fields := by
  change (reader .json (.named fields)).bind _ = none
  rw [h]
  rfl

theorem Refuses.defaulted [Document α] {default : α} {j : Json}
    (hfield : fields.filter (·.1 == part) = [(part, j)])
    (h : Document.read? (α := α) .json j = none) :
    Refuses (Document.defaulted part default) fields := by
  simp only [Refuses, Document.defaulted, Parts.take?, hfield, h, Option.map_none]

theorem record_refused {reader : PartReader α} (h : Refuses reader fields) :
    record reader .json (.obj fields) = none := by
  rw [record, h, Option.map_none]

end Document

open Document (record_refused)

/-! ## Walks -/

/-- The names between the points of a text. -/
def dotted (name : String) : List String := (name.toList.splitOn '.').map String.ofList

theorem dotted_ne_nil (name : String) : dotted name ≠ [] := by
  simp [dotted, List.splitOn_ne_nil]

/-- The names and their points are the whole text. -/
theorem dotted_injective {name other : String} (h : dotted name = dotted other) : name = other := by
  have hchars := (List.map_inj_right fun _ _ => String.ofList_injective).1 h
  have hname : ['.'].intercalate (name.toList.splitOn '.') = name.toList :=
    List.intercalate_splitOn '.'
  rw [← String.toList_inj, ← hname, hchars, List.intercalate_splitOn]

namespace Json

/-- The part of a value at the end of a path. -/
def descend? (j : Json) (path : List String) : Option Json := path.foldlM get? j

/-- A value as a setting is shown: texts as they are, everything else as JSON. -/
def shown : Json → String
  | .str s => s
  | j => j.compact

/-- Whether a value has no parts. -/
def IsLeaf : Json → Prop
  | .arr _ | .obj _ => False
  | _ => True

/-- Puts a value in the place of a part. -/
def put (j : Json) (part : String) (new : Json) : Json :=
  match j with
  | .obj fields => .obj (insertField part new fields)
  | _ => j

/-- Reads the text for a setting as a value of the kind that stands in its place. -/
def retyped (name value : String) : Json → Except ConfigError Json
  | .bool _ =>
    match value with
    | "true" => .ok (.bool true)
    | "false" => .ok (.bool false)
    | _ => Config.refuse name "provided string was not `true` or `false`"
  | .int _ | .real _ => (Config.readNumber name value).map fun n => .int n.toNat
  | .arr _ | .obj _ => Config.refuse name "not a leaf value"
  | .null | .str _ => .ok (.str value)

/-- Walks along a path and changes the value at its end to the value of a text. -/
def replace (name value : String) : List String → Json → Except ConfigError Json
  | [], _ => .error (.unknownKey name)
  | [last], j =>
    match j.get? last with
    | none => .error (.unknownKey name)
    | some old => (old.retyped name value).map fun new => j.put last new
  | part :: next :: path, j =>
    match j.get? part with
    | none => .error (.unknownKey name)
    | some inner => (replace name value (next :: path) inner).map fun new => j.put part new

@[simp] theorem descend?_nil (j : Json) : j.descend? [] = some j := rfl

@[simp] theorem descend?_cons (j : Json) (part : String) (path : List String) :
    j.descend? (part :: path) = (j.get? part).bind fun inner => inner.descend? path := rfl

/-- A walk for a change gets lost exactly where a walk for a look does. -/
theorem replace_of_descend?_eq_none {name value : String} {path : List String} {j : Json}
    (h : j.descend? path = none) : replace name value path j = .error (.unknownKey name) := by
  induction path generalizing j with
  | nil => rfl
  | cons part rest ih =>
    rw [descend?_cons] at h
    cases hpart : j.get? part with
    | none => cases rest <;> simp only [replace, hpart]
    | some inner =>
      rw [hpart] at h
      cases rest with
      | nil => cases h
      | cons next path =>
        simp only [replace, hpart]
        rw [ih h]
        rfl

end Json

namespace Config

variable {c later : Config} {name other value : String} {l : Leaf} {n : UInt64}

/-- The part of a configuration at the end of the path of a name. -/
def at? (c : Config) (name : String) : Option Json := (encode c).descend? (dotted name)

/-- The value of a field. -/
def leafJson (c : Config) : Leaf → Json
  | .maxAttempts => encode c.ledger.maxAttempts
  | .backoffBaseMs => encode c.ledger.backoffBaseMs
  | .backoffMaxMs => encode c.ledger.backoffMaxMs
  | .ttlSecs => encode c.sessions.ttlSecs
  | .databaseFile => encode c.storage.databaseFile

/-- The value of a part. -/
def partJson (c : Config) : Part → Json
  | .leaf l => c.leafJson l
  | .whole s => c.sectionJson s

/-! ## The table of names -/

theorem ofName?_name (p : Part) : Part.ofName? p.name = some p := by
  rcases p with (_ | _ | _ | _ | _) | (_ | _ | _) <;> decide

theorem Part.mem_all (p : Part) : p ∈ Part.all := by
  rcases p with (_ | _ | _ | _ | _) | (_ | _ | _) <;> decide

theorem name_of_ofName? {p : Part} (h : Part.ofName? name = some p) : name = p.name :=
  (eq_of_beq (List.find?_some (p := fun p : Part => p.name == name) h)).symm

theorem ne_name_of_ofName? (h : Part.ofName? name = none) (p : Part) : name ≠ p.name := by
  rintro rfl
  rw [ofName?_name] at h
  cases h

/-- A name of the table leads to its part. -/
theorem at?_name (c : Config) (p : Part) : c.at? p.name = some (c.partJson p) := by
  have hpath : dotted p.name = match p with
      | .leaf .maxAttempts => ["ledger", "max_attempts"]
      | .leaf .backoffBaseMs => ["ledger", "backoff_base_ms"]
      | .leaf .backoffMaxMs => ["ledger", "backoff_max_ms"]
      | .leaf .ttlSecs => ["sessions", "ttl_secs"]
      | .leaf .databaseFile => ["storage", "database_file"]
      | .whole s => [s.name] := by
    rcases p with (_ | _ | _ | _ | _) | (_ | _ | _) <;> decide
  rw [at?, hpath]
  rcases p with (_ | _ | _ | _ | _) | (_ | _ | _) <;> rfl

theorem exists_section_of_get? {j : Json} (h : (encode c).get? name = some j) :
    ∃ s : Section, name = s.name ∧ j = c.sectionJson s := by
  have hmem : (name, j) ∈ [("ledger", encode c.ledger), ("sessions", encode c.sessions),
      ("storage", encode c.storage)] := mem_of_lookup h
  simp only [List.mem_cons, Prod.mk.injEq, List.not_mem_nil, or_false] at hmem
  rcases hmem with hmem | hmem | hmem
  · exact ⟨.ledger, hmem⟩
  · exact ⟨.sessions, hmem⟩
  · exact ⟨.storage, hmem⟩

/-- A field of a section has a name behind the section's. -/
theorem exists_leaf_of_get? {s : Section} {field : String} {j : Json}
    (h : (c.sectionJson s).get? field = some j) :
    ∃ l : Leaf, dotted l.name = [s.name, field] ∧ j = c.leafJson l := by
  cases s with
  | ledger =>
    have hmem : (field, j) ∈ [("backoff_base_ms", encode c.ledger.backoffBaseMs),
      ("backoff_max_ms", encode c.ledger.backoffMaxMs),
      ("max_attempts", encode c.ledger.maxAttempts)] := mem_of_lookup h
    simp only [List.mem_cons, Prod.mk.injEq, List.not_mem_nil, or_false] at hmem
    rcases hmem with ⟨rfl, hj⟩ | ⟨rfl, hj⟩ | ⟨rfl, hj⟩
    · exact ⟨.backoffBaseMs, by decide, hj⟩
    · exact ⟨.backoffMaxMs, by decide, hj⟩
    · exact ⟨.maxAttempts, by decide, hj⟩
  | sessions =>
    have hmem : (field, j) ∈ [("ttl_secs", encode c.sessions.ttlSecs)] := mem_of_lookup h
    simp only [List.mem_cons, Prod.mk.injEq, List.not_mem_nil, or_false] at hmem
    obtain ⟨rfl, hj⟩ := hmem
    exact ⟨.ttlSecs, by decide, hj⟩
  | storage =>
    have hmem : (field, j) ∈ [("database_file", encode c.storage.databaseFile)] := mem_of_lookup h
    simp only [List.mem_cons, Prod.mk.injEq, List.not_mem_nil, or_false] at hmem
    obtain ⟨rfl, hj⟩ := hmem
    exact ⟨.databaseFile, by decide, hj⟩

/-- No walk goes on behind a field. -/
theorem get?_leafJson (c : Config) (l : Leaf) (name : String) :
    (c.leafJson l).get? name = none := by
  cases l <;> rfl

/-- A walk that arrives somewhere follows a name of the table. -/
theorem exists_name_of_at? {j : Json} (h : c.at? name = some j) : ∃ p : Part, name = p.name := by
  rw [at?] at h
  cases hpath : dotted name with
  | nil => exact absurd hpath (dotted_ne_nil name)
  | cons first rest =>
    rw [hpath, Json.descend?_cons] at h
    obtain ⟨inner, hsection, h⟩ := Option.bind_eq_some_iff.1 h
    obtain ⟨s, rfl, rfl⟩ := exists_section_of_get? hsection
    cases rest with
    | nil =>
      have hname : dotted (Part.whole s).name = [s.name] := by cases s <;> decide
      exact ⟨.whole s, dotted_injective (hpath.trans hname.symm)⟩
    | cons field rest =>
      rw [Json.descend?_cons] at h
      obtain ⟨inner, hleaf, h⟩ := Option.bind_eq_some_iff.1 h
      obtain ⟨l, hname, rfl⟩ := exists_leaf_of_get? hleaf
      cases rest with
      | nil => exact ⟨.leaf l, dotted_injective (hpath.trans hname.symm)⟩
      | cons next rest =>
        rw [Json.descend?_cons, get?_leafJson] at h
        cases h

theorem at?_eq_none (h : Part.ofName? name = none) : c.at? name = none := by
  by_contra hsome
  obtain ⟨j, hj⟩ := Option.ne_none_iff_exists'.1 hsome
  obtain ⟨p, hp⟩ := exists_name_of_at? hj
  exact ne_name_of_ofName? h p hp

/-! ## Looks -/

theorem shown_leafJson (c : Config) (l : Leaf) : (c.leafJson l).shown = c.leafText l := by
  cases l <;> rfl

/-- **A look at a setting is a walk along its name.** -/
theorem get_eq_walk (c : Config) (name : String) : c.get name = (c.at? name).map Json.shown := by
  rw [get]
  cases hp : Part.ofName? name with
  | none => rw [at?_eq_none hp, Option.map_none]
  | some p =>
    rw [name_of_ofName? hp, at?_name, Option.map_some]
    rcases p with l | s
    · exact congrArg some (shown_leafJson c l).symm
    · cases s <;> rfl

/-! ## Changes -/

theorem readNumber_eq_ok_iff : readNumber name value = .ok n ↔
    Text.Writes value n.toNat := by
  rw [readNumber, ← Text.readWord_eq_ok_iff]
  cases Text.readWord value <;> simp [refuse]

theorem readNumber_eq_error {e : ConfigError} (h : readNumber name value = .error e) :
    ∃ reason, e = .invalidValue name reason := by
  rw [readNumber] at h
  cases hread : Text.readWord value with
  | ok n =>
    rw [hread] at h
    cases h
  | error fault =>
    rw [hread] at h
    exact ⟨_, (Except.error.inj h).symm⟩

theorem readAttempts_eq (h : readNumber name value = .ok n) : readAttempts name value =
    if n.toNat < UInt32.size then .ok n.toUInt32
    else refuse name ("invalid value: integer `" ++ toString n ++ "`, expected u32") := by
  rw [readAttempts, h]
  rfl

theorem readAttempts_eq_ok_iff {m : UInt32} : readAttempts name value = .ok m ↔
    Text.Writes value m.toNat := by
  constructor
  · intro h
    cases hread : readNumber name value with
    | error e =>
      rw [readAttempts, hread] at h
      cases h
    | ok n =>
      rw [readAttempts_eq hread] at h
      split at h
      · next hlt =>
        obtain rfl := Except.ok.inj h
        rw [UInt64.toNat_toUInt32, Nat.mod_eq_of_lt hlt]
        exact readNumber_eq_ok_iff.1 hread
      · cases h
  · intro h
    have hread : readNumber name value = .ok m.toUInt64 := readNumber_eq_ok_iff.2 h
    have hlt : m.toUInt64.toNat < UInt32.size := m.toNat_lt
    rw [readAttempts_eq hread, if_pos hlt, UInt32.toUInt32_toUInt64]

theorem readAttempts_eq_error {e : ConfigError} (h : readAttempts name value = .error e) :
    ∃ reason, e = .invalidValue name reason := by
  rcases error_of_bind h with hread | ⟨n, -, h⟩
  · exact readNumber_eq_error hread
  · split at h
    · cases h
    · exact ⟨_, (Except.error.inj h).symm⟩

/-- Changes a setting along the path of its name: a value of the kind that stands there is put in
its place, and the whole is read as a configuration. -/
def setByWalk (c : Config) (name value : String) : Except ConfigError Config := do
  let j ← (encode c).replace name value (dotted name)
  match decode? j with
  | some later => .ok later
  | none => refuse name ("invalid value: integer `" ++
      ((j.descend? (dotted name)).map Json.shown).getD "" ++ "`, expected u32")

theorem put_ledger (c : Config) (j : Json) : (encode c).put "ledger" j =
    .obj [("ledger", j), ("sessions", encode c.sessions), ("storage", encode c.storage)] := rfl

theorem put_maxAttempts (c : LedgerConfig) (j : Json) : (encode c).put "max_attempts" j =
    .obj [("backoff_base_ms", encode c.backoffBaseMs), ("backoff_max_ms", encode c.backoffMaxMs),
      ("max_attempts", j)] := rfl

theorem decode?_put_ledger {j : Json} (h : decode? (α := LedgerConfig) j = none) :
    decode? (α := Config) ((encode c).put "ledger" j) = none := by
  rw [put_ledger]
  change Document.record _ .json (.obj _) = none
  exact record_refused (.bind (.defaulted rfl h))

theorem decode?_put_maxAttempts {l : LedgerConfig} {j : Json}
    (h : decode? (α := UInt32) j = none) :
    decode? (α := LedgerConfig) ((encode l).put "max_attempts" j) = none := by
  rw [put_maxAttempts]
  change Document.record _ .json (.obj _) = none
  exact record_refused (.bind (.defaulted rfl h))

/-- A half word holds no larger number. -/
theorem decode?_halfWord {m : Int} (h : ¬ (0 ≤ m ∧ m < UInt32.size)) :
    decode? (α := UInt32) (.int m) = none := if_neg h

/-- The path to a field. -/
def Leaf.path : Leaf → String × String
  | .maxAttempts => ("ledger", "max_attempts")
  | .backoffBaseMs => ("ledger", "backoff_base_ms")
  | .backoffMaxMs => ("ledger", "backoff_max_ms")
  | .ttlSecs => ("sessions", "ttl_secs")
  | .databaseFile => ("storage", "database_file")

/-- The configuration with a value in the place of a field. -/
def putLeaf (c : Config) (l : Leaf) (new : Json) : Json :=
  (encode c).put l.path.1 ((((encode c).get? l.path.1).getD .null).put l.path.2 new)

theorem replace_name (c : Config) (l : Leaf) (value : String) :
    (encode c).replace l.name value (dotted l.name) =
      ((c.leafJson l).retyped l.name value).map (c.putLeaf l) := by
  have hpath : dotted l.name = [l.path.1, l.path.2] := by cases l <;> decide
  obtain ⟨inner, hsection, hleaf⟩ : ∃ inner, (encode c).get? l.path.1 = some inner ∧
      inner.get? l.path.2 = some (c.leafJson l) := by
    cases l
    all_goals exact ⟨_, rfl, rfl⟩
  rw [hpath]
  rw [Json.replace, hsection]
  simp only
  rw [Json.replace, hleaf]
  have hput : c.putLeaf l = fun new => (encode c).put l.path.1 (inner.put l.path.2 new) := by
    funext new
    rw [putLeaf, hsection, Option.getD_some]
  rw [hput]
  simp only
  cases (c.leafJson l).retyped l.name value <;> rfl

/-- What a walk finds at the path of a field is what was put there. -/
theorem descend?_putLeaf (c : Config) (l : Leaf) (new : Json) :
    (c.putLeaf l new).descend? (dotted l.name) = some new := by
  have hpath : dotted l.name = [l.path.1, l.path.2] := by cases l <;> decide
  rw [hpath]
  cases l <;> rfl

/-- How a walk changes a field. -/
theorem setByWalk_name (c : Config) (l : Leaf) (value : String) : c.setByWalk l.name value =
    ((c.leafJson l).retyped l.name value).bind fun new =>
      match decode? (α := Config) (c.putLeaf l new) with
      | some later => .ok later
      | none => refuse l.name ("invalid value: integer `" ++ new.shown ++ "`, expected u32") := by
  rw [setByWalk, replace_name]
  cases (c.leafJson l).retyped l.name value with
  | error e => rfl
  | ok new =>
    change (match decode? (α := Config) (c.putLeaf l new) with
      | some later => Except.ok later
      | none => refuse l.name ("invalid value: integer `" ++
          (((c.putLeaf l new).descend? (dotted l.name)).map Json.shown).getD "" ++
          "`, expected u32")) = _
    rw [descend?_putLeaf]
    rfl

/-- A value that belongs in the place of a field is taken over. -/
theorem setByWalk_of_encode {new : Json} (hnew : (c.leafJson l).retyped l.name value = .ok new)
    (hput : c.putLeaf l new = encode later) : c.setByWalk l.name value = .ok later := by
  rw [setByWalk_name, hnew, Except.bind, hput, decode_encode trivial]

theorem setByWalk_of_error {e : ConfigError}
    (h : (c.leafJson l).retyped l.name value = .error e) :
    c.setByWalk l.name value = .error e := by
  rw [setByWalk_name, h, Except.bind]

theorem setLeaf_maxAttempts_of_number
    (hread : readNumber Leaf.maxAttempts.name value = .ok n)
    (hnew : (c.leafJson .maxAttempts).retyped Leaf.maxAttempts.name value = .ok (.int n.toNat)) :
    c.setLeaf .maxAttempts value = c.setByWalk Leaf.maxAttempts.name value := by
  have hput : ∀ j, c.putLeaf .maxAttempts j =
      (encode c).put "ledger" ((encode c.ledger).put "max_attempts" j) := fun _ => rfl
  rw [setLeaf, readAttempts_eq hread]
  split
  · next hlt =>
    have hfits : encode n.toUInt32 = .int n.toNat := by
      change Json.int (n.toUInt32.toNat : Int) = _
      rw [UInt64.toNat_toUInt32, Nat.mod_eq_of_lt hlt]
    rw [← hfits] at hnew
    exact (setByWalk_of_encode hnew (hput _)).symm
  · next hlt =>
    have hlarge : ¬ (0 ≤ (n.toNat : Int) ∧ (n.toNat : Int) < UInt32.size) := fun h =>
      hlt (Int.ofNat_lt.1 h.2)
    rw [setByWalk_name, hnew, Except.bind, hput,
      decode?_put_ledger (decode?_put_maxAttempts (decode?_halfWord hlarge))]
    rfl

/-- **A change of a setting is a walk along its name**: the new value is put in its place as one of
the kind that stood there, and the whole is read as a configuration. -/
theorem set_eq_walk (c : Config) (name value : String) :
    c.set name value = c.setByWalk name value := by
  rw [set]
  cases hp : Part.ofName? name with
  | none =>
    rw [setByWalk, Json.replace_of_descend?_eq_none (at?_eq_none hp)]
    rfl
  | some p =>
    rw [name_of_ofName? hp]
    rcases p with l | s
    · change c.setLeaf l value = c.setByWalk l.name value
      by_cases htext : l = .databaseFile
      · subst htext
        exact (setByWalk_of_encode rfl rfl).symm
      have hnumber : (c.leafJson l).retyped l.name value =
          (readNumber l.name value).map fun n => .int n.toNat := by
        cases l
        case databaseFile => exact absurd rfl htext
        all_goals rfl
      cases hread : readNumber l.name value with
      | error e =>
        rw [hread] at hnumber
        rw [setByWalk_of_error hnumber]
        cases l
        case databaseFile => exact absurd rfl htext
        case maxAttempts => rw [setLeaf, readAttempts, hread]; rfl
        all_goals rw [setLeaf, hread]; rfl
      | ok n =>
        rw [hread] at hnumber
        cases l
        case databaseFile => exact absurd rfl htext
        case maxAttempts => exact setLeaf_maxAttempts_of_number hread hnumber
        all_goals rw [setLeaf, hread]; exact (setByWalk_of_encode hnumber rfl).symm
    · rw [setByWalk]
      cases s <;> rfl

end Config

end RitualLedger
