import RitualLedger.Config.Toml
import RitualLedger.Proofs.Config.Settings
import RitualLedger.Proofs.Toml.Distinct
import RitualLedger.Proofs.Toml.Document

/-!
# Reading configurations

A text gives a configuration some of its fields; the others have their defaults
(`Config.ofToml?_of_offers`). What a text gives is found on the path of a field in the document of
the text. The text that is written for a configuration gives all fields, and so it is read back
(`Config.ofToml?_text`).
-/

namespace RitualLedger

namespace Document

variable {α β : Type} {fields : Json.Fields} {name : String}

/-- A reader takes the fields of a table as a value. -/
def Takes (reader : PartReader α) (fields : Json.Fields) (x : α) : Prop :=
  reader .toml (.named fields) = some (x, .named fields)

theorem Takes.pure (x : α) : Takes (Pure.pure x) fields x := rfl

theorem Takes.bind {reader : PartReader α} {next : α → PartReader β} {x : α} {y : β}
    (h : Takes reader fields x) (hnext : Takes (next x) fields y) :
    Takes (reader >>= next) fields y := by
  change (reader .toml (.named fields)).bind _ = _
  rw [h]
  exact hnext

theorem record_table {reader : PartReader α} {x : α} (h : Takes reader fields x) :
    record reader .toml (.obj fields) = some x := by
  rw [record, h, Option.map_some]

/-- Of distinct fields at most one has a name. -/
theorem filter_name (h : (fields.map (·.1)).Nodup) :
    fields.filter (·.1 == name) = ((fields.lookup name).map (name, ·)).toList := by
  induction fields with
  | nil => rfl
  | cons f fields ih =>
    obtain ⟨hf, hfields⟩ := List.nodup_cons.1 h
    by_cases hname : f.1 = name
    · subst hname
      have hnone : fields.filter (·.1 == f.1) = [] := List.filter_eq_nil_iff.2 fun g hg hname =>
        hf (List.mem_map.2 ⟨g, hg, eq_of_beq hname⟩)
      rw [List.filter_cons, if_pos (beq_self_eq_true f.1), hnone, List.lookup_cons,
        beq_self_eq_true]
      rfl
    · rw [List.filter_cons_of_neg (by simpa using hname), List.lookup_cons,
        beq_false_of_ne (Ne.symm hname)]
      exact ih hfields

theorem take?_named (h : (fields.map (·.1)).Nodup) :
    Parts.take? name (.named fields) = some (fields.lookup name, .named fields) := by
  rw [Parts.take?, filter_name h]
  cases fields.lookup name <;> rfl

variable [Document α]

theorem Takes.given {j : Json} {x default : α} (hdistinct : (fields.map (·.1)).Nodup)
    (hfield : fields.lookup name = some j) (h : read? .toml j = some x) :
    Takes (defaulted name default) fields x := by
  rw [Takes, defaulted, take?_named hdistinct, hfield]
  simp only [h, Option.map_some]

theorem Takes.missing {default : α} (hdistinct : (fields.map (·.1)).Nodup)
    (hfield : fields.lookup name = none) : Takes (defaulted name default) fields default := by
  rw [Takes, defaulted, take?_named hdistinct, hfield]

/-- A field is what is given, or its default. -/
theorem Takes.field (default : α) (hdistinct : (fields.map (·.1)).Nodup)
    (h : ∀ j, fields.lookup name = some j → ∃ x : α, read? .toml j = some x ∧ encode x = j) :
    ∃ x : α, Takes (defaulted name default) fields x ∧
      encode x = (fields.lookup name).getD (encode default) := by
  cases hfield : fields.lookup name with
  | none => exact ⟨default, .missing hdistinct hfield, rfl⟩
  | some j =>
    obtain ⟨x, hread, hencode⟩ := h j hfield
    exact ⟨x, .given hdistinct hfield hread, hencode⟩

end Document

open Document (Takes record_table)

namespace Config

variable {c : Config} {s : String} {j : Json} {fields : Json.Fields}

/-! ## What a document gives -/

/-- What a document gives for a field. -/
def given (j : Json) (l : Leaf) : Option Json := j.descend? [l.path.1, l.path.2]

/-- Whether a value is a whole number below a bound. -/
def IsBelow (bound : Int) : Json → Prop
  | .int n => 0 ≤ n ∧ n < bound
  | _ => False

/-- Whether a value can stand in a field: a text, or a number in range. -/
def Leaf.Admits (l : Leaf) (v : Json) : Prop :=
  match l with
  | .maxAttempts => IsBelow (2 ^ 32) v
  | .databaseFile => ∃ text, v = .str text
  | _ => IsBelow (2 ^ 64) v

/-- Whether a document is one of a configuration: each section that it has is a table, and each
field that it gives can stand there. -/
structure Offers (j : Json) : Prop where
  sections : ∀ (s : Section) (part : Json), j.get? s.name = some part → ∃ fields, part = .obj fields
  fields : ∀ (l : Leaf) (v : Json), given j l = some v → l.Admits v

theorem exists_word {v : Json} (h : IsBelow (2 ^ 64) v) :
    ∃ w : UInt64, Document.read? .toml v = some w ∧ encode w = v := by
  cases v with
  | int n =>
    have hread : Document.read? .toml (.int n) = some (UInt64.ofNat n.toNat) := if_pos h
    refine ⟨_, hread, ?_⟩
    have hword : (UInt64.ofNat n.toNat).toNat = n.toNat :=
      UInt64.toNat_ofNat_of_lt ((Int.toNat_lt h.1).2 h.2)
    change Json.int ((UInt64.ofNat n.toNat).toNat : Int) = _
    rw [hword, Int.toNat_of_nonneg h.1]
  | _ => exact absurd h id

theorem exists_halfWord {v : Json} (h : IsBelow (2 ^ 32) v) :
    ∃ w : UInt32, Document.read? .toml v = some w ∧ encode w = v := by
  cases v with
  | int n =>
    have hread : Document.read? .toml (.int n) = some (UInt32.ofNat n.toNat) := if_pos h
    refine ⟨_, hread, ?_⟩
    have hword : (UInt32.ofNat n.toNat).toNat = n.toNat :=
      UInt32.toNat_ofNat_of_lt ((Int.toNat_lt h.1).2 h.2)
    change Json.int ((UInt32.ofNat n.toNat).toNat : Int) = _
    rw [hword, Int.toNat_of_nonneg h.1]
  | _ => exact absurd h id

theorem exists_text {v : Json} (h : ∃ text, v = .str text) :
    ∃ t : String, Document.read? .toml v = some t ∧ encode t = v := by
  obtain ⟨text, rfl⟩ := h
  exact ⟨text, rfl, rfl⟩

/-! ## Sections -/

/-- A field of a section is what its table gives, or its default. -/
def Keeps (fields : Json.Fields) (c : Config) (l : Leaf) : Prop :=
  c.leafJson l = (fields.lookup l.path.2).getD (default.leafJson l)

theorem read?_ledger (hdistinct : (fields.map (·.1)).Nodup)
    (h : ∀ l : Leaf, l.path.1 = "ledger" → ∀ v, fields.lookup l.path.2 = some v → l.Admits v) :
    ∃ part : LedgerConfig, Document.read? .toml (.obj fields) = some part ∧
      ∀ l : Leaf, l.path.1 = "ledger" → Keeps fields { default with ledger := part } l := by
  obtain ⟨attempts, hattempts, hattempts'⟩ := Takes.field defaultLedger.maxAttempts
    hdistinct fun v hv => exists_halfWord (h .maxAttempts rfl v hv)
  obtain ⟨base, hbase, hbase'⟩ := Takes.field defaultLedger.backoffBaseMs
    hdistinct fun v hv => exists_word (h .backoffBaseMs rfl v hv)
  obtain ⟨most, hmost, hmost'⟩ := Takes.field defaultLedger.backoffMaxMs
    hdistinct fun v hv => exists_word (h .backoffMaxMs rfl v hv)
  refine ⟨⟨attempts, base, most⟩, ?_, ?_⟩
  · exact record_table (.bind hattempts (.bind hbase (.bind hmost (.pure _))))
  · intro l hl
    cases l with
    | maxAttempts => exact hattempts'
    | backoffBaseMs => exact hbase'
    | backoffMaxMs => exact hmost'
    | ttlSecs => exact absurd hl (by decide)
    | databaseFile => exact absurd hl (by decide)

theorem read?_sessions (hdistinct : (fields.map (·.1)).Nodup)
    (h : ∀ v, fields.lookup "ttl_secs" = some v → Leaf.ttlSecs.Admits v) :
    ∃ part : SessionConfig, Document.read? .toml (.obj fields) = some part ∧
      Keeps fields { default with sessions := part } .ttlSecs := by
  obtain ⟨ttl, httl, httl'⟩ := Takes.field defaultSessions.ttlSecs
    hdistinct fun v hv => exists_word (h v hv)
  exact ⟨⟨ttl⟩, record_table (.bind httl (.pure _)), httl'⟩

theorem read?_storage (hdistinct : (fields.map (·.1)).Nodup)
    (h : ∀ v, fields.lookup "database_file" = some v → Leaf.databaseFile.Admits v) :
    ∃ part : StorageConfig, Document.read? .toml (.obj fields) = some part ∧
      Keeps fields { default with storage := part } .databaseFile := by
  obtain ⟨file, hfile, hfile'⟩ := Takes.field defaultStorage.databaseFile
    hdistinct fun v hv => exists_text (h v hv)
  exact ⟨⟨file⟩, record_table (.bind hfile (.pure _)), hfile'⟩

/-! ## All sections -/

theorem given_obj (fields : Json.Fields) (l : Leaf) : given (.obj fields) l =
    (fields.lookup l.path.1).bind fun part => part.get? l.path.2 := by
  rw [given, Json.descend?_cons]
  refine congrArg₂ Option.bind rfl (funext fun part => ?_)
  rw [Json.descend?_cons]
  cases part.get? l.path.2 <;> rfl

/-- A field is what a document gives for it, or its default. -/
def Follows (j : Json) (c : Config) (l : Leaf) : Prop :=
  c.leafJson l = (given j l).getD (default.leafJson l)

/-- Nothing is given for the fields of a section that is missing. -/
theorem follows_default {l : Leaf} (h : fields.lookup l.path.1 = none) :
    Follows (.obj fields) default l := by
  rw [Follows, given_obj, h]
  rfl

theorem follows_of_keeps {sub : Json.Fields} {l : Leaf}
    (h : fields.lookup l.path.1 = some (.obj sub)) (hkeeps : Keeps sub c l) :
    Follows (.obj fields) c l := by
  rw [Follows, given_obj, h]
  exact hkeeps

theorem Offers.admits {sub : Json.Fields} {l : Leaf} {v : Json} (h : Offers (.obj fields))
    (hsub : fields.lookup l.path.1 = some (.obj sub)) (hv : sub.lookup l.path.2 = some v) :
    l.Admits v := by
  refine h.fields l v ?_
  rw [given_obj, hsub]
  exact hv

/-- The fields of a document and of its sections are distinct. -/
structure Distinct (fields : Json.Fields) : Prop where
  names : (fields.map (·.1)).Nodup
  parts : ∀ name sub, fields.lookup name = some (.obj sub) → (sub.map (·.1)).Nodup

/-- A section that is missing has its default, and one that is there is read. -/
theorem takes_section {α : Type} [Document α] {name : String} {default : α} {p : α → Prop}
    (hdistinct : (fields.map (·.1)).Nodup)
    (htable : ∀ part, fields.lookup name = some part → ∃ sub, part = .obj sub)
    (hmissing : fields.lookup name = none → p default)
    (hread : ∀ sub, fields.lookup name = some (.obj sub) →
      ∃ x : α, Document.read? .toml (.obj sub) = some x ∧ p x) :
    ∃ x : α, Takes (Document.defaulted name default) fields x ∧ p x := by
  cases hfield : fields.lookup name with
  | none => exact ⟨default, .missing hdistinct hfield, hmissing hfield⟩
  | some part =>
    obtain ⟨sub, rfl⟩ := htable part hfield
    obtain ⟨x, hx, hp⟩ := hread sub hfield
    exact ⟨x, .given hdistinct hfield hx, hp⟩

theorem takes_ledger (hdistinct : Distinct fields) (h : Offers (.obj fields)) :
    ∃ part : LedgerConfig, Takes (Document.defaulted "ledger" defaultLedger) fields part ∧
      ∀ l : Leaf, l.path.1 = "ledger" →
        Follows (.obj fields) { default with ledger := part } l := by
  refine takes_section hdistinct.names (h.sections .ledger)
    (fun hnone l hl => follows_default (hl ▸ hnone)) fun sub hsub => ?_
  obtain ⟨part, hread, hkeeps⟩ := read?_ledger (hdistinct.parts _ sub hsub)
    fun l hl v hv => h.admits (hl ▸ hsub) hv
  exact ⟨part, hread, fun l hl => follows_of_keeps (hl ▸ hsub) (hkeeps l hl)⟩

theorem takes_sessions (hdistinct : Distinct fields) (h : Offers (.obj fields)) :
    ∃ part : SessionConfig, Takes (Document.defaulted "sessions" defaultSessions) fields part ∧
      Follows (.obj fields) { default with sessions := part } .ttlSecs := by
  refine takes_section hdistinct.names (h.sections .sessions) (fun hnone => follows_default hnone)
    fun sub hsub => ?_
  obtain ⟨part, hread, hkeeps⟩ := read?_sessions (hdistinct.parts _ sub hsub)
    fun v hv => h.admits hsub hv
  exact ⟨part, hread, follows_of_keeps hsub hkeeps⟩

theorem takes_storage (hdistinct : Distinct fields) (h : Offers (.obj fields)) :
    ∃ part : StorageConfig, Takes (Document.defaulted "storage" defaultStorage) fields part ∧
      Follows (.obj fields) { default with storage := part } .databaseFile := by
  refine takes_section hdistinct.names (h.sections .storage) (fun hnone => follows_default hnone)
    fun sub hsub => ?_
  obtain ⟨part, hread, hkeeps⟩ := read?_storage (hdistinct.parts _ sub hsub)
    fun v hv => h.admits hsub hv
  exact ⟨part, hread, follows_of_keeps hsub hkeeps⟩

/-- **A text that gives some fields is read as the default with these fields in their places.** -/
theorem ofToml?_of_offers (hdoc : Toml.document? s = some j) (h : Offers j) :
    ∃ c, ofToml? s = some c ∧ ∀ l, c.leafJson l = (given j l).getD (default.leafJson l) := by
  obtain ⟨⟨fields, rfl⟩, hnames, hparts⟩ := Toml.document?_distinct hdoc
  have hdistinct : Distinct fields :=
    ⟨hnames fields rfl, fun name sub hsub => hparts name _ hsub sub rfl⟩
  obtain ⟨ledger, hledger, hledger'⟩ := takes_ledger hdistinct h
  obtain ⟨sessions, hsessions, hsessions'⟩ := takes_sessions hdistinct h
  obtain ⟨storage, hstorage, hstorage'⟩ := takes_storage hdistinct h
  refine ⟨⟨ledger, sessions, storage⟩, ?_, ?_⟩
  · rw [ofToml?, hdoc, Option.bind_some]
    exact record_table (.bind hledger (.bind hsessions (.bind hstorage (.pure _))))
  · intro l
    cases l with
    | maxAttempts => exact hledger' .maxAttempts rfl
    | backoffBaseMs => exact hledger' .backoffBaseMs rfl
    | backoffMaxMs => exact hledger' .backoffMaxMs rfl
    | ttlSecs => exact hsessions'
    | databaseFile => exact hstorage'

/-! ## Writing -/

/-- The tables of a configuration. -/
def tables (c : Config) : List Toml.Table := [
  ⟨"ledger", [
    ⟨"max_attempts", (toString c.ledger.maxAttempts).toList, c.leafJson .maxAttempts⟩,
    ⟨"backoff_base_ms", (toString c.ledger.backoffBaseMs).toList, c.leafJson .backoffBaseMs⟩,
    ⟨"backoff_max_ms", (toString c.ledger.backoffMaxMs).toList, c.leafJson .backoffMaxMs⟩]⟩,
  ⟨"sessions", [⟨"ttl_secs", (toString c.sessions.ttlSecs).toList, c.leafJson .ttlSecs⟩]⟩,
  ⟨"storage", [⟨"database_file", Toml.writeText c.storage.databaseFile.toList,
    c.leafJson .databaseFile⟩]⟩]

theorem toList_field (name value : String) :
    (field name value).toList = Toml.Line.text ⟨name, value.toList, .null⟩ := by
  simp [field, Toml.Line.text]

theorem toList_text (c : Config) : c.text.toList = Toml.documentText c.tables := by
  simp [text, table, toList_field, tables, Toml.documentText, Toml.Table.text, Toml.headerText,
    Toml.Line.text]

theorem isWritable_iff : c.isWritable = true ↔ c.ledger.backoffBaseMs.toNat < 2 ^ 63 ∧
    c.ledger.backoffMaxMs.toNat < 2 ^ 63 ∧ c.sessions.ttlSecs.toNat < 2 ^ 63 := by
  have hlargest : ∀ n : UInt64, (n.toNat : Int) ≤ largestInteger ↔ n.toNat < 2 ^ 63 := by
    intro n
    have : largestInteger = 9223372036854775807 := by decide
    omega
  simp only [isWritable, List.all_cons, List.all_nil, Bool.and_true, Bool.and_eq_true,
    decide_eq_true_eq, hlargest]

theorem sound_number {name : String} {n : Nat} (hname : Toml.IsBare name) (hn : n < 2 ^ 63) :
    Toml.Line.Sound ⟨name, (toString n).toList, .int n⟩ := ⟨hname, Toml.means_number hn⟩

theorem sound_text {name : String} (hname : Toml.IsBare name) (text : String) :
    Toml.Line.Sound ⟨name, Toml.writeText text.toList, .str text⟩ := ⟨hname, Toml.means_text text⟩

/-- A configuration is written as tables that TOML has. -/
theorem sound_tables (h : c.isWritable = true) : ∀ t ∈ c.tables, t.Sound := by
  obtain ⟨hbase, hmost, httl⟩ := isWritable_iff.1 h
  have hattempts : c.ledger.maxAttempts.toNat < 2 ^ 63 :=
    lt_trans c.ledger.maxAttempts.toNat_lt (by decide)
  have hledger : Toml.IsBare "ledger" := by decide
  have hsessions : Toml.IsBare "sessions" := by decide
  have hstorage : Toml.IsBare "storage" := by decide
  have hnames : ["max_attempts", "backoff_base_ms", "backoff_max_ms"].Nodup := by decide
  have hone : ∀ name : String, [name].Nodup := fun name =>
    List.nodup_cons.2 ⟨List.not_mem_nil, List.nodup_nil⟩
  simp only [tables, List.forall_mem_cons]
  refine ⟨⟨hledger, ?_, hnames⟩, ⟨hsessions, ?_, hone _⟩, ⟨hstorage, ?_, hone _⟩, nofun⟩ <;>
    simp only [List.forall_mem_cons]
  · exact ⟨sound_number (by decide) hattempts, sound_number (by decide) hbase,
      sound_number (by decide) hmost, nofun⟩
  · exact ⟨sound_number (by decide) httl, nofun⟩
  · exact ⟨sound_text (by decide) _, nofun⟩

/-- What is written for a configuration is a document with all its values. -/
theorem object_tables (c : Config) :
    Json.object (c.tables.map fun t => (t.name, t.json)) = encode c := by
  have hsections : ∀ a b d : Json, Json.object [("ledger", a), ("sessions", b), ("storage", d)] =
      .obj [("ledger", a), ("sessions", b), ("storage", d)] := by
    intro a b d
    have hsessions : ¬ "sessions" < "ledger" := by decide
    have hstorage : ¬ "storage" < "ledger" := by decide
    have hstorage' : ¬ "storage" < "sessions" := by decide
    simp only [Json.object, Json.sortFields, List.foldl, Json.insertField, hsessions, hstorage,
      hstorage', if_false, String.reduceEq]
  have hledger : ∀ a b d : Json,
      Json.object [("max_attempts", a), ("backoff_base_ms", b), ("backoff_max_ms", d)] =
        .obj [("backoff_base_ms", b), ("backoff_max_ms", d), ("max_attempts", a)] := by
    intro a b d
    have hbase : "backoff_base_ms" < "max_attempts" := by decide
    have hmost : ¬ "backoff_max_ms" < "backoff_base_ms" := by decide
    have hmost' : "backoff_max_ms" < "max_attempts" := by decide
    simp only [Json.object, Json.sortFields, List.foldl, Json.insertField, hbase, hmost, hmost',
      if_true, if_false, String.reduceEq]
  change Json.object [("ledger", Json.object _), ("sessions", _), ("storage", _)] = _
  rw [hsections]
  exact congrArg (fun j => Json.obj [("ledger", j), _, _]) (hledger _ _ _)

/-- The values of a configuration determine it. -/
theorem eq_of_leafJson {later : Config} (h : ∀ l, later.leafJson l = c.leafJson l) : later = c :=
  eq_of_leafText fun l => by rw [← shown_leafJson, ← shown_leafJson, h]

/-- Every value of a configuration can stand in its place. -/
theorem admits_leafJson (c : Config) (l : Leaf) : l.Admits (c.leafJson l) := by
  have hword : ∀ w : UInt64, IsBelow (2 ^ 64) (encode w) := fun w =>
    ⟨Int.natCast_nonneg _, Int.ofNat_lt.2 w.toNat_lt⟩
  cases l with
  | maxAttempts => exact ⟨Int.natCast_nonneg _, Int.ofNat_lt.2 c.ledger.maxAttempts.toNat_lt⟩
  | databaseFile => exact ⟨_, rfl⟩
  | _ => exact hword _

/-- **A configuration is read from the text that is written for it.** -/
theorem ofToml?_text (h : c.isWritable = true) : ofToml? c.text = some c := by
  have hnames : (c.tables.map Toml.Table.name).Nodup := by
    have : ["ledger", "sessions", "storage"].Nodup := by decide
    exact this
  have hdoc : Toml.document? c.text = some (encode c) := by
    rw [← object_tables, ← Toml.document?_documentText (sound_tables h) hnames, ← toList_text,
      String.ofList_toList]
  have hgiven : ∀ l, given (encode c) l = some (c.leafJson l) := by
    intro l
    cases l <;> rfl
  have hoffers : Offers (encode c) := by
    refine ⟨fun s part hpart => ?_, fun l v hv => ?_⟩
    · cases s <;> exact ⟨_, (Option.some.inj hpart).symm⟩
    · rw [hgiven] at hv
      exact Option.some.inj hv ▸ admits_leafJson c l
  obtain ⟨later, hread, hlater⟩ := ofToml?_of_offers hdoc hoffers
  have heq : later = c := eq_of_leafJson fun l => by rw [hlater, hgiven, Option.getD_some]
  rw [hread, heq]

end Config

end RitualLedger
