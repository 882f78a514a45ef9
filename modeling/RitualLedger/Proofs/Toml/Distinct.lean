import Mathlib.Data.String.Basic
import RitualLedger.Proofs.Document.Faithful
import RitualLedger.Toml.Parser

/-!
# No name stands twice in a document of TOML

A reader of records refuses a field that stands twice. That never happens to the fields of a
document or of its tables (`Toml.document?_distinct`): tables are objects with their names in order,
whether they were opened by a header or written between braces.
-/

namespace RitualLedger

/-! ## Objects with their names in order -/

namespace Json

variable {fields : Fields} {name : String} {v : Json}

/-- Whether no two fields of a value have one name. -/
def IsDistinct (j : Json) : Prop := ∀ fields, j = .obj fields → (fields.map (·.1)).Nodup

theorem mem_insertField {f : String × Json} (h : f ∈ insertField name v fields) :
    f = (name, v) ∨ f ∈ fields := by
  induction fields with
  | nil => exact .inl (List.mem_singleton.1 h)
  | cons g fields ih =>
    rw [insertField] at h
    split at h
    · exact List.mem_cons.1 h
    split at h
    · exact (List.mem_cons.1 h).imp id (List.mem_cons_of_mem g)
    · rcases List.mem_cons.1 h with rfl | h
      · exact .inr List.mem_cons_self
      · exact (ih h).imp id (List.mem_cons_of_mem g)

/-- A field is put where its name belongs. -/
theorem sorted_insertField (h : fields.Pairwise (·.1 < ·.1)) :
    (insertField name v fields).Pairwise (·.1 < ·.1) := by
  induction fields with
  | nil => exact List.pairwise_singleton _ _
  | cons g fields ih =>
    obtain ⟨hg, hfields⟩ := List.pairwise_cons.1 h
    rw [insertField]
    split
    · next hlt =>
      refine List.pairwise_cons.2 ⟨fun f hf => ?_, h⟩
      rcases List.mem_cons.1 hf with rfl | hf
      · exact hlt
      · exact lt_trans hlt (hg f hf)
    · next hnot =>
      split
      · next heq => exact List.pairwise_cons.2 ⟨fun f hf => heq ▸ hg f hf, hfields⟩
      · next hne =>
        refine List.pairwise_cons.2 ⟨fun f hf => ?_, ih hfields⟩
        rcases mem_insertField hf with rfl | hf
        · exact lt_of_le_of_ne (not_lt.1 hnot) (Ne.symm hne)
        · exact hg f hf

/-- Fields that are sorted one after the other are sorted, and no others come in. -/
theorem foldl_insertField (fields : Fields) {sorted : Fields}
    (h : sorted.Pairwise (·.1 < ·.1)) :
    (fields.foldl (fun sorted f => insertField f.1 f.2 sorted) sorted).Pairwise (·.1 < ·.1) ∧
      ∀ f ∈ fields.foldl (fun sorted f => insertField f.1 f.2 sorted) sorted,
        f ∈ sorted ∨ f ∈ fields := by
  induction fields generalizing sorted with
  | nil => exact ⟨h, fun f hf => .inl hf⟩
  | cons g fields ih =>
    have hinsert : (insertField g.1 g.2 sorted).Pairwise (·.1 < ·.1) := sorted_insertField h
    obtain ⟨hsorted, hmem⟩ := ih hinsert
    refine ⟨hsorted, fun f hf => ?_⟩
    rcases hmem f hf with hf | hf
    · rcases mem_insertField hf with rfl | hf
      · exact .inr List.mem_cons_self
      · exact .inl hf
    · exact .inr (List.mem_cons_of_mem g hf)

theorem isDistinct_object (fields : Fields) : (object fields).IsDistinct := by
  rintro _ ⟨⟩
  have hsorted := (foldl_insertField fields List.Pairwise.nil).1
  exact List.pairwise_map.2 (hsorted.imp fun h => ne_of_lt h)

/-- What is found in an object is one of its fields. -/
theorem mem_of_get?_object (h : (object fields).get? name = some v) : (name, v) ∈ fields := by
  have hmem : (name, v) ∈ sortFields fields := mem_of_lookup h
  exact ((foldl_insertField fields List.Pairwise.nil).2 _ hmem).resolve_left List.not_mem_nil

/-- What is no object has no names. -/
theorem isDistinct_of_fields? {j : Json} (h : j.fields? = none) : j.IsDistinct := by
  rintro fields rfl
  cases h

end Json

namespace Toml

variable {cs rest : List Char} {v : Json}

/-! ## Values -/

theorem integer?_fields (h : integer? cs = some v) : v.fields? = none := by
  have hword : ∀ negative n, word? negative n = some v → v.fields? = none := by
    intro negative n hword
    rw [word?] at hword
    obtain ⟨-, hv⟩ := Option.ite_none_right_eq_some.1 hword
    exact Option.some.inj hv ▸ rfl
  rw [integer?.eq_def] at h
  split at h
  all_goals
    obtain ⟨n, -, hn⟩ := Option.bind_eq_some_iff.1 h
    exact hword _ _ hn

theorem float?_fields (h : float? cs = some v) : v.fields? = none := by
  rw [float?] at h
  simp only [Option.bind_eq_bind] at h
  split at h
  · exact Option.some.inj h ▸ rfl
  split at h
  · obtain ⟨whole, -, h⟩ := Option.bind_eq_some_iff.1 h
    obtain ⟨fraction, -, h⟩ := Option.bind_eq_some_iff.1 h
    split at h
    all_goals
      obtain ⟨e, -, h⟩ := Option.bind_eq_some_iff.1 h
      split at h
      · exact Option.some.inj h ▸ rfl
      split at h
      · exact Option.some.inj h ▸ rfl
      · cases h
  · obtain ⟨whole, -, h⟩ := Option.bind_eq_some_iff.1 h
    obtain ⟨e, -, h⟩ := Option.bind_eq_some_iff.1 h
    split at h
    · exact Option.some.inj h ▸ rfl
    split at h
    · exact Option.some.inj h ▸ rfl
    · cases h
  · cases h

theorem tokenValue?_distinct (h : tokenValue? cs = some v) : v.IsDistinct := by
  rw [tokenValue?] at h
  split at h
  · exact Option.some.inj h ▸ Json.isDistinct_of_fields? rfl
  split at h
  · exact Option.some.inj h ▸ Json.isDistinct_of_fields? rfl
  split at h
  · next hinteger =>
    exact Option.some.inj h ▸ Json.isDistinct_of_fields? (integer?_fields hinteger)
  split at h
  · next hfloat => exact Option.some.inj h ▸ Json.isDistinct_of_fields? (float?_fields hfloat)
  split at h
  · obtain rfl := Option.some.inj h
    rintro _ ⟨⟩
    exact List.nodup_cons.2 ⟨List.not_mem_nil, List.nodup_nil⟩
  · cases h

theorem inlineTable?_distinct {pairs : List Pair} (h : inlineTable? pairs = some v) :
    v.IsDistinct := by
  obtain ⟨entries, -, rfl⟩ := Option.map_eq_some_iff.1 h
  rw [Node.toJson]
  exact Json.isDistinct_object _

/-- No name stands twice in a value. -/
theorem value_distinct {depth steps : Nat} (h : value depth steps cs = some (v, rest)) :
    v.IsDistinct := by
  cases steps with
  | zero =>
    rw [value] at h
    cases h
  | succ steps =>
    rw [value.eq_def] at h
    dsimp only at h
    split at h
    · obtain ⟨⟨text, left⟩, -, hv⟩ := Option.map_eq_some_iff.1 h
      cases hv
      exact Json.isDistinct_of_fields? rfl
    · obtain ⟨⟨text, left⟩, -, hv⟩ := Option.map_eq_some_iff.1 h
      cases hv
      exact Json.isDistinct_of_fields? rfl
    · split at h
      · cases h
      · obtain ⟨⟨items, left⟩, -, hv⟩ := Option.map_eq_some_iff.1 h
        cases hv
        exact Json.isDistinct_of_fields? rfl
    · split at h
      · cases h
      split at h
      · cases h
        rintro _ ⟨⟩
        exact List.nodup_nil
      · obtain ⟨⟨pairs, left⟩, -, h⟩ := Option.bind_eq_some_iff.1 h
        obtain ⟨table, htable, h⟩ := Option.bind_eq_some_iff.1 h
        cases h
        exact inlineTable?_distinct htable
    · obtain ⟨found, hfound, hv⟩ := Option.map_eq_some_iff.1 h
      cases hv
      exact tokenValue?_distinct hfound

theorem pair_distinct {depth steps : Nat} {p : Pair} (h : pair depth steps cs = some (p, rest)) :
    p.value.IsDistinct := by
  cases steps with
  | zero =>
    rw [pair] at h
    cases h
  | succ steps =>
    rw [pair] at h
    obtain ⟨⟨parts, behind⟩, -, h⟩ := Option.bind_eq_some_iff.1 h
    obtain ⟨⟨path, name⟩, -, h⟩ := Option.bind_eq_some_iff.1 h
    dsimp only at h
    split at h
    · obtain ⟨⟨found, left⟩, hfound, h⟩ := Option.bind_eq_some_iff.1 h
      cases h
      exact value_distinct hfound
    · cases h

/-- No name stands twice in the value that a line gives. -/
def Statement.IsDistinct : Statement → Prop
  | .pair p => p.value.IsDistinct
  | _ => True

theorem statement_distinct {s : Statement} (h : statement cs = some (s, rest)) :
    s.IsDistinct := by
  rw [statement.eq_def] at h
  split at h
  · obtain ⟨⟨path, behind⟩, -, h⟩ := Option.bind_eq_some_iff.1 h
    dsimp only at h
    split at h
    · cases h
      trivial
    · cases h
  · obtain ⟨⟨path, behind⟩, -, h⟩ := Option.bind_eq_some_iff.1 h
    dsimp only at h
    split at h
    · cases h
      trivial
    · cases h
  · obtain ⟨⟨p, behind⟩, hpair, h⟩ := Option.map_eq_some_iff.1 h
    cases h
    exact pair_distinct hpair

theorem statements_distinct {steps : Nat} {lines : List Statement}
    (h : statements steps cs = some lines) : ∀ s ∈ lines, s.IsDistinct := by
  induction steps generalizing cs lines with
  | zero =>
    rw [statements] at h
    cases h
  | succ steps ih =>
    rw [statements] at h
    obtain ⟨found, -, h⟩ := Option.bind_eq_some_iff.1 h
    dsimp only at h
    split at h
    · cases h
      exact fun s hs => absurd hs List.not_mem_nil
    · obtain ⟨⟨s, behind⟩, hs, h⟩ := Option.bind_eq_some_iff.1 h
      obtain ⟨next, -, h⟩ := Option.bind_eq_some_iff.1 h
      obtain ⟨others, hothers, rfl⟩ := Option.map_eq_some_iff.1 h
      exact List.forall_mem_cons.2 ⟨statement_distinct hs, ih hothers⟩

/-! ## Tables -/

/-- No name stands twice in the values of a table. -/
def Entries.IsDistinct (entries : Entries) : Prop :=
  ∀ name v, (name, Node.value v) ∈ entries → v.IsDistinct

namespace Entries

variable {entries later : Entries} {name : String} {node : Node}

theorem mem_set {e : String × Node} (h : e ∈ entries.set name node) :
    e = (name, node) ∨ e ∈ entries := by
  induction entries with
  | nil => exact .inl (List.mem_singleton.1 h)
  | cons f entries ih =>
    rw [set] at h
    split at h
    · exact (List.mem_cons.1 h).imp id (List.mem_cons_of_mem f)
    · rcases List.mem_cons.1 h with rfl | h
      · exact .inr List.mem_cons_self
      · exact (ih h).imp id (List.mem_cons_of_mem f)

theorem IsDistinct.set (h : entries.IsDistinct) (hnode : ∀ v, node = .value v → v.IsDistinct) :
    IsDistinct (Entries.set name node entries) := by
  intro other v hmem
  rcases mem_set hmem with heq | hmem
  · exact hnode v (Prod.mk.inj heq).2.symm
  · exact h other v hmem

/-- A change further down keeps a table as it is, apart from a table below it. -/
theorem IsDistinct.change {dotted : Bool} {f : Origin → Entries → Option Entries}
    {path : List String} {origin : Origin} (h : entries.IsDistinct)
    (hf : path = [] → ∀ later, f origin entries = some later → later.IsDistinct)
    (hchange : Entries.change dotted f path origin entries = some later) : later.IsDistinct := by
  cases path with
  | nil => exact hf rfl later hchange
  | cons part path =>
    rw [Entries.change] at hchange
    split at hchange
    · obtain ⟨sub, -, rfl⟩ := Option.map_eq_some_iff.1 hchange
      exact h.set nofun
    · split at hchange
      · cases hchange
      · obtain ⟨sub, -, rfl⟩ := Option.map_eq_some_iff.1 hchange
        exact h.set nofun
    · obtain ⟨sub, -, rfl⟩ := Option.map_eq_some_iff.1 hchange
      exact h.set nofun
    · cases hchange
    · cases hchange

theorem IsDistinct.addPair {path : List String} {v : Json} {origin : Origin}
    (h : entries.IsDistinct) (hv : v.IsDistinct)
    (hadd : Entries.addPair path name v origin entries = some later) : later.IsDistinct := by
  refine h.change (fun _ last hlast => ?_) hadd
  split at hlast
  · cases hlast
  split at hlast
  · cases hlast
  · cases hlast
    exact h.set fun w hw => Node.value.inj hw ▸ hv

theorem IsDistinct.openTable (h : entries.IsDistinct)
    (hopen : entries.openTable name = some later) : later.IsDistinct := by
  rw [Entries.openTable] at hopen
  split at hopen
  · cases hopen
    exact h.set nofun
  · cases hopen
    exact h.set nofun
  · cases hopen

theorem IsDistinct.openNext (h : entries.IsDistinct)
    (hopen : entries.openNext name = some later) : later.IsDistinct := by
  rw [Entries.openNext] at hopen
  split at hopen
  · cases hopen
    exact h.set nofun
  · cases hopen
    exact h.set nofun
  · cases hopen

theorem exists_node_of_mem_fields {f : String × Json} (h : f ∈ Node.entriesToFields entries) :
    ∃ node, (f.1, node) ∈ entries ∧ f.2 = node.toJson := by
  induction entries with
  | nil => exact absurd h List.not_mem_nil
  | cons e entries ih =>
    rw [Node.entriesToFields] at h
    rcases List.mem_cons.1 h with rfl | h
    · exact ⟨e.2, List.mem_cons_self, rfl⟩
    · obtain ⟨node, hnode, hf⟩ := ih h
      exact ⟨node, List.mem_cons_of_mem e hnode, hf⟩

/-- The parts of a table have distinct names. -/
theorem IsDistinct.part (h : entries.IsDistinct) {origin : Origin} {part : Json}
    (hpart : (Node.table origin entries).toJson.get? name = some part) : part.IsDistinct := by
  rw [Node.toJson] at hpart
  obtain ⟨node, hnode, rfl⟩ := exists_node_of_mem_fields (Json.mem_of_get?_object hpart)
  cases node with
  | value v =>
    rw [Node.toJson]
    exact h name v hnode
  | table origin sub =>
    rw [Node.toJson]
    exact Json.isDistinct_object _
  | tables ts =>
    rw [Node.toJson]
    exact Json.isDistinct_of_fields? rfl

end Entries

/-- A line keeps the tables distinct. -/
theorem add_distinct {p later : Progress} {s : Statement} (h : p.entries.IsDistinct)
    (hs : s.IsDistinct) (hadd : p.add s = some later) : later.entries.IsDistinct := by
  cases s with
  | table path =>
    obtain ⟨⟨above, name⟩, -, hadd⟩ := Option.bind_eq_some_iff.1 hadd
    obtain ⟨entries, hentries, hadd⟩ := Option.bind_eq_some_iff.1 hadd
    cases hadd
    exact h.change (fun _ _ => h.openTable) hentries
  | nextTable path =>
    obtain ⟨⟨above, name⟩, -, hadd⟩ := Option.bind_eq_some_iff.1 hadd
    obtain ⟨entries, hentries, hadd⟩ := Option.bind_eq_some_iff.1 hadd
    cases hadd
    exact h.change (fun _ _ => h.openNext) hentries
  | pair q =>
    obtain ⟨entries, hentries, hadd⟩ := Option.bind_eq_some_iff.1 hadd
    cases hadd
    refine h.change (fun _ last hlast => ?_) hentries
    exact h.addPair hs hlast

theorem foldlM_add_distinct {lines : List Statement} {p last : Progress}
    (h : p.entries.IsDistinct) (hlines : ∀ s ∈ lines, s.IsDistinct)
    (hadd : lines.foldlM Progress.add p = some last) : last.entries.IsDistinct := by
  induction lines generalizing p with
  | nil => exact Option.some.inj hadd ▸ h
  | cons s lines ih =>
    rw [List.foldlM_cons] at hadd
    obtain ⟨later, hs, hadd⟩ := Option.bind_eq_some_iff.1 hadd
    exact ih (add_distinct h (hlines s List.mem_cons_self) hs)
      (fun t ht => hlines t (List.mem_cons_of_mem s ht)) hadd

/-- **No name stands twice in a document, nor in a part of it.** -/
theorem document?_distinct {s : String} {j : Json} (h : document? s = some j) :
    (∃ fields, j = .obj fields) ∧ j.IsDistinct ∧
      ∀ name part, j.get? name = some part → part.IsDistinct := by
  obtain ⟨lines, hlines, h⟩ := Option.bind_eq_some_iff.1 h
  obtain ⟨p, hp, h⟩ := Option.bind_eq_some_iff.1 h
  have hdistinct : p.entries.IsDistinct :=
    foldlM_add_distinct (fun _ _ h => absurd h List.not_mem_nil) (statements_distinct hlines) hp
  obtain rfl := Option.some.inj h
  refine ⟨⟨_, Node.toJson.eq_2 .header p.entries⟩, ?_, fun name part => hdistinct.part⟩
  rw [Node.toJson]
  exact Json.isDistinct_object _

end Toml

end RitualLedger
