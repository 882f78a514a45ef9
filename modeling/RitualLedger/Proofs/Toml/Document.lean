import RitualLedger.Proofs.Toml.Line

/-!
# Documents of TOML read back

A document that is written as tables with their lines is read as an object of objects
(`Toml.document?_documentText`), if no table and no key of a table is named twice. The lines are
recognised one after the other, and each of them finds the tables as the lines before it have left
them: all tables so far as they were written, the last of them open.
-/

namespace RitualLedger.Toml

/-- A table with its lines. -/
structure Table where
  name : String
  lines : List Line

namespace Table

/-- The characters of a table. -/
def text (t : Table) : List Char := headerText t.name ++ t.lines.flatMap Line.text

/-- A table that is read as it is meant. -/
structure Sound (t : Table) : Prop where
  bare : IsBare t.name
  lines : ∀ l ∈ t.lines, l.Sound
  distinct : (t.lines.map Line.name).Nodup

/-- The keys of a table with their values. -/
def entries (t : Table) : Entries := t.lines.map fun l => (l.name, .value l.value)

/-- What is read from the lines of a table. -/
def statements (t : Table) : List Statement :=
  .table [t.name] :: t.lines.map fun l => .pair l.pair

/-- The value of a table. -/
def json (t : Table) : Json := Json.object (t.lines.map fun l => (l.name, l.value))

end Table

/-- The characters of tables with a blank line between them. -/
def documentText : List Table → List Char
  | [] => []
  | [t] => t.text
  | t :: u :: rest => t.text ++ '\n' :: documentText (u :: rest)

variable {tables : List Table} {t : Table} {cs rest : List Char}

/-! ## Recognising the lines -/

/-- What a line says is followed by what the lines behind it say. -/
theorem statements_of_statement {c : Char} {s : Statement}
    (hhead : c ≠ ' ' ∧ c ≠ '\t' ∧ c ≠ '#' ∧ c ≠ '\n' ∧ c ≠ '\r')
    (hs : statement (c :: cs) = some (s, '\n' :: rest)) (steps : Nat) :
    statements (steps + 1) (c :: cs) = (statements steps rest).map (s :: ·) := by
  rw [statements, skipLines_of_head _ hhead]
  simp only [Option.bind_eq_bind, Option.bind_some, hs]
  rfl

theorem Line.Sound.statements_text {l : Line} (h : l.Sound) (steps : Nat) (rest : List Char) :
    statements (steps + 1) (l.text ++ rest) =
      (statements steps rest).map (.pair l.pair :: ·) := by
  obtain ⟨c, cs, hname, hne⟩ := h.bare.starts
  have hs := h.statement_text rest
  rw [Line.text, hname] at hs ⊢
  exact statements_of_statement ⟨hne _ (by decide), hne _ (by decide), hne _ (by decide),
    hne _ (by decide), hne _ (by decide)⟩ hs steps

theorem IsBare.statements_header {name : String} (h : IsBare name) (steps : Nat)
    (rest : List Char) : statements (steps + 1) (headerText name ++ rest) =
      (statements steps rest).map (.table [name] :: ·) :=
  statements_of_statement (by decide) (h.statement_header rest) steps

theorem statements_lines {lines : List Line} (h : ∀ l ∈ lines, l.Sound) (steps : Nat)
    (rest : List Char) : statements (steps + lines.length) (lines.flatMap Line.text ++ rest) =
      (statements steps rest).map ((lines.map fun l => .pair l.pair) ++ ·) := by
  induction lines with
  | nil => cases h : statements steps rest <;> simp [h]
  | cons l lines ih =>
    rw [List.length_cons, List.flatMap_cons, List.append_assoc, ← Nat.add_assoc,
      (h l List.mem_cons_self).statements_text, ih fun m hm => h m (List.mem_cons_of_mem l hm),
      Option.map_map]
    rfl

theorem Table.Sound.statements_text (h : t.Sound) (steps : Nat) (rest : List Char) :
    Toml.statements (steps + t.statements.length) (t.text ++ rest) =
      (Toml.statements steps rest).map (t.statements ++ ·) := by
  have hlength : steps + t.statements.length = steps + t.lines.length + 1 := by
    rw [Table.statements, List.length_cons, List.length_map, Nat.add_assoc]
  rw [hlength, Table.text, List.append_assoc, h.bare.statements_header, statements_lines h.lines,
    Option.map_map]
  rfl

/-- A blank line in front of a table is skipped. -/
theorem statements_blank (steps : Nat) :
    statements (steps + 1) ('\n' :: '[' :: rest) = statements (steps + 1) ('[' :: rest) := by
  have hskip : skipLines (('[' :: rest).length + 1) ('[' :: rest) = some ('[' :: rest) :=
    skipLines_of_head _ (by decide)
  have hblank : skipLines (('\n' :: '[' :: rest).length + 1) ('\n' :: '[' :: rest) =
      some ('[' :: rest) := hskip
  rw [statements, statements, hblank, hskip]

/-- The lines of a document are recognised in their order. -/
theorem statements_documentText (h : ∀ t ∈ tables, t.Sound) (steps : Nat) :
    statements (steps + 1 + (tables.flatMap Table.statements).length) (documentText tables) =
      some (tables.flatMap Table.statements) := by
  induction tables with
  | nil => rfl
  | cons t tables ih =>
    have hrest := ih fun u hu => h u (List.mem_cons_of_mem t hu)
    have htext := (h t List.mem_cons_self).statements_text
    rw [List.flatMap_cons, List.length_append, Nat.add_comm t.statements.length, ← Nat.add_assoc]
    cases tables with
    | nil =>
      rw [documentText, ← List.append_nil t.text, htext]
      rfl
    | cons u tables =>
      rw [documentText, htext]
      have hstarts : ∃ more, documentText (u :: tables) = '[' :: more := by
        cases tables <;> exact ⟨_, rfl⟩
      obtain ⟨more, hmore⟩ := hstarts
      rw [hmore] at hrest ⊢
      rw [Nat.add_right_comm] at hrest ⊢
      rw [statements_blank, hrest]
      rfl

/-! ## Building the tables -/

namespace Entries

variable {entries before : Entries} {name : String} {node old : Node}

theorem find?_append_of_notMem (h : name ∉ before.map (·.1)) :
    Entries.find? name (before ++ entries) = entries.find? name := by
  induction before with
  | nil => rfl
  | cons e before ih =>
    rw [List.map_cons, List.mem_cons, not_or] at h
    rw [List.cons_append, find?, if_neg (Ne.symm h.1), ih h.2]

theorem set_append_of_notMem (h : name ∉ before.map (·.1)) :
    Entries.set name node (before ++ entries) = before ++ entries.set name node := by
  induction before with
  | nil => rfl
  | cons e before ih =>
    rw [List.map_cons, List.mem_cons, not_or] at h
    rw [List.cons_append, set, if_neg (Ne.symm h.1), ih h.2]
    rfl

/-- A new key stands nowhere yet. -/
theorem find?_eq_none (h : name ∉ before.map (·.1)) : before.find? name = none := by
  have hfind : Entries.find? name (before ++ []) = none := find?_append_of_notMem h
  rwa [List.append_nil] at hfind

/-- A new key comes last. -/
theorem set_eq_append (h : name ∉ before.map (·.1)) :
    before.set name node = before ++ [(name, node)] := by
  have hset : Entries.set name node (before ++ []) = before ++ [(name, node)] :=
    set_append_of_notMem h
  rwa [List.append_nil] at hset

theorem find?_append_self (h : name ∉ before.map (·.1)) :
    Entries.find? name (before ++ [(name, node)]) = some node := by
  rw [find?_append_of_notMem h, find?, if_pos rfl]

theorem set_append_self (h : name ∉ before.map (·.1)) :
    Entries.set name node (before ++ [(name, old)]) = before ++ [(name, node)] := by
  rw [set_append_of_notMem h, set, if_pos rfl]

end Entries

/-- The tables so far, the last one open with some of its lines. -/
def progressOf (before : Entries) (name : String) (sub : Entries) : Progress :=
  ⟨before ++ [(name, .table .header sub)], [name]⟩

variable {before sub : Entries} {name : String}

theorem add_header (p : Progress) (h : name ∉ p.entries.map (·.1)) :
    p.add (.table [name]) = some (progressOf p.entries name []) := by
  have hchange : p.entries.change false (fun _ es => es.openTable name) [] .header =
      some (p.entries ++ [(name, .table .header [])]) := by
    rw [Entries.change, Entries.openTable, Entries.find?_eq_none h]
    exact congrArg some (Entries.set_eq_append h)
  change (p.entries.change false (fun _ es => es.openTable name) [] .header).bind _ = _
  rw [hchange]
  rfl

theorem add_line {l : Line} (h : name ∉ before.map (·.1)) (hl : l.name ∉ sub.map (·.1)) :
    (progressOf before name sub).add (.pair l.pair) =
      some (progressOf before name (sub ++ [(l.name, .value l.value)])) := by
  have hpair :
      sub.addPair [] l.name l.value .header = some (sub ++ [(l.name, .value l.value)]) := by
    rw [Entries.addPair, Entries.change, if_neg (by simp), Entries.find?_eq_none hl]
    exact congrArg some (Entries.set_eq_append hl)
  have hchange : Entries.change false (fun _ es => es.addPair [] l.name l.value .header) [name]
      .header (before ++ [(name, .table .header sub)]) =
        some (before ++ [(name, .table .header (sub ++ [(l.name, .value l.value)]))]) := by
    rw [Entries.change, Entries.find?_append_self h]
    simp only [Bool.false_eq_true, false_and, if_false]
    rw [Entries.change, hpair]
    exact congrArg some (Entries.set_append_self h)
  change (Entries.change false (fun _ es => es.addPair [] l.name l.value .header) [name]
    .header (before ++ [(name, .table .header sub)])).bind _ = _
  rw [hchange]
  rfl

/-- The lines of a table are added to it. -/
theorem add_lines {lines : List Line} (h : name ∉ before.map (·.1))
    (hdistinct : (sub.map (·.1) ++ lines.map Line.name).Nodup) :
    (lines.map fun l => Statement.pair l.pair).foldlM Progress.add (progressOf before name sub) =
      some (progressOf before name (sub ++ lines.map fun l => (l.name, .value l.value))) := by
  induction lines generalizing sub with
  | nil =>
    simp only [List.map_nil, List.append_nil]
    rfl
  | cons l lines ih =>
    have hl : l.name ∉ sub.map (·.1) := fun hmem =>
      (List.nodup_append.1 hdistinct).2.2 _ hmem _ List.mem_cons_self rfl
    rw [List.map_cons, List.foldlM_cons, add_line h hl]
    change List.foldlM Progress.add _ _ = _
    rw [ih (by simpa using hdistinct)]
    simp

/-- A table is added to the tables before it. -/
theorem Table.Sound.add (ht : t.Sound) (p : Progress) (h : t.name ∉ p.entries.map (·.1)) :
    t.statements.foldlM Progress.add p = some (progressOf p.entries t.name t.entries) := by
  rw [Table.statements, List.foldlM_cons, add_header p h]
  change List.foldlM Progress.add _ _ = _
  rw [add_lines h (by simpa using ht.distinct)]
  rfl

/-- All tables are added in their order. -/
theorem add_tables (h : ∀ t ∈ tables, t.Sound) (p : Progress)
    (hdistinct : (p.entries.map (·.1) ++ tables.map Table.name).Nodup) :
    ∃ current, (tables.flatMap Table.statements).foldlM Progress.add p =
      some ⟨p.entries ++ tables.map fun t => (t.name, .table .header t.entries), current⟩ := by
  induction tables generalizing p with
  | nil => exact ⟨p.current, by rw [List.map_nil, List.append_nil]; rfl⟩
  | cons t tables ih =>
    have ht : t.name ∉ p.entries.map (·.1) := fun hmem =>
      (List.nodup_append.1 hdistinct).2.2 _ hmem _ List.mem_cons_self rfl
    obtain ⟨current, hrest⟩ := ih (fun u hu => h u (List.mem_cons_of_mem t hu))
      (progressOf p.entries t.name t.entries) (by simpa [progressOf] using hdistinct)
    refine ⟨current, ?_⟩
    rw [List.flatMap_cons, List.foldlM_append, (h t List.mem_cons_self).add p ht]
    change List.foldlM Progress.add _ _ = _
    rw [hrest]
    simp [progressOf]

/-! ## The document -/

theorem entriesToFields_values (lines : List Line) :
    Node.entriesToFields (lines.map fun l => (l.name, .value l.value)) =
      lines.map fun l => (l.name, l.value) := by
  induction lines with
  | nil => rfl
  | cons l lines ih =>
    rw [List.map_cons, Node.entriesToFields, ih]
    rfl

theorem Table.toJson_entries (t : Table) : (Node.table .header t.entries).toJson = t.json := by
  rw [Node.toJson, Table.entries, entriesToFields_values, Table.json]

theorem entriesToFields_tables (tables : List Table) :
    Node.entriesToFields (tables.map fun t => (t.name, .table .header t.entries)) =
      tables.map fun t => (t.name, t.json) := by
  induction tables with
  | nil => rfl
  | cons t tables ih =>
    rw [List.map_cons, Node.entriesToFields, ih, Table.toJson_entries]
    rfl

theorem Table.length_statements_le (t : Table) : t.statements.length ≤ t.text.length := by
  have hlines : ∀ lines : List Line, lines.length ≤ (lines.flatMap Line.text).length := by
    intro lines
    induction lines with
    | nil => exact Nat.le_refl 0
    | cons l lines ih =>
      rw [List.flatMap_cons, List.length_append, List.length_cons, Line.text, List.length_append,
        List.length_cons]
      omega
  have := hlines t.lines
  rw [Table.statements, Table.text, headerText, List.length_append, List.length_cons,
    List.length_cons, List.length_map]
  omega

/-- A document has at least as many characters as lines. -/
theorem length_statements_le (tables : List Table) :
    (tables.flatMap Table.statements).length ≤ (documentText tables).length := by
  induction tables with
  | nil => exact Nat.le_refl 0
  | cons t tables ih =>
    have ht := t.length_statements_le
    rw [List.flatMap_cons, List.length_append]
    cases tables with
    | nil => exact ht
    | cons u tables =>
      rw [documentText, List.length_append, List.length_cons]
      omega

theorem skipMark_documentText (tables : List Table) :
    skipMark (documentText tables) = documentText tables := by
  cases tables with
  | nil => rfl
  | cons t tables => cases tables <;> rfl

/-- **A document that is written as tables is read as an object of objects.** -/
theorem document?_documentText (h : ∀ t ∈ tables, t.Sound)
    (hdistinct : (tables.map Table.name).Nodup) :
    document? (String.ofList (documentText tables)) =
      some (Json.object (tables.map fun t => (t.name, t.json))) := by
  obtain ⟨current, hbuilt⟩ := add_tables h ⟨[], []⟩ (by simpa using hdistinct)
  have hlines : statements ((documentText tables).length + 1) (documentText tables) =
      some (tables.flatMap Table.statements) := by
    obtain ⟨steps, hsteps⟩ := Nat.exists_eq_add_of_le' (length_statements_le tables)
    have := statements_documentText h steps
    rw [Nat.add_right_comm, ← hsteps] at this
    exact this
  rw [document?, String.toList_ofList, skipMark_documentText]
  simp only [hlines, Option.bind_eq_bind, Option.bind_some]
  rw [hbuilt]
  change some (Node.table .header _).toJson = _
  rw [Node.toJson, List.nil_append, entriesToFields_tables]

end RitualLedger.Toml
