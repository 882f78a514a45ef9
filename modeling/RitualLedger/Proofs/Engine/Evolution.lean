import RitualLedger.Completion.Operations
import RitualLedger.Proofs.Engine.Snapshot
import RitualLedger.Proofs.Rule.Keys
import RitualLedger.Proofs.Store.History
import RitualLedger.Signal.Intake

/-!
# What lasts in the store of the engine

The store of the engine is typed: under a key of a collection stands the document of a value of the
collection's type, and the value is named by the id (`Store.WellTyped`). So whatever the engine has
stored it can read.

A client that reads, and later commits, relies on what other clients cannot take back meanwhile.
`Evolves` lists it: versions grow; entries of the log-like collections stay as they were written; a
ritual keeps its terms, which is all of it but the progress; and an id that a client has drawn for
itself is not put to use by others.
-/

namespace RitualLedger

/-! ## Typed collections -/

/-- Whether a body is the document of a fitting value that is named by the id. -/
def IsRecord (α : Type) [Document α] [LawfulDocument α] (named : α → String → Prop) (id : String)
    (body : Json) : Prop :=
  ∃ x : α, Fits x ∧ named x id ∧ body = encode x

/-- Whether a body may stand under an id of a collection. -/
def Collection.Holds : Collection → String → Json → Prop
  | .accounts => IsRecord Account fun a id => a.subjectId = id
  | .rituals => IsRecord Ritual fun r id => r.id = id
  | .assignments => IsRecord Assignment fun a id => a.subjectId = id
  | .transactions => IsRecord Transaction fun t id => t.id = id
  | .evidence => IsRecord EvidenceRecord fun e id => e.taskId ++ ":" ++ e.subjectId = id
  | .completions => IsRecord CompletionRecord fun c id => c.step.id = id
  | .notifications => IsRecord Notification fun n id => n.id = id
  | .moods => IsRecord MoodEntry fun _ _ => True
  | .activities => IsRecord Activity fun _ _ => True

/-- A type whose values are the documents of a collection. -/
class Record (α : Type) [Document α] [LawfulDocument α] where
  collection : Collection
  Named : α → String → Prop
  holds : collection.Holds = IsRecord α Named

instance : Record Account := ⟨.accounts, _, rfl⟩
instance : Record Ritual := ⟨.rituals, _, rfl⟩
instance : Record Assignment := ⟨.assignments, _, rfl⟩
instance : Record Transaction := ⟨.transactions, _, rfl⟩
instance : Record EvidenceRecord := ⟨.evidence, _, rfl⟩
instance : Record CompletionRecord := ⟨.completions, _, rfl⟩
instance : Record Notification := ⟨.notifications, _, rfl⟩
instance : Record MoodEntry := ⟨.moods, _, rfl⟩
instance : Record Activity := ⟨.activities, _, rfl⟩

namespace Store

variable {s t : Store}

/-- Every document is of the type of its collection. -/
def WellTyped (s : Store) : Prop :=
  ∀ (c : Collection) (id : String) (doc : Versioned),
    s.read? (c.key id) = some doc → c.Holds id doc.body

theorem wellTyped_empty : empty.WellTyped := by
  intro c id doc h
  cases h

section

variable {α : Type} [Document α] [LawfulDocument α] [Record α] {id : String}

theorem WellTyped.isRecord (h : s.WellTyped) {doc : Versioned}
    (hread : s.read? ((Record.collection α).key id) = some doc) :
    IsRecord α (Record.Named) id doc.body := by
  have hholds := h _ _ _ hread
  rwa [Record.holds] at hholds

/-- What is read is fitting, and named by its id. -/
theorem WellTyped.named (h : s.WellTyped) {x : α}
    (hget : s.get? α ((Record.collection α).key id) = some x) : Fits x ∧ Record.Named x id := by
  obtain ⟨doc, hread⟩ := Option.ne_none_iff_exists'.1 (present_of_get? hget)
  obtain ⟨y, hfits, hnamed, hbody⟩ := h.isRecord (α := α) hread
  rw [get?_of_read? hread, hbody, decode_encode hfits] at hget
  cases hget
  exact ⟨hfits, hnamed⟩

/-- What is there is decoded. -/
theorem WellTyped.decoded (h : s.WellTyped) {doc : Versioned}
    (hread : s.read? ((Record.collection α).key id) = some doc) :
    ∃ x, decode? doc.body = some x ∧ s.get? α ((Record.collection α).key id) = some x := by
  obtain ⟨x, hfits, -, hbody⟩ := h.isRecord (α := α) hread
  have hdecode : decode? doc.body = some x := by
    rw [hbody, decode_encode hfits]
  exact ⟨x, hdecode, (get?_of_read? hread).trans hdecode⟩

/-- What is there can be read. -/
theorem WellTyped.readable (h : s.WellTyped)
    (hpresent : s.read? ((Record.collection α).key id) ≠ none) :
    ∃ x, s.get? α ((Record.collection α).key id) = some x := by
  obtain ⟨doc, hread⟩ := Option.ne_none_iff_exists'.1 hpresent
  obtain ⟨x, -, hget⟩ := h.decoded (α := α) hread
  exact ⟨x, hget⟩

/-- A typed read in a snapshot gives what is stored where the document was looked up. -/
theorem WellTyped.get_snapshot (h : s.WellTyped) {snapshot : Snapshot}
    (hdoc : snapshot.doc? ((Record.collection α).key id) =
      s.read? ((Record.collection α).key id)) :
    snapshot.get ((Record.collection α).key id) =
      .ok (s.get? α ((Record.collection α).key id)) := by
  rw [Snapshot.get, hdoc]
  cases hread : s.read? ((Record.collection α).key id) with
  | none => rw [get?_of_absent hread]
  | some doc =>
    obtain ⟨x, hdecode, hget⟩ := h.decoded (α := α) hread
    simp only [hdecode, hget]

theorem WellTyped.get_atOnce (h : s.WellTyped) {keys : List DocKey}
    (hkey : (Record.collection α).key id ∈ keys) :
    (Snapshot.atOnce s keys).get ((Record.collection α).key id) =
      .ok (s.get? α ((Record.collection α).key id)) :=
  h.get_snapshot (Snapshot.doc?_atOnce hkey)

/-- The values of a type's collection, in the order of their first writes. -/
def all (α : Type) [Document α] [LawfulDocument α] [Record α] (s : Store) : List α :=
  (s.inCollection (Record.collection α).name).filterMap fun d => decode? d.2

theorem mem_all (hkeys : s.HasDistinctKeys) {x : α} :
    x ∈ s.all α ↔ ∃ id, s.get? α ((Record.collection α).key id) = some x := by
  simp only [all, List.mem_filterMap, Prod.exists]
  constructor
  · rintro ⟨id, body, hmem, hdecode⟩
    obtain ⟨version, hread⟩ := (mem_inCollection hkeys).1 hmem
    exact ⟨id, (get?_of_read? hread).trans hdecode⟩
  · rintro ⟨id, hget⟩
    obtain ⟨⟨body, version⟩, hread⟩ := Option.ne_none_iff_exists'.1 (present_of_get? hget)
    exact ⟨id, body, (mem_inCollection hkeys).2 ⟨version, hread⟩,
      (get?_of_read? hread).symm.trans hget⟩

theorem decodeAll_of_isRecord {docs : List (String × Json)}
    (h : ∀ d ∈ docs, IsRecord α Record.Named d.1 d.2) :
    decodeAll docs = .ok (docs.filterMap fun d => decode? (α := α) d.2) := by
  induction docs with
  | nil => rfl
  | cons d rest ih =>
    obtain ⟨id, body⟩ := d
    obtain ⟨x, hfits, -, hbody⟩ := h _ List.mem_cons_self
    have hdecode : decode? (α := α) body = some x := by
      have hbody : body = encode x := hbody
      rw [hbody, decode_encode hfits]
    rw [decodeAll, hdecode, ih fun d hd => h d (List.mem_cons_of_mem _ hd)]
    simp only [List.filterMap_cons, hdecode]
    rfl

/-- Every document of a collection is a record of the collection's type. -/
theorem WellTyped.isRecord_of_mem (h : s.WellTyped) (hkeys : s.HasDistinctKeys) :
    ∀ d ∈ s.inCollection (Record.collection α).name, IsRecord α Record.Named d.1 d.2 := by
  rintro ⟨id, body⟩ hd
  obtain ⟨version, hread⟩ := (mem_inCollection hkeys).1 hd
  exact h.isRecord (α := α) hread

/-- A collection can be read, all of it. -/
theorem WellTyped.decodeAll_eq (h : s.WellTyped) (hkeys : s.HasDistinctKeys) :
    decodeAll (s.inCollection (Record.collection α).name) = .ok (s.all α) :=
  decodeAll_of_isRecord (h.isRecord_of_mem hkeys)

/-- The values of a collection are named by their ids. -/
theorem WellTyped.map_all (h : s.WellTyped) (hkeys : s.HasDistinctKeys) {name : α → String}
    (hname : ∀ x id, Record.Named x id → name x = id) :
    (s.all α).map name = (s.inCollection (Record.collection α).name).map (·.1) := by
  have hrecords := h.isRecord_of_mem (α := α) hkeys
  rw [all]
  generalize s.inCollection (Record.collection α).name = docs at hrecords ⊢
  induction docs with
  | nil => rfl
  | cons d rest ih =>
    obtain ⟨x, hfits, hnamed, hbody⟩ := hrecords d List.mem_cons_self
    have hdecode : decode? d.2 = some x := by
      rw [hbody]
      exact decode_encode hfits
    rw [List.filterMap_cons, hdecode, List.map_cons, List.map_cons, hname x d.1 hnamed,
      ih fun d hd => hrecords d (List.mem_cons_of_mem _ hd)]

/-- The names of a collection's values are the ids that are there. -/
theorem WellTyped.mem_map_all (h : s.WellTyped) (name : α → String) (hkeys : s.HasDistinctKeys)
    (hname : ∀ x id, Record.Named x id → name x = id) :
    id ∈ (s.all α).map name ↔ s.read? ((Record.collection α).key id) ≠ none := by
  rw [h.map_all hkeys hname, List.mem_map]
  constructor
  · rintro ⟨⟨i, body⟩, hd, rfl⟩
    obtain ⟨version, hread⟩ := (mem_inCollection hkeys).1 hd
    intro habsent
    cases habsent.symm.trans hread
  · intro hpresent
    obtain ⟨⟨body, version⟩, hread⟩ := Option.ne_none_iff_exists'.1 hpresent
    exact ⟨(id, body), (mem_inCollection hkeys).2 ⟨version, hread⟩, rfl⟩

/-- Where nothing stands under an id no value is named by it. -/
theorem WellTyped.filter_all_of_absent (h : s.WellTyped) (name : α → String)
    (hkeys : s.HasDistinctKeys) (hname : ∀ x id, Record.Named x id → name x = id) {p : α → Bool}
    (hp : ∀ x, p x = true → name x = id)
    (habsent : s.read? ((Record.collection α).key id) = none) : (s.all α).filter p = [] := by
  refine List.filter_eq_nil_iff.2 fun x hx hpx => ?_
  refine (h.mem_map_all name hkeys hname).1 ?_ habsent
  exact hp x hpx ▸ List.mem_map_of_mem hx

end

theorem WellTyped.put (h : s.WellTyped) {c : Collection} {id : String} {body : Json}
    (hbody : c.Holds id body) : (s.put (c.key id) body).WellTyped := by
  intro c' id' doc hread
  by_cases hkey : c'.key id' = c.key id
  · obtain ⟨rfl, rfl⟩ := Collection.key_inj.1 hkey
    rw [read?_put_self] at hread
    cases hread
    exact hbody
  · rw [read?_put_of_ne hkey] at hread
    exact h c' id' doc hread

end Store

/-! ## Terms -/

/-- A task without what has become of it. -/
def Task.terms (t : Task) : Task := { t with status := .pending, completedAt := none }

/-- What of a task is in its terms. -/
theorem Task.of_terms {t t' : Task} (h : t.terms = t'.terms) :
    t.id = t'.id ∧ t.order = t'.order ∧ t.evidenceKind = t'.evidenceKind ∧
      t.tokenReward = t'.tokenReward := by
  obtain ⟨id, order, title, description, evidenceKind, tokenReward, status, completedAt⟩ := t
  cases h
  exact ⟨rfl, rfl, rfl, rfl⟩

/-- A ritual without its progress. -/
def Ritual.terms (r : Ritual) : Ritual :=
  { r with status := .active, currentTaskIndex := 0, tasks := r.tasks.map Task.terms }

theorem Ritual.conditions_of_terms {r r' : Ritual} (h : r.terms = r'.terms) :
    r.conditions = r'.conditions := by
  have hconditions := congrArg Ritual.conditions h
  exact hconditions

theorem Ritual.ids_of_terms {r r' : Ritual} (h : r.terms = r'.terms) :
    r.id = r'.id ∧ r.tasks.map (·.id) = r'.tasks.map (·.id) := by
  have hid := congrArg Ritual.id h
  have htasks := congrArg (fun r => r.tasks.map (·.id)) h
  simp only [Ritual.terms, List.map_map] at htasks
  exact ⟨hid, htasks⟩

theorem Ritual.length_of_terms {r r' : Ritual} (h : r.terms = r'.terms) :
    r.tasks.length = r'.tasks.length := by
  have hids := congrArg List.length (ids_of_terms h).2
  rwa [List.length_map, List.length_map] at hids

/-- Rituals with the same terms have the same tasks, but for what has become of them. -/
theorem Ritual.getElem?_of_terms {r r' : Ritual} (h : r.terms = r'.terms) {j : Nat} {task : Task}
    (htask : r.tasks[j]? = some task) :
    ∃ task', r'.tasks[j]? = some task' ∧ task.terms = task'.terms := by
  have htasks : r.tasks.map Task.terms = r'.tasks.map Task.terms := congrArg Ritual.tasks h
  have hplace := congrArg (fun l => l[j]?) htasks
  simp only [List.getElem?_map] at hplace
  rw [htask] at hplace
  obtain ⟨task', htask', hterms⟩ := Option.map_eq_some_iff.1 hplace.symm
  exact ⟨task', htask', hterms.symm⟩

theorem Ritual.task?_of_terms {r r' : Ritual} (h : r.terms = r'.terms) {i : UInt64} {task : Task}
    (htask : r.task? i = some task) :
    ∃ task', r'.task? i = some task' ∧ task.terms = task'.terms :=
  getElem?_of_terms h htask

/-- Taking a step does not touch the terms. -/
theorem Completion.terms_advance (r : Ritual) (c : CompletionRecord) :
    (Completion.advance r c).terms = r.terms := by
  have htasks : (r.tasks.modify c.taskIndex.toNat fun t =>
      { t with status := .completed, completedAt := some c.completedAt }).map Task.terms =
        r.tasks.map Task.terms := by
    apply List.ext_getElem?
    intro j
    simp only [List.getElem?_map, List.getElem?_modify]
    split
    · cases r.tasks[j]? <;> rfl
    · simp
  simp only [Ritual.terms, Completion.advance, htasks]

/-! ## Ids that are not in use -/

/-- An id that names no ritual, no task and no mood. -/
structure Store.Unused (s : Store) (id : String) : Prop where
  ritual : ∀ key r, s.get? Ritual (Ritual.key key) = some r → r.id ≠ id
  task : ∀ key r, s.get? Ritual (Ritual.key key) = some r → ∀ t ∈ r.tasks, t.id ≠ id
  mood : s.read? (Collection.moods.key id) = none

theorem Store.unused_empty (id : String) : Store.empty.Unused id :=
  ⟨nofun, nofun, rfl⟩

/-! ## Evolution -/

/-- The collections whose documents stay as they were written. -/
def Collection.isFrozen : Collection → Bool
  | .transactions | .evidence | .completions | .moods | .activities => true
  | .accounts | .rituals | .assignments | .notifications => false

/-- What a client may rely on between two of its requests, when it has drawn some ids. -/
structure Evolves (own : List String) (s t : Store) : Prop where
  le : s ≤ t
  /-- Entries stay as they are. -/
  entries : ∀ c id doc, Collection.isFrozen c = true →
    s.read? (c.key id) = some doc → t.read? (c.key id) = some doc
  /-- Rituals keep their terms. -/
  rituals : ∀ id r, s.get? Ritual (Ritual.key id) = some r →
    ∃ r', t.get? Ritual (Ritual.key id) = some r' ∧ r'.terms = r.terms
  /-- Others do not use the ids. -/
  spared : ∀ id ∈ own, s.Unused id → t.Unused id

namespace Evolves

variable {own : List String} {s t u : Store}

theorem refl (own : List String) (s : Store) : Evolves own s s where
  le := le_refl s
  entries _ _ _ _ h := h
  rituals _ r h := ⟨r, h, rfl⟩
  spared _ _ h := h

theorem trans (h : Evolves own s t) (h' : Evolves own t u) : Evolves own s u where
  le := h.le.trans h'.le
  entries c id doc hc hread := h'.entries c id doc hc (h.entries c id doc hc hread)
  rituals id r hget := by
    obtain ⟨r', hget', hterms'⟩ := h.rituals id r hget
    obtain ⟨r'', hget'', hterms''⟩ := h'.rituals id r' hget'
    exact ⟨r'', hget'', hterms''.trans hterms'⟩
  spared id hid hunused := h'.spared id hid (h.spared id hid hunused)

/-- Relying on fewer ids is weaker. -/
theorem mono {own' : List String} (h : Evolves own s t) (hown : own' ⊆ own) : Evolves own' s t :=
  { h with spared := fun id hid => h.spared id (hown hid) }

/-- An entry reads as before. -/
theorem get? {α : Type} [Document α] (h : Evolves own s t) {c : Collection} {id : String} {x : α}
    (hc : c.isFrozen = true) (hget : s.get? α (c.key id) = some x) :
    t.get? α (c.key id) = some x := by
  obtain ⟨doc, hread⟩ := Option.ne_none_iff_exists'.1 (Store.present_of_get? hget)
  rw [Store.get?_of_read? (h.entries c id doc hc hread), ← Store.get?_of_read? hread, hget]

end Evolves

end RitualLedger
