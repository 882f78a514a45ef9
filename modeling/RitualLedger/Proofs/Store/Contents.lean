import RitualLedger.Proofs.Document.Faithful
import RitualLedger.Store.Basic

/-!
# What a store holds

The laws of reading after writing. A write changes the document of its own key: the body is the new
one and the version one more than before, where an absent document counts as version zero. All
other keys read as before. A commit that goes through has met no stale stamp and applies all of its
writes, one after the other.

`Store.get?` is the typed view: the document of a key, decoded. Together with the keys of the
collections, which never coincide, it is all that the theory of the engine sees of a store.
-/

namespace RitualLedger

namespace Store

variable {s t : Store} {key other : DocKey} {body : Json}

/-! ## Reading after writing -/

theorem read?_put_self : (s.put key body).read? key = some ⟨body, (s.version? key).getD 0 + 1⟩ := by
  obtain ⟨documents⟩ := s
  simp only [read?, version?, put]
  induction documents with
  | nil => simp [writeInto]
  | cons d rest ih =>
    by_cases h : d.key = key
    · simp [writeInto, h]
    · rw [writeInto, if_neg h, List.find?_cons_of_neg (by simp [h]), ih,
        List.find?_cons_of_neg (by simp [h])]

theorem read?_put_of_ne (h : other ≠ key) : (s.put key body).read? other = s.read? other := by
  obtain ⟨documents⟩ := s
  simp only [read?, put]
  induction documents with
  | nil => simp [writeInto, Ne.symm h]
  | cons d rest ih =>
    by_cases hd : d.key = key
    · have hother : d.key ≠ other := fun heq => h (heq.symm.trans hd)
      rw [writeInto, if_pos hd, List.find?_cons_of_neg (by simp [Ne.symm h]),
        List.find?_cons_of_neg (by simp [hother])]
    · rw [writeInto, if_neg hd]
      by_cases hother : d.key = other
      · rw [List.find?_cons_of_pos (by simp [hother]), List.find?_cons_of_pos (by simp [hother])]
      · rw [List.find?_cons_of_neg (by simp [hother]), ih,
          List.find?_cons_of_neg (by simp [hother])]

/-! ## Commits -/

/-- Writes that go through do so one after the other. -/
theorem apply_cons {w : Write} {ws : List Write} (h : s.apply (w :: ws) = .ok t) :
    ∃ s', s.write w = .ok s' ∧ s'.apply ws = .ok t := by
  have hwrite : (s.write w).bind (fun s' => s'.apply ws) = .ok t := h
  cases hw : s.write w with
  | error e =>
    rw [hw] at hwrite
    cases hwrite
  | ok s' =>
    rw [hw] at hwrite
    exact ⟨s', rfl, hwrite⟩

/-- An insertion that goes through has found its key free. -/
theorem apply_insert {ws : List Write} (h : s.apply (.insert key body :: ws) = .ok t) :
    s.read? key = none ∧ (s.put key body).apply ws = .ok t := by
  obtain ⟨s', hwrite, hrest⟩ := apply_cons h
  cases hread : s.read? key with
  | none =>
    simp only [write, hread] at hwrite
    cases hwrite
    exact ⟨rfl, hrest⟩
  | some doc =>
    simp only [write, hread] at hwrite
    cases hwrite

theorem write_eq_put {w : Write} (h : s.write w = .ok t) : t = s.put w.key w.body := by
  cases w with
  | put key body =>
    cases h
    rfl
  | insert key body =>
    cases hread : s.read? key with
    | none =>
      simp only [write, hread] at h
      cases h
      rfl
    | some doc =>
      simp only [write, hread] at h
      cases h

/-- A commit that goes through has met current stamps only, and leaves the applied writes. -/
theorem commit_eq_ok {stamps : List Stamp} {ws : List Write} (h : s.commit stamps ws = .ok t) :
    (∀ stamp ∈ stamps, s.version? stamp.key = stamp.version) ∧ s.apply ws = .ok t := by
  simp only [commit] at h
  cases hstale : s.staleStamp? stamps with
  | some stamp =>
    rw [hstale] at h
    cases h
  | none =>
    rw [hstale] at h
    refine ⟨?_, h⟩
    intro stamp hstamp
    have hcurrent := List.find?_eq_none.1 hstale stamp hstamp
    simpa using hcurrent

/-- The only error of a commit is a conflict. -/
theorem commit_error {stamps : List Stamp} {ws : List Write} {e : StoreError}
    (h : s.commit stamps ws = .error e) : ∃ text, e = .conflict text := by
  rw [commit] at h
  split at h
  · exact ⟨_, (Except.error.inj h).symm⟩
  · clear * - h
    induction ws generalizing s with
    | nil => cases h
    | cons w rest ih =>
      have hwrite : (s.write w).bind (fun s' => s'.apply rest) = .error e := h
      cases hw : s.write w with
      | ok s' =>
        rw [hw] at hwrite
        exact ih hwrite
      | error e' =>
        rw [hw] at hwrite
        cases hwrite
        cases w with
        | put key body => cases hw
        | insert key body =>
          simp only [write] at hw
          split at hw
          · exact ⟨_, (Except.error.inj hw).symm⟩
          · cases hw

/-! ## The typed view -/

/-- The document of a key at its type; none when it is absent or not readable as such. -/
def get? (α : Type) [Document α] (s : Store) (key : DocKey) : Option α :=
  (s.read? key).bind fun doc => decode? doc.body

section

variable {α : Type} [Document α]

theorem get?_of_read? {doc : Versioned} (h : s.read? key = some doc) :
    s.get? α key = decode? doc.body := by
  rw [get?, h]
  rfl

theorem get?_of_absent (h : s.read? key = none) : s.get? α key = none := by
  rw [get?, h]
  rfl

theorem present_of_get? {x : α} (h : s.get? α key = some x) : s.read? key ≠ none := by
  intro habsent
  rw [get?_of_absent habsent] at h
  cases h

theorem get?_put_self [LawfulDocument α] {x : α} (h : Fits x) :
    (s.put key (encode x)).get? α key = some x := by
  rw [get?_of_read? read?_put_self, decode_encode h]

end

end Store

/-! ## The keys of the collections -/

namespace Collection

theorem name_injective : Function.Injective name := by
  intro c d h
  cases c <;> cases d <;> first | rfl | exact absurd h (by decide)

@[simp] theorem key_inj {c d : Collection} {i j : String} : c.key i = d.key j ↔ c = d ∧ i = j := by
  constructor
  · intro h
    obtain ⟨hname, hid⟩ := DocKey.mk.inj h
    exact ⟨name_injective hname, hid⟩
  · rintro ⟨rfl, rfl⟩
    rfl

theorem key_ne_of_ne {c d : Collection} {i j : String} (h : c ≠ d) : c.key i ≠ d.key j :=
  fun heq => h (key_inj.1 heq).1

theorem key_ne_of_id_ne {c d : Collection} {i j : String} (h : i ≠ j) : c.key i ≠ d.key j :=
  fun heq => h (key_inj.1 heq).2

end Collection

namespace Store

variable {s : Store} {key : DocKey} {body : Json} {collection id : String}

/-! ## Collections as lists

Writing to another collection leaves the list of a collection alone, and a new document goes to its
end. -/

/-- No two documents have the same key. -/
def HasDistinctKeys (s : Store) : Prop := (s.documents.map (·.key)).Nodup

theorem hasDistinctKeys_empty : empty.HasDistinctKeys := List.nodup_nil

theorem mem_keys_writeInto {documents : List StoredDocument} {k : DocKey} :
    k ∈ (writeInto key body documents).map (·.key) ↔ k = key ∨ k ∈ documents.map (·.key) := by
  induction documents with
  | nil => simp [writeInto]
  | cons d rest ih =>
    by_cases h : d.key = key
    · rw [writeInto, if_pos h]
      simp [h]
    · rw [writeInto, if_neg h, List.map_cons, List.mem_cons, ih, List.map_cons, List.mem_cons]
      constructor
      · rintro (hd | hk | hrest)
        · exact .inr (.inl hd)
        · exact .inl hk
        · exact .inr (.inr hrest)
      · rintro (hk | hd | hrest)
        · exact .inr (.inl hk)
        · exact .inl hd
        · exact .inr (.inr hrest)

theorem HasDistinctKeys.put (h : s.HasDistinctKeys) : (s.put key body).HasDistinctKeys := by
  obtain ⟨documents⟩ := s
  simp only [HasDistinctKeys, Store.put] at h ⊢
  induction documents with
  | nil => simp [writeInto]
  | cons d rest ih =>
    obtain ⟨hd, hrest⟩ := List.nodup_cons.1 h
    by_cases hkey : d.key = key
    · rw [writeInto, if_pos hkey]
      exact List.nodup_cons.2 ⟨hkey ▸ hd, hrest⟩
    · rw [writeInto, if_neg hkey]
      refine List.nodup_cons.2 ⟨?_, ih hrest⟩
      intro hmem
      rcases mem_keys_writeInto.1 hmem with heq | hmem
      · exact hkey heq
      · exact hd hmem

theorem inCollection_put_of_ne (h : key.collection ≠ collection) :
    (s.put key body).inCollection collection = s.inCollection collection := by
  obtain ⟨documents⟩ := s
  simp only [inCollection, put]
  induction documents with
  | nil => simp [writeInto, h]
  | cons d rest ih =>
    by_cases hkey : d.key = key
    · rw [writeInto, if_pos hkey]
      simp [hkey, h]
    · rw [writeInto, if_neg hkey, List.filter_cons, List.filter_cons]
      split
      · rw [List.map_cons, List.map_cons, ih]
      · exact ih

theorem inCollection_put_new (h : s.read? ⟨collection, id⟩ = none) :
    (s.put ⟨collection, id⟩ body).inCollection collection =
      s.inCollection collection ++ [(id, body)] := by
  obtain ⟨documents⟩ := s
  simp only [read?, Option.map_eq_none_iff] at h
  simp only [inCollection, put]
  induction documents with
  | nil => simp [writeInto]
  | cons d rest ih =>
    have hne : d.key ≠ ⟨collection, id⟩ := by
      intro heq
      rw [List.find?_cons_of_pos (by simp [heq])] at h
      cases h
    rw [List.find?_cons_of_neg (by simp [hne])] at h
    rw [writeInto, if_neg hne, List.filter_cons, List.filter_cons]
    split
    · rw [List.map_cons, List.map_cons, ih h, List.cons_append]
    · exact ih h

/-- The documents of a collection have different ids. -/
theorem HasDistinctKeys.nodup_ids (h : s.HasDistinctKeys) :
    ((s.inCollection collection).map (·.1)).Nodup := by
  obtain ⟨documents⟩ := s
  simp only [HasDistinctKeys, inCollection] at h ⊢
  induction documents with
  | nil => exact List.nodup_nil
  | cons d rest ih =>
    obtain ⟨hd, hrest⟩ := List.nodup_cons.1 h
    rw [List.filter_cons]
    split
    · rename_i hcollection
      refine List.nodup_cons.2 ⟨fun hmem => hd ?_, ih hrest⟩
      simp only [List.map_map, List.mem_map, List.mem_filter, Function.comp_apply] at hmem
      obtain ⟨e, ⟨he, hecollection⟩, hid⟩ := hmem
      refine List.mem_map.2 ⟨e, he, ?_⟩
      exact congrArg₂ DocKey.mk ((eq_of_beq hecollection).trans (eq_of_beq hcollection).symm) hid
    · exact ih hrest

/-- The list of a collection holds what its keys read. -/
theorem mem_inCollection (hkeys : s.HasDistinctKeys) :
    (id, body) ∈ s.inCollection collection ↔
      ∃ version, s.read? ⟨collection, id⟩ = some ⟨body, version⟩ := by
  obtain ⟨documents⟩ := s
  simp only [HasDistinctKeys] at hkeys
  simp only [inCollection, read?]
  induction documents with
  | nil => simp
  | cons d rest ih =>
    obtain ⟨hd, hrest⟩ := List.nodup_cons.1 hkeys
    by_cases hkey : d.key = ⟨collection, id⟩
    · have hothers : (id, body) ∉ (rest.filter fun d => d.key.collection == collection).map
          fun d => (d.key.id, d.doc.body) := by
        intro hmem
        obtain ⟨e, he, heq⟩ := List.mem_map.1 hmem
        obtain ⟨he, hcollection⟩ := List.mem_filter.1 he
        have hekey : e.key = ⟨collection, id⟩ :=
          congrArg₂ DocKey.mk (eq_of_beq hcollection) (Prod.mk.inj heq).1
        exact hd (List.mem_map.2 ⟨e, he, hekey.trans hkey.symm⟩)
      rw [List.filter_cons_of_pos (by simp [hkey]), List.map_cons, List.mem_cons,
        List.find?_cons_of_pos (by simp [hkey])]
      constructor
      · rintro (heq | hmem)
        · obtain ⟨-, rfl⟩ := Prod.mk.inj heq
          exact ⟨d.doc.version, rfl⟩
        · exact absurd hmem hothers
      · rintro ⟨version, heq⟩
        have hdoc : d.doc = ⟨body, version⟩ := Option.some.inj heq
        rw [hkey, hdoc]
        exact .inl rfl
    · rw [List.find?_cons_of_neg (by simp [hkey]), ← ih hrest, List.filter_cons]
      split
      · rename_i hcollection
        rw [List.map_cons, List.mem_cons]
        constructor
        · rintro (heq | hmem)
          · obtain ⟨hid, -⟩ := Prod.mk.inj heq
            exact absurd (congrArg₂ DocKey.mk (eq_of_beq hcollection) hid.symm) hkey
          · exact hmem
        · exact .inr
      · exact Iff.rfl

end Store

end RitualLedger
