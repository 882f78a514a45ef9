import RitualLedger.Proofs.Engine.Snapshot
import RitualLedger.Proofs.Engine.Change

/-!
# Writes to different documents

Writes to different documents do not notice each other. What they do to a store depends on nothing
but the documents that they write (`Store.read?_putAll_congr`, `Store.apply_of_agree`), and what one
reads for them depends on nothing but the documents that are read (`Snapshot.atOnce_of_agree`). So
they can be made in either order: all documents are the same afterwards (`Store.read?_putAll_comm`),
and those that were there before stand in the same places, with the new ones of the first writer and
then those of the second behind them (`Store.keys_putAll`).
-/

namespace RitualLedger

namespace Store

variable {s u t : Store} {key : DocKey} {ws : List (DocKey × Json)}

/-! ## Documents -/

/-- A write leaves the same behind where the same stood before. -/
theorem read?_put_congr (w : DocKey × Json) (h : u.read? key = s.read? key) :
    (u.put w.1 w.2).read? key = (s.put w.1 w.2).read? key := by
  by_cases hkey : key = w.1
  · rw [hkey] at h ⊢
    rw [read?_put_self, read?_put_self, version?, version?, h]
  · rw [read?_put_of_ne hkey, read?_put_of_ne hkey, h]

theorem read?_putAll_congr (ws : List (DocKey × Json)) (h : u.read? key = s.read? key) :
    (u.putAll ws).read? key = (s.putAll ws).read? key := by
  induction ws generalizing s u with
  | nil => exact h
  | cons w rest ih => exact ih (read?_put_congr w h)

/-- **Writes to different documents can be made in either order.** -/
theorem read?_putAll_comm {ws' : List (DocKey × Json)}
    (hapart : ∀ w ∈ ws, ∀ w' ∈ ws', w.1 ≠ w'.1) (key : DocKey) :
    ((s.putAll ws).putAll ws').read? key = ((s.putAll ws').putAll ws).read? key := by
  by_cases hkey : ∃ w ∈ ws, w.1 = key
  · -- The second writer does not write the document.
    obtain ⟨w, hw, rfl⟩ := hkey
    have hother : ∀ w' ∈ ws', w'.1 ≠ w.1 := fun w' hw' => (hapart w hw w' hw').symm
    rw [read?_putAll_of_notMem hother]
    exact (read?_putAll_congr ws (read?_putAll_of_notMem hother)).symm
  · have hother : ∀ w ∈ ws, w.1 ≠ key := fun w hw heq => hkey ⟨w, hw, heq⟩
    rw [read?_putAll_of_notMem hother]
    exact read?_putAll_congr ws' (read?_putAll_of_notMem hother)

/-- What was written is there as the last write has left it. -/
theorem exists_write_of_mem (h : ∃ w ∈ ws, w.1 = key) :
    ∃ w ∈ ws, w.1 = key ∧ ∃ version, (s.putAll ws).read? key = some ⟨w.2, version⟩ := by
  induction ws generalizing s with
  | nil =>
    obtain ⟨w, hw, -⟩ := h
    cases hw
  | cons first rest ih =>
    by_cases hrest : ∃ w ∈ rest, w.1 = key
    · obtain ⟨w, hw, hkey, hread⟩ := ih (s := s.put first.1 first.2) hrest
      exact ⟨w, List.mem_cons_of_mem _ hw, hkey, hread⟩
    · obtain ⟨w, hw, hkey⟩ := h
      rcases List.mem_cons.1 hw with rfl | hw
      · subst hkey
        refine ⟨w, List.mem_cons_self, rfl, _,
          (read?_putAll_of_notMem fun w' hw' heq => hrest ⟨w', hw', heq⟩).trans read?_put_self⟩
      · exact absurd ⟨w, hw, hkey⟩ hrest

/-! ## Places -/

/-- The documents in their places. -/
def keys (s : Store) : List DocKey := s.documents.map (·.key)

/-- The documents that writes add, in their order. -/
def added (s : Store) : List (DocKey × Json) → List DocKey
  | [] => []
  | w :: rest =>
    if s.read? w.1 = none then w.1 :: (s.put w.1 w.2).added rest else (s.put w.1 w.2).added rest

theorem keys_put_of_absent (body : Json) (h : s.read? key = none) :
    (s.put key body).keys = s.keys ++ [key] := by
  obtain ⟨documents⟩ := s
  simp only [read?, Option.map_eq_none_iff] at h
  simp only [keys, put]
  induction documents with
  | nil => rfl
  | cons d rest ih =>
    have hne : ¬ d.key = key := by simpa using List.find?_eq_none.1 h d List.mem_cons_self
    rw [List.find?_cons_of_neg (by simp [hne])] at h
    rw [writeInto, if_neg hne, List.map_cons, ih h]
    rfl

theorem keys_put_of_present (body : Json) (h : s.read? key ≠ none) :
    (s.put key body).keys = s.keys := by
  obtain ⟨documents⟩ := s
  simp only [read?, ne_eq, Option.map_eq_none_iff] at h
  simp only [keys, put]
  induction documents with
  | nil => exact absurd rfl h
  | cons d rest ih =>
    by_cases hkey : d.key = key
    · rw [writeInto, if_pos hkey, List.map_cons, List.map_cons, hkey]
    · rw [List.find?_cons_of_neg (by simp [hkey])] at h
      rw [writeInto, if_neg hkey, List.map_cons, ih h, List.map_cons]

/-- **What writes add goes to the end.** -/
theorem keys_putAll (s : Store) (ws : List (DocKey × Json)) :
    (s.putAll ws).keys = s.keys ++ s.added ws := by
  induction ws generalizing s with
  | nil => exact (List.append_nil _).symm
  | cons w rest ih =>
    change ((s.put w.1 w.2).putAll rest).keys = _
    rw [ih, added]
    split
    · rename_i habsent
      rw [keys_put_of_absent w.2 habsent, List.append_assoc]
      rfl
    · rename_i hpresent
      rw [keys_put_of_present w.2 hpresent]

/-- Writes of documents that are there leave all of them in their places. -/
theorem keys_putAll_of_present (h : ∀ w ∈ ws, s.read? w.1 ≠ none) :
    (s.putAll ws).keys = s.keys := by
  induction ws generalizing s with
  | nil => rfl
  | cons w rest ih =>
    change ((s.put w.1 w.2).putAll rest).keys = _
    rw [ih, keys_put_of_present w.2 (h w List.mem_cons_self)]
    intro w' hw'
    exact present_of_le le_put (h w' (List.mem_cons_of_mem w hw'))

/-- What writes add depends on what there is of the documents that are written. -/
theorem added_congr (h : ∀ w ∈ ws, u.read? w.1 = s.read? w.1) : u.added ws = s.added ws := by
  induction ws generalizing s u with
  | nil => rfl
  | cons w rest ih =>
    have hrest := ih fun w' hw' => read?_put_congr w (h w' (List.mem_cons_of_mem _ hw'))
    rw [added, added, h w List.mem_cons_self, hrest]

/-- The new documents of one writer stand before those of the next one. -/
theorem keys_putAll_putAll {ws' : List (DocKey × Json)}
    (hapart : ∀ w ∈ ws, ∀ w' ∈ ws', w.1 ≠ w'.1) :
    ((s.putAll ws).putAll ws').keys = s.keys ++ s.added ws ++ s.added ws' := by
  have hadded : (s.putAll ws).added ws' = s.added ws' :=
    added_congr fun w' hw' => read?_putAll_of_notMem fun w hw => hapart w hw w' hw'
  rw [keys_putAll, keys_putAll, hadded]

/-! ## Commits -/

/-- Writes go through wherever the same stands under their keys. -/
theorem apply_of_agree {ws : List Write} (h : ∀ w ∈ ws, u.read? w.key = s.read? w.key)
    (hs : s.apply ws = .ok t) : u.apply ws = .ok (u.putAll (ws.map fun w => (w.key, w.body))) := by
  induction ws generalizing s u with
  | nil => rfl
  | cons w rest ih =>
    obtain ⟨s', hwrite, hrest⟩ := apply_cons hs
    have hsame : u.write w = .ok (u.put w.key w.body) := by
      have hkey := h w List.mem_cons_self
      cases w with
      | put key body => rfl
      | insert key body =>
        have habsent : s.read? key = none := (apply_insert hs).1
        have hkey : u.read? key = none := hkey.trans habsent
        simp only [write, hkey]
        rfl
    rw [write_eq_put hwrite] at hrest
    have hothers := ih (u := u.put w.key w.body) (fun w' hw' =>
      read?_put_congr (w.key, w.body) (h w' (List.mem_cons_of_mem _ hw'))) hrest
    change (u.write w).bind (fun u' => u'.apply rest) = _
    rw [hsame]
    exact hothers

end Store

namespace Snapshot

variable {s u : Store} {keys : List DocKey}

/-- Stores where the same stands under some keys give the same snapshot of them. -/
theorem atOnce_of_agree (h : ∀ key ∈ keys, u.read? key = s.read? key) :
    atOnce u keys = atOnce s keys := by
  suffices hextend : ∀ snapshot, extendFrom u snapshot keys = extendFrom s snapshot keys from
    hextend empty
  induction keys with
  | nil => exact fun _ => rfl
  | cons key rest ih =>
    intro snapshot
    have hrest := ih fun key' hkey' => h key' (List.mem_cons_of_mem _ hkey')
    rw [extendFrom, extendFrom, h key List.mem_cons_self, hrest, hrest]

end Snapshot

end RitualLedger
