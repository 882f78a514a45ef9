import RitualLedger.Engine.Transaction
import RitualLedger.Proofs.Store.History

/-!
# Snapshots and the stores that they come from

A snapshot is read key by key, while other clients go on committing. So its documents may come from
different stores, and there may never have been a store that held all of them. `Snapshot.Seen` says
what is left: each document was read in some store that came before the current one.

`Snapshot.atOnce` is the snapshot that one store gives. When all stamps of a seen snapshot are
current, it is the snapshot of the current store (`Snapshot.eq_atOnce`). That is why a commit that
checks the stamps need not care how the snapshot was torn.
-/

namespace RitualLedger.Snapshot

/-! ## The snapshot of one store -/

/-- Adds the documents that a store has under further keys, each key once. -/
def extendFrom (store : Store) (s : Snapshot) : List DocKey → Snapshot
  | [] => s
  | key :: rest =>
    if s.covers key then extendFrom store s rest
    else extendFrom store ⟨s.docs ++ [(key, store.read? key)]⟩ rest

/-- The snapshot of some keys in one store. -/
def atOnce (store : Store) (keys : List DocKey) : Snapshot := extendFrom store empty keys

/-- The snapshot of the same keys in another store. -/
def refresh (store : Store) (s : Snapshot) : Snapshot :=
  ⟨s.docs.map fun d => (d.1, store.read? d.1)⟩

variable {s : Snapshot} {store : Store} {key : DocKey}

theorem covers_iff : s.covers key = true ↔ key ∈ s.docs.map (·.1) := by
  simp [covers]

theorem covers_refresh : (s.refresh store).covers key = s.covers key := by
  rw [Bool.eq_iff_iff, covers_iff, covers_iff]
  simp [refresh]

/-- What a store gives under a key is what it gives in a snapshot that has the key. -/
theorem lookup_refresh (h : s.covers key = true) :
    (s.refresh store).docs.lookup key = some (store.read? key) := by
  obtain ⟨docs⟩ := s
  simp only [covers_iff, refresh] at h ⊢
  induction docs with
  | nil => simp at h
  | cons d rest ih =>
    by_cases hd : key = d.1
    · simp [hd]
    · have hrest : key ∈ rest.map (·.1) := by
        rcases List.mem_cons.1 h with heq | hmem
        · exact absurd heq hd
        · exact hmem
      rw [List.map_cons, List.lookup_cons, beq_false_of_ne hd]
      exact ih hrest

theorem extendFrom_eq_refresh (keys : List DocKey) (h : s.refresh store = s) :
    (extendFrom store s keys).refresh store = extendFrom store s keys ∧
      ∀ k, s.covers k = true ∨ k ∈ keys → (extendFrom store s keys).covers k = true := by
  induction keys generalizing s with
  | nil => exact ⟨h, fun k hk => hk.resolve_right (List.not_mem_nil)⟩
  | cons key rest ih =>
    by_cases hcovers : s.covers key = true
    · rw [extendFrom, if_pos hcovers]
      obtain ⟨hfresh, hall⟩ := ih h
      refine ⟨hfresh, fun k hk => hall k ?_⟩
      rcases hk with hk | hk
      · exact .inl hk
      · rcases List.mem_cons.1 hk with rfl | hk
        · exact .inl hcovers
        · exact .inr hk
    · rw [extendFrom, if_neg hcovers]
      have hnext : refresh store ⟨s.docs ++ [(key, store.read? key)]⟩ =
          ⟨s.docs ++ [(key, store.read? key)]⟩ := by
        have hdocs := congrArg docs h
        simp only [refresh] at hdocs
        simp [refresh, hdocs]
      obtain ⟨hfresh, hall⟩ := ih hnext
      refine ⟨hfresh, fun k hk => hall k ?_⟩
      rcases hk with hk | hk
      · have hmem := covers_iff.1 hk
        rw [covers_iff, List.map_append]
        exact .inl (List.mem_append_left _ hmem)
      · rcases List.mem_cons.1 hk with rfl | hk
        · exact .inl (covers_iff.2 (by simp))
        · exact .inr hk

theorem doc?_atOnce {keys : List DocKey} (h : key ∈ keys) :
    (atOnce store keys).doc? key = store.read? key := by
  obtain ⟨hfresh, hall⟩ := @extendFrom_eq_refresh empty store keys rfl
  rw [doc?, atOnce, ← hfresh, lookup_refresh (hall key (.inr h))]
  rfl

theorem has_atOnce {keys : List DocKey} (h : key ∈ keys) :
    (atOnce store keys).has key = (store.read? key).isSome := by
  rw [has, doc?_atOnce h]

/-- A typed read succeeds on an absent document and on a readable one. -/
theorem get_atOnce {α : Type} [Document α] {keys : List DocKey} {x : Option α} (h : key ∈ keys)
    (hget : (atOnce store keys).get key = .ok x) : x = store.get? α key ∧
      (x = none → store.read? key = none) := by
  rw [get, doc?_atOnce h] at hget
  cases hread : store.read? key with
  | none =>
    rw [hread] at hget
    cases hget
    exact ⟨(Store.get?_of_absent hread).symm, fun _ => rfl⟩
  | some doc =>
    rw [Store.get?_of_read? hread]
    simp only [hread] at hget
    cases hdecode : decode? (α := α) doc.body with
    | none =>
      rw [hdecode] at hget
      cases hget
    | some a =>
      rw [hdecode] at hget
      cases hget
      exact ⟨rfl, fun hnone => by cases hnone⟩

/-! ## Torn snapshots -/

/-- Each document was read in a store that came before the current one. -/
def Seen (s : Snapshot) (store : Store) : Prop :=
  ∀ d ∈ s.docs, ∃ earlier : Store, earlier ≤ store ∧ d.2 = earlier.read? d.1

theorem seen_empty : empty.Seen store := by
  intro d hd
  cases hd

theorem Seen.mono {later : Store} (h : s.Seen store) (hle : store ≤ later) : s.Seen later := by
  intro d hd
  obtain ⟨earlier, hearlier, hread⟩ := h d hd
  exact ⟨earlier, hearlier.trans hle, hread⟩

theorem Seen.snoc (h : s.Seen store) :
    Seen ⟨s.docs ++ [(key, store.read? key)]⟩ store := by
  intro d hd
  rcases List.mem_append.1 hd with hd | hd
  · exact h d hd
  · obtain rfl := List.mem_singleton.1 hd
    exact ⟨store, le_refl store, rfl⟩

/-- A seen snapshot whose stamps are current is what the current store gives. -/
theorem Seen.eq_refresh (h : s.Seen store)
    (hcurrent : ∀ stamp ∈ s.stamps, store.version? stamp.key = stamp.version) :
    s = s.refresh store := by
  have hdoc : ∀ d ∈ s.docs, d = (d.1, store.read? d.1) := by
    intro d hd
    obtain ⟨earlier, hle, hread⟩ := h d hd
    -- No key has the same version twice, so the same version is the same document.
    have hversion : store.version? d.1 = d.2.map (·.version) := hcurrent _ (List.mem_map_of_mem hd)
    have hsame : store.read? d.1 = earlier.read? d.1 :=
      Store.read?_eq_of_version?_eq hle (by rw [hversion, hread, Store.version?])
    rw [hsame, ← hread]
  have hdocs : s.docs = s.docs.map fun d => (d.1, store.read? d.1) :=
    (List.map_id s.docs).symm.trans (List.map_congr_left hdoc)
  exact congrArg Snapshot.mk hdocs

/-- How far a snapshot of some keys has been read: what is still to be read makes it complete,
whatever store one looks at. -/
def Completes (s : Snapshot) (rest keys : List DocKey) : Prop :=
  ∀ store, extendFrom store (s.refresh store) rest = atOnce store keys

theorem completes_empty (keys : List DocKey) : Completes empty keys keys := fun _ => rfl

theorem Completes.skip {rest keys : List DocKey} (h : s.Completes (key :: rest) keys)
    (hcovers : s.covers key = true) : s.Completes rest keys := by
  intro store
  have hstore := h store
  rwa [extendFrom, if_pos (covers_refresh.trans hcovers)] at hstore

theorem Completes.snoc {rest keys : List DocKey} {doc : Option Versioned}
    (h : s.Completes (key :: rest) keys) (hcovers : s.covers key = false) :
    Completes ⟨s.docs ++ [(key, doc)]⟩ rest keys := by
  intro store
  have hstore := h store
  rw [extendFrom, if_neg (by rw [covers_refresh, hcovers]; exact Bool.false_ne_true)] at hstore
  rw [← hstore]
  simp [refresh]

/-- **A torn snapshot with current stamps is not torn.** It is the snapshot of the current store. -/
theorem eq_atOnce {keys : List DocKey} (hseen : s.Seen store) (hall : s.Completes [] keys)
    (hcurrent : ∀ stamp ∈ s.stamps, store.version? stamp.key = stamp.version) :
    s = atOnce store keys :=
  (hseen.eq_refresh hcurrent).trans (hall store)

/-- Alone, a client reads the snapshot of the store. -/
theorem run_extend (s : Snapshot) (keys : List DocKey) (setting : Setting) :
    (s.extend keys).run setting = (s.extendFrom setting.store keys, setting) := by
  induction keys generalizing s with
  | nil => rfl
  | cons key rest ih =>
    rw [extend, extendFrom]
    split
    · exact ih s
    · exact ih _

end RitualLedger.Snapshot
