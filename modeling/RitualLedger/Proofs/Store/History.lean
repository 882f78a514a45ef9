import Mathlib.Order.Basic
import RitualLedger.Proofs.Store.Contents

/-!
# How a store grows

Documents are never removed, and every write of a document raises its version. So the stores that
follow one another are ordered: `s ≤ t` says that each document of `s` is in `t` under the same
version with the same body, or under a higher one.

The point of the order is that versions do not come back: when a key has the same version in an
earlier and in a later store, or is absent from both, it has the same document in both, whatever
was committed in between (`Store.read?_eq_of_version?_eq`).
-/

namespace RitualLedger.Store

variable {s t : Store} {key : DocKey}

/-- Each document of an earlier store is unchanged in a later one, or has a higher version. -/
def Le (s t : Store) : Prop :=
  ∀ key doc, s.read? key = some doc →
    ∃ later, t.read? key = some later ∧ (later = doc ∨ doc.version < later.version)

instance : Preorder Store where
  le := Le
  le_refl _ _ doc h := ⟨doc, h, .inl rfl⟩
  le_trans s t u hst htu key doc h := by
    obtain ⟨doc', h', hdoc'⟩ := hst key doc h
    obtain ⟨doc'', h'', hdoc''⟩ := htu key doc' h'
    refine ⟨doc'', h'', ?_⟩
    rcases hdoc' with rfl | hlt
    · exact hdoc''
    · rcases hdoc'' with rfl | hlt'
      · exact .inr hlt
      · exact .inr (hlt.trans hlt')

theorem le_put {body : Json} : s ≤ s.put key body := by
  intro k doc h
  by_cases hkey : k = key
  · subst hkey
    refine ⟨_, read?_put_self, .inr ?_⟩
    simp [version?, h]
  · exact ⟨doc, (read?_put_of_ne hkey).trans h, .inl rfl⟩

theorem le_apply {ws : List Write} (h : s.apply ws = .ok t) : s ≤ t := by
  induction ws generalizing s with
  | nil =>
    cases h
    exact le_refl _
  | cons w rest ih =>
    obtain ⟨s', hwrite, hrest⟩ := apply_cons h
    rw [write_eq_put hwrite] at hrest
    exact le_put.trans (ih hrest)

theorem le_commit {stamps : List Stamp} {ws : List Write} (h : s.commit stamps ws = .ok t) :
    s ≤ t :=
  le_apply (commit_eq_ok h).2

/-- What was there stays there. -/
theorem present_of_le (hle : s ≤ t) (h : s.read? key ≠ none) : t.read? key ≠ none := by
  obtain ⟨doc, hdoc⟩ := Option.ne_none_iff_exists'.1 h
  obtain ⟨later, hlater, -⟩ := hle key doc hdoc
  rw [hlater]
  exact Option.some_ne_none later

/-- What is absent has always been absent. -/
theorem absent_of_le (hle : s ≤ t) (h : t.read? key = none) : s.read? key = none := by
  by_contra hpresent
  exact present_of_le hle hpresent h

/-- **Versions do not come back.** A key that has the version of an earlier store has its document
too. -/
theorem read?_eq_of_version?_eq (hle : s ≤ t) (h : t.version? key = s.version? key) :
    t.read? key = s.read? key := by
  cases hs : s.read? key with
  | none =>
    rw [version?, version?, hs] at h
    exact Option.map_eq_none_iff.1 h
  | some doc =>
    obtain ⟨later, ht, hlater⟩ := hle key doc hs
    rw [ht]
    rcases hlater with rfl | hlt
    · rfl
    · have hversion : later.version = doc.version := by
        rw [version?, version?, hs, ht] at h
        exact Option.some.inj h
      omega

end RitualLedger.Store
