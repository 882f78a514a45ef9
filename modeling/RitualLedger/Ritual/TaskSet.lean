import RitualLedger.Document

/-!
# Sets of tasks

The unlocked tasks of a subject are a set of task indices, kept as an increasing list. So two sets
with the same members are the same value, and a set is written in increasing order.
-/

namespace RitualLedger

/-- A finite set of task indices. -/
structure TaskSet where
  indices : List UInt64
  increasing : indices.Pairwise (· < ·)

namespace TaskSet

/-- Puts an index in its place in an increasing list, unless it is there. -/
def insertInto (i : UInt64) : List UInt64 → List UInt64
  | [] => [i]
  | j :: rest =>
    if i < j then i :: j :: rest else if i = j then j :: rest else j :: insertInto i rest

theorem mem_insertInto {i k : UInt64} {l : List UInt64} :
    k ∈ insertInto i l ↔ k = i ∨ k ∈ l := by
  induction l with
  | nil => simp [insertInto]
  | cons j rest ih =>
    simp only [insertInto]
    split
    · simp
    · split
      · rename_i h
        subst h
        simp
      · simp only [List.mem_cons, ih]
        constructor
        · rintro (h | h | h)
          · exact .inr (.inl h)
          · exact .inl h
          · exact .inr (.inr h)
        · rintro (h | h | h)
          · exact .inr (.inl h)
          · exact .inl h
          · exact .inr (.inr h)

theorem insertInto_increasing {i : UInt64} {l : List UInt64} (h : l.Pairwise (· < ·)) :
    (insertInto i l).Pairwise (· < ·) := by
  induction l with
  | nil => simp [insertInto]
  | cons j rest ih =>
    obtain ⟨hj, hrest⟩ := List.pairwise_cons.1 h
    simp only [insertInto]
    split
    · rename_i hij
      refine List.pairwise_cons.2 ⟨fun k hk => ?_, h⟩
      rcases List.mem_cons.1 hk with rfl | hk
      · exact hij
      · exact UInt64.lt_trans hij (hj k hk)
    · split
      · exact h
      · rename_i hlt hne
        refine List.pairwise_cons.2 ⟨fun k hk => ?_, ih hrest⟩
        rcases mem_insertInto.1 hk with rfl | hk
        · exact UInt64.lt_of_le_of_ne (UInt64.not_lt.1 hlt) (Ne.symm hne)
        · exact hj k hk

/-- The set without members. -/
def empty : TaskSet := ⟨[], .nil⟩

instance : EmptyCollection TaskSet := ⟨empty⟩

instance : Membership UInt64 TaskSet := ⟨fun s i => i ∈ s.indices⟩

/-- Whether an index is a member. -/
def contains (s : TaskSet) (i : UInt64) : Bool := s.indices.contains i

/-- The set with one more member. -/
def insert (s : TaskSet) (i : UInt64) : TaskSet :=
  ⟨insertInto i s.indices, insertInto_increasing s.increasing⟩

/-- The set of the members of a list. -/
def ofList (l : List UInt64) : TaskSet := l.foldl insert empty

instance : Document TaskSet where
  encode s := encode s.indices
  read? format j := (Document.read? format j).map ofList

@[ext] theorem ext {s t : TaskSet} (h : s.indices = t.indices) : s = t := by
  cases s; cases t; cases h; rfl

theorem mem_def {s : TaskSet} {i : UInt64} : i ∈ s ↔ i ∈ s.indices := Iff.rfl

theorem contains_iff {s : TaskSet} {i : UInt64} : s.contains i = true ↔ i ∈ s := by
  simp [contains, mem_def]

theorem mem_insert {s : TaskSet} {i k : UInt64} : k ∈ s.insert i ↔ k = i ∨ k ∈ s :=
  mem_insertInto

end TaskSet

end RitualLedger
