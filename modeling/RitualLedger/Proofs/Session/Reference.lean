import Mathlib.Data.List.Induction
import Mathlib.Logic.Function.Basic
import RitualLedger.Session

/-!
# Sessions answer like a map that forgets nothing

The reference is a map from subjects to entries that drops an entry only when it hands out the
value: nothing is swept from it, and asking for an expired entry leaves it where it is. The store
of sessions loses expired entries in four ways, so the two do not hold the same entries. What they
agree on depends on the time: all that the store holds is in the reference, and what the reference
holds beyond that has expired by now (`Sees`). Every use carries that relation on, provided that
the clock does not run backwards.

What the reference holds for a subject is in turn read off the uses themselves: it is the last put
for the subject, unless a live take came after it. So each answer is told from the past uses alone
(`Supplies`).
-/

namespace RitualLedger

/-! ## Order of time -/

/-- Whether an instant comes after another or is the same. -/
def Instant.NotBefore (t u : Instant) : Prop := t.before u = false

instance (t u : Instant) : Decidable (t.NotBefore u) := inferInstanceAs (Decidable (_ = false))

theorem Instant.before_iff {a b : Instant} :
    a.before b = true ↔ a.seconds < b.seconds ∨ a.seconds = b.seconds ∧ a.nanos < b.nanos := by
  simp [before]

theorem Instant.notBefore_self (t : Instant) : t.NotBefore t := by
  simp [NotBefore, before]

theorem Instant.NotBefore.before_of_before {t u x : Instant} (h : t.NotBefore u)
    (hx : t.before x = true) : u.before x = true := by
  have hnot : ¬ t.before u = true := by rw [h]; decide
  rw [before_iff] at hnot hx ⊢
  omega

/-- What has expired stays expired. -/
theorem SessionEntry.isLive_eq_false_of_notBefore {α : Type} {e : SessionEntry α} {t u : Instant}
    (h : t.NotBefore u) (hu : e.isLive u = false) : e.isLive t = false := by
  cases ht : e.isLive t with
  | false => rfl
  | true => exact absurd (h.before_of_before ht) (by rw [← SessionEntry.isLive, hu]; decide)

namespace Sessions

variable {α : Type}

/-! ## Uses -/

/-- The entry that a put makes. -/
def entryOf (ttl : Int) (now : Instant) (subject : String) (value : α) : SessionEntry α :=
  ⟨subject, value, (now.plus? ttl).getD Instant.latest⟩

/-- A use of the store, with the reading of the clock it is made at. -/
inductive Use (α : Type) where
  | put (now : Instant) (subject : String) (value : α)
  | get (now : Instant) (subject : String)
  | take (now : Instant) (subject : String)
  | purge (now : Instant)
deriving DecidableEq

namespace Use

/-- The reading of the clock. -/
def now : Use α → Instant
  | put t _ _ | get t _ | take t _ | purge t => t

/-- Uses that only look: they ask for a value and leave it, or drop what has expired. -/
def IsIdle : Use α → Prop
  | get _ _ | purge _ => True
  | put _ _ _ | take _ _ => False

/-- Uses that look through all entries for expired ones. -/
def Sweeps : Use α → Prop
  | put _ _ _ | purge _ => True
  | get _ _ | take _ _ => False

/-- Uses after which an earlier put for the subject does not stand any more. -/
def Unseats (subject : String) : Use α → Prop
  | put _ s _ | take _ s => s = subject
  | get _ _ | purge _ => False

/-- Uses that ask for the value of a subject. -/
def Asks (subject : String) : Use α → Prop
  | get _ s | take _ s => s = subject
  | put _ _ _ | purge _ => False

/-- Uses that drop the value they ask for. -/
def IsTake : Use α → Prop
  | take _ _ => True
  | get _ _ | put _ _ _ | purge _ => False

/-- Uses that make an entry. -/
def Makes (ttl : Int) (e : SessionEntry α) : Use α → Prop
  | put t s v => e = entryOf ttl t s v
  | get _ _ | take _ _ | purge _ => False

theorem IsTake.unseats {u : Use α} (h : u.IsTake) {subject : String} (hasks : u.Asks subject) :
    u.Unseats subject := by
  cases u with
  | take => exact hasks
  | get | put | purge => exact h.elim

end Use

/-- The clock never runs backwards over some uses. -/
def InOrder (uses : List (Use α)) : Prop := uses.Pairwise fun u v => v.now.NotBefore u.now

instance (uses : List (Use α)) : Decidable (InOrder uses) :=
  inferInstanceAs (Decidable (List.Pairwise _ uses))

/-- The value that a use hands out, and the store after it. -/
def use (s : Sessions α) : Use α → Option α × Sessions α
  | .put now subject value => (none, s.put now subject value)
  | .get now subject => s.get now subject
  | .take now subject => s.take now subject
  | .purge now => (none, (s.purge now).2)

/-- The store after some uses. -/
def after (s : Sessions α) (uses : List (Use α)) : Sessions α :=
  uses.foldl (fun s u => (s.use u).2) s

/-- The values that some uses hand out, each at its place. -/
def answers (s : Sessions α) : List (Use α) → List (Option α)
  | [] => []
  | u :: later => (s.use u).1 :: (s.use u).2.answers later

@[simp] theorem after_nil (s : Sessions α) : s.after [] = s := rfl

theorem after_concat (s : Sessions α) (past : List (Use α)) (u : Use α) :
    s.after (past ++ [u]) = ((s.after past).use u).2 := by
  simp [after]

/-! ## The reference -/

/-- The last entry of each subject that has not been handed out by a take. -/
structure Reference (α : Type) where
  ttl : Int
  held : String → Option (SessionEntry α)

namespace Reference

/-- Nothing is held. -/
def empty (ttl : Int) : Reference α := ⟨ttl, fun _ => none⟩

/-- The value of a subject, if its entry is live. -/
def value? (r : Reference α) (now : Instant) (subject : String) : Option α :=
  ((r.held subject).filter fun e => e.isLive now).map fun e => e.value

/-- The map with another entry, or none, for one subject. -/
def set (r : Reference α) (subject : String) (e? : Option (SessionEntry α)) : Reference α :=
  { r with held := Function.update r.held subject e? }

/-- The value that a use hands out, and the map after it. A put replaces, a take drops what it
hands out, and nothing else is ever dropped. -/
def use (r : Reference α) : Use α → Option α × Reference α
  | .put now subject value => (none, r.set subject (some (entryOf r.ttl now subject value)))
  | .get now subject => (r.value? now subject, r)
  | .take now subject =>
    (r.value? now subject, if (r.value? now subject).isSome then r.set subject none else r)
  | .purge _ => (none, r)

/-- The map after some uses. -/
def after (r : Reference α) (uses : List (Use α)) : Reference α :=
  uses.foldl (fun r u => (r.use u).2) r

/-- The values that some uses hand out, each at its place. -/
def answers (r : Reference α) : List (Use α) → List (Option α)
  | [] => []
  | u :: later => (r.use u).1 :: (r.use u).2.answers later

theorem after_concat (r : Reference α) (past : List (Use α)) (u : Use α) :
    r.after (past ++ [u]) = ((r.after past).use u).2 := by
  simp [after]

@[simp] theorem set_ttl (r : Reference α) (subject : String) (e? : Option (SessionEntry α)) :
    (r.set subject e?).ttl = r.ttl := rfl

@[simp] theorem held_set_self (r : Reference α) (subject : String)
    (e? : Option (SessionEntry α)) : (r.set subject e?).held subject = e? :=
  Function.update_self ..

theorem held_set_of_ne (r : Reference α) {subject other : String} (e? : Option (SessionEntry α))
    (hother : other ≠ subject) : (r.set subject e?).held other = r.held other :=
  Function.update_of_ne hother ..

theorem value?_eq_some_iff {r : Reference α} {now : Instant} {subject : String} {v : α} :
    r.value? now subject = some v ↔
      ∃ e, r.held subject = some e ∧ e.isLive now = true ∧ e.value = v := by
  simp [value?, and_assoc]

theorem value?_eq_none_iff {r : Reference α} {now : Instant} {subject : String} :
    r.value? now subject = none ↔ ∀ e, r.held subject = some e → e.isLive now = false := by
  simp [value?, Option.filter_eq_none_iff]

end Reference

/-! ## What the store holds after a use -/

theorem mem_remove {s : Sessions α} {subject : String} {e : SessionEntry α} :
    e ∈ (s.remove subject).entries ↔ e ∈ s.entries ∧ e.subject ≠ subject := by
  simp [remove]

theorem mem_sweep {s : Sessions α} {now : Instant} {e : SessionEntry α} :
    e ∈ (s.sweep now).entries ↔ e ∈ s.entries ∧ e.isLive now = true := by
  simp [sweep]

theorem mem_put {s : Sessions α} {now : Instant} {subject : String} {value : α}
    {e : SessionEntry α} :
    e ∈ (s.put now subject value).entries ↔
      (e ∈ s.entries ∧ e.isLive now = true) ∧ e.subject ≠ subject ∨
        e = entryOf s.ttl now subject value := by
  rw [← mem_sweep, ← mem_remove]
  exact List.mem_append.trans (or_congr_right List.mem_singleton)

/-! ## What the two agree on -/

/-- At this time all that the store holds is held by the reference, and what the reference holds
beyond that has expired. -/
structure Sees (now : Instant) (s : Sessions α) (r : Reference α) : Prop where
  ttl : s.ttl = r.ttl
  held : ∀ e ∈ s.entries, r.held e.subject = some e
  kept : ∀ subject e, r.held subject = some e →
    e.subject = subject ∧ (e ∈ s.entries ∨ e.isLive now = false)

namespace Sees

variable {t u : Instant} {s : Sessions α} {r : Reference α}

theorem empty (ttl : Int) : Sees t (Sessions.empty ttl : Sessions α) (Reference.empty ttl) where
  ttl := rfl
  held := fun _ he => absurd he List.not_mem_nil
  kept := fun _ _ he => nomatch he

theorem later (h : Sees t s r) (htu : u.NotBefore t) : Sees u s r where
  ttl := h.ttl
  held := h.held
  kept := fun subject e he =>
    have ⟨hsubject, hor⟩ := h.kept subject e he
    ⟨hsubject, hor.imp_right (SessionEntry.isLive_eq_false_of_notBefore htu)⟩

/-! ### What the store drops and adds -/

/-- Entries that have expired may go. -/
theorem sweep (h : Sees t s r) : Sees t (s.sweep t) r where
  ttl := h.ttl
  held := fun e he => h.held e (mem_sweep.mp he).1
  kept := fun subject e he => by
    obtain ⟨hsubject, hmem | hexpired⟩ := h.kept subject e he
    · cases hlive : e.isLive t with
      | true => exact ⟨hsubject, .inl (mem_sweep.mpr ⟨hmem, hlive⟩)⟩
      | false => exact ⟨hsubject, .inr rfl⟩
    · exact ⟨hsubject, .inr hexpired⟩

/-- So may the entry of a subject whose entry in the reference has expired. -/
theorem remove (h : Sees t s r) {subject : String}
    (hexpired : ∀ e, r.held subject = some e → e.isLive t = false) :
    Sees t (s.remove subject) r where
  ttl := h.ttl
  held := fun e he => h.held e (mem_remove.mp he).1
  kept := fun other e he => by
    obtain ⟨hsubject, hmem | hgone⟩ := h.kept other e he
    · by_cases hother : other = subject
      · exact ⟨hsubject, .inr (hexpired e (hother ▸ he))⟩
      · exact ⟨hsubject, .inl (mem_remove.mpr ⟨hmem, hsubject ▸ hother⟩)⟩
    · exact ⟨hsubject, .inr hgone⟩

/-- The entry of a subject may be dropped by both. -/
theorem drop (h : Sees t s r) (subject : String) :
    Sees t (s.remove subject) (r.set subject none) where
  ttl := h.ttl
  held := fun e he => by
    obtain ⟨hmem, hother⟩ := mem_remove.mp he
    rw [r.held_set_of_ne none hother]
    exact h.held e hmem
  kept := fun other e he => by
    by_cases hother : other = subject
    · rw [hother, r.held_set_self] at he
      exact nomatch he
    · rw [r.held_set_of_ne none hother] at he
      obtain ⟨hsubject, hor⟩ := h.kept other e he
      exact ⟨hsubject, hor.imp_left fun hmem => mem_remove.mpr ⟨hmem, hsubject ▸ hother⟩⟩

/-- An entry that is put replaces in both the older one of its subject. -/
theorem put (h : Sees t s r) (subject : String) (value : α) :
    Sees t (s.put t subject value) (r.set subject (some (entryOf r.ttl t subject value))) where
  ttl := h.ttl
  held := fun e he => by
    obtain ⟨⟨hmem, -⟩, hother⟩ | rfl := mem_put.mp he
    · rw [r.held_set_of_ne _ hother]
      exact h.held e hmem
    · rw [h.ttl]
      exact r.held_set_self ..
  kept := fun other e he => by
    by_cases hother : other = subject
    · rw [hother, r.held_set_self] at he
      obtain rfl := Option.some.inj he
      exact ⟨hother.symm, .inl (mem_put.mpr (.inr (by rw [h.ttl])))⟩
    · rw [r.held_set_of_ne _ hother] at he
      obtain ⟨hsubject, hmem | hexpired⟩ := h.sweep.kept other e he
      · exact ⟨hsubject, .inl (mem_put.mpr (.inl ⟨mem_sweep.mp hmem, hsubject ▸ hother⟩))⟩
      · exact ⟨hsubject, .inr hexpired⟩

/-! ### Every use -/

/-- Asked for a subject, the store finds what the reference holds, or what that is has expired. -/
theorem entry?_cases (h : Sees t s r) (subject : String) :
    (s.entry? subject = none ∧ ∀ e, r.held subject = some e → e.isLive t = false) ∨
      ∃ e, s.entry? subject = some e ∧ r.held subject = some e := by
  cases hfound : s.entry? subject with
  | none =>
    refine .inl ⟨rfl, fun e he => ?_⟩
    obtain ⟨hsubject, hmem | hexpired⟩ := h.kept subject e he
    · exact absurd (List.find?_eq_none.mp hfound e hmem) (by simp [hsubject])
    · exact hexpired
  | some e =>
    have hsubject : e.subject = subject := by simpa using List.find?_some hfound
    exact .inr ⟨e, rfl, hsubject ▸ h.held e (List.mem_of_find?_eq_some hfound)⟩

theorem get (h : Sees t s r) (subject : String) :
    (s.get t subject).1 = r.value? t subject ∧ Sees t (s.get t subject).2 r := by
  obtain ⟨hnone, hexpired⟩ | ⟨e, hfound, hheld⟩ := h.entry?_cases subject
  · simp only [Sessions.get, hnone]
    exact ⟨(Reference.value?_eq_none_iff.mpr hexpired).symm, h⟩
  · simp only [Sessions.get, hfound]
    cases hlive : e.isLive t with
    | true => exact ⟨(Reference.value?_eq_some_iff.mpr ⟨e, hheld, hlive, rfl⟩).symm, h⟩
    | false =>
      have hexpired : ∀ f, r.held subject = some f → f.isLive t = false := fun f hf =>
        Option.some.inj (hheld.symm.trans hf) ▸ hlive
      exact ⟨(Reference.value?_eq_none_iff.mpr hexpired).symm, h.remove hexpired⟩

theorem take (h : Sees t s r) (subject : String) :
    (s.take t subject).1 = r.value? t subject ∧
      Sees t (s.take t subject).2
        (if (r.value? t subject).isSome then r.set subject none else r) := by
  obtain ⟨hnone, hexpired⟩ | ⟨e, hfound, hheld⟩ := h.entry?_cases subject
  · simp only [Sessions.take, hnone, Reference.value?_eq_none_iff.mpr hexpired]
    exact ⟨trivial, h⟩
  · simp only [Sessions.take, hfound]
    cases hlive : e.isLive t with
    | true =>
      rw [Reference.value?_eq_some_iff.mpr ⟨e, hheld, hlive, rfl⟩]
      exact ⟨rfl, h.drop subject⟩
    | false =>
      have hexpired : ∀ f, r.held subject = some f → f.isLive t = false := fun f hf =>
        Option.some.inj (hheld.symm.trans hf) ▸ hlive
      rw [Reference.value?_eq_none_iff.mpr hexpired]
      exact ⟨rfl, h.remove hexpired⟩

/-- Every use hands out the same, and leaves the two as much alike as they were. -/
theorem use {w : Use α} (h : Sees w.now s r) :
    (s.use w).1 = (r.use w).1 ∧ Sees w.now (s.use w).2 (r.use w).2 := by
  cases w with
  | put now subject value => exact ⟨rfl, h.put subject value⟩
  | get now subject => exact h.get subject
  | take now subject => exact h.take subject
  | purge now => exact ⟨rfl, h.sweep⟩

/-- So does a whole run of uses, as long as the clock does not run backwards. -/
theorem answers_eq {later : List (Use α)} (h : Sees t s r) (ht : ∀ w ∈ later, w.now.NotBefore t)
    (horder : InOrder later) : s.answers later = r.answers later := by
  induction later generalizing t s r with
  | nil => rfl
  | cons w later ih =>
    have hstep := (h.later (ht w List.mem_cons_self)).use
    obtain ⟨hfirst, hrest⟩ := List.pairwise_cons.mp horder
    rw [Sessions.answers, Reference.answers, hstep.1, ih hstep.2 hfirst hrest]

end Sees

/-- What the two agree on after any uses, at any time that none of them comes after. -/
theorem sees_after (ttl : Int) {past : List (Use α)} {t : Instant} (horder : InOrder past)
    (ht : ∀ w ∈ past, t.NotBefore w.now) :
    Sees t ((empty ttl).after past) ((Reference.empty ttl).after past) := by
  induction past using List.reverseRecOn generalizing t with
  | nil => exact .empty ttl
  | append_singleton past u ih =>
    rw [after_concat, Reference.after_concat]
    obtain ⟨hpast, -, hbefore⟩ := List.pairwise_append.mp horder
    have hstep := (ih hpast fun w hw => hbefore w hw u List.mem_cons_self).use
    exact hstep.2.later (ht u (by simp))

/-! ## What the reference holds, told from the uses -/

/-- The last put for a subject among some uses, which no take for the subject follows. -/
def Stands (past : List (Use α)) (subject : String) (now : Instant) (value : α) : Prop :=
  ∃ before later, past = before ++ .put now subject value :: later ∧
    ∀ w ∈ later, ¬ w.Unseats subject

theorem stands_concat {past : List (Use α)} {u : Use α} {subject : String} {t : Instant} {v : α} :
    Stands (past ++ [u]) subject t v ↔
      u = .put t subject v ∨ ¬ u.Unseats subject ∧ Stands past subject t v := by
  constructor
  · rintro ⟨before, later, hsplit, hquiet⟩
    induction later using List.reverseRecOn with
    | nil =>
      have hlast := (List.append_inj' hsplit rfl).2
      exact .inl (List.singleton_inj.mp hlast)
    | append_singleton later w _ =>
      rw [← List.cons_append, ← List.append_assoc] at hsplit
      obtain ⟨hpast, hlast⟩ := List.append_inj' hsplit rfl
      obtain rfl := List.singleton_inj.mp hlast
      exact .inr ⟨hquiet u (by simp), before, later, hpast,
        fun x hx => hquiet x (List.mem_append_left _ hx)⟩
  · rintro (rfl | ⟨hu, before, later, rfl, hquiet⟩)
    · exact ⟨past, [], rfl, by simp⟩
    · refine ⟨before, later ++ [u], by simp, fun w hw => ?_⟩
      rcases List.mem_append.mp hw with hw | hw
      · exact hquiet w hw
      · exact List.mem_singleton.mp hw ▸ hu

namespace Reference

/-- A use that does not unseat what stands for a subject leaves what is held for it. -/
theorem held_use_of_not_unseats (r : Reference α) {u : Use α} {subject : String}
    (hu : ¬ u.Unseats subject) : (r.use u).2.held subject = r.held subject := by
  cases u with
  | put now s value => exact r.held_set_of_ne _ (Ne.symm hu)
  | get now s => rfl
  | take now s =>
    by_cases hlive : (r.value? now s).isSome
    · simp only [use, hlive, if_true]
      exact r.held_set_of_ne _ (Ne.symm hu)
    · simp only [use, hlive]
      rfl
  | purge now => rfl

/-- After a take nothing is live for its subject, then or later. -/
theorem value?_use_take (r : Reference α) {taken now : Instant} (hlater : now.NotBefore taken)
    (subject : String) : ((r.use (.take taken subject)).2).value? now subject = none := by
  rw [value?_eq_none_iff]
  intro e he
  cases hvalue : r.value? taken subject with
  | some v => simp [use, hvalue] at he
  | none =>
    simp only [use, hvalue] at he
    exact SessionEntry.isLive_eq_false_of_notBefore hlater (value?_eq_none_iff.mp hvalue e he)

theorem after_ttl (r : Reference α) (past : List (Use α)) : (r.after past).ttl = r.ttl := by
  induction past using List.reverseRecOn with
  | nil => rfl
  | append_singleton past u ih =>
    rw [after_concat, ← ih]
    cases u with
    | take now subject => simp only [use]; split <;> rfl
    | put | get | purge => rfl

/-- The live value of a subject is that of the put that stands, if it has not expired. -/
theorem value?_after_eq_some_iff {ttl : Int} {past : List (Use α)} {now : Instant}
    (hnow : ∀ w ∈ past, now.NotBefore w.now) {subject : String} {v : α} :
    ((empty ttl).after past).value? now subject = some v ↔
      ∃ t, Stands past subject t v ∧ (entryOf ttl t subject v).isLive now = true := by
  induction past using List.reverseRecOn with
  | nil => exact iff_of_false nofun (by rintro ⟨t, ⟨before, later, hsplit, -⟩, -⟩; simp at hsplit)
  | append_singleton past u ih =>
    replace ih := ih fun w hw => hnow w (List.mem_append_left _ hw)
    simp only [after_concat, stands_concat]
    by_cases hu : u.Unseats subject
    · simp only [hu, not_true_eq_false, false_and, or_false]
      cases u with
      | put t s value =>
        obtain rfl : s = subject := hu
        simp only [use, value?_eq_some_iff, held_set_self, after_ttl, Option.some.injEq,
          Use.put.injEq, true_and, exists_eq_left']
        constructor
        · rintro ⟨hlive, rfl⟩
          exact ⟨t, ⟨rfl, rfl⟩, hlive⟩
        · rintro ⟨_, ⟨rfl, rfl⟩, hlive⟩
          exact ⟨hlive, rfl⟩
      | take t s =>
        obtain rfl : s = subject := hu
        have hlater : now.NotBefore t := hnow (.take t s) (by simp)
        rw [value?_use_take _ hlater s]
        simp
      | get | purge => exact hu.elim
    · have hput : ∀ t, u ≠ .put t subject v := by
        rintro t rfl
        exact hu rfl
      simp only [value?, held_use_of_not_unseats _ hu, hput, hu, false_or, not_false_eq_true,
        true_and]
      exact ih

end Reference

/-! ## The answers -/

/-- The put at place `i` is the last one for the subject that the use at place `j` asks for, no
take for the subject stands between the two, and what was put has not expired. -/
def Supplies (ttl : Int) (uses : List (Use α)) (i j : Nat) (value : α) : Prop :=
  ∃ subject put u, i < j ∧ uses[i]? = some (.put put subject value) ∧
    uses[j]? = some u ∧ u.Asks subject ∧
    (∀ w ∈ (uses.take j).drop (i + 1), ¬ w.Unseats subject) ∧
    (entryOf ttl put subject value).isLive u.now = true

theorem answers_getElem? (s : Sessions α) (uses : List (Use α)) (j : Nat) :
    (s.answers uses)[j]? = uses[j]?.map fun u => ((s.after (uses.take j)).use u).1 := by
  induction uses generalizing s j with
  | nil => rfl
  | cons u later ih =>
    cases j with
    | zero => rfl
    | succ j => exact ih (s.use u).2 j

/-- A use hands out a value when it asks for a subject whose value that is. -/
theorem Reference.use_eq_some_iff {r : Reference α} {u : Use α} {v : α} :
    (r.use u).1 = some v ↔ ∃ subject, u.Asks subject ∧ r.value? u.now subject = some v := by
  cases u with
  | put | purge => exact iff_of_false nofun fun ⟨_, hasks, _⟩ => hasks
  | get now s | take now s =>
    exact ⟨fun h => ⟨s, rfl, h⟩, by rintro ⟨_, rfl, h⟩; exact h⟩

theorem stands_take_iff {uses : List (Use α)} {j : Nat} {subject : String} {t : Instant} {v : α}
    (hj : j ≤ uses.length) :
    Stands (uses.take j) subject t v ↔ ∃ i, i < j ∧ uses[i]? = some (.put t subject v) ∧
      ∀ w ∈ (uses.take j).drop (i + 1), ¬ w.Unseats subject := by
  constructor
  · rintro ⟨before, later, hsplit, hquiet⟩
    have hlength := congrArg List.length hsplit
    simp only [List.length_take, List.length_append, List.length_cons] at hlength
    have hi : before.length < j := by omega
    refine ⟨before.length, hi, ?_, ?_⟩
    · rw [← List.getElem?_take_of_lt hi, hsplit]
      simp
    · rw [hsplit]
      simpa using hquiet
  · rintro ⟨i, hi, hput, hquiet⟩
    refine ⟨(uses.take j).take i, (uses.take j).drop (i + 1), ?_, hquiet⟩
    rw [← List.getElem?_take_of_lt hi] at hput
    obtain ⟨hlt, hget⟩ := List.getElem?_eq_some_iff.mp hput
    rw [← hget, List.getElem_cons_drop, List.take_append_drop]

/-- What a use hands out is supplied by a put before it. -/
theorem answers_eq_some_iff {ttl : Int} {uses : List (Use α)} (horder : InOrder uses) {j : Nat}
    {v : α} :
    ((empty ttl).answers uses)[j]? = some (some v) ↔ ∃ i, Supplies ttl uses i j v := by
  rw [answers_getElem?]
  cases hu : uses[j]? with
  | none => exact iff_of_false nofun fun ⟨_, _, _, _, _, _, h, _⟩ => nomatch hu.symm.trans h
  | some u =>
    obtain ⟨hlt, hget⟩ := List.getElem?_eq_some_iff.mp hu
    have hsplit : uses.take j ++ u :: uses.drop (j + 1) = uses := by
      rw [← hget, List.getElem_cons_drop, List.take_append_drop]
    rw [← hsplit] at horder
    obtain ⟨hpast, -, hbefore⟩ := List.pairwise_append.mp horder
    have hnow : ∀ w ∈ uses.take j, u.now.NotBefore w.now := fun w hw =>
      hbefore w hw u List.mem_cons_self
    have hagree := ((sees_after ttl hpast hnow).use (w := u)).1
    simp only [Option.map_some, Option.some.injEq, hagree, Reference.use_eq_some_iff,
      Reference.value?_after_eq_some_iff hnow, stands_take_iff (Nat.le_of_lt hlt), Supplies]
    constructor
    · rintro ⟨subject, hasks, t, ⟨i, hi, hput, hquiet⟩, hlive⟩
      exact ⟨i, subject, t, u, hi, hput, hu, hasks, hquiet, hlive⟩
    · rintro ⟨i, subject, t, _, hi, hput, hsome, hasks, hquiet, hlive⟩
      obtain rfl := Option.some.inj (hu.symm.trans hsome)
      exact ⟨subject, hasks, t, ⟨i, hi, hput, hquiet⟩, hlive⟩

/-- A take unseats what it is supplied with, so nothing after it is supplied by the same put. -/
theorem Supplies.not_after_take {ttl : Int} {uses : List (Use α)} {i j k : Nat} {v w : α}
    {u : Use α} (hj : Supplies ttl uses i j v) (hk : Supplies ttl uses i k w)
    (hu : uses[j]? = some u) (htake : u.IsTake) : k ≤ j := by
  obtain ⟨subject, t, _, hij, hput, hsome, hasks, -⟩ := hj
  obtain ⟨other, t', _, -, hput', -, -, hquiet, -⟩ := hk
  obtain rfl := Option.some.inj (hu.symm.trans hsome)
  obtain ⟨-, rfl, -⟩ := Use.put.inj (Option.some.inj (hput.symm.trans hput'))
  by_contra hlater
  refine hquiet u (List.mem_of_getElem? (i := j - (i + 1)) ?_) (htake.unseats hasks)
  rw [List.getElem?_drop, List.getElem?_take_of_lt (by omega), ← hu]
  congr 1
  omega

/-! ## What is dropped and what is kept -/

/-- No use drops a live entry, unless it replaces or takes it. -/
theorem Sees.mem_use {s : Sessions α} {r : Reference α} {u : Use α} (h : Sees u.now s r)
    {e : SessionEntry α} (he : e ∈ s.entries) (hlive : e.isLive u.now = true)
    (hu : ¬ u.Unseats e.subject) : e ∈ (s.use u).2.entries := by
  have hheld : (r.use u).2.held e.subject = some e :=
    (r.held_use_of_not_unseats hu).trans (h.held e he)
  exact (h.use.2.kept e.subject e hheld).2.resolve_right (by simp [hlive])

/-- A use that looks through all entries leaves live ones, and the one that it has made. -/
theorem live_of_mem_use {s : Sessions α} {u : Use α} (hu : u.Sweeps) {e : SessionEntry α}
    (he : e ∈ (s.use u).2.entries) :
    e.isLive u.now = true ∨ u.Makes s.ttl e := by
  cases u with
  | put now subject value => exact (mem_put.mp he).imp_left fun hkept => hkept.1.2
  | purge now => exact .inl (mem_sweep.mp he).2
  | get | take => exact hu.elim

/-- A use that only looks changes no later answer. -/
theorem Sees.answers_use_of_isIdle {s : Sessions α} {r : Reference α} {u : Use α}
    (h : Sees u.now s r) (hu : u.IsIdle) {later : List (Use α)}
    (hlater : ∀ w ∈ later, w.now.NotBefore u.now) (horder : InOrder later) :
    (s.use u).2.answers later = s.answers later := by
  have hsame : (r.use u).2 = r := by
    cases u with
    | get | purge => rfl
    | put | take => exact hu.elim
  have hused := h.use.2
  rw [hsame] at hused
  rw [hused.answers_eq hlater horder, h.answers_eq hlater horder]

/-- A purge says how many entries it drops, each of which has expired. -/
theorem purge_count (s : Sessions α) (now : Instant) :
    (s.purge now).1 = s.entries.countP fun e => !e.isLive now := by
  have hsplit := List.length_eq_countP_add_countP (fun e => e.isLive now) (l := s.entries)
  simp only [purge, sweep, ← List.countP_eq_length_filter]
  simp only [decide_not, Bool.decide_eq_true] at hsplit
  omega

/-- **Sessions answer like a map that forgets nothing.** Over every run of uses at readings of a
clock that never runs backwards, and for every time to live: the store answers as the reference
does; a use hands out just what the last put for its subject put, if that has not been taken since
and has not expired; and no put supplies two takes. Wherever the run is cut, sweeping the store
before the next use changes no answer from there on, nor does a get or a purge change any later
one; the next use drops no live entry but the one it replaces or takes; after a put or a purge all
entries are live but perhaps the one just put; and a purge counts the entries that have expired. -/
theorem answers_like_reference (ttl : Int) (uses : List (Use α)) (horder : InOrder uses) :
    (empty ttl).answers uses = (Reference.empty ttl).answers uses ∧
    (∀ j v, ((empty ttl).answers uses)[j]? = some (some v) ↔ ∃ i, Supplies ttl uses i j v) ∧
    (∀ i j k v w, Supplies ttl uses i j v → Supplies ttl uses i k w →
      (∀ u, uses[j]? = some u ∨ uses[k]? = some u → u.IsTake) → j = k) ∧
    ∀ past u later, uses = past ++ u :: later →
      let s := (empty ttl).after past
      (s.sweep u.now).answers (u :: later) = s.answers (u :: later) ∧
      (u.IsIdle → (s.use u).2.answers later = s.answers later) ∧
      (∀ e ∈ s.entries, e.isLive u.now = true → ¬ u.Unseats e.subject →
        e ∈ (s.use u).2.entries) ∧
      (u.Sweeps → ∀ e ∈ (s.use u).2.entries, e.isLive u.now = true ∨ u.Makes ttl e) ∧
      (s.purge u.now).1 = s.entries.countP fun e => !e.isLive u.now := by
  refine ⟨?_, fun j v => answers_eq_some_iff horder, ?_, ?_⟩
  · cases uses with
    | nil => rfl
    | cons u later =>
      have hfirst : ∀ w ∈ u :: later, w.now.NotBefore u.now :=
        List.forall_mem_cons.mpr ⟨u.now.notBefore_self, (List.pairwise_cons.mp horder).1⟩
      exact (Sees.empty ttl).answers_eq hfirst horder
  · intro i j k v w hj hk htakes
    obtain ⟨_, _, u, _, _, hu, _⟩ := id hj
    obtain ⟨_, _, u', _, _, hu', _⟩ := id hk
    exact Nat.le_antisymm (hk.not_after_take hj hu' (htakes u' (.inr hu')))
      (hj.not_after_take hk hu (htakes u (.inl hu)))
  · rintro past u later rfl s
    obtain ⟨hpast, hlater, hbefore⟩ := List.pairwise_append.mp horder
    have hsees : Sees u.now s ((Reference.empty ttl).after past) :=
      sees_after ttl hpast fun w hw => hbefore w hw u List.mem_cons_self
    have hfirst : ∀ w ∈ u :: later, w.now.NotBefore u.now :=
      List.forall_mem_cons.mpr ⟨u.now.notBefore_self, (List.pairwise_cons.mp hlater).1⟩
    have httl : s.ttl = ttl := hsees.ttl.trans (Reference.after_ttl _ past)
    refine ⟨?_, fun hu => ?_, fun e he hlive hu => hsees.mem_use he hlive hu,
      fun hu e he => httl ▸ live_of_mem_use hu he, purge_count s u.now⟩
    · rw [hsees.sweep.answers_eq hfirst hlater, hsees.answers_eq hfirst hlater]
    · exact hsees.answers_use_of_isIdle hu (List.pairwise_cons.mp hlater).1
        (List.pairwise_cons.mp hlater).2

/-- Two subjects with ten seconds to live: one is taken, the other expires. -/
def parked : List (Use Nat) :=
  [.put ⟨0, 0⟩ "pet" 1, .put ⟨4, 0⟩ "owner" 2, .get ⟨5, 0⟩ "pet", .take ⟨6, 0⟩ "pet",
    .purge ⟨12, 0⟩, .get ⟨13, 999999999⟩ "owner", .take ⟨14, 0⟩ "owner"]

theorem answers_like_reference_parked :
    InOrder parked ∧
    (empty 10000000000).answers parked = [none, none, some 1, some 1, none, some 2, none] ∧
    (∃ i, Supplies 10000000000 parked i 5 2) ∧ ¬ ∃ i, Supplies 10000000000 parked i 6 2 := by
  have horder : InOrder parked := by decide
  have hanswers : (empty 10000000000).answers parked
      = [none, none, some 1, some 1, none, some 2, none] := by decide +kernel
  have hsupplied := (answers_like_reference 10000000000 parked horder).2.1
  rw [hanswers] at hsupplied
  exact ⟨horder, hanswers, (hsupplied 5 2).mp rfl, mt (hsupplied 6 2).mpr (by decide)⟩

end Sessions

end RitualLedger
