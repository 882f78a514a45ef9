import RitualLedger.Proofs.Session.Reference

/-!
# When an entry expires

What is put lives for a time to live that may be any whole number of nanoseconds. On unbounded
integers its end is a sum. The store computes with instants that a date can name: a sum beyond the
last of them becomes the last one, which makes no difference before that instant, and so does a sum
below the first of them, which does. So the entry is visible as the sum says, save that with a time
to live so negative that the sum falls below the first instant the entry never expires.

Times to live that are given as a number of seconds are not negative, and there the rule is exact.

Readings of a clock are told apart from instants by `IsReading`: they name no leap second.
-/

namespace RitualLedger

namespace Instant

/-! ## Instants as counts -/

/-- Nanoseconds since the start of 1970 in UTC. -/
def count (t : Instant) : Int := t.seconds * nanosPerSecond + t.nanos

/-- What a clock can show: an instant that a date can name, and no leap second. -/
structure IsReading (t : Instant) : Prop where
  nanos_lt : t.nanos < nanosPerSecond
  notBefore : earliest.count ≤ t.count
  notAfter : t.count ≤ latest.count

instance (t : Instant) : Decidable t.IsReading :=
  decidable_of_iff (t.nanos < nanosPerSecond ∧ earliest.count ≤ t.count ∧ t.count ≤ latest.count)
    ⟨fun h => ⟨h.1, h.2.1, h.2.2⟩, fun h => ⟨h.1, h.2, h.3⟩⟩

theorem before_iff_count {a b : Instant} (ha : a.nanos < nanosPerSecond)
    (hb : b.nanos < nanosPerSecond) : a.before b = true ↔ a.count < b.count := by
  rw [before_iff, count, count]
  simp only [nanosPerSecond] at *
  omega

theorem nanos_earliest : earliest.nanos < nanosPerSecond := by decide

theorem nanos_latest : latest.nanos < nanosPerSecond := by decide

theorem earliest_lt_latest : earliest.count < latest.count := by decide

/-- A moved instant counts what it should; there is none just if that is too early or too late. -/
theorem plus?_cases (t : Instant) (nanos : Int) :
    (t.plus? nanos = none ∧
      (t.count + nanos < earliest.count ∨ latest.count < t.count + nanos)) ∨
    ∃ u, t.plus? nanos = some u ∧ u.IsReading ∧ u.count = t.count + nanos := by
  let moved : Instant :=
    ⟨(t.count + nanos) / nanosPerSecond, ((t.count + nanos) % nanosPerSecond).toNat⟩
  have hnanos : moved.nanos < nanosPerSecond := by
    simp only [moved, nanosPerSecond]
    omega
  have hcount : moved.count = t.count + nanos := by
    simp only [moved, count, nanosPerSecond]
    omega
  have hplus : t.plus? nanos =
      if moved.before earliest || latest.before moved then none else some moved := rfl
  rw [hplus]
  split
  · rename_i hout
    rw [Bool.or_eq_true, before_iff_count hnanos nanos_earliest,
      before_iff_count nanos_latest hnanos, hcount] at hout
    exact .inl ⟨rfl, hout⟩
  · rename_i hin
    rw [Bool.or_eq_true, before_iff_count hnanos nanos_earliest,
      before_iff_count nanos_latest hnanos, not_or] at hin
    exact .inr ⟨moved, rfl, ⟨hnanos, Int.not_lt.1 hin.1, Int.not_lt.1 hin.2⟩, hcount⟩

end Instant

open Instant

namespace Sessions

variable {α : Type}

/-! ## The end of a time to live -/

/-- Whether what was put at a time is to be seen now, computed on unbounded integers. -/
def Lasts (ttl : Int) (t now : Instant) : Prop := now.count < t.count + ttl

/-- Whether the sum lies before the first instant that a date can name. -/
def TooEarly (ttl : Int) (t : Instant) : Prop := t.count + ttl < earliest.count

instance {ttl : Int} {t now : Instant} : Decidable (Lasts ttl t now) :=
  inferInstanceAs (Decidable (_ < _))

instance {ttl : Int} {t : Instant} : Decidable (TooEarly ttl t) :=
  inferInstanceAs (Decidable (_ < _))

/-- Nothing that a clock shows comes before a sum that is too early. -/
theorem TooEarly.not_lasts {ttl : Int} {t now : Instant} (h : TooEarly ttl t)
    (hnow : now.IsReading) : ¬ Lasts ttl t now := by
  have hleast := hnow.notBefore
  simp only [TooEarly, Lasts] at *
  omega

theorem isReading_expiry (s : Sessions α) (t : Instant) : (s.expiry t).IsReading := by
  have hlatest : Instant.latest.IsReading :=
    ⟨nanos_latest, Int.le_of_lt earliest_lt_latest, Int.le_refl _⟩
  obtain ⟨hnone, -⟩ | ⟨u, hsome, hu, -⟩ := t.plus?_cases s.ttl
  · rw [expiry, hnone]
    exact hlatest
  · rw [expiry, hsome]
    exact hu

/-- A sum that is too late counts as the last instant, and so does one that is too early. -/
theorem count_expiry (s : Sessions α) (t : Instant) :
    (s.expiry t).count =
      if TooEarly s.ttl t then Instant.latest.count
      else min (t.count + s.ttl) Instant.latest.count := by
  by_cases hearly : TooEarly s.ttl t
  · rw [if_pos hearly]
    obtain ⟨hnone, -⟩ | ⟨u, -, hu, hcount⟩ := t.plus?_cases s.ttl
    · rw [expiry, hnone, Option.getD_none]
    · have hleast := hu.notBefore
      rw [TooEarly] at hearly
      omega
  · rw [if_neg hearly]
    obtain ⟨hnone, hout⟩ | ⟨u, hsome, hu, hcount⟩ := t.plus?_cases s.ttl
    · have hlate := hout.resolve_left hearly
      rw [expiry, hnone, Option.getD_none, Int.min_eq_right (Int.le_of_lt hlate)]
    · rw [expiry, hsome, Option.getD_some, ← hcount, Int.min_eq_left hu.notAfter]

/-- The sum decides, if it is not too early. -/
theorem before_expiry_iff {s : Sessions α} {t now : Instant} (hnow : now.IsReading)
    (hlast : now.before Instant.latest = true) :
    now.before (s.expiry t) = true ↔ Lasts s.ttl t now ∨ TooEarly s.ttl t := by
  rw [before_iff_count hnow.nanos_lt nanos_latest] at hlast
  rw [before_iff_count hnow.nanos_lt (s.isReading_expiry t).nanos_lt, count_expiry]
  by_cases hearly : TooEarly s.ttl t
  · rw [if_pos hearly]
    exact iff_of_true hlast (.inr hearly)
  · rw [if_neg hearly, or_iff_left hearly, Lasts]
    omega

/-! ## Times to live given in seconds -/

theorem ttlOfSeconds_nonneg (seconds : UInt64) : 0 ≤ ttlOfSeconds seconds := by
  have hlongest : 0 ≤ longestTtl := by decide
  rw [ttlOfSeconds]
  omega

/-- The longest time to live leads beyond the last instant from wherever it starts. -/
theorem latest_lt_add_longestTtl {t : Instant} (ht : t.IsReading) :
    Instant.latest.count < t.count + longestTtl := by
  have hlongest : Instant.latest.count < earliest.count + longestTtl := by decide
  have hleast := ht.notBefore
  omega

theorem not_tooEarly_ttlOfSeconds (seconds : UInt64) {t : Instant} (ht : t.IsReading) :
    ¬ TooEarly (ttlOfSeconds seconds) t := by
  have hnonneg := ttlOfSeconds_nonneg seconds
  have hleast := ht.notBefore
  rw [TooEarly]
  omega

theorem count_expiry_ofSeconds {s : Sessions α} {seconds : UInt64}
    (hs : s.ttl = ttlOfSeconds seconds) {t : Instant} (ht : t.IsReading) :
    (s.expiry t).count =
      min (t.count + seconds.toNat * nanosPerSecond) Instant.latest.count := by
  have hlongest := latest_lt_add_longestTtl ht
  rw [count_expiry, hs, if_neg (not_tooEarly_ttlOfSeconds seconds ht)]
  simp only [ttlOfSeconds, nanosPerSecond]
  omega

/-- No larger number of seconds makes an entry expire earlier. -/
theorem expiry_mono {r s : Sessions α} {n m : UInt64} (hr : r.ttl = ttlOfSeconds n)
    (hs : s.ttl = ttlOfSeconds m) (h : n ≤ m) {t : Instant} (ht : t.IsReading) :
    (s.expiry t).NotBefore (r.expiry t) := by
  have hle : n.toNat ≤ m.toNat := UInt64.le_iff_toNat_le.1 h
  have hnot : ¬ (s.expiry t).before (r.expiry t) = true := by
    rw [before_iff_count (s.isReading_expiry t).nanos_lt (r.isReading_expiry t).nanos_lt,
      count_expiry_ofSeconds hs ht, count_expiry_ofSeconds hr ht]
    simp only [nanosPerSecond]
    omega
  exact Bool.eq_false_iff.2 hnot

/-! ## What stays of an entry -/

/-- Of the subject of an entry the store holds at most that entry, and does if it is live now. -/
structure Rests (s : Sessions α) (e : SessionEntry α) (now : Instant) : Prop where
  only : ∀ f ∈ s.entries, f.subject = e.subject → f = e
  kept : e.isLive now = true → e ∈ s.entries

namespace Rests

variable {s : Sessions α} {e : SessionEntry α} {now : Instant}

theorem put (s : Sessions α) (t now : Instant) (subject : String) (value : α) :
    Rests (s.put t subject value) (entryOf s.ttl t subject value) now where
  only := fun f hf hsubject => by
    obtain ⟨-, hother⟩ | rfl := mem_put.mp hf
    · exact absurd hsubject hother
    · rfl
  kept := fun _ => mem_put.mpr (.inr rfl)

theorem sweep (h : Rests s e now) {t : Instant} (ht : now.NotBefore t) :
    Rests (s.sweep t) e now where
  only := fun f hf => h.only f (mem_sweep.mp hf).1
  kept := fun hlive => mem_sweep.mpr ⟨h.kept hlive, ht.before_of_before hlive⟩

theorem remove (h : Rests s e now) {subject : String}
    (hsubject : e.isLive now = true → e.subject ≠ subject) : Rests (s.remove subject) e now where
  only := fun f hf => h.only f (mem_remove.mp hf).1
  kept := fun hlive => mem_remove.mpr ⟨h.kept hlive, hsubject hlive⟩

/-- An entry that is put for someone else makes no difference. -/
theorem put_other (h : Rests s e now) {t : Instant} (ht : now.NotBefore t) {subject : String}
    (hsubject : subject ≠ e.subject) (value : α) : Rests (s.put t subject value) e now where
  only := fun f hf hf' => by
    obtain ⟨⟨hmem, -⟩, -⟩ | rfl := mem_put.mp hf
    · exact h.only f hmem hf'
    · exact absurd hf' hsubject
  kept := fun hlive => mem_put.mpr
    (.inl ⟨⟨h.kept hlive, ht.before_of_before hlive⟩, hsubject.symm⟩)

/-- What is found for the subject is the entry. -/
theorem eq_of_entry? (h : Rests s e now) {f : SessionEntry α}
    (hfound : s.entry? e.subject = some f) : f = e :=
  h.only f (List.mem_of_find?_eq_some hfound) (by simpa using List.find?_some hfound)

theorem get (h : Rests s e now) {t : Instant} (ht : now.NotBefore t) (subject : String) :
    Rests (s.get t subject).2 e now := by
  rw [Sessions.get]
  split
  · exact h
  · rename_i f hfound
    split
    · exact h
    · rename_i hexpired
      refine h.remove fun hlive hsubject => hexpired ?_
      obtain rfl : f = e := h.eq_of_entry? (by rw [hsubject, hfound])
      exact ht.before_of_before hlive

theorem take (h : Rests s e now) (t : Instant) {subject : String} (hsubject : subject ≠ e.subject) :
    Rests (s.take t subject).2 e now := by
  rw [Sessions.take]
  split
  · exact h
  · exact h.remove fun _ => hsubject.symm

/-- Uses in between leave it so, unless they put or take for the subject. -/
theorem use (h : Rests s e now) {u : Use α} (hu : now.NotBefore u.now)
    (hquiet : ¬ u.Unseats e.subject) : Rests (s.use u).2 e now := by
  cases u with
  | put t subject value => exact h.put_other hu hquiet value
  | get t subject => exact h.get hu subject
  | take t subject => exact h.take t hquiet
  | purge t => exact h.sweep hu

theorem after (h : Rests s e now) {later : List (Use α)}
    (hlater : ∀ w ∈ later, now.NotBefore w.now ∧ ¬ w.Unseats e.subject) :
    Rests (s.after later) e now := by
  induction later using List.reverseRecOn with
  | nil => exact h
  | append_singleton later w ih =>
    rw [after_concat]
    obtain ⟨hnow, hquiet⟩ := hlater w (by simp)
    exact (ih fun x hx => hlater x (List.mem_append_left _ hx)).use hnow hquiet

/-- Whoever asks gets the value of the entry, if it is live. -/
theorem use_asks (h : Rests s e now) {u : Use α} (hasks : u.Asks e.subject) (hu : u.now = now) :
    (s.use u).1 = if e.isLive now = true then some e.value else none := by
  have hanswer : (s.use u).1 =
      (s.entry? e.subject).bind fun f => if f.isLive now = true then some f.value else none := by
    subst hu
    cases u with
    | get t subject =>
      obtain rfl : subject = e.subject := hasks
      simp only [Sessions.use, Sessions.get, Use.now]
      cases s.entry? e.subject with
      | none => rfl
      | some f => exact apply_ite Prod.fst ..
    | take t subject =>
      obtain rfl : subject = e.subject := hasks
      simp only [Sessions.use, Sessions.take, Use.now]
      cases s.entry? e.subject with
      | none => rfl
      | some f => rfl
    | put | purge => exact hasks.elim
  rw [hanswer]
  cases hfound : s.entry? e.subject with
  | none =>
    have hgone : ¬ e.isLive now = true := fun hlive =>
      List.find?_eq_none.mp hfound e (h.kept hlive) (by simp)
    rw [if_neg hgone]
    rfl
  | some f =>
    rw [h.eq_of_entry? hfound]
    rfl

theorem mem_purge (h : Rests s e now) :
    e ∈ (s.purge now).2.entries ↔ e.isLive now = true :=
  mem_sweep.trans ⟨And.right, fun hlive => ⟨h.kept hlive, hlive⟩⟩

end Rests

/-! ## Visibility -/

/-- **An entry is visible as long as the sum of its put and its time to live says.** Whatever the
store, and whatever happens for other subjects in between, up to the last instant: an entry put at
`t` is handed out now, and stays when the store is purged, just if the sum on unbounded integers
lies after now, or before the first instant that a date can name. So the sum decides except in that
case; with a time to live of zero or less the entry is never visible but in that case; and with a
number of seconds that is never the case, and more seconds never make an entry expire earlier. -/
theorem visible_as_sum_or_tooEarly (s : Sessions α) {t now : Instant} (ht : t.IsReading)
    (hnow : now.IsReading) (hlast : now.before Instant.latest = true) (subject : String) (value : α)
    {later : List (Use α)}
    (hlater : ∀ w ∈ later, now.NotBefore w.now ∧ ¬ w.Unseats subject) :
    let held := (s.put t subject value).after later
    (∀ u : Use α, u.Asks subject → u.now = now →
      (held.use u).1 =
        if Lasts s.ttl t now ∨ TooEarly s.ttl t then some value else none) ∧
    (entryOf s.ttl t subject value ∈ (held.purge now).2.entries ↔
      Lasts s.ttl t now ∨ TooEarly s.ttl t) ∧
    (((held.get now subject).1 = some value ↔ Lasts s.ttl t now) ↔ ¬ TooEarly s.ttl t) ∧
    (s.ttl ≤ 0 → now.NotBefore t →
      ((held.get now subject).1 = some value ↔ TooEarly s.ttl t)) ∧
    ∀ n, s.ttl = ttlOfSeconds n →
      ((held.get now subject).1 = some value ↔
        now.count < t.count + n.toNat * nanosPerSecond) ∧
      ∀ r : Sessions α, ∀ m, r.ttl = ttlOfSeconds m → n ≤ m →
        (r.expiry t).NotBefore (s.expiry t) := by
  intro held
  have hrests : Rests held (entryOf s.ttl t subject value) now :=
    (Rests.put s t now subject value).after hlater
  have hlive : (entryOf s.ttl t subject value).isLive now = true ↔
      Lasts s.ttl t now ∨ TooEarly s.ttl t := before_expiry_iff hnow hlast
  have hanswer : ∀ u : Use α, u.Asks subject → u.now = now →
      (held.use u).1 = if Lasts s.ttl t now ∨ TooEarly s.ttl t then some value else none := by
    intro u hasks hu
    rw [hrests.use_asks hasks hu]
    simp only [hlive]
    rfl
  have hget : (held.get now subject).1 = some value ↔ Lasts s.ttl t now ∨ TooEarly s.ttl t := by
    have hfirst := hanswer (.get now subject) rfl rfl
    rw [use] at hfirst
    rw [hfirst, Option.ite_none_right_eq_some, and_iff_left rfl]
  refine ⟨hanswer, hrests.mem_purge.trans hlive, ?_, ?_, ?_⟩
  · rw [hget]
    constructor
    · exact fun h hearly => hearly.not_lasts hnow (h.mp (.inr hearly))
    · exact fun h => or_iff_left h
  · intro hnonpos horder
    rw [hget]
    refine or_iff_right fun hlasts => ?_
    have hnot : ¬ now.before t = true := by rw [horder]; decide
    rw [before_iff_count hnow.nanos_lt ht.nanos_lt] at hnot
    rw [Lasts] at hlasts
    omega
  · intro n hn
    refine ⟨?_, fun r m hm hle => expiry_mono hn hm hle ht⟩
    have hlongest := latest_lt_add_longestTtl ht
    rw [before_iff_count hnow.nanos_lt nanos_latest] at hlast
    rw [hget, or_iff_left (hn ▸ not_tooEarly_ttlOfSeconds n ht)]
    simp only [Lasts, hn, ttlOfSeconds, nanosPerSecond]
    omega

/-- Another subject comes, and expired entries are looked for. -/
def meanwhile : List (Use Nat) :=
  [.get ⟨1700000100, 0⟩ "pet", .put ⟨1700000200, 0⟩ "owner" 2, .purge ⟨1700000300, 0⟩]

/-- With ten minutes to live the entry is still there in the last nanosecond. -/
theorem visible_for_ten_minutes :
    ((((empty (ttlOfSeconds 600)).put ⟨1700000000, 0⟩ "pet" 1).after meanwhile).get
      ⟨1700000599, 999999999⟩ "pet").1 = some 1 := by
  have hput : Instant.IsReading ⟨1700000000, 0⟩ := by decide
  have hnow : Instant.IsReading ⟨1700000599, 999999999⟩ := by decide
  have hothers : ∀ w ∈ meanwhile, Instant.NotBefore ⟨1700000599, 999999999⟩ w.now ∧
      ¬ w.Unseats "pet" := by
    simp [meanwhile, Use.Unseats, Use.now]
    decide
  obtain ⟨-, -, -, -, hseconds⟩ := visible_as_sum_or_tooEarly (empty (ttlOfSeconds 600)) hput hnow
    (by decide) "pet" 1 hothers
  exact (hseconds 600 rfl).1.mpr (by decide)

/-- A time to live far below zero, after which the sum lies before the first instant: the entry
should have expired before it was put, and is visible. -/
theorem visible_with_negative_ttl :
    let ttl : Int := -9000000000000 * nanosPerSecond
    let put : Instant := ⟨1700000000, 0⟩
    let now : Instant := ⟨1700000001, 0⟩
    (-longestTtl ≤ ttl ∧ ttl ≤ 0) ∧ (now.NotBefore put ∧ now.before Instant.latest = true) ∧
    ¬ Lasts ttl put now ∧
    (((empty ttl).put put "pet" 1).get now "pet").1 = some 1 := by
  refine ⟨?_, ?_, ?_, ?_⟩ <;> decide +kernel

end Sessions

end RitualLedger
