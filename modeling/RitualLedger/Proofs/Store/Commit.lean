import RitualLedger.Proofs.Engine.World
import RitualLedger.Proofs.Store.Apart

/-!
# Commits, and what comes of many of them

A commit goes through when all of its stamps are current and what it inserts is free when its turn
comes (`Store.Admits`). Then its writes were made one after the other (`Store.written`), and
otherwise the store is as it was.

What is done to a store is a list of deeds: commits, which may be refused, and documents that are
appended. The version of a key is the number of writes that were made to it
(`Store.version?_after`). So a key that has the same version at two instants was not written in
between.
-/

namespace RitualLedger

/-! ## One write -/

/-- Whether a write may only add a document. -/
def Write.isInsert : Write → Bool
  | .put _ _ => false
  | .insert _ _ => true

namespace Store

variable {s t : Store} {key : DocKey} {stamps : List Stamp} {ws : List Write}

/-- The store after writes, one after the other. -/
def written (s : Store) (ws : List Write) : Store := ws.foldl (fun s w => s.put w.key w.body) s

/-- One write is made: the document has the body and the next version, the others are as they were,
and a document that is new stands behind them, while any other keeps its place. -/
structure Wrote (s : Store) (w : Write) (t : Store) : Prop where
  doc : t.read? w.key = some ⟨w.body, (s.version? w.key).getD 0 + 1⟩
  others : ∀ key, key ≠ w.key → t.read? key = s.read? key
  places : t.keys = if s.read? w.key = none then s.keys ++ [w.key] else s.keys

theorem wrote_put (s : Store) (w : Write) : s.Wrote w (s.put w.key w.body) where
  doc := read?_put_self
  others key h := read?_put_of_ne h
  places := by
    split
    · rename_i habsent
      exact keys_put_of_absent w.body habsent
    · rename_i hpresent
      exact keys_put_of_present w.body hpresent

theorem written_concat (s : Store) (before : List Write) (w : Write) :
    s.written (before ++ [w]) = (s.written before).put w.key w.body := by
  rw [written, List.foldl_append]
  rfl

theorem written_eq_putAll : s.written ws = s.putAll (ws.map fun w => (w.key, w.body)) := by
  rw [written, putAll, List.foldl_map]

/-! ## Commits -/

/-- A commit is admitted: every stamp is current, and every insertion finds its key free after the
writes before it. -/
structure Admits (s : Store) (stamps : List Stamp) (ws : List Write) : Prop where
  current : ∀ stamp ∈ stamps, s.version? stamp.key = stamp.version
  free : ∀ before key body rest, ws = before ++ .insert key body :: rest →
    (s.written before).read? key = none

/-- Writes go through when every insertion finds its key free. -/
theorem exists_apply_iff : (∃ t, s.apply ws = .ok t) ↔
    ∀ before key body rest, ws = before ++ .insert key body :: rest →
      (s.written before).read? key = none := by
  induction ws generalizing s with
  | nil =>
    refine ⟨fun _ before key body rest h => ?_, fun _ => ⟨s, rfl⟩⟩
    cases List.append_eq_nil_iff.1 h.symm |>.2
  | cons w ws ih =>
    constructor
    · rintro ⟨t, happly⟩ before key body rest hws
      cases before with
      | nil =>
        obtain ⟨rfl, -⟩ := List.cons.inj hws
        exact (apply_insert happly).1
      | cons w' before =>
        obtain ⟨rfl, hrest⟩ := List.cons.inj hws
        obtain ⟨s', hwrite, happly⟩ := apply_cons happly
        rw [write_eq_put hwrite] at happly
        exact ih.1 ⟨t, happly⟩ before key body rest hrest
    · intro hfree
      have hwrite : s.write w = .ok (s.put w.key w.body) := by
        cases w with
        | put key body => rfl
        | insert key body =>
          have hnew : s.read? key = none := hfree [] key body ws rfl
          simp only [write, hnew]
          rfl
      obtain ⟨t, ht⟩ := ih.2 fun before key body rest hws =>
        hfree (w :: before) key body rest (congrArg (w :: ·) hws)
      refine ⟨t, ?_⟩
      change (s.write w).bind (fun s' => s'.apply ws) = .ok t
      rw [hwrite]
      exact ht

/-- **What is committed, and when.** -/
theorem commit_eq_ok_iff : s.commit stamps ws = .ok t ↔ s.Admits stamps ws ∧ t = s.written ws := by
  constructor
  · intro h
    obtain ⟨hcurrent, happly⟩ := commit_eq_ok h
    exact ⟨⟨hcurrent, exists_apply_iff.1 ⟨t, happly⟩⟩,
      (apply_eq_putAll happly).trans written_eq_putAll.symm⟩
  · rintro ⟨⟨hcurrent, hfree⟩, rfl⟩
    obtain ⟨u, happly⟩ := exists_apply_iff.2 hfree
    have hfresh : s.staleStamp? stamps = none := by
      refine List.find?_eq_none.2 fun stamp hstamp => ?_
      simpa using hcurrent stamp hstamp
    rw [commit, hfresh, written_eq_putAll, ← apply_eq_putAll happly]
    exact happly

end Store

/-- A commit, after the turn of the others, goes through or leaves everything as it was. -/
theorem Setting.commit_cases {s now : Setting} (hturn : s.intrude = (.ok (), now))
    (stamps : List Stamp) (ws : List Write) :
    (now.store.Admits stamps ws ∧
        s.commit stamps ws = (.ok (), { now with store := now.store.written ws })) ∨
      ¬ now.store.Admits stamps ws ∧
        ∃ text, s.commit stamps ws = (.error (.conflict text), now) := by
  rw [Setting.commit, hturn]
  dsimp only
  cases hcommit : now.store.commit stamps ws with
  | ok t =>
    obtain ⟨hadmits, rfl⟩ := Store.commit_eq_ok_iff.1 hcommit
    exact .inl ⟨hadmits, rfl⟩
  | error e =>
    obtain ⟨text, rfl⟩ := Store.commit_error hcommit
    refine .inr ⟨fun hadmits => ?_, text, rfl⟩
    cases hcommit.symm.trans (Store.commit_eq_ok_iff.2 ⟨hadmits, rfl⟩)

/-! ## Histories -/

/-- What can be done to a store. -/
inductive Deed where
  /-- Someone commits, or tries to. -/
  | commit (stamps : List Stamp) (writes : List Write)
  /-- A document is added. -/
  | append (collection id : String) (body : Json)

/-- The store after a deed. -/
def Deed.on (s : Store) : Deed → Store
  | .commit stamps ws => s.intruded stamps ws
  | .append collection id body => s.put ⟨collection, id⟩ body

/-- How many writes a deed makes to a key. A commit that is refused makes none. -/
def Deed.writesTo (key : DocKey) (s : Store) : Deed → Nat
  | .commit stamps ws =>
    match s.commit stamps ws with
    | .ok _ => ws.countP fun w => w.key = key
    | .error _ => 0
  | .append collection id _ => if ⟨collection, id⟩ = key then 1 else 0

namespace Store

variable {s t : Store} {key : DocKey} {ws : List Write}

/-- The store after some deeds. -/
def after (s : Store) (deeds : List Deed) : Store := deeds.foldl Deed.on s

/-- How many writes some deeds make to a key. -/
def writesTo (key : DocKey) (s : Store) : List Deed → Nat
  | [] => 0
  | d :: rest => d.writesTo key s + (d.on s).writesTo key rest

/-! ### Versions -/

/-- A version after some writes. -/
def raise (version : Option Nat) (n : Nat) : Option Nat :=
  if n = 0 then version else some (version.getD 0 + n)

@[simp] theorem raise_zero (version : Option Nat) : raise version 0 = version := rfl

theorem raise_raise (version : Option Nat) (m n : Nat) :
    raise (raise version m) n = raise version (m + n) := by
  cases m with
  | zero => rw [raise_zero, Nat.zero_add]
  | succ m =>
    cases n with
    | zero => rfl
    | succ n => simp [raise, Nat.add_assoc]

/-- Only no writes at all leave a version as it is. -/
theorem eq_zero_of_raise {version : Option Nat} {n : Nat} (h : raise version n = version) :
    n = 0 := by
  by_contra hn
  rw [raise, if_neg hn] at h
  rw [← h, Option.getD_some] at h
  simpa [hn] using Option.some.inj h

theorem version?_put (s : Store) (other : DocKey) (body : Json) :
    (s.put other body).version? key = raise (s.version? key) (if other = key then 1 else 0) := by
  by_cases h : other = key
  · subst h
    rw [version?, read?_put_self, if_pos rfl]
    rfl
  · rw [version?, read?_put_of_ne (Ne.symm h), if_neg h, raise_zero]
    rfl

theorem version?_put_of_absent {body : Json} (h : s.read? key = none) :
    (s.put key body).version? key = some 1 := by
  rw [version?_put, if_pos rfl, version?, h]
  rfl

/-- The version of a key is raised by the writes to it. -/
theorem version?_written (s : Store) (ws : List Write) :
    (s.written ws).version? key = raise (s.version? key) (ws.countP fun w => w.key = key) := by
  induction ws generalizing s with
  | nil => rfl
  | cons w rest ih =>
    change ((s.put w.key w.body).written rest).version? key = _
    rw [ih, version?_put, raise_raise, List.countP_cons, Nat.add_comm]
    simp

theorem version?_on (s : Store) (d : Deed) :
    (d.on s).version? key = raise (s.version? key) (d.writesTo key s) := by
  cases d with
  | append collection id body => exact version?_put s _ body
  | commit stamps ws =>
    simp only [Deed.on, Deed.writesTo, intruded]
    cases hcommit : s.commit stamps ws with
    | error e => rfl
    | ok t =>
      obtain ⟨-, rfl⟩ := commit_eq_ok_iff.1 hcommit
      exact version?_written s ws

/-- **The version of a key counts the writes to it.** -/
theorem version?_after (s : Store) (deeds : List Deed) :
    (s.after deeds).version? key = raise (s.version? key) (s.writesTo key deeds) := by
  induction deeds generalizing s with
  | nil => rfl
  | cons d rest ih =>
    change ((d.on s).after rest).version? key = _
    rw [ih, version?_on, raise_raise]
    rfl

/-! ### Instants -/

theorem after_append (s : Store) (first rest : List Deed) :
    s.after (first ++ rest) = (s.after first).after rest := List.foldl_append

theorem writesTo_append (s : Store) (first rest : List Deed) :
    s.writesTo key (first ++ rest) = s.writesTo key first + (s.after first).writesTo key rest := by
  induction first generalizing s with
  | nil => exact (Nat.zero_add _).symm
  | cons d first ih =>
    rw [List.cons_append, writesTo, ih, writesTo, Nat.add_assoc]
    rfl

theorem le_on (s : Store) (d : Deed) : s ≤ d.on s := by
  cases d with
  | commit stamps ws => exact le_intruded
  | append collection id body => exact le_put

theorem le_after (s : Store) (deeds : List Deed) : s ≤ s.after deeds := by
  induction deeds generalizing s with
  | nil => exact le_refl s
  | cons d rest ih => exact (le_on s d).trans (ih _)

/-- A key that has the same version at two instants has the same document at both and at all times
between. -/
theorem read?_between {middle rest : List Deed} (hmiddle : middle <+: rest)
    (h : (s.after rest).version? key = s.version? key) :
    (s.after middle).read? key = s.read? key := by
  obtain ⟨later, rfl⟩ := hmiddle
  rw [version?_after] at h
  have hnone := eq_zero_of_raise h
  rw [writesTo_append] at hnone
  have hunwritten : s.writesTo key middle = 0 := Nat.eq_zero_of_add_eq_zero_right hnone
  refine read?_eq_of_version?_eq (le_after s middle) ?_
  rw [version?_after, hunwritten, raise_zero]

end Store

/-! ## The engine's history -/

/-- Serving a client does nothing to the store, or one deed. -/
theorem Program.exists_deeds_serve {α : Type} (p : Program α) (scene : Scene) (chance : Chance) :
    ∃ deeds, (p.serve scene chance).2.store = scene.store.after deeds := by
  cases p with
  | append collection body next => exact ⟨[.append collection chance.id body], rfl⟩
  | commit stamps ws next =>
    rcases serve_commit scene chance next with ⟨e, hserve⟩ | ⟨t, hcommit, hserve⟩
    · rw [hserve]
      exact ⟨[], rfl⟩
    · rw [hserve]
      refine ⟨[.commit stamps ws], ?_⟩
      change t = scene.store.intruded stamps ws
      rw [Store.intruded, hcommit]
  | finish | read | query | openPrompt | takePrompt | now | freshId => exact ⟨[], rfl⟩

namespace World

theorem exists_deeds_step (w : World) (e : Event) :
    ∃ deeds, (w.step e).store = w.store.after deeds := by
  rw [step]
  split
  · cases e with
    | called policy call => exact ⟨[], rfl⟩
    | served i chance =>
      rw [happen]
      split
      · exact ⟨[], rfl⟩
      · rename_i c _
        exact c.rest.exists_deeds_serve w.scene chance
  · exact ⟨[], rfl⟩

/-- What events do to the store is some deeds. -/
theorem exists_deeds_after (w : World) (es : List Event) :
    ∃ deeds, (w.after es).store = w.store.after deeds := by
  induction es generalizing w with
  | nil => exact ⟨[], rfl⟩
  | cons e rest ih =>
    obtain ⟨first, hfirst⟩ := w.exists_deeds_step e
    obtain ⟨later, hlater⟩ := ih (w.step e)
    refine ⟨first ++ later, ?_⟩
    rw [Store.after_append, ← hfirst]
    exact hlater

end World

/-- **Commits are all or nothing, and versions do not repeat.** After the turn of the others a
commit goes through exactly when all of its stamps are current and what it inserts is free in its
turn. Then its writes were made one after the other, each as `Store.Wrote` says, and what was
inserted has the first version. Otherwise it meets a conflict, and everything is as it was.

So whatever was done to a store that was empty once, the version of a key is the number of writes
that were made to it. When a key has the same version at two instants, or is absent at both, it has
the same document at both and at all times between. Whatever the clients of an engine do is such a
history. -/
theorem commits_are_all_or_nothing :
    (∀ (setting now : Setting) (stamps : List Stamp) (ws : List Write),
      setting.intrude = (.ok (), now) →
        let s := now.store
        let answer := (setting.commit stamps ws).1
        let after := (setting.commit stamps ws).2
        (answer = .ok () ↔ s.Admits stamps ws) ∧
        (answer = .ok () → after = { now with store := s.written ws } ∧
          ∀ before w rest, ws = before ++ w :: rest →
            (s.written before).Wrote w (s.written (before ++ [w])) ∧
            (w.isInsert = true → (s.written (before ++ [w])).version? w.key = some 1)) ∧
        ∀ e, answer = .error e → (∃ text, e = .conflict text) ∧ after = now) ∧
    (∀ (deeds : List Deed) (key : DocKey),
      let n := Store.empty.writesTo key deeds
      (Store.empty.after deeds).version? key = if n = 0 then none else some n) ∧
    (∀ (first rest : List Deed) (key : DocKey),
      (Store.empty.after (first ++ rest)).version? key = (Store.empty.after first).version? key →
        ∀ middle, middle <+: rest →
          (Store.empty.after (first ++ middle)).read? key = (Store.empty.after first).read? key) ∧
    ∀ (ttl : Int) (es es' : List Event), ∃ first rest : List Deed,
      ((World.initial ttl).after es).store = Store.empty.after first ∧
      ((World.initial ttl).after (es ++ es')).store = Store.empty.after (first ++ rest) := by
  refine ⟨?_, ?_, ?_, ?_⟩
  · intro setting now stamps ws hturn
    rcases Setting.commit_cases hturn stamps ws with ⟨hadmits, hcommit⟩ | ⟨hnot, text, hcommit⟩
    · rw [hcommit]
      refine ⟨⟨fun _ => hadmits, fun _ => rfl⟩, fun _ => ⟨rfl, ?_⟩, nofun⟩
      intro before w rest hws
      rw [Store.written_concat]
      refine ⟨Store.wrote_put _ w, fun hinsert => ?_⟩
      cases w with
      | put key body => cases hinsert
      | insert key body =>
        exact Store.version?_put_of_absent (hadmits.free before key body rest hws)
    · rw [hcommit]
      refine ⟨⟨nofun, fun hadmits => absurd hadmits hnot⟩, nofun, fun e he => ?_⟩
      exact ⟨⟨text, (Except.error.inj he).symm⟩, rfl⟩
  · intro deeds key n
    have hempty : Store.empty.version? key = none := rfl
    rw [Store.version?_after, hempty, Store.raise, Option.getD_none, Nat.zero_add]
  · intro first rest key hversion middle hmiddle
    rw [Store.after_append] at hversion ⊢
    exact Store.read?_between hmiddle hversion
  · intro ttl es es'
    obtain ⟨first, hfirst⟩ := (World.initial ttl).exists_deeds_after es
    obtain ⟨rest, hrest⟩ := ((World.initial ttl).after es).exists_deeds_after es'
    refine ⟨first, rest, hfirst, ?_⟩
    rw [World.after_append, hrest, hfirst, Store.after_append]
    rfl

end RitualLedger
