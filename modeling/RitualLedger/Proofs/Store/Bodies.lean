import RitualLedger.Proofs.Engine.Alone

/-!
# What is stored, apart from versions

A version only counts the writes of a document. What the engine answers depends on `Store.bodies`:
which documents there are, in which order, and what they say. Stores with the same bodies read the
same, answer queries the same, and still have the same bodies after the same writes. A write of the
body that a document has already leaves the bodies alone.
-/

namespace RitualLedger

namespace Store

variable {s t : Store} {key : DocKey} {body : Json}

/-- The documents in their order, without their versions. -/
def bodies (s : Store) : List (DocKey × Json) := s.documents.map fun d => (d.key, d.doc.body)

/-! ## Reading -/

theorem lookup_bodies (s : Store) (key : DocKey) :
    s.bodies.lookup key = (s.read? key).map (·.body) := by
  obtain ⟨documents⟩ := s
  simp only [bodies, read?]
  induction documents with
  | nil => rfl
  | cons d rest ih =>
    by_cases h : d.key = key
    · rw [List.map_cons, List.lookup_cons, List.find?_cons_of_pos (by simp [h])]
      simp [h]
    · rw [List.map_cons, List.lookup_cons, beq_false_of_ne (Ne.symm h), ih,
        List.find?_cons_of_neg (by simp [h])]

theorem body_congr (h : s.bodies = t.bodies) (key : DocKey) :
    (s.read? key).map (·.body) = (t.read? key).map (·.body) := by
  rw [← lookup_bodies, ← lookup_bodies, h]

theorem inCollection_eq (s : Store) (collection : String) : s.inCollection collection =
    (s.bodies.filter fun d => d.1.collection == collection).map fun d => (d.1.id, d.2) := by
  rw [inCollection, bodies, List.filter_map, List.map_map]
  rfl

theorem inCollection_congr (h : s.bodies = t.bodies) (collection : String) :
    s.inCollection collection = t.inCollection collection := by
  rw [inCollection_eq, inCollection_eq, h]

/-! ## Writing -/

theorem bodies_put_congr (h : s.bodies = t.bodies) (key : DocKey) (body : Json) :
    (s.put key body).bodies = (t.put key body).bodies := by
  obtain ⟨documents⟩ := s
  obtain ⟨others⟩ := t
  simp only [bodies, put] at h ⊢
  induction documents generalizing others with
  | nil =>
    obtain rfl := List.map_eq_nil_iff.1 h.symm
    rfl
  | cons d rest ih =>
    obtain ⟨d', rest', rfl, hd, hrest⟩ := List.map_eq_cons_iff.1 h.symm
    obtain ⟨hkey, -⟩ := Prod.mk.inj hd
    by_cases h' : d.key = key
    · rw [writeInto, if_pos h', writeInto, if_pos (hkey.trans h'), List.map_cons, List.map_cons,
        hrest]
    · rw [writeInto, if_neg h', writeInto, if_neg (hkey ▸ h'), List.map_cons, List.map_cons, hd,
        ih rest' hrest.symm]

/-- Writing the body that a document has already changes no body. -/
theorem bodies_put_self {doc : Versioned} (h : s.read? key = some doc) :
    (s.put key doc.body).bodies = s.bodies := by
  obtain ⟨documents⟩ := s
  simp only [read?, bodies, put] at h ⊢
  induction documents with
  | nil => cases h
  | cons d rest ih =>
    by_cases h' : d.key = key
    · rw [List.find?_cons_of_pos (by simp [h'])] at h
      obtain rfl : d.doc = doc := Option.some.inj h
      rw [writeInto, if_pos h', List.map_cons, List.map_cons, h']
    · rw [List.find?_cons_of_neg (by simp [h'])] at h
      rw [writeInto, if_neg h', List.map_cons, List.map_cons, ih h]

theorem bodies_write_congr (h : s.bodies = t.bodies) (w : Write) :
    (s.write w).map bodies = (t.write w).map bodies := by
  cases w with
  | put key body => exact congrArg Except.ok (bodies_put_congr h key body)
  | insert key body =>
    have hbody := body_congr h key
    cases hs : s.read? key with
    | some doc =>
      rw [hs] at hbody
      obtain ⟨doc', hdoc', -⟩ := Option.map_eq_some_iff.1 hbody.symm
      simp only [write, hs, hdoc']
    | none =>
      rw [hs] at hbody
      have ht : t.read? key = none := Option.map_eq_none_iff.1 hbody.symm
      simp only [write, hs, ht]
      exact congrArg Except.ok (bodies_put_congr h key body)

/-- The same writes go through in stores with the same bodies, and leave the same bodies. -/
theorem bodies_apply_congr (h : s.bodies = t.bodies) (ws : List Write) :
    (s.apply ws).map bodies = (t.apply ws).map bodies := by
  induction ws generalizing s t with
  | nil => exact congrArg Except.ok h
  | cons w rest ih =>
    have hwrite := bodies_write_congr h w
    change ((s.write w).bind fun s' => s'.apply rest).map bodies =
      ((t.write w).bind fun t' => t'.apply rest).map bodies
    cases hs : s.write w with
    | error e =>
      cases ht : t.write w with
      | error e' =>
        rw [hs, ht] at hwrite
        cases hwrite
        rfl
      | ok t' =>
        rw [hs, ht] at hwrite
        cases hwrite
    | ok s' =>
      cases ht : t.write w with
      | error e' =>
        rw [hs, ht] at hwrite
        cases hwrite
      | ok t' =>
        rw [hs, ht] at hwrite
        exact ih (Except.ok.inj hwrite)

/-- The same writes, where they go through. -/
theorem apply_congr_ok {s' : Store} {ws : List Write} (h : s.bodies = t.bodies)
    (hs : s.apply ws = .ok s') : ∃ t', t.apply ws = .ok t' ∧ s'.bodies = t'.bodies := by
  have happly := bodies_apply_congr h ws
  rw [hs] at happly
  cases ht : t.apply ws with
  | error e =>
    rw [ht] at happly
    cases happly
  | ok t' =>
    rw [ht] at happly
    exact ⟨t', rfl, Except.ok.inj happly⟩

/-- The same writes, where they do not go through. -/
theorem apply_congr_error {e : StoreError} {ws : List Write} (h : s.bodies = t.bodies)
    (hs : s.apply ws = .error e) : t.apply ws = .error e := by
  have happly := bodies_apply_congr h ws
  rw [hs] at happly
  cases ht : t.apply ws with
  | error e' =>
    rw [ht] at happly
    cases happly
    rfl
  | ok t' =>
    rw [ht] at happly
    cases happly

end Store

theorem Statement.candidates_congr {s t : Store} (h : s.bodies = t.bodies) (st : Statement)
    (args : Array Atom) : st.candidates args s = st.candidates args t := by
  simp only [candidates, Store.inCollection_congr h]

theorem Query.run_congr {s t : Store} (h : s.bodies = t.bodies) (q : Query) :
    q.run s = q.run t := by
  simp only [Query.run, Statement.run, Statement.candidates_congr h]

/-! ## Rewriting -/

/-- A write that leaves a stored document with the body that it has. -/
def Write.Rewrites (w : Write) (s : Store) : Prop :=
  ∃ doc, s.read? w.key = some doc ∧ w = .put w.key doc.body

theorem Write.Rewrites.congr {w : Write} {s t : Store} (h : w.Rewrites s)
    (hbodies : s.bodies = t.bodies) : w.Rewrites t := by
  obtain ⟨doc, hdoc, hw⟩ := h
  have hbody := Store.body_congr hbodies w.key
  rw [hdoc] at hbody
  obtain ⟨doc', hdoc', hsame⟩ := Option.map_eq_some_iff.1 hbody.symm
  exact ⟨doc', hdoc', by rw [hsame, ← hw]⟩

/-- Rewriting documents goes through, and only versions move. -/
theorem Store.apply_rewrites {s : Store} {ws : List Write} (h : ∀ w ∈ ws, w.Rewrites s) :
    ∃ t, s.apply ws = .ok t ∧ t.bodies = s.bodies := by
  induction ws generalizing s with
  | nil => exact ⟨s, rfl, rfl⟩
  | cons w rest ih =>
    obtain ⟨doc, hdoc, hw⟩ := h w List.mem_cons_self
    have hsame : (s.put w.key doc.body).bodies = s.bodies := Store.bodies_put_self hdoc
    obtain ⟨t, ht, hbodies⟩ := ih fun w' hw' =>
      (h w' (List.mem_cons_of_mem _ hw')).congr hsame.symm
    refine ⟨t, ?_, hbodies.trans hsame⟩
    rw [hw]
    exact ht

end RitualLedger
