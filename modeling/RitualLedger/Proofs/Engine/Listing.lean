import Mathlib.Data.List.Induction
import RitualLedger.Proofs.Engine.Turns
import RitualLedger.Proofs.Store.Queries

/-!
# Lists of records

In a typed store a collection is the list of its records (`Store.WellTyped.inCollection_eq`). So a
query for records lists them in the order of their first writes, or the other way round: those that
it accepts, up to its limit (`Query.listed`). It is one request, which leaves the store alone; and a
client whose call is such a query answers what it has found at one moment after it came in
(`World.answered_at_once`).

A record that is written again keeps its place in the list.
-/

namespace RitualLedger

/-! ## Writing again -/

/-- A document that is there keeps its place when it is written again. -/
theorem Store.inCollection_put_present {s : Store} {collection id : String} {body : Json}
    (hkeys : s.HasDistinctKeys) (h : s.read? ⟨collection, id⟩ ≠ none) :
    (s.put ⟨collection, id⟩ body).inCollection collection =
      (s.inCollection collection).map fun d => if d.1 = id then (id, body) else d := by
  obtain ⟨documents⟩ := s
  simp only [read?, ne_eq, Option.map_eq_none_iff] at h
  simp only [HasDistinctKeys] at hkeys
  simp only [inCollection, put]
  induction documents with
  | nil => exact absurd rfl h
  | cons d rest ih =>
    obtain ⟨hd, hrest⟩ := List.nodup_cons.1 hkeys
    by_cases hkey : d.key = ⟨collection, id⟩
    · -- No other document has the key, so the rest of the list stays as it is.
      have hothers : ∀ e ∈ rest.filter (·.key.collection == collection), e.key.id ≠ id := by
        intro e he hid
        obtain ⟨he, hcollection⟩ := List.mem_filter.1 he
        have hsame : e.key = ⟨collection, id⟩ := congrArg₂ DocKey.mk (eq_of_beq hcollection) hid
        exact hd (List.mem_map.2 ⟨e, he, hsame.trans hkey.symm⟩)
      rw [writeInto, if_pos hkey, List.filter_cons_of_pos (by simp),
        List.filter_cons_of_pos (by simp [hkey]), List.map_cons, List.map_cons, List.map_cons,
        if_pos (by simp [hkey]), List.map_map]
      refine congrArg _ (List.map_congr_left fun e he => ?_)
      exact (if_neg (hothers e he)).symm
    · rw [List.find?_cons_of_neg (by simp [hkey])] at h
      rw [writeInto, if_neg hkey, List.filter_cons, List.filter_cons]
      split
      · rename_i hcollection
        have hne : d.key.id ≠ id := fun hid =>
          hkey (congrArg₂ DocKey.mk (eq_of_beq hcollection) hid)
        rw [List.map_cons, List.map_cons, List.map_cons, if_neg hne, ih hrest h]
      · exact ih hrest h

/-! ## Collections of records -/

namespace Store

variable {s : Store} {α : Type} [Document α] [LawfulDocument α] [Record α]

theorem WellTyped.fits_of_mem_all (hs : s.WellTyped) (hkeys : s.HasDistinctKeys) {x : α}
    (hx : x ∈ s.all α) : Fits x := by
  obtain ⟨id, hget⟩ := (mem_all hkeys).1 hx
  exact (hs.named hget).1

/-- A collection is the list of its records under their names. -/
theorem WellTyped.inCollection_eq (hs : s.WellTyped) (hkeys : s.HasDistinctKeys) (name : α → String)
    (hname : ∀ x id, Record.Named x id → name x = id) :
    s.inCollection (Record.collection α).name = (s.all α).map fun x => (name x, encode x) := by
  have hrecords := hs.isRecord_of_mem (α := α) hkeys
  rw [all]
  generalize s.inCollection (Record.collection α).name = docs at hrecords ⊢
  induction docs with
  | nil => rfl
  | cons d rest ih =>
    obtain ⟨x, hfits, hnamed, hbody⟩ := hrecords d List.mem_cons_self
    have hdecode : decode? d.2 = some x := by
      rw [hbody]
      exact decode_encode hfits
    rw [List.filterMap_cons, hdecode, List.map_cons, hname x d.1 hnamed, ← hbody,
      ← ih fun d hd => hrecords d (List.mem_cons_of_mem _ hd)]

/-- The records that are new under their names are those behind the old ones. -/
theorem WellTyped.filter_new (hs : s.WellTyped) (hkeys : s.HasDistinctKeys) (name : α → String)
    (hname : ∀ x id, Record.Named x id → name x = id) {new : List α}
    (hnew : ∀ x ∈ new, s.read? ((Record.collection α).key (name x)) = none) :
    (s.all α ++ new).filter
      (fun x => (s.read? ((Record.collection α).key (name x))).isNone) = new := by
  have hold : ∀ x ∈ s.all α, s.read? ((Record.collection α).key (name x)) ≠ none :=
    fun x hx => (hs.mem_map_all name hkeys hname).1 (List.mem_map_of_mem hx)
  rw [List.filter_append, List.filter_eq_nil_iff.2, List.nil_append, List.filter_eq_self.2]
  · exact fun x hx => Option.isNone_iff_eq_none.2 (hnew x hx)
  · exact fun x hx hnone => hold x hx (Option.isNone_iff_eq_none.1 hnone)

/-- A record is found under its name. -/
theorem WellTyped.get?_of_mem_all (hs : s.WellTyped) (hkeys : s.HasDistinctKeys) (name : α → String)
    (hname : ∀ x id, Record.Named x id → name x = id) {x : α} (hx : x ∈ s.all α) :
    s.get? α ((Record.collection α).key (name x)) = some x := by
  obtain ⟨id, hget⟩ := (mem_all hkeys).1 hx
  rw [hname x id (hs.named hget).2]
  exact hget

omit [Record α] in
theorem decodeAll_map_encode {xs : List α} (hfits : ∀ x ∈ xs, Fits x) (name : α → String) :
    decodeAll (xs.map fun x => (name x, encode x)) = .ok xs := by
  induction xs with
  | nil => rfl
  | cons x rest ih =>
    rw [List.map_cons, decodeAll, decode_encode (hfits x List.mem_cons_self)]
    simp only [ih fun x hx => hfits x (List.mem_cons_of_mem _ hx)]
    rfl

end Store

/-! ## Filters on fields -/

namespace Filter

variable {body : Json} {field : String}

theorem holds_eq_str {x : Option String} {value : String} (hfield : IsPlainName field)
    (hlabels : ∀ fs, body = .obj fs → ∀ f ∈ fs, '\x00' ∉ f.1.toList)
    (hget : body.get? field = some (encode x)) :
    (eq field (.str value)).holds body = decide (x = some value) := by
  have hpart : part? body field = some (encode x) :=
    (part?_of_isPlainName hfield hlabels).trans hget
  have hvalue : Json.str value ≠ .null := nofun
  rw [holds_eq_of_ne_null hvalue, hpart]
  cases x with
  | none => rfl
  | some text =>
    have hsame : (text == value) = decide (some text = some value) := by simp [beq_eq_decide]
    exact hsame

theorem holds_eq_bool {x value : Bool} (hfield : IsPlainName field)
    (hlabels : ∀ fs, body = .obj fs → ∀ f ∈ fs, '\x00' ∉ f.1.toList)
    (hget : body.get? field = some (.bool x)) :
    (eq field (.bool value)).holds body = decide (x = value) := by
  have hpart : part? body field = some (.bool x) :=
    (part?_of_isPlainName hfield hlabels).trans hget
  have hvalue : Json.bool value ≠ .null := nofun
  rw [holds_eq_of_ne_null hvalue, hpart]
  cases x <;> cases value <;> rfl

end Filter

/-! ## Queries for records -/

namespace Query

/-- The records that a query lists, of those in a collection that it accepts. -/
def listed {α : Type} (q : Query) (accepted : List α) : List α :=
  let ordered := if q.newestFirst then accepted.reverse else accepted
  match q.limit with
  | none => ordered
  | some limit => ordered.take (min limit.toNat Int64.maxValue.toInt.toNat)

theorem listed_map {α β : Type} (q : Query) (f : α → β) (accepted : List α) :
    q.listed (accepted.map f) = (q.listed accepted).map f := by
  rw [listed, listed]
  cases q.newestFirst <;> cases q.limit <;> simp [List.map_reverse, List.map_take]

theorem selected_eq_listed (q : Query) (s : Store) :
    q.selected s = q.listed ((s.inCollection q.collection).filter fun d => q.accepts d.2) := rfl

theorem mem_of_mem_listed {α : Type} {q : Query} {accepted : List α} {x : α}
    (h : x ∈ q.listed accepted) : x ∈ accepted := by
  have hordered : x ∈ if q.newestFirst then accepted.reverse else accepted := by
    rw [listed] at h
    split at h
    · exact h
    · exact List.mem_of_mem_take h
  split at hordered
  · exact List.mem_reverse.1 hordered
  · exact hordered

variable {α : Type} [Document α] [LawfulDocument α] [Record α] {q : Query} {s : Store}

/-- **What a query finds in a typed store is a list of records.** -/
theorem decodeAll_selected (hs : s.WellTyped) (hkeys : s.HasDistinctKeys)
    (hcollection : q.collection = (Record.collection α).name) (name : α → String)
    (hname : ∀ x id, Record.Named x id → name x = id) {p : α → Bool}
    (hp : ∀ x, q.accepts (encode x) = p x) :
    decodeAll (q.selected s) = .ok (q.listed ((s.all α).filter p)) := by
  have haccepted : (s.inCollection q.collection).filter (fun d => q.accepts d.2) =
      ((s.all α).filter p).map fun x => (name x, encode x) := by
    rw [hcollection, hs.inCollection_eq hkeys name hname, List.filter_map]
    exact congrArg _ (List.filter_congr fun x _ => hp x)
  rw [selected_eq_listed, haccepted, listed_map]
  refine Store.decodeAll_map_encode (fun x hx => ?_) name
  exact hs.fits_of_mem_all hkeys (List.mem_filter.1 (mem_of_mem_listed hx)).1

end Query

/-! ## Clients that query -/

/-- What a query for documents answers in a store. -/
def queried (α : Type) [Document α] (q : Query) (s : Store) : Except EngineError (List α) :=
  match q.run s with
  | .ok found => decodeAll found
  | .error e => .error (.store e)

theorem queried_of_isAnswerable {α : Type} [Document α] {q : Query} (h : q.IsAnswerable)
    (s : Store) : queried α q s = decodeAll (q.selected s) := by
  rw [queried, Query.run_of_isAnswerable h]

/-- A query for documents is one request. -/
theorem program_queryDocuments {α : Type} [Document α] (q : Query) :
    ∃ next, (queryDocuments (α := α) q).program = .query q next ∧
      ∀ s, next (q.run s) = .finish (queried α q s) := by
  refine ⟨_, rfl, fun s => ?_⟩
  rw [queried]
  cases q.run s with
  | error e => rfl
  | ok found =>
    change (Operation.ofExcept (decodeAll found)).program = .finish (decodeAll found)
    cases decodeAll (α := α) found <;> rfl

/-- A query for documents that is run leaves everything as it is. -/
theorem run_queryDocuments {α : Type} [Document α] (q : Query) (setting : Setting) :
    (queryDocuments (α := α) q).run setting = (queried α q setting.store, setting) := by
  obtain ⟨next, hprogram, hnext⟩ := program_queryDocuments (α := α) q
  rw [Operation.run, hprogram]
  change (next (q.run setting.store)).run setting = _
  rw [hnext]
  rfl

namespace World

variable {ttl : Int} {es : List Event} {i : Nat} {call : Call} {q : Query}
  {next : Except StoreError (List (String × Json)) → Program (Except EngineError call.Result)}
  {answer : Store → Except EngineError call.Result}

/-- **A client that queries answers what it finds at one moment**, when it has come in already. -/
theorem answered_at_once
    (hprogram : ∀ policy, (call.operation policy).program = .query q next)
    (hnext : ∀ s, next (q.run s) = .finish (answer s)) {own : List String}
    {rest : Program (Except EngineError call.Result)}
    (hc : ((initial ttl).after es).clients[i]? = some ⟨call, own, rest⟩) :
    rest = .query q next ∨ ∃ earlier later, es = earlier ++ later ∧
      ((initial ttl).after earlier).clients[i]? ≠ none ∧
      rest = .finish (answer ((initial ttl).after earlier).store) := by
  induction es using List.reverseRecOn generalizing own rest with
  | nil => cases hc
  | append_singleton es e ih =>
    rw [after_concat] at hc
    cases hbefore : ((initial ttl).after es).clients[i]? with
    | none =>
      obtain ⟨policy, call', hentered, -⟩ := entered hbefore hc
      cases hentered
      exact .inl (hprogram policy)
    | some c₀ =>
      rcases client_step hbefore e with hsame | ⟨chance, hserved⟩
      · cases hsame.symm.trans hc
        rcases ih hbefore with hwaiting | ⟨earlier, later, rfl, hpresent, hanswer⟩
        · exact .inl hwaiting
        · exact .inr ⟨earlier, later ++ [e], by simp, hpresent, hanswer⟩
      · obtain ⟨call₀, own₀, rest₀⟩ := c₀
        have hafter := Option.some.inj (hserved.symm.trans hc)
        obtain rfl : call₀ = call := congrArg Client.call hafter
        have hrest : (rest₀.serve ((initial ttl).after es).scene chance).1 = rest :=
          eq_of_heq (Client.mk.inj hafter).2.2
        rcases ih hbefore with rfl | ⟨earlier, later, rfl, hpresent, rfl⟩
        · refine .inr ⟨es, [e], rfl, ?_, ?_⟩
          · rw [hbefore]
            exact nofun
          · exact hrest.symm.trans (hnext _)
        · exact .inr ⟨earlier, later ++ [e], by simp, hpresent, hrest.symm⟩

end World

end RitualLedger
