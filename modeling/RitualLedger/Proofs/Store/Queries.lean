import RitualLedger.Proofs.Store.Commit
import RitualLedger.Proofs.Store.Meaning

/-!
# What a query finds

A query should find the documents of its collection of which its filter holds, in the order of their
first writes or the other way round, and the first ones of them if there is a limit
(`Query.selected`). A query that is answered finds just these (`Query.eq_selected_of_run`), and one
is answered if all its fields are paths, its filter is not too high and it has no more arguments
than a statement may have (`Query.run_of_isAnswerable`). Otherwise it need not be.

The order of first writes is the order in which documents stand in the store: a deed adds documents
behind those that are there, and leaves those in their places (`Store.ids_after`).
-/

namespace RitualLedger

namespace Query

/-! ## What is selected -/

/-- Whether the filter of a query holds of a body; where there is none, everything will do. -/
def accepts (q : Query) (body : Json) : Bool := q.filter.all fun f => f.holds body

/-- The accepted documents of the collection in the order that is asked for. -/
def accepted (q : Query) (s : Store) : List (String × Json) :=
  let found := (s.inCollection q.collection).filter fun d => q.accepts d.2
  if q.newestFirst then found.reverse else found

/-- The documents that a query should find. A limit above the greatest signed word is that word. -/
def selected (q : Query) (s : Store) : List (String × Json) :=
  match q.limit with
  | none => q.accepted s
  | some limit => (q.accepted s).take (min limit.toNat Int64.maxValue.toInt.toNat)

/-- A query that a store must answer. -/
structure IsAnswerable (q : Query) : Prop where
  paths : ∀ f ∈ q.filter, ∀ field ∈ f.fields, Filter.IsPath field
  shallow : ∀ f ∈ q.filter, f.height < Expression.maxHeight
  few : q.statement.2.size ≤ Statement.maxArguments

/-! ## Answers -/

variable {fails : StoreError → Prop} {q : Query}
  {test : Json → Except StoreError Bool} {next : Nat}

/-- Following the fields of a query fails in some ways at most. -/
def FailsAtMost (fails : StoreError → Prop) (q : Query) : Prop :=
  ∀ f ∈ q.filter, ∀ field ∈ f.fields, ∀ (i : Nat) (body : Json),
    q.statement.2[i]? = some (.text ("$." ++ field)) →
    ComesTo fails (fun _ => True) (Expression.extract q.statement.2 body i)

/-- The test of the statement of a query tells whether the query accepts, and the argument behind
those of the filter is the limit. -/
theorem comesTo_test
    (htest : Statement.test? q.statement.2 q.statement.1.clause = some (test, next))
    (hpaths : q.FailsAtMost fails) :
    next = q.condition.2.size ∧ ∀ body, ComesTo fails (· = q.accepts body) (test body) := by
  have hargs := q.prefix_statement
  obtain ⟨collection, filter, newestFirst, limit⟩ := q
  cases filter with
  | none =>
    cases htest
    exact ⟨rfl, fun _ => .ok rfl⟩
  | some f =>
    obtain ⟨e, he, htest⟩ := Statement.comesTo_test htest
    obtain ⟨rfl, hmeans⟩ := f.means_of_expression? hargs he
    refine ⟨rfl, fun body => (htest body fun i hi => ?_).imp fun b hb => ?_⟩
    · obtain ⟨field, hfield, harg⟩ := hmeans.paths i hi
      exact hpaths f rfl field hfield i body harg
    · exact hb.trans (hmeans.holds body)

/-- The most documents that the statement of a query asks for. -/
theorem most_statement (q : Query) (docs : List (String × Json)) :
    q.statement.1.most q.statement.2 q.condition.2.size docs =
      match q.limit with
      | none => docs.length
      | some limit => min limit.toNat Int64.maxValue.toInt.toNat := by
  obtain ⟨collection, filter, newestFirst, limit⟩ := q
  cases limit with
  | none => rfl
  | some limit =>
    have hlimit : (Query.mk collection filter newestFirst (some limit)).statement.2[
        (Query.mk collection filter newestFirst (some limit)).condition.2.size]? =
        some (.int (min limit.toNat Int64.maxValue.toInt)) :=
      Array.getElem?_push_size
    rw [Statement.most, hlimit]
    change (min (limit.toNat : Int) _).toNat = min limit.toNat _
    omega

/-- The first accepted documents among the candidates are those that should be found. -/
theorem selected_eq (q : Query) (s : Store) :
    q.selected s =
      ((q.statement.1.candidates q.statement.2 s).filter fun d => q.accepts d.2).take
        (q.statement.1.most q.statement.2 q.condition.2.size
          (q.statement.1.candidates q.statement.2 s)) := by
  have haccepted : (q.statement.1.candidates q.statement.2 s).filter (fun d => q.accepts d.2) =
      q.accepted s := by
    rw [q.candidates_statement s, accepted]
    split
    · exact List.filter_reverse
    · rfl
  rw [haccepted, q.most_statement, selected]
  cases q.limit with
  | none => exact (List.take_of_length_le (haccepted ▸ List.length_filter_le _ _)).symm
  | some limit => rfl

/-- **A query whose statement is not refused finds what it should.** -/
theorem comesTo_selected (s : Store) (hfew : q.statement.2.size ≤ Statement.maxArguments)
    (htest : Statement.test? q.statement.2 q.statement.1.clause = some (test, next))
    (hpaths : q.FailsAtMost fails) :
    ComesTo fails (· = q.selected s) (q.run s) := by
  obtain ⟨rfl, hpasses⟩ := comesTo_test htest hpaths
  rw [q.selected_eq s]
  exact Statement.comesTo_run s hfew htest hpasses

/-- Every answer is the right one. -/
theorem eq_selected_of_run {s : Store} {found : List (String × Json)} (h : q.run s = .ok found) :
    found = q.selected s := by
  rcases q.run_cases s with ⟨reason, hrefused⟩ | ⟨hfew, test, next, htest⟩
  · cases hrefused.symm.trans h
  · have hrun := comesTo_selected s hfew htest fun _ _ _ _ i body _ =>
      Expression.comesTo_extract q.statement.2 body i
    rw [h] at hrun
    exact hrun

/-- The statement of a query that is not too high can be tested. -/
theorem IsAnswerable.exists_test? (h : q.IsAnswerable) : ∃ test next,
    Statement.test? q.statement.2 q.statement.1.clause = some (test, next) := by
  obtain ⟨collection, filter, newestFirst, limit⟩ := q
  cases filter with
  | none => exact ⟨_, _, rfl⟩
  | some f =>
    have hheight := h.shallow f rfl
    obtain ⟨e, next, he, hle⟩ :=
      f.exists_expression? #[.text collection] 1 (Nat.le_of_lt hheight)
    obtain ⟨test, htest⟩ := Statement.exists_test? he (Nat.lt_of_le_of_lt hle hheight)
    exact ⟨test, next, htest⟩

/-- An answerable query is answered. -/
theorem run_of_isAnswerable (h : q.IsAnswerable) (s : Store) : q.run s = .ok (q.selected s) := by
  obtain ⟨test, next, htest⟩ := h.exists_test?
  have hrun : ComesTo (fun _ => False) (· = q.selected s) (q.run s) :=
    comesTo_selected s h.few htest fun f hf field hfield i body hi => by
      obtain ⟨part, hpart⟩ := Expression.extract_of_isPath hi (h.paths f hf field hfield)
      rw [hpart]
      exact .ok trivial
  cases hanswer : q.run s with
  | ok found =>
    rw [hanswer] at hrun
    exact congrArg _ hrun
  | error e =>
    rw [hanswer] at hrun
    exact hrun.elim

/-! ## Limits -/

/-- A smaller limit selects the first of the documents that a greater one selects. -/
theorem selected_mono (q : Query) (s : Store) {m n : UInt64} (h : m ≤ n) :
    { q with limit := some m }.selected s <+: { q with limit := some n }.selected s := by
  have hle := UInt64.le_iff_toNat_le.1 h
  exact List.take_prefix_take_left (by omega)

end Query

/-! ## Order -/

namespace Store

variable {s : Store}

/-- The ids of a collection in the order of the documents. -/
def ids (s : Store) (collection : String) : List String :=
  (s.inCollection collection).map (·.1)

theorem ids_eq (s : Store) (collection : String) :
    s.ids collection = (s.keys.filter fun key => key.collection == collection).map (·.id) := by
  rw [ids, inCollection, keys, List.filter_map, List.map_map, List.map_map]
  rfl

theorem keys_on (s : Store) (d : Deed) : s.keys <+: (d.on s).keys := by
  have hwrites (ws : List (DocKey × Json)) : s.keys <+: (s.putAll ws).keys := by
    rw [keys_putAll]
    exact List.prefix_append _ _
  cases d with
  | append collection id body => exact hwrites [(⟨collection, id⟩, body)]
  | commit stamps ws =>
    rw [Deed.on, intruded]
    cases hcommit : s.commit stamps ws with
    | ok t =>
      obtain ⟨-, rfl⟩ := commit_eq_ok_iff.1 hcommit
      rw [written_eq_putAll]
      exact hwrites _
    | error e => exact List.prefix_rfl

theorem keys_after (s : Store) (deeds : List Deed) : s.keys <+: (s.after deeds).keys := by
  induction deeds generalizing s with
  | nil => exact List.prefix_rfl
  | cons d rest ih => exact (keys_on s d).trans (ih _)

/-- **Later documents stand behind those that are there, and these keep their places.** -/
theorem ids_after (s : Store) (deeds : List Deed) (collection : String) :
    s.ids collection <+: (s.after deeds).ids collection := by
  rw [ids_eq, ids_eq]
  exact ((keys_after s deeds).filter _).map _

end Store

/-! ## The whole -/

/-- **Queries find what their filters mean.** A query whose fields are paths, whose filter is low
enough and which has no more arguments than a statement may have finds the accepted documents of its
collection in their order, up to its limit. No query finds anything else, and one with a smaller
limit finds the first documents that are found with a greater one. Documents stand in the order of
their first writes. A plain name is a path, and leads to the field of that name. -/
theorem queries_select :
    (∀ (q : Query) (s : Store), q.IsAnswerable → q.run s = .ok (q.selected s)) ∧
    (∀ (q : Query) (s : Store) (found : List (String × Json)),
      q.run s = .ok found → found = q.selected s) ∧
    (∀ (q : Query) (s : Store) (m n : UInt64) (first found : List (String × Json)), m ≤ n →
      { q with limit := some m }.run s = .ok first →
      { q with limit := some n }.run s = .ok found → first <+: found) ∧
    (∀ (s : Store) (deeds : List Deed) (collection : String),
      s.ids collection <+: (s.after deeds).ids collection) ∧
    ∀ (name : String) (body : Json), Filter.IsPlainName name →
      (∀ fs, body = .obj fs → ∀ f ∈ fs, '\x00' ∉ f.1.toList) →
      Filter.IsPath name ∧ Filter.part? body name = body.get? name := by
  refine ⟨fun q s h => Query.run_of_isAnswerable h s, fun q s found h => Query.eq_selected_of_run h,
    fun q s m n first found hle hfirst hfound => ?_, Store.ids_after,
    fun name body h hlabels =>
      ⟨Filter.isPath_of_isPlainName h, Filter.part?_of_isPlainName h hlabels⟩⟩
  rw [Query.eq_selected_of_run hfirst, Query.eq_selected_of_run hfound]
  exact q.selected_mono s hle

/-- Of three notes, the last one that is unread and for everyone or for one reader. -/
theorem unread_note_selected :
    Query.run ⟨"notes", some (.all [.eq "read" (.bool false),
      .any [.eq "to" .null, .eq "to" (.str "ana")]]), true, some 1⟩
      ⟨[⟨⟨"notes", "a"⟩, ⟨.obj [("read", .bool false), ("to", .str "ana")], 1⟩⟩,
        ⟨⟨"notes", "b"⟩, ⟨.obj [("read", .bool false)], 1⟩⟩,
        ⟨⟨"notes", "c"⟩, ⟨.obj [("read", .bool false), ("to", .str "kim")], 1⟩⟩]⟩ =
      .ok [("b", .obj [("read", .bool false)])] := by
  refine (queries_select.1 _ _ ⟨fun f hf => ?_, fun f hf => ?_, by decide⟩).trans rfl
  · cases hf
    decide
  · cases hf
    decide

/-! ## Refusals -/

namespace Filter

variable {f : Filter}

theorem size_compileAll_replicate {k : Nat} (h : ∀ args, (f.compile args).2.size = args.size + k)
    (n : Nat) (args : Array Atom) :
    (compileAll (List.replicate n f) args).2.size = args.size + n * k := by
  induction n generalizing args with
  | zero => simp [compileAll]
  | succ n ih =>
    rw [List.replicate_succ, compileAll]
    dsimp only
    rw [ih, h, Nat.succ_mul, Nat.add_assoc, Nat.add_comm k]

theorem mem_fieldsAll_replicate {n : Nat} {field : String}
    (h : field ∈ fieldsAll (List.replicate n f)) : field ∈ f.fields := by
  induction n with
  | zero => cases h
  | succ n ih =>
    rw [List.replicate_succ, fieldsAll] at h
    exact (List.mem_append.1 h).elim id ih

theorem heightFrom_replicate_le (below n : Nat) :
    heightFrom below (List.replicate n f) ≤ max below f.height + n := by
  induction n generalizing below with
  | zero => exact Nat.le_max_left _ _
  | succ n ih =>
    have hrest := ih (max below f.height + 1)
    rw [List.replicate_succ, heightFrom]
    omega

/-- Any of some filters that are all the same, one more than a number. -/
def anyOf (n : Nat) (f : Filter) : Filter := .any (List.replicate (n + 1) f)

theorem size_compile_anyOf {k : Nat} (h : ∀ args, (f.compile args).2.size = args.size + k)
    (n : Nat) (args : Array Atom) :
    ((f.anyOf n).compile args).2.size = args.size + (n + 1) * k := by
  change (compileAll (List.replicate n f) (f.compile args).2).2.size = _
  rw [size_compileAll_replicate h, h, Nat.succ_mul, Nat.add_assoc, Nat.add_comm k]

theorem mem_fields_anyOf {n : Nat} {field : String} (h : field ∈ (f.anyOf n).fields) :
    field ∈ f.fields :=
  mem_fieldsAll_replicate h

theorem height_anyOf_le (n : Nat) (f : Filter) : (f.anyOf n).height ≤ f.height + n := by
  have hle := heightFrom_replicate_le (f := f) f.height n
  rwa [Nat.max_self] at hle

theorem holds_anyOf {body : Json} (n : Nat) (h : f.holds body = true) :
    (f.anyOf n).holds body = true := by
  change (f.holds body || anyHolds body (List.replicate n f)) = true
  rw [h, Bool.true_or]

/-- One of 128 filters, each one of 128 comparisons of a field with zero. -/
def crowd : Filter := ((Filter.eq "a" (.int 0)).anyOf 127).anyOf 127

theorem size_compile_crowd (args : Array Atom) :
    (crowd.compile args).2.size = args.size + 32768 := by
  have hleaf (args : Array Atom) :
      ((eq "a" (.int 0)).compile args).2.size = args.size + 2 := by
    change ((args.push _).push _).size = _
    rw [Array.size_push, Array.size_push]
  exact size_compile_anyOf (size_compile_anyOf hleaf 127) 127 args

end Filter

theorem Query.statement_unlimited (collection : String) (f : Filter) (newestFirst : Bool) :
    (Query.mk collection (some f) newestFirst none).statement.2 =
      (f.compile #[.text collection]).2 :=
  rfl

/-- A query with more arguments than a statement may have is refused. -/
theorem Query.run_of_maxArguments_lt {q : Query} (h : Statement.maxArguments < q.statement.2.size)
    (s : Store) : q.run s = .error (.queryFailed "the filter has too many parameters") :=
  if_pos h

/-- **A low filter may have too many arguments, and a name may be no path.** The crowd holds of a
document, and a document has a field without a name; the queries for them are refused. -/
theorem crowded_and_nameless_refused :
    (Filter.crowd.height < Expression.maxHeight ∧
      (∀ field ∈ Filter.crowd.fields, Filter.IsPlainName field) ∧
      Filter.crowd.holds (.obj [("a", .int 0)]) = true ∧
      Query.run ⟨"notes", some Filter.crowd, false, none⟩
        ⟨[⟨⟨"notes", "d"⟩, ⟨.obj [("a", .int 0)], 1⟩⟩]⟩ =
          .error (.queryFailed "the filter has too many parameters")) ∧
    (Json.obj [("", .int 1)]).get? "" = some (.int 1) ∧
      Query.run ⟨"notes", some (.eq "" (.int 1)), false, none⟩
        ⟨[⟨⟨"notes", "d"⟩, ⟨.obj [("", .int 1)], 1⟩⟩]⟩ =
          .error (.queryFailed "a field of the filter is no path") := by
  refine ⟨⟨?height, fun field hfield => ?plain, ?holds, ?refused⟩, rfl, rfl⟩
  case height =>
    have hinner := Filter.height_anyOf_le 127 (.eq "a" (.int 0))
    have houter := Filter.height_anyOf_le 127 ((Filter.eq "a" (.int 0)).anyOf 127)
    have hleaf : (Filter.eq "a" (.int 0)).height = 3 := rfl
    rw [Filter.crowd, Expression.maxHeight]
    omega
  case plain =>
    obtain rfl := List.mem_singleton.1 (Filter.mem_fields_anyOf (Filter.mem_fields_anyOf hfield))
    exact ⟨by decide, List.forall_mem_singleton.2 (by decide)⟩
  case holds => exact Filter.holds_anyOf 127 (Filter.holds_anyOf 127 rfl)
  case refused =>
    refine Query.run_of_maxArguments_lt ?_ _
    rw [Query.statement_unlimited, Filter.size_compile_crowd]
    decide

end RitualLedger
