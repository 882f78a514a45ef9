import RitualLedger.Proofs.Store.Fields
import RitualLedger.Proofs.Store.Selection

/-!
# What a filter means

A filter means what it says: a part of the body is there and equals a value, or for null is null or
not there; some member holds; every member holds (`Filter.holds`). There are two truth values only.

The clause that a filter is compiled to means the same, whatever arguments stand before those of the
filter and behind them (`Filter.means_of_expression?`): its question marks take the arguments that
were pushed for them, and what is unknown of a comparison stays inside it, since nothing is negated.
A clause is not refused if the filter is not too high (`Filter.exists_expression?`).
-/

namespace RitualLedger

/-! ## Meaning -/

namespace Filter

/-- Whether a part of a body equals a value that is not null. -/
def equal (part value : Json) : Bool :=
  (Atom.equal? (Atom.ofPart? part) (Atom.ofJson? value)).getD false

mutual

/-- Whether a filter holds of a body. -/
def holds (body : Json) : Filter → Bool
  | .eq field .null =>
    match part? body field with
    | none | some .null => true
    | some _ => false
  | .eq field value =>
    match part? body field with
    | none => false
    | some part => equal part value
  | .any filters => anyHolds body filters
  | .all filters => allHold body filters

/-- Whether one of some filters holds. -/
def anyHolds (body : Json) : List Filter → Bool
  | [] => false
  | f :: rest => f.holds body || anyHolds body rest

/-- Whether every one of some filters holds. -/
def allHold (body : Json) : List Filter → Bool
  | [] => true
  | f :: rest => f.holds body && allHold body rest

end

mutual

/-- The fields that a filter asks for. -/
def fields : Filter → List String
  | .eq field _ => [field]
  | .any filters | .all filters => fieldsAll filters

/-- The fields that some filters ask for. -/
def fieldsAll : List Filter → List String
  | [] => []
  | f :: rest => f.fields ++ fieldsAll rest

end

mutual

/-- The length of the longest way down a filter, where members stand below each other from the last
one to the first, and a comparison takes three steps. -/
def height : Filter → Nat
  | .eq _ _ => 3
  | .any filters | .all filters => heightAll filters

/-- The height of some members. -/
def heightAll : List Filter → Nat
  | [] => 1
  | f :: rest => heightFrom f.height rest

/-- The height of members below which there are others of some height. -/
def heightFrom (below : Nat) : List Filter → Nat
  | [] => below
  | f :: rest => heightFrom (max below f.height + 1) rest

end

end Filter

/-! ## Comparisons -/

theorem Atom.ofJson?_eq_none {j : Json} : ofJson? j = none ↔ j = .null := by
  cases j with
  | null => exact iff_of_true rfl rfl
  | int n =>
    rw [ofJson?]
    split
    · exact iff_of_false nofun nofun
    · exact iff_of_false nofun nofun
  | bool _ | real _ | str _ | arr _ | obj _ => exact iff_of_false nofun nofun

theorem Atom.ofPart?_eq_none {j : Json} : ofPart? j = none ↔ j = .null := by
  rw [ofPart?.eq_def]
  split
  · exact iff_of_false nofun nofun
  · exact ofJson?_eq_none

section Comparisons

variable {args : Array Atom} {body : Json} {field : String} {value : Json} {i : Nat}

/-- An argument with the path of a field leads to the part that the field leads to. -/
theorem Expression.part?_of_field (h : args[i]? = some (.text ("$." ++ field))) :
    part? args body i = (Filter.part? body field).bind Atom.ofPart? := by
  rw [part?, extract, h, Filter.part?, Filter.path]
  dsimp only
  cases (Json.Path.ofArgument ("$." ++ field)).find body with
  | ok part => rfl
  | error fault => rfl

/-- An argument with a path that is one can be followed in every body. -/
theorem Expression.extract_of_isPath (h : args[i]? = some (.text ("$." ++ field)))
    (hpath : Filter.IsPath field) : ∃ part, extract args body i = .ok part := by
  obtain ⟨part, hpart⟩ := Filter.exists_find_of_isPath hpath body
  have hfind : (Json.Path.ofArgument ("$." ++ field)).find body = .ok part := hpart
  rw [extract, h]
  dsimp only
  rw [hfind]
  exact ⟨_, rfl⟩

theorem Filter.holds_eq_null :
    (eq field .null).holds body = ((part? body field).bind Atom.ofPart?).isNone := by
  rw [holds]
  cases part? body field with
  | none => rfl
  | some part =>
    by_cases hnull : part = .null
    · rw [hnull]
      rfl
    · cases hatom : Atom.ofPart? part with
      | none => exact absurd (Atom.ofPart?_eq_none.1 hatom) hnull
      | some a =>
        rw [Option.bind_some, hatom]
        cases part with
        | null => exact absurd rfl hnull
        | bool _ | int _ | real _ | str _ | arr _ | obj _ => rfl

theorem Filter.holds_eq_of_ne_null (h : value ≠ .null) : (eq field value).holds body =
    (Atom.equal? ((part? body field).bind Atom.ofPart?) (Atom.ofJson? value)).getD false := by
  have hholds : (eq field value).holds body =
      match part? body field with
      | none => false
      | some part => equal part value := by
    cases value with
    | null => exact absurd rfl h
    | bool _ | int _ | real _ | str _ | arr _ | obj _ => rfl
  rw [hholds]
  cases part? body field with
  | none => rfl
  | some part => rfl

end Comparisons

/-! ## Junctions -/

namespace Junction

/-- Whether two things hold as they are joined. -/
def join : Junction → Bool → Bool → Bool
  | .and, a, b => a && b
  | .or, a, b => a || b

/-- Whether some filters hold as they are joined. -/
def holds (body : Json) : Junction → List Filter → Bool
  | .and => Filter.allHold body
  | .or => Filter.anyHolds body

theorem join_assoc (j : Junction) (a b c : Bool) :
    j.join (j.join a b) c = j.join a (j.join b c) := by
  cases j with
  | and => exact Bool.and_assoc a b c
  | or => exact Bool.or_assoc a b c

theorem join_holds_nil (j : Junction) (a : Bool) (body : Json) :
    j.join a (j.holds body []) = a := by
  cases j with
  | and => exact Bool.and_true a
  | or => exact Bool.or_false a

theorem holds_cons (j : Junction) (body : Json) (f : Filter) (rest : List Filter) :
    j.holds body (f :: rest) = j.join (f.holds body) (j.holds body rest) := by
  cases j with
  | and | or => rfl

end Junction

/-- With some arguments, an expression holds where a condition does, and all paths that it takes are
those of some fields. -/
structure Expression.Means (args : Array Atom) (e : Expression) (condition : Json → Bool)
    (fields : List String) : Prop where
  holds : ∀ body, e.holds args body = condition body
  paths : ∀ i ∈ e.paths, ∃ field ∈ fields, args[i]? = some (.text ("$." ++ field))

namespace Expression

variable {args : Array Atom} {j : Junction} {l r e : Expression} {p q : Json → Bool}
  {fs gs : List String}

theorem Means.constant (b : Bool) (fields : List String) :
    (constant b).Means args (fun _ => b) fields where
  holds _ := holds_constant b
  paths := nofun

theorem Means.isNull {field : String} {i : Nat} (h : args[i]? = some (.text ("$." ++ field))) :
    (isNull i).Means args (fun body => (Filter.eq field .null).holds body) [field] where
  holds body := by rw [holds_isNull, part?_of_field h, Filter.holds_eq_null]
  paths i' hi' := ⟨field, List.mem_cons_self, by rw [List.mem_singleton.1 hi', h]⟩

theorem Means.equals {field : String} {value : Json} {i k : Nat} (hvalue : value ≠ .null)
    (hi : args[i]? = some (.text ("$." ++ field))) (hk : args[k]? = Atom.ofJson? value) :
    (equals i k).Means args (fun body => (Filter.eq field value).holds body) [field] where
  holds body := by rw [holds_equals, part?_of_field hi, hk, Filter.holds_eq_of_ne_null hvalue]
  paths i' hi' := ⟨field, List.mem_cons_self, by rw [List.mem_singleton.1 hi', hi]⟩

theorem eq_of_bounded? (h : e.bounded? = some l) : e = l := by
  rw [bounded?] at h
  split at h
  · exact Option.some.inj h
  · cases h

/-- Joined expressions hold where their conditions do as they are joined. -/
theorem Means.join (hl : l.Means args p fs) (hr : r.Means args q gs) (h : join? j l r = some e) :
    e.Means args (fun body => j.join (p body) (q body)) (fs ++ gs) := by
  have hpaths : ∀ i ∈ l.paths ++ r.paths,
      ∃ field ∈ fs ++ gs, args[i]? = some (.text ("$." ++ field)) := by
    intro i hi
    rcases List.mem_append.1 hi with hi | hi
    · obtain ⟨field, hfield, harg⟩ := hl.paths i hi
      exact ⟨field, List.mem_append_left _ hfield, harg⟩
    · obtain ⟨field, hfield, harg⟩ := hr.paths i hi
      exact ⟨field, List.mem_append_right _ hfield, harg⟩
  cases j with
  | or =>
    obtain rfl := eq_of_bounded? h
    refine ⟨fun body => ?_, hpaths⟩
    rw [holds_either, hl.holds, hr.holds]
    rfl
  | and =>
    rw [join?] at h
    split at h
    · -- One of the two never holds, and neither do both.
      rename_i hnever
      cases h
      refine ⟨fun body => ?_, nofun⟩
      rw [holds_constant, ← hl.holds, ← hr.holds, eq_comm]
      exact Bool.and_eq_false_iff.2
        ((Bool.or_eq_true_iff.1 hnever).imp holds_of_isNever holds_of_isNever)
    · obtain rfl := eq_of_bounded? h
      refine ⟨fun body => ?_, hpaths⟩
      rw [holds_both, hl.holds, hr.holds]
      rfl

end Expression

/-! ## Compilation -/

namespace Filter

variable {before args : Array Atom} {e : Expression} {next : Nat}

/-- A comparison takes the arguments that were pushed for it. -/
theorem means_of_expression?_eq {field : String} {value : Json}
    (hargs : ((eq field value).compile before).2.toList <+: args.toList)
    (h : ((eq field value).compile before).1.expression? before.size = some (e, next)) :
    next = ((eq field value).compile before).2.size ∧
      e.Means args (fun body => (eq field value).holds body) (eq field value).fields := by
  rw [compile] at hargs h ⊢
  cases hvalue : Atom.ofJson? value with
  | none =>
    rw [hvalue] at hargs h
    cases h
    obtain rfl := Atom.ofJson?_eq_none.1 hvalue
    exact ⟨(Array.size_push _).symm, .isNull (argument_of_before hargs Array.getElem?_push_size)⟩
  | some a =>
    rw [hvalue] at hargs h
    cases h
    have hnull : value ≠ .null := fun hnull =>
      nomatch hvalue.symm.trans (Atom.ofJson?_eq_none.2 hnull)
    have hfield := argument_of_before ((prefix_push _ a).trans hargs) Array.getElem?_push_size
    have ha := argument_of_before hargs Array.getElem?_push_size
    rw [Array.size_push, ← hvalue] at ha
    refine ⟨?_, .equals hnull hfield ha⟩
    rw [Array.size_push, Array.size_push]

mutual

/-- **The clause of a filter means what the filter means**, once its question marks have taken the
arguments from the first one on that was pushed for it. -/
theorem means_of_expression? (f : Filter) {before args : Array Atom} {e : Expression} {next : Nat}
    (hargs : (f.compile before).2.toList <+: args.toList)
    (h : (f.compile before).1.expression? before.size = some (e, next)) :
    next = (f.compile before).2.size ∧ e.Means args (fun body => f.holds body) f.fields := by
  cases f with
  | eq field value => exact means_of_expression?_eq hargs h
  | any filters | all filters =>
    cases filters with
    | nil =>
      cases h
      exact ⟨rfl, .constant _ []⟩
    | cons f rest =>
      rw [compile] at hargs h ⊢
      obtain ⟨⟨e₁, n₁⟩, he₁, h⟩ := Option.bind_eq_some_iff.1 h
      obtain ⟨rfl, hmeans⟩ :=
        means_of_expression? f ((prefix_compileAll rest _).trans hargs) he₁
      exact means_of_expressionFrom? rest hargs hmeans h

/-- The clauses of filters are joined to what stands before them. -/
theorem means_of_expressionFrom? (filters : List Filter) {j : Junction} {before args : Array Atom}
    {first e : Expression} {next : Nat} {condition : Json → Bool} {fields : List String}
    (hargs : (compileAll filters before).2.toList <+: args.toList)
    (hfirst : first.Means args condition fields)
    (h : Clause.expressionFrom? j first (compileAll filters before).1 before.size =
      some (e, next)) :
    next = (compileAll filters before).2.size ∧
      e.Means args (fun body => j.join (condition body) (j.holds body filters))
        (fields ++ fieldsAll filters) := by
  cases filters with
  | nil =>
    cases h
    simp only [Junction.join_holds_nil, fieldsAll, List.append_nil]
    exact ⟨rfl, hfirst⟩
  | cons f rest =>
    rw [compileAll] at hargs h ⊢
    obtain ⟨⟨e₁, n₁⟩, he₁, h⟩ := Option.bind_eq_some_iff.1 h
    obtain ⟨joined, hjoined, h⟩ := Option.bind_eq_some_iff.1 h
    obtain ⟨rfl, hmeans⟩ :=
      means_of_expression? f ((prefix_compileAll rest _).trans hargs) he₁
    obtain ⟨hnext, hall⟩ := means_of_expressionFrom? rest hargs (hfirst.join hmeans hjoined) h
    simp only [Junction.join_assoc, ← Junction.holds_cons, List.append_assoc] at hall
    exact ⟨hnext, hall⟩

end

/-! ## Heights -/

theorem le_heightFrom (below : Nat) (filters : List Filter) : below ≤ heightFrom below filters := by
  induction filters generalizing below with
  | nil => exact Nat.le_refl below
  | cons f rest ih =>
    have hrest := ih (max below f.height + 1)
    rw [heightFrom]
    omega

/-- Two expressions can be joined if the whole is not too high. -/
theorem exists_join? (j : Junction) {l r : Expression} {m n : Nat} (hl : l.height ≤ m)
    (hr : r.height ≤ n) (h : max m n + 1 ≤ Expression.maxHeight) :
    ∃ e, Expression.join? j l r = some e ∧ e.height ≤ max m n + 1 := by
  have hle : max l.height r.height + 1 ≤ max m n + 1 := by omega
  cases j with
  | or => exact ⟨.either l r, if_pos (Nat.le_trans hle h), hle⟩
  | and =>
    rw [Expression.join?]
    split
    · exact ⟨.constant false, rfl, Nat.le_add_left 1 _⟩
    · exact ⟨.both l r, if_pos (Nat.le_trans hle h), hle⟩

mutual

/-- **The clause of a filter that is not too high can be tested.** -/
theorem exists_expression? (f : Filter) (before : Array Atom) (n : Nat)
    (h : f.height ≤ Expression.maxHeight) :
    ∃ e next, (f.compile before).1.expression? n = some (e, next) ∧ e.height ≤ f.height := by
  cases f with
  | eq field value =>
    rw [compile]
    split
    · exact ⟨_, _, rfl, Nat.le_refl 3⟩
    · exact ⟨_, _, rfl, Nat.le_refl 3⟩
  | any filters | all filters =>
    cases filters with
    | nil => exact ⟨_, _, rfl, Nat.le_refl 1⟩
    | cons f rest =>
      have hf := Nat.le_trans (le_heightFrom f.height rest) h
      obtain ⟨e₁, n₁, he₁, hheight⟩ := exists_expression? f before n hf
      obtain ⟨e, next, he, hall⟩ := exists_expressionFrom? rest _ (f.compile before).2 n₁ hheight h
      exact ⟨e, next, Option.bind_eq_some_iff.2 ⟨_, he₁, he⟩, hall⟩

theorem exists_expressionFrom? (filters : List Filter) (j : Junction) (before : Array Atom)
    (n : Nat) {first : Expression} {below : Nat} (hfirst : first.height ≤ below)
    (h : heightFrom below filters ≤ Expression.maxHeight) :
    ∃ e next, Clause.expressionFrom? j first (compileAll filters before).1 n = some (e, next) ∧
      e.height ≤ heightFrom below filters := by
  cases filters with
  | nil => exact ⟨first, n, rfl, hfirst⟩
  | cons f rest =>
    have hjoined := Nat.le_trans (le_heightFrom _ rest) h
    have hf : f.height ≤ Expression.maxHeight := by omega
    obtain ⟨e₁, n₁, he₁, hheight⟩ := exists_expression? f before n hf
    obtain ⟨joined, hjoin, hle⟩ := exists_join? j hfirst hheight hjoined
    obtain ⟨e, next, he, hall⟩ := exists_expressionFrom? rest j (f.compile before).2 n₁ hle h
    exact ⟨e, next,
      Option.bind_eq_some_iff.2 ⟨_, he₁, Option.bind_eq_some_iff.2 ⟨_, hjoin, he⟩⟩, hall⟩

end

end Filter

end RitualLedger
