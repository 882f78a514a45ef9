import RitualLedger.Store.Query

/-!
# What a query comes to

An expression *holds* of a body by the rules of three truth values, where a comparison with
something missing is unknown (`Expression.value`). What is known of an expression before it is
tested, and the ways in which its test is cut short, do not matter: where the test has an outcome,
that is whether the expression holds (`Expression.comesTo_test`). So a statement finds the first of
the documents of which its expression holds (`Statement.comesTo_firstPassing`).

A query that succeeds has selected from the documents of its collection. One that fails has a fault
itself: its filter is too large, or names no part of a document. What is stored is never to blame
(`Query.comesTo_run`).
-/

namespace RitualLedger

/-- A failure has a property, and so has a result. -/
def ComesTo {ε α : Type} (fails : ε → Prop) (post : α → Prop) : Except ε α → Prop
  | .ok a => post a
  | .error e => fails e

namespace ComesTo

variable {ε α β : Type} {fails : ε → Prop} {mid : α → Prop} {post post' : β → Prop}

theorem ok {b : β} (h : post b) : ComesTo fails post (.ok b) := h

theorem error {e : ε} (h : fails e) : ComesTo fails post (.error e) := h

theorem bind {r : Except ε α} {f : α → Except ε β} (h : ComesTo fails mid r)
    (hf : ∀ a, mid a → ComesTo fails post (f a)) : ComesTo fails post (r >>= f) := by
  cases r with
  | ok a => exact hf a h
  | error e => exact h

theorem imp {r : Except ε β} (h : ComesTo fails post r) (hpost : ∀ b, post b → post' b) :
    ComesTo fails post' r := by
  cases r with
  | ok b => exact hpost b h
  | error e => exact h

theorem weaken {fails' : ε → Prop} {r : Except ε β} (h : ComesTo fails post r)
    (hfails : ∀ e, fails e → fails' e) : ComesTo fails' post r := by
  cases r with
  | ok b => exact h
  | error e => exact hfails e h

end ComesTo

/-- The fault lies in the query. -/
def StoreError.IsQueryFault (e : StoreError) : Prop := ∃ reason, e = .queryFailed reason

theorem StoreError.isQueryFault_queryFailed {reason : String} : (queryFailed reason).IsQueryFault :=
  ⟨reason, rfl⟩

open StoreError (isQueryFault_queryFailed)

/-! ## Outcomes -/

theorem bothHold_eq_true {a b : Option Bool} :
    bothHold a b = some true ↔ a = some true ∧ b = some true := by
  rcases a with _ | _ | _ <;> rcases b with _ | _ | _ <;> simp [bothHold]

theorem bothHold_eq_false {a b : Option Bool} :
    bothHold a b = some false ↔ a = some false ∨ b = some false := by
  rcases a with _ | _ | _ <;> rcases b with _ | _ | _ <;> simp [bothHold]

theorem eitherHolds_eq_true {a b : Option Bool} :
    eitherHolds a b = some true ↔ a = some true ∨ b = some true := by
  rcases a with _ | _ | _ <;> rcases b with _ | _ | _ <;> simp [eitherHolds]

theorem eitherHolds_eq_false {a b : Option Bool} :
    eitherHolds a b = some false ↔ a = some false ∧ b = some false := by
  rcases a with _ | _ | _ <;> rcases b with _ | _ | _ <;> simp [eitherHolds]

namespace Expression

variable {fails : StoreError → Prop} {args : Array Atom} {body : Json} {e : Expression}

/-! ## Expressions -/

/-- The atom of the part of a body that an argument leads to, if it is a path to one. -/
def part? (args : Array Atom) (body : Json) (path : Nat) : Option Atom :=
  (extract args body path).toOption.join

/-- The outcome of an expression by the rules of three truth values. -/
def value (args : Array Atom) (body : Json) : Expression → Option Bool
  | .constant b => some b
  | .equals path value => Atom.equal? (part? args body path) args[value]?
  | .isNull path => some (part? args body path).isNone
  | .both l r => bothHold (l.value args body) (r.value args body)
  | .either l r => eitherHolds (l.value args body) (r.value args body)

/-- Whether an expression holds of a body. What is unknown does not hold. -/
def holds (args : Array Atom) (body : Json) (e : Expression) : Bool :=
  e.value args body == some true

/-- The numbers of the arguments that an expression takes for paths. -/
def paths : Expression → List Nat
  | .constant _ => []
  | .equals path _ | .isNull path => [path]
  | .both l r | .either l r => l.paths ++ r.paths

@[simp] theorem holds_constant (b : Bool) : (constant b).holds args body = b := by
  cases b <;> rfl

theorem holds_equals (path value : Nat) : (equals path value).holds args body =
    (Atom.equal? (part? args body path) args[value]?).getD false := by
  rw [holds, Expression.value]
  rcases Atom.equal? (part? args body path) args[value]? with _ | _ | _ <;> rfl

@[simp] theorem holds_isNull (path : Nat) :
    (isNull path).holds args body = (part? args body path).isNone := by
  rw [holds, value]
  cases (part? args body path).isNone <;> rfl

@[simp] theorem holds_both (l r : Expression) :
    (both l r).holds args body = (l.holds args body && r.holds args body) := by
  rw [Bool.eq_iff_iff]
  simp only [holds, value, beq_iff_eq, Bool.and_eq_true, bothHold_eq_true]

@[simp] theorem holds_either (l r : Expression) :
    (either l r).holds args body = (l.holds args body || r.holds args body) := by
  rw [Bool.eq_iff_iff]
  simp only [holds, value, beq_iff_eq, Bool.or_eq_true, eitherHolds_eq_true]

/-! ## What is known before a test -/

/-- What is known of an expression whatever the body is true of each. -/
theorem value_of_outcome? {b : Bool} (h : e.outcome? = some b) : e.value args body = some b := by
  induction e generalizing b with
  | constant _ => exact h
  | equals _ _ | isNull _ => cases h
  | both l r ihl ihr =>
    cases b with
    | true =>
      obtain ⟨hl, hr⟩ := bothHold_eq_true.1 h
      exact bothHold_eq_true.2 ⟨ihl hl, ihr hr⟩
    | false => exact bothHold_eq_false.2 ((bothHold_eq_false.1 h).imp ihl ihr)
  | either l r ihl ihr =>
    cases b with
    | true => exact eitherHolds_eq_true.2 ((eitherHolds_eq_true.1 h).imp ihl ihr)
    | false =>
      obtain ⟨hl, hr⟩ := eitherHolds_eq_false.1 h
      exact eitherHolds_eq_false.2 ⟨ihl hl, ihr hr⟩

theorem holds_of_outcome? {b : Bool} (h : e.outcome? = some b) : e.holds args body = b := by
  rw [holds, value_of_outcome? h]
  cases b <;> rfl

theorem eq_of_isNever (h : e.isNever) : e = .constant false := by
  cases e with
  | constant b =>
    cases b with
    | true => cases h
    | false => rfl
  | equals _ _ | isNull _ | both _ _ | either _ _ => cases h

theorem holds_of_isNever (h : e.isNever) : e.holds args body = false := by
  rw [eq_of_isNever h, holds_constant]

theorem holds_of_failsAtOnce (h : e.failsAtOnce) : e.holds args body = false := by
  have hleaf {e : Expression} (h : (!e.looksAtBody && e.outcome? == some false) = true) :
      e.holds args body = false := by
    rw [Bool.and_eq_true, beq_iff_eq] at h
    exact holds_of_outcome? h.2
  induction e with
  | constant _ | equals _ _ | isNull _ | either _ _ => exact hleaf h
  | both l r ihl ihr =>
    rw [holds_both, Bool.and_eq_false_iff]
    exact (Bool.or_eq_true_iff.1 h).imp ihl ihr

/-! ## Tests -/

/-- Following the paths of an expression fails in some ways at most. -/
def FailsAtMost (fails : StoreError → Prop) (args : Array Atom) (body : Json) (e : Expression) :
    Prop :=
  ∀ path ∈ e.paths, ComesTo fails (fun _ => True) (extract args body path)

theorem comesTo_part? {path : Nat}
    (h : ComesTo fails (fun _ => True) (extract args body path)) :
    ComesTo fails (· = part? args body path) (extract args body path) := by
  rw [part?]
  cases hextract : extract args body path with
  | ok part => exact .ok rfl
  | error e =>
    rw [hextract] at h
    exact .error h

/-- **A test that has an outcome tells whether the expression holds.** -/
theorem comesTo_test (e : Expression) (h : e.FailsAtMost fails args body) :
    ComesTo fails (· = e.holds args body) (e.test args body) := by
  induction e with
  | constant b => exact .ok (holds_constant b).symm
  | equals path value =>
    refine (comesTo_part? (h path List.mem_cons_self)).bind fun part hpart => .ok ?_
    rw [holds_equals, hpart]
  | isNull path =>
    refine (comesTo_part? (h path List.mem_cons_self)).bind fun part hpart => .ok ?_
    rw [holds_isNull, hpart]
  | both l r ihl ihr =>
    rw [test]
    split
    · rename_i b hb
      exact .ok (holds_of_outcome? hb).symm
    · refine (ihl fun path hp => h path (List.mem_append_left _ hp)).bind fun b hb => ?_
      rw [holds_both, ← hb]
      cases b with
      | true => exact ihr fun path hp => h path (List.mem_append_right _ hp)
      | false => exact .ok rfl
  | either l r ihl ihr =>
    rw [test]
    split
    · rename_i b hb
      exact .ok (holds_of_outcome? hb).symm
    · refine (ihl fun path hp => h path (List.mem_append_left _ hp)).bind fun b hb => ?_
      rw [holds_either, ← hb]
      cases b with
      | true => exact .ok rfl
      | false => exact ihr fun path hp => h path (List.mem_append_right _ hp)

theorem comesTo_testOutermost (e : Expression) (h : e.FailsAtMost fails args body) :
    ComesTo fails (· = e.holds args body) (e.testOutermost args body) := by
  induction e with
  | constant _ | equals _ _ | isNull _ | either _ _ => exact comesTo_test _ h
  | both l r ihl ihr =>
    refine (ihl fun path hp => h path (List.mem_append_left _ hp)).bind fun b hb => ?_
    rw [holds_both, ← hb]
    cases b with
    | true => exact ihr fun path hp => h path (List.mem_append_right _ hp)
    | false => exact .ok rfl

/-- Whatever fails is a fault of the query. -/
theorem comesTo_extract (args : Array Atom) (body : Json) (path : Nat) :
    ComesTo StoreError.IsQueryFault (fun _ => True) (extract args body path) := by
  rw [extract]
  split
  · split
    · exact .ok trivial
    · exact .error isQueryFault_queryFailed
  · exact .error isQueryFault_queryFailed
  · exact .error isQueryFault_queryFailed
  · exact .ok trivial

end Expression

/-! ## Statements -/

namespace Statement

variable {fails : StoreError → Prop} {args : Array Atom} {next : Nat}
  {test : Json → Except StoreError Bool} {passes : Json → Bool}

/-- The test of a statement tells whether its expression holds. -/
theorem comesTo_test {c : Clause} (h : test? args (some c) = some (test, next)) :
    ∃ e, c.expression? 1 = some (e, next) ∧ ∀ body, e.FailsAtMost fails args body →
      ComesTo fails (· = e.holds args body) (test body) := by
  obtain ⟨⟨e, n⟩, he, h⟩ := Option.bind_eq_some_iff.1 h
  dsimp only at h
  split at h
  · rename_i hnever
    cases h
    exact ⟨e, he, fun body _ => .ok (Expression.holds_of_isNever hnever).symm⟩
  · split at h
    · cases h
    · split at h
      · rename_i hfails
        cases h
        exact ⟨e, he, fun body _ => .ok (Expression.holds_of_failsAtOnce hfails).symm⟩
      · cases h
        exact ⟨e, he, fun body hpaths => e.comesTo_testOutermost hpaths⟩

/-- A clause that is not too high can be tested. -/
theorem exists_test? {c : Clause} {e : Expression} (he : c.expression? 1 = some (e, next))
    (hlow : e.height < Expression.maxHeight) : ∃ test, test? args (some c) = some (test, next) := by
  rw [test?, he, Option.bind_eq_bind, Option.bind_some]
  dsimp only
  split
  · exact ⟨_, rfl⟩
  · rw [if_neg (Nat.not_le.2 hlow)]
    split
    · exact ⟨_, rfl⟩
    · exact ⟨_, rfl⟩

/-- Any test of a statement tells something, unless it notices a fault in a path. -/
theorem exists_passes {clause : Option Clause} {accepted : (Json → Except StoreError Bool) × Nat}
    (h : test? args clause = some accepted) :
    ∃ passes : Json → Bool, ∀ body,
      ComesTo StoreError.IsQueryFault (· = passes body) (accepted.1 body) := by
  cases clause with
  | none =>
    cases h
    exact ⟨fun _ => true, fun _ => .ok rfl⟩
  | some c =>
    obtain ⟨e, -, htest⟩ := comesTo_test h
    exact ⟨e.holds args, fun body =>
      htest body fun path _ => Expression.comesTo_extract args body path⟩

/-- **The documents that are found are the first ones that pass.** -/
theorem comesTo_firstPassing (htest : ∀ body, ComesTo fails (· = passes body) (test body)) (n : Nat)
    (docs : List (String × Json)) :
    ComesTo fails (· = (docs.filter fun d => passes d.2).take n) (firstPassing test n docs) := by
  induction docs generalizing n with
  | nil =>
    cases n with
    | zero | succ _ => exact .ok rfl
  | cons d rest ih =>
    cases n with
    | zero => exact .ok rfl
    | succ n =>
      refine (htest d.2).bind fun b hb => ?_
      rw [List.filter_cons, ← hb]
      cases b with
      | true => exact (ih n).bind fun found hfound => .ok (hfound ▸ rfl)
      | false => exact ih (n + 1)

/-- A statement that is not refused finds the first of its candidates that pass. -/
theorem comesTo_run {st : Statement} (s : Store) (hfew : args.size ≤ maxArguments)
    (htest : test? args st.clause = some (test, next))
    (hpasses : ∀ body, ComesTo fails (· = passes body) (test body)) :
    ComesTo fails
      (· = ((st.candidates args s).filter fun d => passes d.2).take
        (st.most args next (st.candidates args s)))
      (st.run args s) := by
  rw [run, if_neg (Nat.not_lt.2 hfew), htest]
  exact comesTo_firstPassing hpasses _ _

end Statement

/-! ## Arguments -/

section Arguments

variable {before args : Array Atom} {a : Atom} {i : Nat}

/-- What stands among the first arguments stands there among all. -/
theorem argument_of_before (h : before.toList <+: args.toList) (ha : before[i]? = some a) :
    args[i]? = some a := by
  obtain ⟨more, hmore⟩ := h
  rw [← Array.getElem?_toList] at ha ⊢
  obtain ⟨hi, -⟩ := List.getElem?_eq_some_iff.1 ha
  rw [← hmore, List.getElem?_append_left hi, ha]

theorem prefix_push (args : Array Atom) (a : Atom) : args.toList <+: (args.push a).toList := by
  rw [Array.toList_push]
  exact List.prefix_append _ _

end Arguments

namespace Filter

mutual

/-- A filter puts its arguments behind those that are there. -/
theorem prefix_compile (f : Filter) (args : Array Atom) :
    args.toList <+: (f.compile args).2.toList := by
  cases f with
  | eq field value =>
    rw [compile]
    split
    · exact (prefix_push _ _).trans (prefix_push _ _)
    · exact prefix_push _ _
  | any filters | all filters =>
    cases filters with
    | nil => exact List.prefix_rfl
    | cons f rest =>
      rw [compile]
      exact (prefix_compile f args).trans (prefix_compileAll rest _)

theorem prefix_compileAll (filters : List Filter) (args : Array Atom) :
    args.toList <+: (compileAll filters args).2.toList := by
  cases filters with
  | nil => exact List.prefix_rfl
  | cons f rest =>
    rw [compileAll]
    exact (prefix_compile f args).trans (prefix_compileAll rest _)

end

end Filter

namespace Query

/-! ## Queries -/

theorem collection_argument_condition (q : Query) :
    q.condition.2[0]? = some (.text q.collection) := by
  rw [condition]
  cases q.filter with
  | none => rfl
  | some f => exact argument_of_before (f.prefix_compile _) rfl

theorem prefix_statement (q : Query) : q.condition.2.toList <+: q.statement.2.toList := by
  rw [statement]
  cases q.limit with
  | none => exact List.prefix_rfl
  | some limit => exact prefix_push _ _

/-- The documents that a query looks at, in its order. -/
theorem candidates_statement (q : Query) (s : Store) :
    q.statement.1.candidates q.statement.2 s =
      if q.newestFirst then (s.inCollection q.collection).reverse
      else s.inCollection q.collection := by
  rw [Statement.candidates,
    argument_of_before q.prefix_statement q.collection_argument_condition]
  rfl

/-- A query is refused for itself, or its statement can be tested. -/
theorem run_cases (q : Query) (s : Store) :
    (∃ reason, q.run s = .error (.queryFailed reason)) ∨
      q.statement.2.size ≤ Statement.maxArguments ∧
        ∃ test next, Statement.test? q.statement.2 q.statement.1.clause = some (test, next) := by
  change (∃ reason, q.statement.1.run q.statement.2 s = .error (.queryFailed reason)) ∨ _
  rw [Statement.run]
  split
  · exact .inl ⟨_, rfl⟩
  · rename_i hfew
    cases htest : Statement.test? q.statement.2 q.statement.1.clause with
    | none => exact .inl ⟨_, rfl⟩
    | some accepted => exact .inr ⟨Nat.le_of_not_lt hfew, accepted.1, accepted.2, rfl⟩

/-- **A query selects from its collection, or has a fault itself.** -/
theorem comesTo_run (q : Query) (s : Store) :
    ComesTo StoreError.IsQueryFault (fun found => ∀ d ∈ found, d ∈ s.inCollection q.collection)
      (q.run s) := by
  have hcandidates : ∀ d ∈ q.statement.1.candidates q.statement.2 s,
      d ∈ s.inCollection q.collection := by
    intro d hd
    rw [q.candidates_statement s] at hd
    split at hd
    · exact List.mem_reverse.1 hd
    · exact hd
  rcases q.run_cases s with ⟨reason, hrefused⟩ | ⟨hfew, test, next, htest⟩
  · rw [hrefused]
    exact .error isQueryFault_queryFailed
  · obtain ⟨passes, hpasses⟩ := Statement.exists_passes htest
    refine (Statement.comesTo_run s hfew htest hpasses).imp fun found hfound d hd => ?_
    rw [hfound] at hd
    exact hcandidates d (List.mem_filter.1 (List.mem_of_mem_take hd)).1

end Query

end RitualLedger
