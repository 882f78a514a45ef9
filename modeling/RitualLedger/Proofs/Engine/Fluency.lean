import RitualLedger.Proofs.Engine.Among
import RitualLedger.Proofs.Engine.Discipline

/-!
# What is written can be read

While all others only make changes of the engine, every document that an operation meets is one that
it can read. So no operation fails over a document: when the store has a part in a failure, it has
refused a commit, or all attempts met conflicts, or a query was at fault (`StoreError.Expected`).

`Discipline.fluent` says so of a program, from any regular store on. What a transaction decides on
is a snapshot of records (`Snapshot.IsTyped`), though they may come from different stores. All calls
follow the discipline, and so all failures in a run are expected (`World.expected_failure`).
-/

namespace RitualLedger

variable {α β : Type} {refuses : StoreError → Prop}

/-! ## Failures -/

/-- What the store may fail with although everything in it can be read. -/
inductive StoreError.Expected (refuses : StoreError → Prop) : StoreError → Prop where
  | refused {e : StoreError} : refuses e → Expected refuses e
  | exhausted {attempts : Nat} : Expected refuses (.retriesExhausted attempts)
  | faulty {e : StoreError} : e.IsQueryFault → Expected refuses e

/-- A document that cannot be read is not expected; only the store may have said so. -/
theorem StoreError.Expected.refused_of_serialization {reason : String}
    (h : Expected refuses (.serialization reason)) : refuses (.serialization reason) := by
  cases h with
  | refused hrefuses => exact hrefuses
  | faulty hfault =>
    obtain ⟨_, hfault⟩ := hfault
    cases hfault

namespace EngineError

/-- If the store has a part in a failure, it is an expected one. -/
def Expected (refuses : StoreError → Prop) : EngineError → Prop
  | .store e => e.Expected refuses
  | .notFound _ _ | .insufficientBalance _ _ _ | .staleTask _ _ _ | .validation _ | .config _ =>
    True

theorem IsOwn.expected {e : EngineError} (h : e.IsOwn) : e.Expected refuses := by
  cases e with
  | store e => exact h.elim
  | notFound | insufficientBalance | staleTask | validation | config => trivial

end EngineError

/-! ## Snapshots of records -/

/-- All that was read are records of their collections. -/
def Snapshot.IsTyped (snapshot : Snapshot) : Prop :=
  ∀ (c : Collection) (id : String) (doc : Versioned),
    snapshot.doc? (c.key id) = some doc → c.Holds id doc.body

namespace Snapshot

variable {snapshot : Snapshot} {P : Store → Prop} {keys : List DocKey}

theorem Gathered.isTyped (h : snapshot.Gathered P keys) (hP : ∀ u, P u → u.WellTyped) :
    snapshot.IsTyped := by
  intro c id doc hdoc
  have hlookup : snapshot.docs.lookup (c.key id) = some (some doc) := Option.join_eq_some_iff.1 hdoc
  obtain ⟨u, hu, hread⟩ := h.seen _ (mem_of_lookup hlookup)
  exact hP u hu c id doc hread.symm

theorem IsTyped.get [Document α] [LawfulDocument α] [Record α] (h : snapshot.IsTyped)
    (id : String) {fails : EngineError → Prop} :
    Decides fails (snapshot.get (α := α) ((Record.collection α).key id)) := by
  rw [Snapshot.get]
  cases hdoc : snapshot.doc? ((Record.collection α).key id) with
  | none => exact .ok trivial
  | some doc =>
    have hholds := h _ _ _ hdoc
    rw [Record.holds] at hholds
    obtain ⟨x, hfits, -, hbody⟩ := hholds
    simp only [hbody, decode_encode hfits]
    exact .ok trivial

end Snapshot

/-! ## Fluency -/

/-- What a program comes to from any regular store on, while the others only make changes of the
engine. -/
def Program.Fluent (refuses : StoreError → Prop) (post : α → Prop) (p : Program α) : Prop :=
  ∀ s : Store, s.Regular → p.Keeps (.among .engine refuses) (fun a _ _ => post a) () s

namespace Program.Fluent

theorem bind {mid : α → Prop} {post : β → Prop} {p : Program α} {f : α → Program β}
    (hp : p.Fluent refuses mid) (hf : ∀ a, mid a → (f a).Fluent refuses post) :
    (p.bind f).Fluent refuses post := by
  intro s hs
  refine Program.Keeps.bind (hp s hs).along ?_
  rintro a _ s' ⟨hmid, hmoves⟩
  exact hf a hmid s' (hmoves.regular hs)

theorem anyhow (p : Program α) : p.Fluent refuses fun _ => True :=
  fun s _ => (Program.Keeps.anyhow Contract.lax_among p trivial s).imp fun _ _ _ _ => trivial

/-- What an operation fails for and what its result is. -/
theorem of_operation {o : Operation α}
    (h : ∀ s : Store, s.Regular →
      o.Keeps (.among .engine refuses) (fun e _ _ => e.Expected refuses) (fun _ _ _ => True) () s) :
    o.program.Fluent refuses (Decides (EngineError.Expected refuses)) :=
  fun s hs => Operation.Keeps.program (h s hs)

variable [Document α] [LawfulDocument α] [Record α]

theorem readDocument? (id : String) :
    (RitualLedger.readDocument? (α := α) ((Record.collection α).key id)).program.Fluent refuses
      (Decides (EngineError.Expected refuses)) :=
  of_operation fun _ hs =>
    .readRecord? (fun _ hmoves => (hmoves.regular hs).wellTyped) fun _ _ => trivial

theorem queryDocuments {q : Query} (hq : q.collection = (Record.collection α).name) :
    (RitualLedger.queryDocuments (α := α) q).program.Fluent refuses
      (Decides (EngineError.Expected refuses)) := by
  refine of_operation fun s hs => ?_
  have hquery : Operation.Keeps (.among .engine refuses) (fun e _ _ => e.Expected refuses)
      (fun found _ _ => ∀ d ∈ found, IsRecord α Record.Named d.1 d.2)
      (Operation.ofStore (Request.query q)) () s := by
    intro s' hmoves
    have hs' := hmoves.regular hs
    have hrun := q.comesTo_run s'
    cases hanswer : q.run s' with
    | ok found =>
      rw [hanswer] at hrun
      intro d hd
      exact hs'.wellTyped.isRecord_of_mem hs'.distinctKeys d (hq ▸ hrun d hd)
    | error e =>
      rw [hanswer] at hrun
      exact StoreError.Expected.faulty hrun
  refine Operation.Keeps.bind hquery ?_
  intro found _ s' hfound
  rw [Store.decodeAll_of_isRecord hfound]
  exact Operation.Keeps.pure trivial

omit [Document α] [LawfulDocument α] [Record α] in
/-- A transaction is fluent if its decision is on records. -/
theorem transact {policy : RetryPolicy} {keys : List DocKey}
    {decision : Snapshot → Except EngineError (Plan α)}
    (h : ∀ snapshot : Snapshot, snapshot.IsTyped →
      Decides (EngineError.Expected refuses) (decision snapshot)) :
    (RitualLedger.transact policy keys decision).program.Fluent refuses
      (Decides (EngineError.Expected refuses)) := by
  refine of_operation fun s hs => ?_
  refine .transact ?_ ?_ (fun _ _ _ _ _ _ _ => trivial) fun _ _ _ _ _ _ => ⟨(), trivial, trivial⟩
  · intro snapshot t e hmoves hgathered hdecision
    have htyped : snapshot.IsTyped :=
      hgathered.isTyped fun u hu => (hu.1.regular hs).wellTyped
    have hdecides := h snapshot htyped
    rw [hdecision] at hdecides
    exact hdecides
  · rintro t e - (hrefuses | ⟨made, rfl⟩)
    · exact StoreError.Expected.refused hrefuses
    · exact StoreError.Expected.exhausted

end Program.Fluent

/-- **No program stumbles over a document.** -/
def Discipline.fluent (policy : RetryPolicy) (refuses : StoreError → Prop) : Discipline policy where
  holds post p := p.Fluent refuses post
  fails := EngineError.Expected refuses
  prompts := True
  own _ h := h.expected
  finish h _ _ := h
  bind hp hf := hp.bind hf
  now := .anyhow _
  freshId := .anyhow _
  append _ _ := .anyhow _
  openPrompt _ _ := .anyhow _
  takePrompt _ _ := .anyhow _
  read id := .readDocument? id
  query _ hq := .queryDocuments hq
  transact _ _ h _ := .transact fun snapshot htyped =>
    h snapshot ⟨fun _ he => he.expected, fun id => htyped.get id⟩

/-! ## All calls -/

variable {policy : RetryPolicy}

/-- Whether an answer to a call is a result, or a failure in which the store has no unexpected part;
and whether the same is true of the actions in a log. -/
def Call.Expects (refuses : StoreError → Prop) (c : Call) (answer : Except EngineError c.Result) :
    Prop :=
  ComesTo (EngineError.Expected refuses)
    (fun a => AllFailBy (EngineError.Expected refuses) (c.results a)) answer

theorem Call.keeps_expects (c : Call) {s : Store} (hs : s.Regular) :
    (c.operation policy).program.Keeps (.among .engine refuses)
      (fun answer _ _ => c.Expects refuses answer) () s :=
  c.operation_follows (.fluent policy refuses) (fun _ => trivial) s hs

/-! ## Runs -/

/-- Whether the store has refused a commit for a reason. -/
def Event.HasRefused (es : List Event) (e : StoreError) : Prop :=
  ∃ i chance, .served i chance ∈ es ∧ chance.refusal = some e

/-- **All failures in a run are expected.** -/
theorem World.expected_failure {ttl : Int} {es : List Event} {c : Client} {e : EngineError}
    (hc : c ∈ ((initial ttl).after es).clients) (hfailed : c.rest = .finish (.error e)) :
    e.Expected (Event.HasRefused es) := by
  obtain ⟨i, hi⟩ := List.mem_iff_getElem?.1 hc
  have hkeeps : c.rest.Keeps (.among .engine (Event.HasRefused es))
      (fun answer _ _ => c.call.Expects (Event.HasRefused es) answer) ()
      ((initial ttl).after es).store := by
    refine World.keeps_among (fun hsound _ e => hsound.proceeds e)
      (fun policy call s hs => call.keeps_expects hs) ?_ ?_ hi
    · exact fun _ _ _ _ _ _ hexpects => hexpects
    · exact fun i chance hmem e he => ⟨i, chance, hmem, he⟩
  rw [hfailed] at hkeeps
  exact hkeeps

end RitualLedger
