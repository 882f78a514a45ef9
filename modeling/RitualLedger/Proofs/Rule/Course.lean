import RitualLedger.Proofs.Rule.Likeness

/-!
# Courses of errands

A batch that runs alone performs its errands one after the other; a `Course` is what comes of that,
with one result for each errand (`Batch.keeps_runFrom`). A client that is cut short is `Underway`:
it has performed some of its errands, and those that come first.

The main statement is `Course.repaired`. If a whole course goes well, then another client may take
the same errands up where a first one was cut short: it performs them all, from the first on, and
comes to a store like that of the whole course. After that there is nothing left to do.
-/

namespace RitualLedger

/-- Whether an action succeeded, now or before. -/
def ActionResult.IsFine (r : ActionResult) : Prop :=
  ∀ reason retriable, r.status ≠ .failed reason retriable

/-- The result of an errand is fine when the answer is no error. -/
theorem Errand.isFine_result {e : Errand} {answer : Except EngineError ActionEffect} :
    (e.result answer).IsFine ↔ ∃ effect, answer = .ok effect := by
  cases answer with
  | error error => exact ⟨fun h => absurd rfl (h error.message error.isRetriable), nofun⟩
  | ok effect =>
    refine ⟨fun _ => ⟨effect, rfl⟩, fun _ reason retriable => ?_⟩
    simp only [result, Batch.result]
    split <;> exact nofun

/-- Errands are performed one after the other. -/
inductive Course : Store → List Errand → List ActionResult → Store → Prop
  | done (s : Store) : Course s [] [] s
  | next {s t u : Store} {e : Errand} {answer : Except EngineError ActionEffect}
    {rest : List Errand} {results : List ActionResult} (hfirst : e.Performs s answer t)
    (hrest : Course t rest results u) : Course s (e :: rest) (e.result answer :: results) u

/-- Some errands were performed, of those that come first. -/
def Underway (s : Store) (errands : List Errand) (u : Store) : Prop :=
  ∃ first results, first <+: errands ∧ Course s first results u

namespace Course

variable {s s' t t' u v : Store} {errands others : List Errand}
  {results results' : List ActionResult} {e : Errand}

/-! ## One after the other -/

theorem append (h : Course s errands results t) (h' : Course t others results' u) :
    Course s (errands ++ others) (results ++ results') u := by
  induction h with
  | done s => exact h'
  | next hfirst hrest ih => exact .next hfirst (ih h')

theorem split (h : Course s (errands ++ others) results u) :
    ∃ first last t, results = first ++ last ∧ Course s errands first t ∧
      Course t others last u := by
  induction errands generalizing s results with
  | nil => exact ⟨[], results, s, rfl, .done s, h⟩
  | cons e rest ih =>
    cases h with
    | next hfirst hrest =>
      obtain ⟨first, last, t, rfl, hfirst', hlast⟩ := ih hrest
      exact ⟨_ :: first, last, t, rfl, .next hfirst hfirst', hlast⟩

/-! ## What errands keep, courses keep -/

/-- What an errand that is performed preserves, a course preserves. -/
theorem induction_on_errands {P : Store → Prop} (h : Course s errands results t) (hs : s.Regular)
    (hP : P s) (hmade : ∀ u v (e : Errand), u.Regular → e ∈ errands → P u → e.Made u v → P v) :
    t.Regular ∧ P t := by
  induction h with
  | done s => exact ⟨hs, hP⟩
  | next hfirst hrest ih =>
    have hothers := fun u v (e : Errand) hu he => hmade u v e hu (List.mem_cons_of_mem _ he)
    cases hfirst with
    | again => exact ih hs hP hothers
    | refused => exact ih hs hP hothers
    | anew hvalid hnew hpossible h =>
      exact ih (h.regular hs) (hmade _ _ _ hs List.mem_cons_self hP h) hothers

theorem regular (h : Course s errands results t) (hs : s.Regular) : t.Regular :=
  (h.induction_on_errands (P := fun _ => True) hs trivial fun _ _ _ _ _ _ _ => trivial).1

theorem sameProgress (h : Course s errands results t) (hs : s.Regular) : s.SameProgress t :=
  (h.induction_on_errands hs (Store.SameProgress.refl s) fun _ _ _ hu _ hsame hmade =>
    hsame.trans (hmade.sameProgress hu)).2

theorem proceeds (h : Course s errands results t) (hs : s.Regular) : s.Proceeds t :=
  (h.induction_on_errands hs (Rely.engine.refl s) fun _ _ _ hu _ hproceeds hmade =>
    Rely.engine.trans hproceeds (hmade.proceeds hu)).2

/-- What is settled stays settled. -/
theorem stillSettled (h : Course s errands results t) (hs : s.Regular) (hsettled : e.Settled s) :
    e.Settled t :=
  (h.induction_on_errands hs hsettled fun _ _ _ hu _ hsettled hmade => hsettled.made hmade hu).2

/-- When all has gone well, all is settled. -/
theorem settled (h : Course s errands results t) (hs : s.Regular)
    (hfine : ∀ r ∈ results, r.IsFine) : ∀ e ∈ errands, e.Valid ∧ e.Settled t := by
  induction h with
  | done s => exact nofun
  | next hfirst hrest ih =>
    obtain ⟨effect, rfl⟩ := Errand.isFine_result.1 (hfine _ List.mem_cons_self)
    intro e he
    rcases List.mem_cons.1 he with rfl | he
    · obtain ⟨hvalid, hsettled⟩ := hfirst.settled hs
      exact ⟨hvalid, hrest.stillSettled (hfirst.regular hs) hsettled⟩
    · exact ih (hfirst.regular hs) (fun r hr => hfine r (List.mem_cons_of_mem _ hr)) e he

/-- When all is settled, nothing changes. -/
theorem of_settled (h : Course s errands results t)
    (hsettled : ∀ e ∈ errands, e.Valid ∧ e.Settled s) : t = s ∧ ∀ r ∈ results, r.IsFine := by
  induction h with
  | done s => exact ⟨rfl, nofun⟩
  | next hfirst hrest ih =>
    obtain ⟨hvalid, hfirst'⟩ := hsettled _ List.mem_cons_self
    obtain ⟨rfl, rfl⟩ := hfirst.of_settled hvalid hfirst'
    obtain ⟨rfl, hfine⟩ := ih fun e he => hsettled e (List.mem_cons_of_mem _ he)
    refine ⟨rfl, fun r hr => ?_⟩
    rcases List.mem_cons.1 hr with rfl | hr
    · exact Errand.isFine_result.2 ⟨_, rfl⟩
    · exact hfine r hr

/-- **What goes well in one of two stores that are alike goes as well in the other.** -/
theorem alike (h : Course s errands results t) (h' : Course s' errands results' t')
    (hfine : ∀ r ∈ results, r.IsFine) (halike : s.Alike s') (hs : s.Regular) (hs' : s'.Regular) :
    results' = results ∧ t.Alike t' := by
  induction h generalizing s' results' with
  | done s =>
    cases h'
    exact ⟨rfl, halike⟩
  | next hfirst hrest ih =>
    cases h' with
    | next hfirst' hrest' =>
      obtain ⟨effect, rfl⟩ := Errand.isFine_result.1 (hfine _ List.mem_cons_self)
      obtain ⟨rfl, halike⟩ := hfirst.alike hfirst' halike hs hs'
      obtain ⟨rfl, halike⟩ := ih hrest' (fun r hr => hfine r (List.mem_cons_of_mem _ hr)) halike
        (hfirst.regular hs) (hfirst'.regular hs')
      exact ⟨rfl, halike⟩

/-- **What was cut short is repaired by starting over.** -/
theorem repaired (h : Course s errands results t) (hfine : ∀ r ∈ results, r.IsFine)
    (halike : s.Alike s') (hs : s.Regular) (hs' : s'.Regular) (hcut : Underway s' errands u)
    (hagain : Course u errands results' v) :
    t.Alike v ∧ ∀ results w, Course v errands results w → w = v := by
  obtain ⟨first, cut, ⟨last, rfl⟩, hcut⟩ := hcut
  have hu := hcut.regular hs'
  -- The whole course, split where the other one was cut short.
  obtain ⟨done, left, w, rfl, hdone, hleft⟩ := h.split
  have hfineDone : ∀ r ∈ done, r.IsFine := fun r hr => hfine r (List.mem_append_left _ hr)
  have hfineLeft : ∀ r ∈ left, r.IsFine := fun r hr => hfine r (List.mem_append_right _ hr)
  obtain ⟨rfl, halike⟩ := hdone.alike hcut hfineDone halike hs hs'
  have hsettled := hcut.settled hs' hfineDone
  -- The new course does nothing up to there, and then what the whole course did.
  obtain ⟨again, rest, u', rfl, hskip, hrest⟩ := hagain.split
  obtain ⟨rfl, hfineAgain⟩ := hskip.of_settled hsettled
  obtain ⟨rfl, halike⟩ := hleft.alike hrest hfineLeft halike (hdone.regular hs) hu
  refine ⟨halike, fun _ _ hw => (hw.of_settled ?_).1⟩
  intro e he
  rcases List.mem_append.1 he with he | he
  · exact ⟨(hsettled e he).1, hrest.stillSettled hu (hsettled e he).2⟩
  · exact hrest.settled hu hfineLeft e he

end Course

/-! ## Underway -/

namespace Underway

variable {s t u : Store} {errands others : List Errand} {results : List ActionResult} {e : Errand}

theorem refl (s : Store) (errands : List Errand) : Underway s errands s :=
  ⟨[], [], List.nil_prefix, .done s⟩

/-- After the first errands a client is underway with the others. -/
theorem after (h : Underway t others u) (hfirst : Course s errands results t) :
    Underway s (errands ++ others) u := by
  obtain ⟨first, cut, hprefix, hcut⟩ := h
  exact ⟨errands ++ first, results ++ cut, (List.prefix_append_right_inj errands).2 hprefix,
    hfirst.append hcut⟩

/-- Further errands may follow. -/
theorem before (h : Underway s errands u) (others : List Errand) :
    Underway s (errands ++ others) u := by
  obtain ⟨first, cut, hprefix, hcut⟩ := h
  exact ⟨first, cut, hprefix.trans (List.prefix_append errands others), hcut⟩

end Underway

/-! ## Batches -/

/-- The errands that the actions of a batch are, from a position of a scope on. -/
def Batch.errands (b : Batch) (scope : Scope) (position : Nat) (actions : List Action) :
    List Errand :=
  (actions.zipIdx position).map fun (a, position) =>
    ⟨b.ritual, b.subject, b.trigger, scope.key position, a⟩

/-- **A batch that runs alone performs its errands.** -/
theorem Batch.keeps_runFrom {γ : Type} {k : Contract γ} {g : γ} {policy : RetryPolicy} {b : Batch}
    {scope : Scope} {position : Nat} {actions : List Action} {s : Store}
    (hscope : b.scope = some scope) (hk : k.Alone g) (hs : s.Regular)
    (hgives : ∀ u v, Underway s (b.errands scope position actions) v → k.gives g u g v) :
    (b.runFrom policy position actions).Keeps k (fun results g' t => g' = g ∧
      Course s (b.errands scope position actions) results t) g s := by
  obtain ⟨ritual, subject, trigger, _⟩ := b
  obtain rfl := hscope
  induction actions generalizing position s with
  | nil => exact ⟨rfl, .done s⟩
  | cons a rest ih =>
    let e : Errand := ⟨ritual, subject, trigger, scope.key position, a⟩
    have hfirst : (a.execute policy ritual subject (some e.key)).program.Keeps k
        (fun answer g' t => g' = g ∧ e.Performs s answer t) g s :=
      e.keeps_execute hk hs fun answer t hperforms =>
        hgives s t ⟨[e], _, (List.prefix_cons_inj e).2 List.nil_prefix, .next hperforms (.done t)⟩
    refine Program.Keeps.bind hfirst ?_
    rintro answer g t ⟨rfl, hperforms⟩
    have hothers := ih (s := t) (hperforms.regular hs) (by
      intro u v hunder
      exact hgives u v (hunder.after (.next hperforms (.done t))))
    refine Program.Keeps.bind hothers ?_
    rintro results g t' ⟨rfl, hcourse⟩
    exact ⟨rfl, .next hperforms hcourse⟩

theorem Batch.keeps_run {γ : Type} {k : Contract γ} {g : γ} {policy : RetryPolicy} {b : Batch}
    {scope : Scope} {actions : List Action} {s : Store} (hscope : b.scope = some scope)
    (hk : k.Alone g) (hs : s.Regular)
    (hgives : ∀ u v, Underway s (b.errands scope 0 actions) v → k.gives g u g v) :
    (b.run policy actions).Keeps k (fun log g' t => g' = g ∧
      Course s (b.errands scope 0 actions) log.results t) g s := by
  refine Program.Keeps.bind (b.keeps_runFrom hscope hk hs hgives) ?_
  rintro results g t ⟨rfl, hcourse⟩
  intro t' now hmoves hnow
  obtain rfl := hk.still hmoves
  exact ⟨rfl, hcourse⟩

end RitualLedger
