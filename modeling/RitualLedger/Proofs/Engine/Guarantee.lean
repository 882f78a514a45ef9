import RitualLedger.Proofs.Engine.Change
import RitualLedger.Proofs.Engine.Loop

/-!
# What a client guarantees

A client of the engine relies on others, who do no more to its view than `View.LeadsTo` says, and it
guarantees that each of its own commits makes a change that it may make. `Program.Ensures` says so
of a program from a view on, together with what holds when it has finished. It is defined along the
program: before each request the others may have moved the view, and whatever the answer, the rest
of the program must ensure the same.

The rules follow the way programs are put together. The rule for transactions is the point: a
decision has to be justified on snapshots of single stores only, because no other snapshot is ever
committed.
-/

namespace RitualLedger

/-! ## Views -/

/-- What a client stands on: a typed store, and the ids that it has drawn for itself. -/
@[ext] structure View where
  store : Store
  own : List String
  wellTyped : store.WellTyped

namespace View

/-- Others may lead from one view to another. -/
structure LeadsTo (v v' : View) : Prop where
  own : v'.own = v.own
  evolves : Evolves v.own v.store v'.store

theorem LeadsTo.refl (v : View) : v.LeadsTo v := ⟨rfl, .refl _ _⟩

theorem LeadsTo.trans {v v' v'' : View} (h : v.LeadsTo v') (h' : v'.LeadsTo v'') :
    v.LeadsTo v'' :=
  ⟨h'.own.trans h.own, h.evolves.trans (h.own ▸ h'.evolves)⟩

/-- An id that may be drawn. -/
structure Fresh (v : View) (id : String) : Prop where
  uuid : Text.IsUuid id
  notOwn : id ∉ v.own
  unused : v.store.Unused id

/-- The view after an id was drawn. -/
def draw (v : View) (id : String) : View := { v with own := id :: v.own }

/-- A client that may make some changes has made one, with ids of its own. -/
def Changed (may : Change → Prop) (v : View) (t : Store) : Prop :=
  ∃ ch, may ch ∧ (∀ id ∈ ch.ids, id ∈ v.own) ∧ ch.Makes v.store t

theorem Changed.wellTyped {may : Change → Prop} {v : View} {t : Store} (h : v.Changed may t) :
    t.WellTyped := by
  obtain ⟨ch, -, -, hmakes⟩ := h
  exact hmakes.wellTyped v.wellTyped

/-- The view after a change. -/
def commit {may : Change → Prop} (v : View) {t : Store} (h : v.Changed may t) : View :=
  ⟨t, v.own, h.wellTyped⟩

theorem Changed.evolves {may : Change → Prop} {v : View} {t : Store} (h : v.Changed may t) :
    Evolves [] v.store t := by
  obtain ⟨ch, -, -, hmakes⟩ := h
  exact hmakes.evolves v.wellTyped nofun

end View

/-! ## Programs -/

namespace Program

variable {α β : Type} {may : Change → Prop}

/-- A program guarantees changes that it may make, and ends in views with a property. -/
def Ensures (may : Change → Prop) (post : α → View → Prop) : Program α → View → Prop
  | finish result, v => post result v
  | read key next, v => ∀ v', v.LeadsTo v' → Ensures may post (next (v'.store.read? key)) v'
  | commit stamps ws next, v => ∀ v', v.LeadsTo v' →
    (∀ e, Ensures may post (next (.error e)) v') ∧
      ∀ t, v'.store.commit stamps ws = .ok t →
        ∃ h : v'.Changed may t, Ensures may post (next (.ok ())) (v'.commit h)
  | append collection body next, v => ∀ v' id, v.LeadsTo v' → v'.Fresh id →
    ∃ h : (v'.draw id).Changed may (v'.store.put ⟨collection, id⟩ body),
      Ensures may post (next id) ((v'.draw id).commit h)
  | query q next, v => ∀ v', v.LeadsTo v' → Ensures may post (next (q.run v'.store)) v'
  | openPrompt _ next, v => ∀ v', v.LeadsTo v' → Ensures may post next v'
  | takePrompt _ next, v => ∀ v' prompt, v.LeadsTo v' → Ensures may post (next prompt) v'
  | now next, v => ∀ v' t, v.LeadsTo v' → Fits t → Ensures may post (next t) v'
  | freshId next, v => ∀ v' id, v.LeadsTo v' → v'.Fresh id →
    Ensures may post (next id) (v'.draw id)

/-- What a program ensures followed by what the next one ensures. -/
theorem Ensures.bind {mid : α → View → Prop} {post : β → View → Prop} {p : Program α}
    {f : α → Program β} {v : View} (h : p.Ensures may mid v)
    (hf : ∀ a v', mid a v' → (f a).Ensures may post v') : (p.bind f).Ensures may post v := by
  -- Along the first program: after every answer the rest of it is followed by the second.
  induction p generalizing v with
  | finish result => exact hf result v h
  | read key next ih => exact fun v' hv => ih _ (h v' hv)
  | query q next ih => exact fun v' hv => ih _ (h v' hv)
  | openPrompt prompt next ih => exact fun v' hv => ih (h v' hv)
  | takePrompt subject next ih => exact fun v' prompt hv => ih _ (h v' prompt hv)
  | now next ih => exact fun v' t hv ht => ih _ (h v' t hv ht)
  | freshId next ih => exact fun v' id hv hid => ih _ (h v' id hv hid)
  | append collection body next ih =>
    intro v' id hv hid
    obtain ⟨hchanged, hnext⟩ := h v' id hv hid
    exact ⟨hchanged, ih _ hnext⟩
  | commit stamps ws next ih =>
    intro v' hv
    obtain ⟨herror, hok⟩ := h v' hv
    refine ⟨fun e => ih _ (herror e), ?_⟩
    intro t hcommit
    obtain ⟨hchanged, hnext⟩ := hok t hcommit
    exact ⟨hchanged, ih _ hnext⟩

theorem Ensures.imp {post post' : α → View → Prop} {p : Program α} {v : View}
    (h : p.Ensures may post v) (hpost : ∀ a v', post a v' → post' a v') :
    p.Ensures may post' v := by
  rw [← p.bind_finish]
  exact h.bind hpost

/-- Where a program ends, the store has evolved from where it began. -/
theorem Ensures.later {post : α → View → Prop} {p : Program α} {v : View}
    (h : p.Ensures may post v) :
    p.Ensures may (fun a v' => post a v' ∧ Evolves [] v.store v'.store) v := by
  -- The property is carried along from an earlier view, from which the current one has evolved.
  suffices hfrom : ∀ s, Evolves [] s v.store →
      p.Ensures may (fun a v' => post a v' ∧ Evolves [] s v'.store) v from
    hfrom v.store (.refl _ _)
  have hothers : ∀ {s} {v v' : View}, Evolves [] s v.store → v.LeadsTo v' →
      Evolves [] s v'.store :=
    fun hs hv => hs.trans (hv.evolves.mono (List.nil_subset _))
  induction p generalizing v with
  | finish result => exact fun s hs => ⟨h, hs⟩
  | read key next ih => exact fun s hs v' hv => ih _ (h v' hv) s (hothers hs hv)
  | query q next ih => exact fun s hs v' hv => ih _ (h v' hv) s (hothers hs hv)
  | openPrompt prompt next ih => exact fun s hs v' hv => ih (h v' hv) s (hothers hs hv)
  | takePrompt subject next ih =>
    exact fun s hs v' prompt hv => ih _ (h v' prompt hv) s (hothers hs hv)
  | now next ih => exact fun s hs v' t hv ht => ih _ (h v' t hv ht) s (hothers hs hv)
  | freshId next ih =>
    intro s hs v' id hv hid
    have hpast : Evolves [] s v'.store := hothers hs hv
    exact ih _ (h v' id hv hid) s hpast
  | append collection body next ih =>
    intro s hs v' id hv hid
    obtain ⟨hchanged, hnext⟩ := h v' id hv hid
    have hpast : Evolves [] s v'.store := hothers hs hv
    exact ⟨hchanged, ih _ hnext s (hpast.trans hchanged.evolves)⟩
  | commit stamps ws next ih =>
    intro s hs v' hv
    obtain ⟨herror, hok⟩ := h v' hv
    refine ⟨fun e => ih _ (herror e) s (hothers hs hv), ?_⟩
    intro t hcommit
    obtain ⟨hchanged, hnext⟩ := hok t hcommit
    exact ⟨hchanged, ih _ hnext s ((hothers hs hv).trans hchanged.evolves)⟩

/-- What others do meanwhile does not matter. -/
theorem Ensures.leadsTo {post : α → View → Prop} {p : Program α} {v v' : View}
    (h : p.Ensures may post v) (hv : v.LeadsTo v')
    (hpost : ∀ a u u', post a u → u.LeadsTo u' → post a u') : p.Ensures may post v' := by
  cases p with
  | finish result => exact hpost result v v' h hv
  | read | query | openPrompt | commit => exact fun u hu => h u (hv.trans hu)
  | takePrompt | now | append | freshId => exact fun u x hu => h u x (hv.trans hu)

end Program

/-! ## Operations -/

namespace Operation

variable {α β : Type} {may : Change → Prop} {v : View}

/-- An operation guarantees changes that it may make, and its results have a property. -/
def Ensures (may : Change → Prop) (post : α → View → Prop) (o : Operation α) (v : View) : Prop :=
  o.program.Ensures may (fun r v' => ∀ a, r = .ok a → post a v') v

namespace Ensures

variable {post : α → View → Prop}

theorem pure {a : α} (h : post a v) : Ensures may post (pure a) v := by
  rintro b ⟨⟩
  exact h

theorem ofExcept {r : Except EngineError α} (h : ∀ a, r = .ok a → post a v) :
    Ensures may post (Operation.ofExcept r) v := h

/-- A check that refuses ends the operation. -/
theorem ofValidation {r : Except ValidationError Unit} :
    Ensures may (fun _ v' => r = .ok () ∧ v = v') (Operation.ofValidation r) v := by
  cases r with
  | error e =>
    rintro u ⟨⟩
  | ok u => exact fun _ _ => ⟨rfl, rfl⟩

theorem throw (e : EngineError) : Ensures may post (throw e) v := by
  rintro b ⟨⟩

theorem bind {mid : α → View → Prop} {post : β → View → Prop} {o : Operation α}
    {f : α → Operation β} (h : Ensures may mid o v)
    (hf : ∀ a v', mid a v' → Ensures may post (f a) v') : Ensures may post (o >>= f) v := by
  refine Program.Ensures.bind h ?_
  intro r v' hr
  cases r with
  | ok a => exact hf a v' (hr a rfl)
  | error e =>
    rintro b ⟨⟩

/-- Nothing need be known of a result for what follows. -/
theorem followed {post : β → View → Prop} {o : Operation α} {f : α → Operation β}
    (h : Ensures may (fun _ _ => True) o v) (hf : ∀ a v', Ensures may post (f a) v') :
    Ensures may post (o >>= f) v :=
  bind h fun a v' _ => hf a v'

/-- What is known of the results may be forgotten. -/
theorem anyhow {o : Operation α} (h : Ensures may post o v) :
    Ensures may (fun _ _ => True) o v :=
  Program.Ensures.imp h fun _ _ _ _ _ => trivial

/-- What follows an operation finds a store that has evolved. -/
theorem later {post : α → View → Prop} {o : Operation α} (h : Ensures may post o v) :
    Ensures may (fun a v' => post a v' ∧ Evolves [] v.store v'.store) o v :=
  (Program.Ensures.later h).imp fun _ _ hr a ha => ⟨hr.1 a ha, hr.2⟩

theorem lift {p : Program α} (h : p.Ensures may post v) :
    Ensures may post (liftM p : Operation α) v := by
  refine Program.Ensures.bind h ?_
  intro a v' ha
  rintro b ⟨⟩
  exact ha

theorem map {post : β → View → Prop} {o : Operation α} {f : α → β}
    (h : Ensures may (fun a => post (f a)) o v) : Ensures may post (f <$> o) v := by
  refine Program.Ensures.bind h ?_
  intro r v' hr
  cases r with
  | ok a =>
    rintro b ⟨⟩
    exact hr a rfl
  | error e =>
    rintro b ⟨⟩

/-- The clock shows times that a date can name. -/
theorem now : Ensures may (fun t v' => v.LeadsTo v' ∧ Fits t) (liftM Request.now : Operation _) v :=
  lift fun _ _ hv ht => ⟨hv, ht⟩

/-- A drawn id is fresh where it is drawn. -/
theorem freshId : Ensures may (fun id v' => ∃ u, v.LeadsTo u ∧ u.Fresh id ∧ v' = u.draw id)
    (liftM Request.freshId : Operation _) v :=
  lift fun u _ hu hfresh => ⟨u, hu, hfresh, rfl⟩

/-- A document that is read is one of the store at that moment. -/
theorem readDocument? {γ : Type} [Document γ] {key : DocKey} {post : Option γ → View → Prop}
    (h : ∀ v', v.LeadsTo v' → post (v'.store.get? γ key) v') :
    Ensures may post (RitualLedger.readDocument? key) v := by
  have hread : Ensures may (fun doc v' => v.LeadsTo v' ∧ doc = v'.store.read? key)
      (liftM (Request.read key) : Operation _) v := lift fun v' hv => ⟨hv, rfl⟩
  refine bind hread ?_
  rintro doc v' ⟨hv, hdoc⟩
  have hpost := h v' hv
  cases doc with
  | none =>
    rw [Store.get?_of_absent hdoc.symm] at hpost
    exact pure hpost
  | some doc =>
    rw [Store.get?_of_read? hdoc.symm] at hpost
    cases hdecode : decode? (α := γ) doc.body with
    | none =>
      simp only [hdecode]
      exact throw _
    | some x =>
      rw [hdecode] at hpost
      simp only [hdecode]
      exact pure hpost

/-- A query changes nothing. -/
theorem queryDocuments {γ : Type} [Document γ] {q : Query} :
    Ensures may (fun _ _ => True) (RitualLedger.queryDocuments (α := γ) q) v := by
  have hquery : Ensures may (fun _ _ => True) (Operation.ofStore (Request.query q)) v :=
    fun v' hv r hr => trivial
  exact hquery.followed fun _ _ => ofExcept fun _ _ => trivial

/-- **The rule for transactions.** A decision has to be justified where it is committed, on the
snapshot of the store at that moment; a plan without writes is justified by any snapshot. -/
theorem transact {policy : RetryPolicy} {keys : List DocKey}
    {decision : Snapshot → Except EngineError (Plan α)}
    (hidle : ∀ snapshot plan v', decision snapshot = .ok plan → plan.writes = [] →
      v.LeadsTo v' → post plan.result v')
    (hcommit : ∀ v' plan t, v.LeadsTo v' → Commits keys decision v'.store plan t →
      ∃ h : v'.Changed may t, post plan.result (v'.commit h)) :
    Ensures may post (RitualLedger.transact policy keys decision) v := by
  suffices hloop : ∀ p v', InLoop keys decision v'.store p → v.LeadsTo v' →
      p.Ensures may (fun r u => ∀ a, r = .ok a → post a u) v' from
    hloop _ v (inLoop_transact policy) (.refl v)
  -- By induction on the program, which is at one of the four points of the loop.
  intro p
  induction p with
  | finish result =>
    intro v' h hv
    cases h with
    | refused e =>
      rintro b ⟨⟩
    | idle hdecision hwrites =>
      rintro b ⟨⟩
      exact hidle _ _ v' hdecision hwrites hv
  | read key next ih =>
    intro v' h hv u hu
    cases h with
    | reading hseen hkeys hnew =>
      have hseen := hseen.mono hu.evolves.le
      exact ih _ u (inLoop_extend _ _ hseen.snoc (hkeys.snoc hnew)) (hv.trans hu)
  | commit stamps ws next ih =>
    intro v' h hv u hu
    cases h with
    | committing hseen hkeys hdecision hwrites =>
      refine ⟨fun e => ih _ u (inLoop_settle_error _ _ _ e) (hv.trans hu), ?_⟩
      intro t ht
      have hcommits := Commits.of_commit (hseen.mono hu.evolves.le) hkeys hdecision hwrites ht
      obtain ⟨hchanged, hpost⟩ := hcommit u _ t (hv.trans hu) hcommits
      refine ⟨hchanged, ?_⟩
      rintro b ⟨⟩
      exact hpost
  | append | query | openPrompt | takePrompt | now | freshId =>
    intro v' h
    cases h

end Ensures

end Operation

end RitualLedger
