import RitualLedger.Proofs.Engine.Regular

/-!
# Clients that are alone

Where nobody else commits and the store refuses nothing, a transaction is decided by its first
attempt: it decides on the store as it is, and if its writes can be applied they are
(`Operation.Keeps.transact_alone`). Some clients are alone from the beginning. Others are alone in a
later phase only, because all others have lost by then; so the rule is about one phase of a
contract.

`Contract.alone` is the contract of a client that is alone from the beginning. It is kept, whatever
the client does, by stores that the client can reach; so it tells what is stored when the client is
cut short (`Program.Keeps.amid_served`).
-/

namespace RitualLedger

/-- A commit on the snapshot of the store meets no stale stamp. -/
theorem Store.commit_atOnce {s : Store} {keys : List DocKey} {ws : List Write} :
    s.commit (Snapshot.atOnce s keys).stamps ws = s.apply ws := by
  have hfresh : (Snapshot.atOnce s keys).refresh s = Snapshot.atOnce s keys :=
    (Snapshot.extendFrom_eq_refresh keys rfl).1
  have hcurrent : s.staleStamp? (Snapshot.atOnce s keys).stamps = none := by
    rw [← hfresh]
    refine List.find?_eq_none.2 ?_
    intro stamp hstamp
    obtain ⟨d, hd, rfl⟩ := List.mem_map.1 hstamp
    obtain ⟨d₀, -, rfl⟩ := List.mem_map.1 hd
    simp [version?]
  rw [commit, hcurrent]

/-! ## Transactions -/

/-- In a phase nobody else commits anything, and the store refuses nothing. -/
structure Contract.Alone {γ : Type} (k : Contract γ) (g : γ) : Prop where
  still : ∀ {s t}, k.moves g s t → t = s
  steady : ∀ e, ¬ k.refuses e

/-- **The rule for transactions of a client that is alone.** The decision on the store as it is
fails, or its writes are applied. -/
theorem Operation.Keeps.transact_alone {γ α : Type} {k : Contract γ} {g : γ} {s : Store}
    {policy : RetryPolicy} {keys : List DocKey} {decision : Snapshot → Except EngineError (Plan α)}
    {fails : EngineError → γ → Store → Prop} {post : α → γ → Store → Prop} (hk : k.Alone g)
    (hfail : ∀ e, decision (Snapshot.atOnce s keys) = .error e → fails e g s)
    (hok : ∀ plan, decision (Snapshot.atOnce s keys) = .ok plan → ∃ t g',
      s.apply plan.writes = .ok t ∧ (if plan.writes = [] then g' = g else k.gives g s g' t) ∧
        post plan.result g' t) :
    Keeps k fails post (RitualLedger.transact policy keys decision) g s := by
  have hsnapshot : ∀ {snapshot : Snapshot} {t : Store}, k.moves g s t →
      snapshot.Gathered (Program.Keeps.Between k g s t) keys →
      t = s ∧ snapshot = Snapshot.atOnce s keys := by
    intro snapshot t hst hgathered
    exact ⟨hk.still hst, hgathered.eq_atOnce fun u hu => hk.still hu.1⟩
  rw [Keeps, program_transact]
  refine Program.Keeps.attempt ?_ ?_ ?_ ?_
  · intro snapshot t e hst hgathered hdecision
    obtain ⟨rfl, rfl⟩ := hsnapshot hst hgathered
    exact hfail e hdecision
  · intro snapshot t plan hst hgathered hdecision hwrites
    obtain ⟨rfl, rfl⟩ := hsnapshot hst hgathered
    obtain ⟨u, g', hu, hgives, hpost⟩ := hok plan hdecision
    rw [if_pos hwrites] at hgives
    rw [hwrites] at hu
    cases hu
    rw [← hgives]
    exact hpost
  · intro snapshot t plan u e hst hgathered hdecision htu he
    obtain ⟨rfl, rfl⟩ := hsnapshot hst hgathered
    obtain rfl := hk.still htu
    obtain ⟨v, -, hv, -⟩ := hok plan hdecision
    rcases he with hrefuses | hcommit
    · exact absurd hrefuses (hk.steady e)
    · rw [Store.commit_atOnce, hv] at hcommit
      cases hcommit
  · intro t plan u hst hcommits _
    obtain rfl := hk.still hst
    obtain ⟨v, g', hv, hgives, hpost⟩ := hok plan hcommits.decided
    cases hcommits.applied.symm.trans hv
    rw [if_neg hcommits.writes] at hgives
    exact ⟨g', hgives, hpost⟩

/-! ## Undisturbed settings -/

/-- The second source is the first one after some values were drawn. -/
structure Source.LeadsTo {α : Type} (s t : Source α) : Prop where
  value : t.value = s.value
  drawn : s.drawn ≤ t.drawn

theorem Source.LeadsTo.refl {α : Type} (s : Source α) : s.LeadsTo s := ⟨rfl, le_refl _⟩

theorem Source.leadsTo_draw {α : Type} (s : Source α) : s.LeadsTo s.draw.2 :=
  ⟨rfl, Nat.le_succ _⟩

theorem Source.LeadsTo.trans {α : Type} {s t u : Source α} (h : s.LeadsTo t)
    (h' : t.LeadsTo u) : s.LeadsTo u :=
  ⟨h'.value.trans h.value, h.drawn.trans h'.drawn⟩

/-- What a program leaves behind in a setting where the others are still. -/
structure Setting.Onwards (s t : Setting) : Prop where
  still : t.intrusions = []
  clock : s.clock.LeadsTo t.clock
  ids : s.ids.LeadsTo t.ids

/-- A program only draws from the sources. -/
theorem Program.onwards_run {α : Type} (p : Program α) {s : Setting} (h : s.intrusions = []) :
    s.Onwards (p.run s).2 := by
  induction p generalizing s with
  | finish result => exact ⟨h, .refl _, .refl _⟩
  | read key next ih => exact ih _ h
  | query q next ih => exact ih _ h
  | openPrompt prompt next ih =>
    obtain ⟨hstill, hclock, hids⟩ := ih (s := s.openPrompt prompt) h
    exact ⟨hstill, s.clock.leadsTo_draw.trans hclock, hids⟩
  | takePrompt subject next ih =>
    obtain ⟨hstill, hclock, hids⟩ := ih (s.takePrompt subject).1 (s := (s.takePrompt subject).2) h
    exact ⟨hstill, s.clock.leadsTo_draw.trans hclock, hids⟩
  | now next ih =>
    obtain ⟨hstill, hclock, hids⟩ := ih s.clock.draw.1 (s := { s with clock := s.clock.draw.2 }) h
    exact ⟨hstill, s.clock.leadsTo_draw.trans hclock, hids⟩
  | freshId next ih =>
    obtain ⟨hstill, hclock, hids⟩ := ih s.ids.draw.1 (s := { s with ids := s.ids.draw.2 }) h
    exact ⟨hstill, hclock, s.ids.leadsTo_draw.trans hids⟩
  | append collection body next ih =>
    obtain ⟨hstill, hclock, hids⟩ :=
      ih s.ids.draw.1 (s := (s.append collection body).2) h
    exact ⟨hstill, hclock, s.ids.leadsTo_draw.trans hids⟩
  | commit stamps ws next ih =>
    have hintrude : s.intrude = (.ok (), s) := by rw [Setting.intrude, h]
    simp only [Program.run, Setting.commit, hintrude]
    cases s.store.commit stamps ws with
    | error e => exact ih _ h
    | ok t =>
      obtain ⟨hstill, hclock, hids⟩ := ih (.ok ()) (s := { s with store := t }) h
      exact ⟨hstill, hclock, hids⟩

theorem Setting.Undisturbed.run {α : Type} {s : Setting} (h : s.Undisturbed) (p : Program α) :
    (p.run s).2.Undisturbed := by
  obtain ⟨hstill, hclock, -⟩ := p.onwards_run h.intrusions
  refine ⟨hstill, fun n => ?_⟩
  rw [hclock.value]
  exact h.clock n

/-! ## Alone from the beginning -/

/-- Nobody else is there, and all that the client leaves in the store is of some kind. -/
def Contract.alone (reached : Store → Prop) : Contract Unit where
  rely _ := .nobody
  refuses _ := False
  known _ _ := True
  gives _ _ _ t := reached t

theorem Contract.alone_alone (reached : Store → Prop) : (Contract.alone reached).Alone () :=
  ⟨id, fun _ => id⟩

/-- A client that is alone and is cut short leaves the store as it was or a store that it can
reach. -/
theorem Program.Keeps.amid_served {α : Type} {reached : Store → Prop}
    {post : α → Unit → Store → Prop} {p : Program α} {scene : Scene} {chances : List Chance}
    (h : p.Keeps (.alone reached) post () scene.store)
    (hchances : ∀ chance ∈ chances, chance.refusal = none ∧ chance.now.IsNameable) :
    (p.amid scene (chances.map .served)).2.store = scene.store ∨
      reached (p.amid scene (chances.map .served)).2.store := by
  induction chances generalizing p scene with
  | nil => exact .inl rfl
  | cons chance rest ih =>
    obtain ⟨hrefusal, hnow⟩ := hchances chance List.mem_cons_self
    have hrefuses : ∀ e ∈ chance.refusal, (Contract.alone reached).refuses e := by
      rw [hrefusal]
      exact nofun
    obtain ⟨g', hnext, hgives⟩ := h.serve hnow hrefuses trivial
    rw [List.map_cons, Program.amid_served]
    rcases ih hnext fun c hc => hchances c (List.mem_cons_of_mem _ hc) with hsame | hreached
    · rw [hsame]
      exact hgives.imp (·.1) id
    · exact .inr hreached

end RitualLedger
