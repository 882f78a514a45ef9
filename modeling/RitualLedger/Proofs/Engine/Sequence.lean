import RitualLedger.Proofs.Engine.Alone
import RitualLedger.Proofs.Engine.Marking

/-!
# One call after another

A client that is alone makes one call after another. It can go on as long as the setting is ready
(`Setting.Ready`): the store is regular, and the ids to come are random identifiers that are not in
use. A call leaves a ready setting behind, and if it fails, the store as it was
(`Operation.leaves`).
-/

namespace RitualLedger

/-! ## Settings in which a client can go on -/

/-- The values to come, until so many were drawn, are all different and have a property. -/
structure Source.Draws {α : Type} (s : Source α) (last : Nat) (p : α → Prop) : Prop where
  distinct : ∀ m n, s.drawn ≤ m → m < n → n < last → s.value m ≠ s.value n
  each : ∀ n, s.drawn ≤ n → n < last → p (s.value n)

namespace Setting

/-- A setting in which a client that is alone can go on until so many ids were drawn. -/
structure Ready (s : Setting) (last : Nat) : Prop where
  undisturbed : s.Undisturbed
  regular : s.store.Regular
  ids : s.ids.Draws last fun id => Text.IsUuid id ∧ s.store.Unused id

/-- The ids to come are not among some others. -/
def Avoids (s : Setting) (last : Nat) (own : List String) : Prop :=
  ∀ n, s.ids.drawn ≤ n → n < last → s.ids.value n ∉ own

variable {s : Setting} {last : Nat} {own : List String} {ch : Change} {t : Store}

theorem Ready.tick (h : s.Ready last) : Ready { s with clock := s.clock.draw.2 } last :=
  ⟨⟨h.undisturbed.intrusions, h.undisturbed.clock⟩, h.regular, h.ids⟩

theorem Ready.draw (h : s.Ready last) : Ready { s with ids := s.ids.draw.2 } last where
  undisturbed := ⟨h.undisturbed.intrusions, h.undisturbed.clock⟩
  regular := h.regular
  ids := ⟨fun m n hm => h.ids.distinct m n (Nat.le_of_succ_le hm),
    fun n hn => h.ids.each n (Nat.le_of_succ_le hn)⟩

/-- The id that is drawn next is fresh. -/
theorem Ready.fresh (h : s.Ready last) (hown : s.Avoids last own) (hlast : s.ids.drawn < last) :
    View.Fresh ⟨s.store, own, h.regular.wellTyped⟩ s.ids.draw.1 :=
  ⟨(h.ids.each _ (le_refl _) hlast).1, hown _ (le_refl _) hlast,
    (h.ids.each _ (le_refl _) hlast).2⟩

/-- An id that was drawn is not drawn again. -/
theorem Ready.avoids_draw (h : s.Ready last) (hown : s.Avoids last own) :
    Avoids { s with ids := s.ids.draw.2 } last (s.ids.draw.1 :: own) := by
  intro n hn hlast hmem
  rcases List.mem_cons.1 hmem with heq | hmem
  · exact h.ids.distinct _ n (le_refl _) hn hlast heq.symm
  · exact hown n (Nat.le_of_succ_le hn) hlast hmem

/-- A change with other ids than those to come leaves a setting in which one can go on. -/
theorem Ready.change (h : s.Ready last) (hown : s.Avoids last own) (hids : ∀ id ∈ ch.ids, id ∈ own)
    (hmakes : ch.Makes s.store t) : Ready { s with store := t } last where
  undisturbed := ⟨h.undisturbed.intrusions, h.undisturbed.clock⟩
  regular := hmakes.regular h.regular
  ids := by
    refine ⟨h.ids.distinct, fun n hn hlast => ?_⟩
    obtain ⟨huuid, hunused⟩ := h.ids.each n hn hlast
    have hevolves : Evolves [s.ids.value n] s.store t := by
      refine hmakes.evolves h.regular.wellTyped fun id hid hused => ?_
      obtain rfl := List.mem_singleton.1 hid
      exact hown n hn hlast (hids _ hused)
    exact ⟨huuid, hevolves.spared _ List.mem_cons_self hunused⟩

end Setting

/-! ## What a client leaves behind -/

/-- What a client that is alone leaves behind, when a mark tells whether it has written: it can go
on, and it has left the store as it was or made a change that it may make. -/
structure Setting.Leaves {α : Type} (may : Change → Prop) (post : α → Bool → Store → Prop)
    (last : Nat) (g : Bool) (s : Setting) (a : α) (t : Setting) : Prop where
  ready : t.Ready last
  le : s.store ≤ t.store
  marked : ∃ g', post a g' t.store ∧ (g' = false → g = false ∧ t.store = s.store)
  changed : t.store = s.store ∨ ∃ ch u v, may ch ∧ ch.Makes u v ∧ v ≤ t.store

namespace Setting.Leaves

variable {α : Type} {may : Change → Prop} {post : α → Bool → Store → Prop} {last : Nat}
  {g g' : Bool} {s s' t : Setting} {a : α}

theorem still (h : Leaves may post last g s' a t) (hstore : s'.store = s.store) :
    Leaves may post last g s a t :=
  ⟨h.ready, hstore ▸ h.le, hstore ▸ h.marked, hstore ▸ h.changed⟩

theorem wrote {ch : Change} (h : Leaves may post last true s' a t) (hmay : may ch)
    (hmakes : ch.Makes s.store s'.store) : Leaves may post last g s a t := by
  obtain ⟨g', hpost, hmark⟩ := h.marked
  exact ⟨h.ready, hmakes.le.trans h.le, ⟨g', hpost, fun hg => absurd (hmark hg).1 nofun⟩,
    .inr ⟨ch, _, _, hmay, hmakes, h.le⟩⟩

end Setting.Leaves

/-- **What a client leaves behind** that is alone and runs to its end. -/
theorem Program.leaves {α : Type} {may : Change → Prop} {seen : α → View → Prop}
    {post : α → Bool → Store → Prop} {last : Nat} {g : Bool} {p : Program α} {s : Setting}
    {own : List String} (h : s.Ready last) (hown : s.Avoids last own)
    (hensures : p.Ensures may seen ⟨s.store, own, h.regular.wellTyped⟩)
    (hkeeps : p.Keeps (.tracing .engine) post g s.store)
    (hlast : (p.run s).2.ids.drawn ≤ last) :
    Setting.Leaves may post last g s (p.run s).1 (p.run s).2 := by
  -- Along the program; whenever an id is drawn, the end tells that it is one of those to come.
  induction p generalizing s own g with
  | finish result => exact ⟨h, le_refl _, ⟨g, hkeeps, fun hg => ⟨hg, rfl⟩⟩, .inl rfl⟩
  | read key next ih =>
    exact ih _ h hown (hensures _ (.refl _)) (hkeeps _ (Contract.moves_refl _ _ _)) hlast
  | query q next ih =>
    exact ih _ h hown (hensures _ (.refl _)) (hkeeps _ (Contract.moves_refl _ _ _)) hlast
  | openPrompt prompt next ih =>
    exact (ih (s := s.openPrompt prompt) ⟨⟨h.undisturbed.1, h.undisturbed.2⟩, h.regular, h.ids⟩
      hown (hensures _ (.refl _)) (hkeeps _ (Contract.moves_refl _ _ _)) hlast).still rfl
  | takePrompt subject next ih =>
    exact (ih _ (s := (s.takePrompt subject).2) ⟨⟨h.undisturbed.1, h.undisturbed.2⟩, h.regular,
      h.ids⟩ hown (hensures _ _ (.refl _)) (hkeeps _ _ (Contract.moves_refl _ _ _)) hlast).still rfl
  | now next ih =>
    have hnow : Fits s.clock.draw.1 := h.undisturbed.clock s.clock.drawn
    exact (ih _ h.tick hown (hensures _ _ (.refl _) hnow)
      (hkeeps _ _ (Contract.moves_refl _ _ _) hnow) hlast).still rfl
  | freshId next ih =>
    have hdrawn : s.ids.drawn < last := ((next s.ids.draw.1).onwards_run
      (s := { s with ids := s.ids.draw.2 }) h.undisturbed.intrusions).ids.drawn.trans hlast
    exact (ih _ h.draw (h.avoids_draw hown) (hensures _ _ (.refl _) (h.fresh hown hdrawn))
      (hkeeps _ _ (Contract.moves_refl _ _ _)) hlast).still rfl
  | append collection body next ih =>
    have hdrawn : s.ids.drawn < last := ((next s.ids.draw.1).onwards_run
      (s := (s.append collection body).2) h.undisturbed.intrusions).ids.drawn.trans hlast
    obtain ⟨⟨ch, hmay, hids, hmakes⟩, hnext⟩ :=
      hensures _ _ (.refl _) (h.fresh hown hdrawn)
    obtain ⟨g', ⟨rfl, -⟩, hkeeps'⟩ := hkeeps _ s.ids.draw.1 (Contract.moves_refl _ _ _)
      (hmakes.proceeds h.regular.wellTyped)
    exact (ih _ (h.draw.change (h.avoids_draw hown) hids hmakes) (h.avoids_draw hown) hnext hkeeps'
      hlast).wrote hmay hmakes
  | commit stamps ws next ih =>
    obtain ⟨herror, hok⟩ := hensures _ (.refl _)
    obtain ⟨herror', hok'⟩ := hkeeps _ (Contract.moves_refl _ _ _)
    have hintrude : s.intrude = (.ok (), s) := by rw [Setting.intrude, h.undisturbed.intrusions]
    simp only [Program.run, Setting.commit, hintrude] at hlast ⊢
    cases hcommit : s.store.commit stamps ws with
    | error e =>
      rw [hcommit] at hlast
      exact ih _ h hown (herror e) (herror' e (.inl trivial)) hlast
    | ok t =>
      rw [hcommit] at hlast
      obtain ⟨⟨ch, hmay, hids, hmakes⟩, hnext⟩ := hok t hcommit
      obtain ⟨g', ⟨rfl, -⟩, hkeeps'⟩ := hok' t hcommit (hmakes.proceeds h.regular.wellTyped)
      exact (ih _ (h.change hown hids hmakes) hown hnext hkeeps' hlast).wrote hmay hmakes

/-- **Operations one after another.** An operation that writes nothing when it fails leaves a
setting in which one can go on, and if it fails, the store as it was. -/
theorem Operation.leaves {α : Type} {may : Change → Prop} {seen : α → View → Prop}
    {o : Operation α} {s : Setting} {last : Nat} (h : s.Ready last)
    (hensures : o.Ensures may seen ⟨s.store, [], h.regular.wellTyped⟩)
    (htraceless : o.Traceless .engine s.store) (hlast : (o.run s).2.ids.drawn ≤ last) :
    (o.run s).2.Ready last ∧
      (∀ e, (o.run s).1 = .error e → (o.run s).2.store = s.store) ∧
      ((o.run s).2.store = s.store ∨
        ∃ ch u v, may ch ∧ ch.Makes u v ∧ v ≤ (o.run s).2.store) := by
  have hleaves := Program.leaves h (fun _ _ _ => List.not_mem_nil) hensures htraceless hlast
  refine ⟨hleaves.ready, fun e he => ?_, hleaves.changed⟩
  obtain ⟨g, hpost, hmark⟩ := hleaves.marked
  change either _ _ (o.run s).1 g (o.run s).2.store at hpost
  rw [he] at hpost
  exact (hmark hpost).2

end RitualLedger
