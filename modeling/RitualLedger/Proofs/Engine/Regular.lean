import RitualLedger.Proofs.Engine.Contract
import RitualLedger.Proofs.Ledger.Reconstruction
import RitualLedger.Proofs.Ritual.Mirror

/-!
# Regular stores

What holds of every store that the engine can reach, taken together: it is typed, its keys are
distinct, progress is mirrored, balances are sums of the log, and the subject of a ritual has an
account. A change of the engine leads from a regular store to a regular one and takes nothing back;
`Rely.engine` is the reliance on just this, whoever makes the changes.
-/

namespace RitualLedger

/-- What holds of every store that the engine can reach. -/
structure Store.Regular (s : Store) : Prop where
  wellTyped : s.WellTyped
  distinctKeys : s.HasDistinctKeys
  mirrored : Mirrored s
  balanced : Ledger.Balanced s
  /-- Subjects have accounts. -/
  housed : ∀ id r, s.get? Ritual (Ritual.key id) = some r →
    r.subjectId ≠ "" ∧ s.read? (Ledger.accountKey r.subjectId) ≠ none

theorem Store.regular_empty : Store.empty.Regular where
  wellTyped := wellTyped_empty
  distinctKeys := hasDistinctKeys_empty
  mirrored := mirrored_empty
  balanced := Ledger.balanced_empty
  housed := nofun

variable {s t : Store} {ch : Change}

/-- The subject of a definition has a name. -/
theorem Definition.subject_ne_empty {d : Definition} (h : d.validate = .ok ()) :
    d.subjectId ≠ "" := by
  intro hempty
  have hsubject := (accepted_of_validate h).subject
  rw [hempty] at hsubject
  cases hsubject

/-- **Changes lead from regular stores to regular ones.** -/
theorem Change.Makes.regular (h : ch.Makes s t) (hs : s.Regular) : t.Regular where
  wellTyped := h.wellTyped hs.wellTyped
  distinctKeys := by
    rw [h.made]
    exact hs.distinctKeys.putAll
  mirrored := hs.mirrored.preserved hs.wellTyped h
  balanced := hs.balanced.preserved hs.wellTyped h
  housed := by
    intro id r hget
    rcases h.ritual_cases hs.wellTyped hget with hsame | ⟨d, activity, now, rfl, rfl⟩ |
      ⟨step, r₀, a, task, evidence, now, rfl, rfl, rfl⟩
    · obtain ⟨hname, haccount⟩ := hs.housed id r hsame
      exact ⟨hname, Store.present_of_le h.le haccount⟩
    · refine ⟨?_, Store.present_of_le h.le h.allowed.subject⟩
      rw [h.allowed.start]
      exact Definition.subject_ne_empty h.allowed.valid
    · obtain ⟨hname, haccount⟩ := hs.housed _ r₀ h.allowed.ritual
      exact ⟨hname, Store.present_of_le h.le haccount⟩

/-- The entry of a mood is stored apart from everything else. -/
theorem Store.get?_put_mood {α : Type} [Document α] {id : String} {body : Json} {c : Collection}
    (hc : c ≠ .moods) (key : String) :
    (s.put (Collection.moods.key id) body).get? α (c.key key) = s.get? α (c.key key) := by
  rw [get?, get?, read?_put_of_ne (Collection.key_ne_of_ne hc)]

/-- A store stays regular when a mood is logged, under whatever id. -/
theorem Store.Regular.put_mood (hs : s.Regular) (id : String) {entry : MoodEntry}
    (hentry : Fits entry) : (s.put (Collection.moods.key id) (encode entry)).Regular := by
  have hlog : (s.put (Collection.moods.key id) (encode entry)).all Transaction =
      s.all Transaction := by
    have hne : Collection.moods.name ≠ Collection.transactions.name := by decide
    rw [Store.all, Store.all]
    exact congrArg _ (inCollection_put_of_ne hne)
  have haccount : ∀ party, s.read? (Ledger.accountKey party) ≠ none →
      (s.put (Collection.moods.key id) (encode entry)).read? (Ledger.accountKey party) ≠ none :=
    fun party hparty => present_of_le le_put hparty
  constructor
  case wellTyped => exact hs.wellTyped.put ⟨entry, hentry, trivial, rfl⟩
  case distinctKeys => exact hs.distinctKeys.put
  case mirrored =>
    refine hs.mirrored.of_assigned (get?_put_mood (by decide)) (get?_put_mood (by decide))
      (get?_put_mood (by decide)) ?_
    intro subject a ha
    exact hs.mirrored.assigned subject a ((get?_put_mood (by decide) subject).symm.trans ha)
  case balanced =>
    constructor
    · intro subject a ha
      rw [hlog]
      exact hs.balanced.balance subject a ((get?_put_mood (by decide) subject).symm.trans ha)
    · rw [hlog]
      exact fun x hx => (hs.balanced.between x hx).imp haccount
  case housed =>
    intro id' r hr
    obtain ⟨hname, hhoused⟩ := hs.housed id' r ((get?_put_mood (by decide) id').symm.trans hr)
    exact ⟨hname, haccount _ hhoused⟩

/-- Nothing is taken back, and a regular store stays regular. -/
structure Store.Proceeds (s t : Store) : Prop where
  evolves : Evolves [] s t
  regular : s.Regular → t.Regular

theorem Change.Makes.proceeds (h : ch.Makes s t) (hs : s.WellTyped) : s.Proceeds t :=
  ⟨h.evolves hs nofun, h.regular⟩

/-- Others make changes of the engine. -/
def Rely.engine : Rely where
  moves := Store.Proceeds
  refl s := ⟨.refl [] s, id⟩
  trans h h' := ⟨h.evolves.trans h'.evolves, fun hs => h'.regular (h.regular hs)⟩
  le h := h.evolves.le

/-- Others commit whatever they like. -/
def Rely.anyone : Rely where
  moves s t := s ≤ t
  refl := le_refl
  trans := le_trans
  le := id

/-- Nobody else commits anything. -/
def Rely.nobody : Rely where
  moves s t := t = s
  refl _ := rfl
  trans h h' := h'.trans h
  le h := h.ge

namespace World

theorem regular_after (ttl : Int) (es : List Event) :
    ((initial ttl).after es).store.Regular := by
  refine induction_on_changes ttl es Store.regular_empty ?_
  intro s t c ch _ _ hs _ _ hmakes
  exact hmakes.regular hs

/-- What an event does to the store is a step ahead. -/
theorem Sound.proceeds {w : World} (h : w.Sound) (e : Event) :
    w.store.Proceeds (w.step e).store := by
  rcases (h.step e).2 with hsame | ⟨i, chance, c, ch, -, -, -, hmakes⟩
  · rw [hsame]
    exact Rely.engine.refl w.store
  · exact hmakes.proceeds h.wellTyped

/-- What a run does to the store is a step ahead. -/
theorem Sound.proceeds_after {w : World} (h : w.Sound) (es : List Event) :
    w.store.Proceeds (w.after es).store := by
  induction es using List.reverseRecOn with
  | nil => exact Rely.engine.refl w.store
  | append_singleton es e ih =>
    rw [after_concat]
    exact Rely.engine.trans ih ((h.after es).proceeds e)

end World

end RitualLedger
