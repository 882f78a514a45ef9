import RitualLedger.Proofs.Engine.Regular
import RitualLedger.Proofs.Rule.Provenance

/-!
# What comes later

`Store.Precedes` says what an earlier store tells about a later one. No document disappears, and
entries stay as they were written. Accounts keep their subjects, rituals their terms; tasks are only
completed, and notifications only marked. Unlocked tasks stay unlocked for as long as the subject
follows the same ritual. And a ritual that its subject does not follow any more is left alone for
good, because a subject never comes back to a ritual: an assignment changes its ritual only when a
new one is created.

Every change of the engine leads to a store that comes later in this sense
(`Change.Makes.precedes`), so every run does (`World.precedes_after`).
-/

namespace RitualLedger

/-! ## Single documents -/

/-- A task is as it was, or it was pending and has been completed. -/
def Task.Precedes (t t' : Task) : Prop :=
  t' = t ∨ t.status = .pending ∧ t.completedAt = none ∧ t'.status = .completed ∧
    t'.completedAt ≠ none ∧ t'.terms = t.terms

/-- A ritual keeps its terms, and is as far as it was or further. Once it is completed it stays as
it is. -/
structure Ritual.Precedes (r r' : Ritual) : Prop where
  terms : r'.terms = r.terms
  tasks : ∀ (j : Nat) t, r.tasks[j]? = some t → ∃ t', r'.tasks[j]? = some t' ∧ t.Precedes t'
  pointer : r.currentTaskIndex.toNat ≤ r'.currentTaskIndex.toNat
  completed : r.status = .completed → r' = r

/-- An account keeps its subject and the time of its opening. -/
structure Account.Precedes (a a' : Account) : Prop where
  subject : a'.subjectId = a.subjectId
  opened : a'.createdAt = a.createdAt

/-- A notification is as it was, or it was unread and has been marked. -/
def Notification.Precedes (n n' : Notification) : Prop := n' = n ∨ n.read = false ∧ n' = n.marked

theorem Task.Precedes.refl (t : Task) : t.Precedes t := .inl rfl

theorem Task.Precedes.trans {t t' t'' : Task} (h : t.Precedes t') (h' : t'.Precedes t'') :
    t.Precedes t'' := by
  rcases h with rfl | ⟨hpending, hopen, hdone, hat, hterms⟩
  · exact h'
  · rcases h' with rfl | ⟨hpending', -⟩
    · exact .inr ⟨hpending, hopen, hdone, hat, hterms⟩
    · cases hdone.symm.trans hpending'

theorem Ritual.Precedes.refl (r : Ritual) : r.Precedes r :=
  ⟨rfl, fun _ t ht => ⟨t, ht, .refl t⟩, le_refl _, fun _ => rfl⟩

theorem Ritual.Precedes.trans {r r' r'' : Ritual} (h : r.Precedes r') (h' : r'.Precedes r'') :
    r.Precedes r'' where
  terms := h'.terms.trans h.terms
  tasks j t ht := by
    obtain ⟨t', ht', hprecedes⟩ := h.tasks j t ht
    obtain ⟨t'', ht'', hprecedes'⟩ := h'.tasks j t' ht'
    exact ⟨t'', ht'', hprecedes.trans hprecedes'⟩
  pointer := h.pointer.trans h'.pointer
  completed hcompleted := by
    obtain rfl := h.completed hcompleted
    exact h'.completed hcompleted

theorem Notification.Precedes.refl (n : Notification) : n.Precedes n := .inl rfl

theorem Notification.Precedes.trans {n n' n'' : Notification} (h : n.Precedes n')
    (h' : n'.Precedes n'') : n.Precedes n'' := by
  rcases h with rfl | ⟨hunread, rfl⟩
  · exact h'
  · rcases h' with rfl | ⟨hunread', -⟩
    · exact .inr ⟨hunread, rfl⟩
    · cases hunread'

/-! ## Stores -/

namespace Store

/-- The subject follows the ritual of an id. -/
def IsAssigned (s : Store) (subject id : String) : Prop :=
  ∃ a, s.get? Assignment (Assignment.key subject) = some a ∧ a.ritualId = id

/-- What an earlier store tells about a later one. -/
structure Precedes (s t : Store) : Prop where
  /-- No document disappears. -/
  present : ∀ key, s.read? key ≠ none → t.read? key ≠ none
  /-- Transactions, evidence, records of completions, moods and activities stay as they are. -/
  entries : ∀ c id doc, Collection.isFrozen c = true →
    s.read? (c.key id) = some doc → t.read? (c.key id) = some doc
  accounts : ∀ subject a, s.get? Account (Ledger.accountKey subject) = some a →
    ∃ a', t.get? Account (Ledger.accountKey subject) = some a' ∧ a.Precedes a'
  rituals : ∀ id r, s.get? Ritual (Ritual.key id) = some r →
    ∃ r', t.get? Ritual (Ritual.key id) = some r' ∧ r.Precedes r'
  notifications : ∀ id n, s.get? Notification (Notification.key id) = some n →
    ∃ n', t.get? Notification (Notification.key id) = some n' ∧ n.Precedes n'
  /-- While a subject follows the same ritual, what is unlocked stays unlocked. -/
  unlocked : ∀ subject a a', s.get? Assignment (Assignment.key subject) = some a →
    t.get? Assignment (Assignment.key subject) = some a' → a'.ritualId = a.ritualId →
    ∀ index ∈ a.unlockedTasks, index ∈ a'.unlockedTasks
  /-- A ritual that its subject does not follow is left alone, and is never followed again. -/
  left : ∀ id r, s.get? Ritual (Ritual.key id) = some r → ¬ s.IsAssigned r.subjectId id →
    t.read? (Ritual.key id) = s.read? (Ritual.key id) ∧ ¬ t.IsAssigned r.subjectId id

variable {s t u : Store}

theorem Precedes.refl (s : Store) : s.Precedes s where
  present _ h := h
  entries _ _ _ _ h := h
  accounts _ a h := ⟨a, h, rfl, rfl⟩
  rituals _ r h := ⟨r, h, .refl r⟩
  notifications _ n h := ⟨n, h, .refl n⟩
  unlocked _ a a' h h' _ index hindex := by
    cases h.symm.trans h'
    exact hindex
  left _ _ _ h := ⟨rfl, h⟩

theorem Precedes.subject {id : String} {r : Ritual} (h : s.Precedes t)
    (hget : s.get? Ritual (Ritual.key id) = some r) :
    ∃ r', t.get? Ritual (Ritual.key id) = some r' ∧ r'.subjectId = r.subjectId := by
  obtain ⟨r', hget', hprecedes⟩ := h.rituals id r hget
  have hsubject := congrArg Ritual.subjectId hprecedes.terms
  exact ⟨r', hget', hsubject⟩

/-- A subject that follows the ritual that it followed before has followed it all the time. -/
theorem Precedes.isAssigned_between (h : s.Precedes t) (h' : t.Precedes u) (hs : s.Regular)
    {subject id : String} (hbefore : s.IsAssigned subject id) (hafter : u.IsAssigned subject id) :
    t.IsAssigned subject id := by
  obtain ⟨a, hget, rfl⟩ := hbefore
  obtain ⟨r, hritual, hfollows⟩ := hs.mirrored.assigned subject a hget
  have hname : a.subjectId = subject := (hs.wellTyped.named (α := Assignment) hget).2
  obtain ⟨r', hritual', hsubject⟩ := h.subject hritual
  rw [← hfollows.subject, hname] at hsubject
  by_contra hleft
  rw [← hsubject] at hleft hafter
  exact (h'.left _ r' hritual' hleft).2 hafter

theorem Precedes.trans (h : s.Precedes t) (h' : t.Precedes u) (hs : s.Regular) : s.Precedes u where
  present key hkey := h'.present key (h.present key hkey)
  entries c id doc hc hread := h'.entries c id doc hc (h.entries c id doc hc hread)
  accounts subject a hget := by
    obtain ⟨a', hget', hsubject, hopened⟩ := h.accounts subject a hget
    obtain ⟨a'', hget'', hsubject', hopened'⟩ := h'.accounts subject a' hget'
    exact ⟨a'', hget'', hsubject'.trans hsubject, hopened'.trans hopened⟩
  rituals id r hget := by
    obtain ⟨r', hget', hprecedes⟩ := h.rituals id r hget
    obtain ⟨r'', hget'', hprecedes'⟩ := h'.rituals id r' hget'
    exact ⟨r'', hget'', hprecedes.trans hprecedes'⟩
  notifications id n hget := by
    obtain ⟨n', hget', hprecedes⟩ := h.notifications id n hget
    obtain ⟨n'', hget'', hprecedes'⟩ := h'.notifications id n' hget'
    exact ⟨n'', hget'', hprecedes.trans hprecedes'⟩
  unlocked subject a a'' hget hget'' hsame index hindex := by
    obtain ⟨a', hget', hsame'⟩ := h.isAssigned_between h' hs ⟨a, hget, rfl⟩ ⟨a'', hget'', hsame⟩
    exact h'.unlocked subject a' a'' hget' hget'' (hsame.trans hsame'.symm) index
      (h.unlocked subject a a' hget hget' hsame' index hindex)
  left id r hget hleft := by
    obtain ⟨hread, hleft'⟩ := h.left id r hget hleft
    obtain ⟨r', hget', hsubject⟩ := h.subject hget
    rw [← hsubject] at hleft' ⊢
    obtain ⟨hread', hleft''⟩ := h'.left id r' hget' hleft'
    exact ⟨hread'.trans hread, hleft''⟩

end Store

/-! ## Changes -/

/-- A task that is not done is completed by its step, and the others stay as they are. -/
theorem Completion.precedes_advance {r : Ritual} {step : Step} {task : Task} (h : r.InProgress)
    (hindex : r.currentTaskIndex = step.index) (htask : r.task? step.index = some task)
    (hactive : r.status ≠ .completed) (now : Instant) :
    r.Precedes (advance r (recordOf step r task now)) where
  terms := terms_advance r _
  tasks j t ht := by
    obtain ⟨-, hdone⟩ := h.tasks j t ht
    rw [Task.IsDone, hindex] at hdone
    simp only [advance, recordOf, List.getElem?_modify, ht]
    split
    · rename_i hj
      rw [if_neg (by omega)] at hdone
      exact ⟨_, rfl, .inr ⟨hdone.1, hdone.2, rfl, Option.some_ne_none now, rfl⟩⟩
    · exact ⟨_, rfl, .inl rfl⟩
  pointer := by
    change r.currentTaskIndex.toNat ≤ (step.index + 1).toNat
    rw [hindex, h.toNat_next htask]
    exact Nat.le_succ _
  completed hcompleted := absurd hcompleted hactive

namespace Change.Makes

variable {ch : Change} {s t : Store}

/-- An account is as it was, or its balance was changed. -/
theorem account_precedes (h : ch.Makes s t) (hs : s.WellTyped) {subject : String} {a : Account}
    (hget : s.get? Account (Ledger.accountKey subject) = some a) :
    ∃ a', t.get? Account (Ledger.accountKey subject) = some a' ∧ a.Precedes a' := by
  cases ch with
  | booking r id now parties origin =>
    obtain ⟨a', hget', hsame, -⟩ := (Ledger.account_of_booking hs h subject).2 a hget
    refine ⟨a', hget', ?_, ?_⟩ <;> rw [hsame]
  | opening a₀ =>
    rcases h.get?_cases (α := Account) (Ledger.accountKey subject) with ⟨body, hw, -⟩ | hsame
    · rw [(Prod.mk.inj (List.mem_singleton.1 hw)).1] at hget
      exact absurd h.allowed.2.2.2 (Store.present_of_get? hget)
    · exact ⟨a, hsame.trans hget, rfl, rfl⟩
  | queueing _ _ | marking _ | unlocking _ _ _ | creating _ _ _ _ | stepping _ _ _ _ _ _
  | logging _ _ =>
    refine ⟨a, (h.get?_untouched ?_ subject).trans hget, rfl, rfl⟩
    simp [collections]

theorem notification_precedes (h : ch.Makes s t) (hs : s.WellTyped) {id : String}
    {n : Notification} (hget : s.get? Notification (Notification.key id) = some n) :
    ∃ n', t.get? Notification (Notification.key id) = some n' ∧ n.Precedes n' := by
  obtain ⟨n', hget'⟩ := (h.wellTyped hs).readable (α := Notification)
    (Store.present_of_le h.le (Store.present_of_get? hget))
  refine ⟨n', hget', ?_⟩
  rcases h.notification_cases hs hget' with ⟨n₀, hget₀, hcases⟩ | ⟨origin, rfl, rfl⟩
  · cases hget₀.symm.trans hget
    rcases hcases with rfl | rfl
    · exact .refl _
    · cases hread : n.read with
      | false => exact .inr ⟨hread, rfl⟩
      | true =>
        refine .inl ?_
        rw [Notification.marked, ← hread]
  · exact absurd h.allowed.2.2.1 (Store.present_of_get? hget)

theorem ritual_precedes (h : ch.Makes s t) (hs : s.Regular) {id : String} {r : Ritual}
    (hget : s.get? Ritual (Ritual.key id) = some r) :
    ∃ r', t.get? Ritual (Ritual.key id) = some r' ∧ r.Precedes r' := by
  obtain ⟨r', hget'⟩ := (h.wellTyped hs.wellTyped).readable (α := Ritual)
    (Store.present_of_le h.le (Store.present_of_get? hget))
  refine ⟨r', hget', ?_⟩
  rcases h.ritual_cases hs.wellTyped hget' with hsame | ⟨d, activity, now, rfl, rfl⟩ |
    ⟨step, r₀, a, task, evidence, now, rfl, rfl, rfl⟩
  · cases hget.symm.trans hsame
    exact .refl r
  · exact absurd h.allowed.new (Store.present_of_get? hget)
  · cases hget.symm.trans h.allowed.ritual
    obtain ⟨-, -, hindex, hfollows⟩ := hs.mirrored.follows_of_stepping hs.wellTyped h.allowed
    refine Completion.precedes_advance (hs.mirrored.progress _ r hget) hindex h.allowed.taken ?_ now
    intro hcompleted
    -- The assignment would be over too, and the step stale.
    have hcurrent := h.allowed.current
    rw [Completion.staleness?, if_pos] at hcurrent
    · cases hcurrent
    · refine .inl ?_
      rw [Assignment.isComplete, hfollows.status, hcompleted]
      rfl

/-- An assignment is as it was, but for its progress and what is unlocked in it besides; or it
assigns a new ritual. -/
theorem assignment_precedes (h : ch.Makes s t) (hs : s.Regular) {subject : String}
    {a' : Assignment} (hget' : t.get? Assignment (Assignment.key subject) = some a') :
    (∃ a, s.get? Assignment (Assignment.key subject) = some a ∧ a'.ritualId = a.ritualId ∧
        ∀ index ∈ a.unlockedTasks, index ∈ a'.unlockedTasks) ∨
      s.read? (Ritual.key a'.ritualId) = none := by
  cases ch with
  | unlocking a index now =>
    rw [h.assignment_of_unlocking hs.wellTyped] at hget'
    split at hget'
    · rename_i hsubject
      cases hget'
      refine .inl ⟨a, hsubject ▸ h.allowed.2.2, rfl, fun i hi => ?_⟩
      exact TaskSet.mem_insert.2 (.inr hi)
    · exact .inl ⟨a', hget', rfl, fun _ hi => hi⟩
  | creating d r activity now =>
    rw [h.assignment_of_creating] at hget'
    split at hget'
    · cases hget'
      exact .inr h.allowed.new
    · exact .inl ⟨a', hget', rfl, fun _ hi => hi⟩
  | stepping step r a task evidence now =>
    rw [(Mirrored.stepped_of_makes hs.wellTyped h).assignment] at hget'
    split at hget'
    · rename_i hsubject
      cases hget'
      exact .inl ⟨a, hsubject ▸ h.allowed.assignment, rfl, fun _ hi => hi⟩
    · exact .inl ⟨a', hget', rfl, fun _ hi => hi⟩
  | opening _ | booking _ _ _ _ _ | queueing _ _ | marking _ | logging _ _ =>
    refine .inl ⟨a', (h.get?_untouched ?_ subject).symm.trans hget', rfl, fun _ hi => hi⟩
    simp [collections]

/-- A ritual that its subject does not follow is left alone, and not followed again. -/
theorem ritual_left (h : ch.Makes s t) (hs : s.Regular) {id : String} {r : Ritual}
    (hget : s.get? Ritual (Ritual.key id) = some r) (hleft : ¬ s.IsAssigned r.subjectId id) :
    t.read? (Ritual.key id) = s.read? (Ritual.key id) ∧ ¬ t.IsAssigned r.subjectId id := by
  constructor
  · cases ch with
    | creating d r' activity now =>
      have hne : id ≠ r'.id := by
        rintro rfl
        exact Store.present_of_get? hget h.allowed.new
      rw [h.made]
      refine Store.read?_putAll_of_notMem ?_
      simp [writes, Ritual.key, Assignment.key, Ne.symm hne]
    | stepping step r₀ a task evidence now =>
      obtain ⟨-, hsubject, -⟩ := hs.mirrored.follows_of_stepping hs.wellTyped h.allowed
      have hne : id ≠ step.ritual := by
        rintro rfl
        cases hget.symm.trans h.allowed.ritual
        exact hleft ⟨a, hsubject ▸ h.allowed.assignment, h.allowed.assigned⟩
      rw [h.made]
      refine Store.read?_putAll_of_notMem ?_
      simp [writes, Ritual.key, Assignment.key, Step.key, evidenceKey, Ne.symm hne]
    | opening _ | booking _ _ _ _ _ | queueing _ _ | marking _ | unlocking _ _ _ | logging _ _ =>
      exact h.untouched (by simp [collections]) id
  · rintro ⟨a', hget', hritual⟩
    rcases h.assignment_precedes hs hget' with ⟨a, hget₀, hsame, -⟩ | hnew
    · exact hleft ⟨a, hget₀, hsame.symm.trans hritual⟩
    · rw [hritual] at hnew
      exact Store.present_of_get? hget hnew

/-- **Changes take nothing back.** -/
theorem precedes (h : ch.Makes s t) (hs : s.Regular) : s.Precedes t where
  present _ hkey := Store.present_of_le h.le hkey
  entries := (h.proceeds hs.wellTyped).evolves.entries
  accounts _ _ hget := h.account_precedes hs.wellTyped hget
  rituals _ _ hget := h.ritual_precedes hs hget
  notifications _ _ hget := h.notification_precedes hs.wellTyped hget
  unlocked subject a a' hget hget' hsame := by
    rcases h.assignment_precedes hs hget' with ⟨a₀, hget₀, -, hunlocked⟩ | hnew
    · cases hget₀.symm.trans hget
      exact hunlocked
    · obtain ⟨r, hritual, -⟩ := hs.mirrored.assigned subject a hget
      rw [hsame] at hnew
      exact absurd hnew (Store.present_of_get? hritual)
  left _ _ hget hleft := h.ritual_left hs hget hleft

end Change.Makes

/-! ## Runs -/

namespace World

/-- What an event does to the store comes later. -/
theorem Sound.precedes {w : World} (h : w.Sound) (hs : w.store.Regular) (e : Event) :
    w.store.Precedes (w.step e).store := by
  rcases (h.step e).2 with hsame | ⟨i, chance, c, ch, -, -, -, hmakes⟩
  · rw [hsame]
    exact .refl w.store
  · exact hmakes.precedes hs

/-- **What a run does to the store comes later.** -/
theorem Sound.precedes_after {w : World} (h : w.Sound) (hs : w.store.Regular) (es : List Event) :
    w.store.Precedes (w.after es).store := by
  induction es using List.reverseRecOn with
  | nil => exact .refl w.store
  | append_singleton es e ih =>
    rw [after_concat]
    exact ih.trans ((h.after es).precedes ((h.proceeds_after es).regular hs) e) hs

end World

end RitualLedger
