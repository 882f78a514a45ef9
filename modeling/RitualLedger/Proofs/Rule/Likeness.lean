import RitualLedger.Proofs.Rule.Errand

/-!
# What errands leave alone, and what they do not tell apart

Errands move amounts, queue messages and unlock tasks; progress is none of their business
(`Errand.Made.sameProgress`). And they are done without regard to time. Stores are `Alike` when they
differ in nothing but the times at which something was booked, queued or updated, and in documents
that errands do not look at. An errand that succeeds in one of two such stores succeeds in the
other, with the same answer, and leaves them alike (`Errand.Performs.alike`).
-/

namespace RitualLedger

open Ledger (transactionKey accountKey)

/-! ## Comparing stores -/

/-- A transaction without its time. -/
def Transaction.untimed (t : Transaction) : Transaction := { t with timestamp := ⟨0, 0⟩ }

/-- A notification without its time. -/
def Notification.untimed (n : Notification) : Notification := { n with createdAt := ⟨0, 0⟩ }

/-- An assignment as if it had never been updated. -/
def Assignment.untimed (a : Assignment) : Assignment := { a with lastUpdated := a.startedAt }

/-- How far an assignment is, without what is unlocked in it. -/
def Assignment.progress (a : Assignment) : Assignment :=
  { a.untimed with unlockedTasks := TaskSet.empty }

namespace Store

/-- Accounts are the same, the ledger and the queue are the same but for times, and so are
assignments. -/
structure Alike (s t : Store) : Prop where
  accounts : ∀ subject, s.get? Account (accountKey subject) = t.get? Account (accountKey subject)
  ledger : (s.all Transaction).map (·.untimed) = (t.all Transaction).map (·.untimed)
  queue : (s.all Notification).map (·.untimed) = (t.all Notification).map (·.untimed)
  assignments : ∀ subject, (s.get? Assignment (Assignment.key subject)).map (·.untimed) =
    (t.get? Assignment (Assignment.key subject)).map (·.untimed)

/-- Rituals, records and evidence are the same, and so is how far the assignments are. -/
structure SameProgress (s t : Store) : Prop where
  rituals : ∀ id, t.read? (Ritual.key id) = s.read? (Ritual.key id)
  recorded : ∀ id, t.read? (Collection.completions.key id) =
    s.read? (Collection.completions.key id)
  records : t.all CompletionRecord = s.all CompletionRecord
  proofs : t.all EvidenceRecord = s.all EvidenceRecord
  assignments : ∀ subject, (t.get? Assignment (Assignment.key subject)).map (·.progress) =
    (s.get? Assignment (Assignment.key subject)).map (·.progress)

variable {s t u : Store}

theorem Alike.refl (s : Store) : s.Alike s := ⟨fun _ => rfl, rfl, rfl, fun _ => rfl⟩

theorem Alike.symm (h : s.Alike t) : t.Alike s :=
  ⟨fun subject => (h.accounts subject).symm, h.ledger.symm, h.queue.symm,
    fun subject => (h.assignments subject).symm⟩

theorem SameProgress.refl (s : Store) : s.SameProgress s :=
  ⟨fun _ => rfl, fun _ => rfl, rfl, rfl, fun _ => rfl⟩

theorem SameProgress.trans (h : s.SameProgress t) (h' : t.SameProgress u) : s.SameProgress u :=
  ⟨fun id => (h'.rituals id).trans (h.rituals id),
    fun id => (h'.recorded id).trans (h.recorded id), h'.records.trans h.records,
    h'.proofs.trans h.proofs, fun subject => (h'.assignments subject).trans (h.assignments subject)⟩

/-- The assignments of two stores that are alike differ in the time of the update. -/
theorem Alike.assignment (h : s.Alike t) {subject : String} {a : Assignment}
    (hget : s.get? Assignment (Assignment.key subject) = some a) :
    ∃ a', t.get? Assignment (Assignment.key subject) = some a' ∧ a'.untimed = a.untimed := by
  have hassignments := h.assignments subject
  rw [hget] at hassignments
  exact Option.map_eq_some_iff.1 hassignments.symm

/-- Where the same names are listed the same documents are there. -/
theorem Regular.present_of_names {α : Type} [Document α] [LawfulDocument α] [Record α]
    (hs : s.Regular) (ht : t.Regular) (name : α → String)
    (hname : ∀ x id, Record.Named x id → name x = id)
    (hnames : (s.all α).map name = (t.all α).map name) {id : String}
    (hpresent : s.read? ((Record.collection α).key id) ≠ none) :
    t.read? ((Record.collection α).key id) ≠ none := by
  have hmem := (hs.wellTyped.mem_map_all name hs.distinctKeys hname).2 hpresent
  rw [hnames] at hmem
  exact (ht.wellTyped.mem_map_all name ht.distinctKeys hname).1 hmem

/-- Stores that are alike have the same transactions. -/
theorem Alike.transaction_present (h : s.Alike t) (hs : s.Regular) (ht : t.Regular) {id : String}
    (hpresent : s.read? (transactionKey id) ≠ none) : t.read? (transactionKey id) ≠ none := by
  refine hs.present_of_names ht Transaction.id (fun _ _ hname => hname) ?_ hpresent
  have hledger := congrArg (List.map Transaction.id) h.ledger
  rwa [List.map_map, List.map_map] at hledger

/-- Stores that are alike have the same notifications. -/
theorem Alike.notification_present (h : s.Alike t) (hs : s.Regular) (ht : t.Regular) {id : String}
    (hpresent : s.read? (Notification.key id) ≠ none) : t.read? (Notification.key id) ≠ none := by
  refine hs.present_of_names ht Notification.id (fun _ _ hname => hname) ?_ hpresent
  have hqueue := congrArg (List.map Notification.id) h.queue
  rwa [List.map_map, List.map_map] at hqueue

end Store

/-! ## What an errand changes -/

variable {s t s' t' : Store} {e : Errand}

/-- A notification is queued behind the others. -/
theorem Notification.all_of_queueing {n : Notification} {origin : Origin}
    (hmakes : (Change.queueing n origin).Makes s t) :
    t.all Notification = s.all Notification ++ [n] :=
  hmakes.all_snoc [] [] rfl nofun hmakes.allowed.2.2.1 hmakes.allowed.1

/-! ## Changes that keep stores alike -/

namespace Store.Alike

variable {ch ch' : Change} (halike : s.Alike s')

include halike

theorem accounts_of_untouched (h : ch.Makes s t) (h' : ch'.Makes s' t')
    (hnot : Collection.accounts ∉ ch.collections) (hnot' : Collection.accounts ∉ ch'.collections)
    (subject : String) :
    t.get? Account (accountKey subject) = t'.get? Account (accountKey subject) := by
  rw [accountKey, h.get?_untouched hnot, h'.get?_untouched hnot']
  exact halike.accounts subject

theorem ledger_of_untouched (h : ch.Makes s t) (h' : ch'.Makes s' t')
    (hnot : Collection.transactions ∉ ch.collections)
    (hnot' : Collection.transactions ∉ ch'.collections) :
    (t.all Transaction).map (·.untimed) = (t'.all Transaction).map (·.untimed) := by
  rw [h.all_untouched hnot, h'.all_untouched hnot']
  exact halike.ledger

theorem queue_of_untouched (h : ch.Makes s t) (h' : ch'.Makes s' t')
    (hnot : Collection.notifications ∉ ch.collections)
    (hnot' : Collection.notifications ∉ ch'.collections) :
    (t.all Notification).map (·.untimed) = (t'.all Notification).map (·.untimed) := by
  rw [h.all_untouched hnot, h'.all_untouched hnot']
  exact halike.queue

theorem assignments_of_untouched (h : ch.Makes s t) (h' : ch'.Makes s' t')
    (hnot : Collection.assignments ∉ ch.collections)
    (hnot' : Collection.assignments ∉ ch'.collections) (subject : String) :
    (t.get? Assignment (Assignment.key subject)).map (·.untimed) =
      (t'.get? Assignment (Assignment.key subject)).map (·.untimed) := by
  rw [Assignment.key, h.get?_untouched hnot, h'.get?_untouched hnot']
  exact halike.assignments subject

/-- What is booked in two stores that are alike leaves them alike. -/
theorem booking (hs : s.Regular) (hs' : s'.Regular) {r : TransactionRequest} {id : String}
    {now now' : Instant} {parties parties' : List Account} {origin origin' : Origin}
    (h : (Change.booking r id now parties origin).Makes s t)
    (h' : (Change.booking r id now' parties' origin').Makes s' t') : t.Alike t' where
  accounts subject := by
    obtain ⟨hnone, hsome⟩ := Ledger.account_of_booking hs.wellTyped h subject
    obtain ⟨hnone', hsome'⟩ := Ledger.account_of_booking hs'.wellTyped h' subject
    cases hget : s.get? Account (accountKey subject) with
    | none => rw [hnone hget, hnone' ((halike.accounts subject).symm.trans hget)]
    | some a₀ =>
      obtain ⟨a, ha, hmoves⟩ := hsome a₀ hget
      obtain ⟨a', ha', hmoves'⟩ := hsome' a₀ ((halike.accounts subject).symm.trans hget)
      -- The record adds the same to the balance, whenever it was made.
      rw [ha, ha', hmoves.unique hmoves' (hs.balanced.balance subject a₀ hget).1]
  ledger := by
    rw [Ledger.all_of_booking h, Ledger.all_of_booking h', List.map_append, List.map_append,
      halike.ledger]
    rfl
  queue := halike.queue_of_untouched h h' (by simp [Change.collections])
    (by simp [Change.collections])
  assignments := halike.assignments_of_untouched h h' (by simp [Change.collections])
    (by simp [Change.collections])

/-- Messages that differ in their times leave stores alike. -/
theorem queueing {n n' : Notification} {origin origin' : Origin}
    (h : (Change.queueing n origin).Makes s t) (h' : (Change.queueing n' origin').Makes s' t')
    (hsame : n.untimed = n'.untimed) : t.Alike t' where
  accounts := halike.accounts_of_untouched h h' (by simp [Change.collections])
    (by simp [Change.collections])
  ledger := halike.ledger_of_untouched h h' (by simp [Change.collections])
    (by simp [Change.collections])
  queue := by
    rw [Notification.all_of_queueing h, Notification.all_of_queueing h', List.map_append,
      List.map_append, halike.queue, List.map_singleton, List.map_singleton, hsame]
  assignments := halike.assignments_of_untouched h h' (by simp [Change.collections])
    (by simp [Change.collections])

/-- A task that is unlocked for one subject in two stores that are alike leaves them alike. -/
theorem unlocking (hs : s.Regular) (hs' : s'.Regular) {a a' : Assignment} {index : UInt64}
    {now now' : Instant} (h : (Change.unlocking a index now).Makes s t)
    (h' : (Change.unlocking a' index now').Makes s' t') (hsubject : a.subjectId = a'.subjectId) :
    t.Alike t' where
  accounts := halike.accounts_of_untouched h h' (by simp [Change.collections])
    (by simp [Change.collections])
  ledger := halike.ledger_of_untouched h h' (by simp [Change.collections])
    (by simp [Change.collections])
  queue := halike.queue_of_untouched h h' (by simp [Change.collections])
    (by simp [Change.collections])
  assignments subject := by
    rw [h.assignment_of_unlocking hs.wellTyped, h'.assignment_of_unlocking hs'.wellTyped, hsubject]
    split
    · obtain ⟨a₁, hget₁, hsame⟩ := halike.assignment h.allowed.2.2
      rw [hsubject] at hget₁
      cases h'.allowed.2.2.symm.trans hget₁
      -- The same task is added to the same tasks.
      have hunlocked := congrArg
        (fun a : Assignment => { a with unlockedTasks := a.unlockedTasks.insert index }) hsame
      exact congrArg some hunlocked.symm
    · exact halike.assignments subject

end Store.Alike

namespace Errand

namespace Made

/-- An errand that is done makes one change, which is not one of progress. -/
theorem makes (h : e.Made s t) : ∃ ch : Change, ch.Makes s t ∧
    Collection.rituals ∉ ch.collections ∧ Collection.completions ∉ ch.collections ∧
      Collection.evidence ∉ ch.collections := by
  cases h with
  | booked r now parties hr h => exact ⟨_, h, by simp [Change.collections]⟩
  | queued message now ha h => exact ⟨_, h, by simp [Change.collections]⟩
  | unlocked index now a ha hsubject hritual h => exact ⟨_, h, by simp [Change.collections]⟩

theorem proceeds (h : e.Made s t) (hs : s.Regular) : s.Proceeds t := by
  obtain ⟨ch, hmakes, -⟩ := h.makes
  exact hmakes.proceeds hs.wellTyped

theorem regular (h : e.Made s t) (hs : s.Regular) : t.Regular := (h.proceeds hs).regular hs

theorem le (h : e.Made s t) : s ≤ t := by
  obtain ⟨ch, hmakes, -⟩ := h.makes
  exact hmakes.le

/-- An assignment is as it was, or one more task is unlocked in it. -/
theorem assignment_cases (h : e.Made s t) (hs : s.Regular) (subject : String) :
    t.get? Assignment (Assignment.key subject) = s.get? Assignment (Assignment.key subject) ∨
      ∃ a index now, s.get? Assignment (Assignment.key subject) = some a ∧
        t.get? Assignment (Assignment.key subject) = some (a.unlocked index now) := by
  cases h with
  | booked r now parties hr h =>
    exact .inl (h.get?_untouched (by simp [Change.collections]) subject)
  | queued message now ha h => exact .inl (h.get?_untouched (by simp [Change.collections]) subject)
  | unlocked index now a ha hsubject hritual h =>
    rw [h.assignment_of_unlocking hs.wellTyped]
    split
    · rename_i heq
      exact .inr ⟨a, index, now, heq ▸ h.allowed.2.2, rfl⟩
    · exact .inl rfl

/-- Errands leave all progress alone. -/
theorem sameProgress (h : e.Made s t) (hs : s.Regular) : s.SameProgress t := by
  obtain ⟨ch, hmakes, hrituals, hcompletions, hevidence⟩ := h.makes
  refine ⟨hmakes.untouched hrituals, hmakes.untouched hcompletions,
    hmakes.all_untouched hcompletions, hmakes.all_untouched hevidence, fun subject => ?_⟩
  rcases h.assignment_cases hs subject with hsame | ⟨a, index, now, hget, hget'⟩
  · rw [hsame]
  · rw [hget, hget']
    rfl

end Made

/-! ## Settled for good -/

/-- What was done is settled. -/
theorem Made.settled (h : e.Made s t) (hs : s.Regular) : e.Settled t := by
  cases h with
  | booked r now parties hr h =>
    rw [(asks_of_request? hr).settled]
    exact Store.present_of_get? (h.get?_written (List.mem_append_right _ List.mem_cons_self)
      (x := Ledger.record r e.key now) h.allowed.fits)
  | queued message now ha h =>
    rw [Settled, ha]
    exact Store.present_of_get? (h.get?_written List.mem_cons_self h.allowed.1)
  | unlocked index now a ha hsubject hritual h =>
    rw [Settled, ha]
    refine ⟨a.unlocked index now, ?_, hritual, ?_⟩
    · rw [h.assignment_of_unlocking hs.wellTyped, if_pos hsubject.symm]
    · exact TaskSet.contains_iff.2 (TaskSet.mem_insert.2 (.inl rfl))

/-- What is settled stays settled while other errands are done. -/
theorem Settled.made {e' : Errand} (h : e.Settled s) (hmade : e'.Made s t) (hs : s.Regular) :
    e.Settled t := by
  rw [Settled] at h ⊢
  cases ha : e.action with
  | reward amount | penalty amount | notify message =>
    simp only [ha] at h ⊢
    exact Store.present_of_le hmade.le h
  | unlockTask index =>
    simp only [ha] at h ⊢
    obtain ⟨a, hget, hritual, hcontains⟩ := h
    rcases hmade.assignment_cases hs e.subject with hsame | ⟨a', index', now, hget', hunlocked⟩
    · exact ⟨a, hsame.trans hget, hritual, hcontains⟩
    · cases hget.symm.trans hget'
      refine ⟨_, hunlocked, hritual, ?_⟩
      exact TaskSet.contains_iff.2 (TaskSet.mem_insert.2 (.inr (TaskSet.contains_iff.1 hcontains)))

theorem Performs.regular {answer : Except EngineError ActionEffect} (h : e.Performs s answer t)
    (hs : s.Regular) : t.Regular := by
  cases h with
  | again | refused => exact hs
  | anew hvalid hnew hpossible h => exact h.regular hs

theorem Performs.settled {effect : ActionEffect} (h : e.Performs s (.ok effect) t)
    (hs : s.Regular) : e.Valid ∧ e.Settled t := by
  cases h with
  | again hvalid hsettled => exact ⟨hvalid, hsettled⟩
  | anew hvalid hnew hpossible h => exact ⟨hvalid, h.settled hs⟩

/-- A settled errand changes nothing. -/
theorem Performs.of_settled {answer : Except EngineError ActionEffect}
    (h : e.Performs s answer t) (hvalid : e.Valid) (hsettled : e.Settled s) :
    answer = .ok (e.effect false) ∧ t = s := by
  cases h with
  | again => exact ⟨rfl, rfl⟩
  | anew hvalid hnew hpossible h => exact absurd hsettled hnew
  | refused error h =>
    rcases h with hinvalid | ⟨hnew, -⟩
    · exact absurd hvalid hinvalid
    · exact absurd hsettled hnew

/-! ## Errands in stores that are alike -/

theorem Settled.alike (h : e.Settled s) (halike : s.Alike t) (hs : s.Regular) (ht : t.Regular) :
    e.Settled t := by
  rw [Settled] at h ⊢
  cases ha : e.action with
  | reward amount | penalty amount =>
    simp only [ha] at h ⊢
    exact halike.transaction_present hs ht h
  | notify message =>
    simp only [ha] at h ⊢
    exact halike.notification_present hs ht h
  | unlockTask index =>
    simp only [ha] at h ⊢
    obtain ⟨a, hget, hritual, hcontains⟩ := h
    obtain ⟨a', hget', hsame⟩ := halike.assignment hget
    refine ⟨a', hget', ?_, ?_⟩
    · exact (congrArg Assignment.ritualId hsame).trans hritual
    · have htasks := congrArg (fun a : Assignment => a.unlockedTasks.contains index) hsame
      exact htasks.trans hcontains

theorem Possible.alike (h : e.Possible s) (halike : s.Alike t) : e.Possible t := by
  rw [Possible] at h ⊢
  cases ha : e.action with
  | reward amount | penalty amount =>
    simp only [ha] at h ⊢
    rw [← halike.accounts]
    exact h
  | notify message => trivial
  | unlockTask index =>
    simp only [ha] at h ⊢
    obtain ⟨a, hget, hritual⟩ := h
    obtain ⟨a', hget', hsame⟩ := halike.assignment hget
    exact ⟨a', hget', (congrArg Assignment.ritualId hsame).trans hritual⟩

/-- An errand that is done in two stores that are alike leaves them alike. -/
theorem Made.alike (h : e.Made s t) (h' : e.Made s' t') (halike : s.Alike s') (hs : s.Regular)
    (hs' : s'.Regular) : t.Alike t' := by
  cases h with
  | booked r now parties hr h =>
    cases h' with
    | booked r' now' parties' hr' h' =>
      cases hr.symm.trans hr'
      exact halike.booking hs hs' h h'
    | queued message now' ha h' => simp [request?, ha] at hr
    | unlocked index now' a ha hsubject hritual h' => simp [request?, ha] at hr
  | queued message now ha h =>
    cases h' with
    | booked r' now' parties' hr' h' => simp [request?, ha] at hr'
    | queued message' now' ha' h' =>
      cases ha.symm.trans ha'
      exact halike.queueing h h' rfl
    | unlocked index now' a ha' hsubject hritual h' => cases ha.symm.trans ha'
  | unlocked index now a ha hsubject hritual h =>
    cases h' with
    | booked r' now' parties' hr' h' => simp [request?, ha] at hr'
    | queued message' now' ha' h' => cases ha.symm.trans ha'
    | unlocked index' now' a' ha' hsubject' hritual' h' =>
      cases ha.symm.trans ha'
      exact halike.unlocking hs hs' h h' (hsubject.trans hsubject'.symm)

/-- **What succeeds in one of two stores that are alike succeeds in the other.** -/
theorem Performs.alike {effect : ActionEffect} {answer : Except EngineError ActionEffect}
    (h : e.Performs s (.ok effect) t) (h' : e.Performs s' answer t') (halike : s.Alike s')
    (hs : s.Regular) (hs' : s'.Regular) : answer = .ok effect ∧ t.Alike t' := by
  cases h with
  | again hvalid hsettled =>
    obtain ⟨rfl, rfl⟩ := h'.of_settled hvalid (hsettled.alike halike hs hs')
    exact ⟨rfl, halike⟩
  | anew hvalid hnew hpossible h =>
    have hnew' : ¬ e.Settled s' := fun hsettled => hnew (hsettled.alike halike.symm hs' hs)
    cases h' with
    | again hvalid' hsettled' => exact absurd hsettled' hnew'
    | anew hvalid' hnew' hpossible' h' => exact ⟨rfl, h.alike h' halike hs hs'⟩
    | refused error h' =>
      rcases h' with hinvalid | ⟨-, himpossible⟩
      · exact absurd hvalid hinvalid
      · exact absurd (hpossible.alike halike) himpossible

end Errand

end RitualLedger
