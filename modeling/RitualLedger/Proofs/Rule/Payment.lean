import RitualLedger.Proofs.Rule.Provenance

/-!
# Payments are made once, and never confused

What stands under a derived key is what is due there, and that is the action that the ritual has at
that position of that scope (`Owed`): the reward of the task, or one of the actions of its
conditions. Conditions never change, so a position means the same action for good. A key is inserted
once, into the ledger or into the queue, and as an action is not both booked and queued, something
takes effect under it at most once.

The main statement is `paid_at_most_once`.
-/

namespace RitualLedger

open Ledger (transactionKey)

/-! ## What is owed -/

/-- Whether a step of a ritual was taken. -/
def Ritual.Took (r : Ritual) (step : Step) : Prop :=
  step.ritual = r.id ∧ step.subject = r.subjectId ∧
    step.index.toNat < r.currentTaskIndex.toNat

/-- The action that a ritual has at a position of a scope, for a subject. -/
def Owed (s : Store) (scope : Scope) (position : Nat) (ritual subject : String) (a : Action) :
    Prop :=
  ∃ r, s.get? Ritual (Ritual.key ritual) = some r ∧
    match scope with
    | .reward step =>
      r.Took step ∧ ritual = step.ritual ∧ subject = step.subject ∧ position = 0 ∧
        ∃ task, r.task? step.index = some task ∧ a = .reward task.tokenReward
    | .completion step =>
      r.Took step ∧ ritual = step.ritual ∧ subject = step.subject ∧
        (Condition.matchingActions r.conditions (.completion step.index))[position]? = some a
    | .ritualCompletion step =>
      r.Took step ∧ step.index.toNat + 1 = r.tasks.length ∧
        ritual = step.ritual ∧ subject = step.subject ∧
        (Condition.matchingActions r.conditions .ritualCompletion)[position]? = some a
    | .streak ritual' subject' count =>
      ritual = ritual' ∧ subject = subject' ∧
        (Condition.matchingActions r.conditions (.streak count))[position]? = some a
    | .mood entry =>
      ∃ e, s.get? MoodEntry (Collection.moods.key entry) = some e ∧ subject = e.subjectId ∧
        (Condition.matchingActions r.conditions (.mood e.mood))[position]? = some a
    | .named _ => False

/-- The ritual of a record has taken the step. -/
theorem Recorded.took {s : Store} (hmirrored : Mirrored s) {step : Step} {c : CompletionRecord}
    (h : Recorded s step c) : ∃ r, s.get? Ritual (Ritual.key step.ritual) = some r ∧ r.Took step ∧
      c.Reports r ∧ c.taskIndex = step.index := by
  obtain ⟨hget, rfl⟩ := h
  obtain ⟨r, hr, hreports⟩ := hmirrored.records _ c hget
  exact ⟨r, hr, ⟨hreports.ritual, hreports.subject, hreports.taken⟩, hreports, rfl⟩

/-- **What is due is what the ritual has there.** The reward in the record of a step is the one of
its task. -/
theorem owed_of_due {s : Store} (hmirrored : Mirrored s) {scope : Scope} {position : Nat}
    {ritual subject : String} {a : Action} (h : Due s scope position ritual subject a) :
    Owed s scope position ritual subject a := by
  cases scope with
  | reward step =>
    obtain ⟨rfl, rfl, rfl, c, hc, rfl⟩ := h
    obtain ⟨r, hr, htook, hreports, hindex⟩ := hc.took hmirrored
    obtain ⟨task, htask, -, hreward⟩ := hreports.task
    rw [hindex] at htask
    exact ⟨r, hr, htook, rfl, rfl, rfl, task, htask, congrArg _ hreward⟩
  | completion step =>
    obtain ⟨rfl, rfl, ⟨c, hc⟩, r', hr', ha⟩ := h
    obtain ⟨r, hr, htook, -, -⟩ := hc.took hmirrored
    cases hr.symm.trans hr'
    exact ⟨_, hr, htook, rfl, rfl, ha⟩
  | ritualCompletion step =>
    obtain ⟨rfl, rfl, ⟨c, hc, hlast⟩, r', hr', ha⟩ := h
    obtain ⟨r, hr, htook, hreports, hindex⟩ := hc.took hmirrored
    cases hr.symm.trans hr'
    have hlength := hreports.last.1 hlast
    rw [hindex] at hlength
    exact ⟨_, hr, htook, hlength, rfl, rfl, ha⟩
  | streak ritual' subject' count =>
    obtain ⟨rfl, rfl, r, hr, ha⟩ := h
    exact ⟨r, hr, rfl, rfl, ha⟩
  | mood entry =>
    obtain ⟨e, he, rfl, r, hr, ha⟩ := h
    exact ⟨r, hr, e, he, rfl, ha⟩
  | named name => exact h.elim

/-- A scope that names its ritual has one action at a position. -/
theorem Owed.unique {s : Store} {scope : Scope} {position : Nat} {ritual subject : String}
    {ritual' subject' : String} {a a' : Action} (h : Owed s scope position ritual subject a)
    (h' : Owed s scope position ritual' subject' a') (hscope : ∀ entry, scope ≠ .mood entry) :
    a = a' := by
  obtain ⟨r, hr, h⟩ := h
  obtain ⟨r', hr', h'⟩ := h'
  cases scope with
  | reward step =>
    obtain ⟨-, rfl, -, -, task, htask, rfl⟩ := h
    obtain ⟨-, rfl, -, -, task', htask', rfl⟩ := h'
    cases hr.symm.trans hr'
    cases htask.symm.trans htask'
    rfl
  | completion step =>
    obtain ⟨-, rfl, -, ha⟩ := h
    obtain ⟨-, rfl, -, ha'⟩ := h'
    cases hr.symm.trans hr'
    exact Option.some.inj (ha.symm.trans ha')
  | ritualCompletion step =>
    obtain ⟨-, -, rfl, -, ha⟩ := h
    obtain ⟨-, -, rfl, -, ha'⟩ := h'
    cases hr.symm.trans hr'
    exact Option.some.inj (ha.symm.trans ha')
  | streak ritual subject count =>
    obtain ⟨rfl, -, ha⟩ := h
    obtain ⟨rfl, -, ha'⟩ := h'
    cases hr.symm.trans hr'
    exact Option.some.inj (ha.symm.trans ha')
  | mood entry => exact absurd rfl (hscope entry)
  | named name => exact h.elim

/-! ## Effects -/

/-- Something new stands under an id, in the ledger or in the queue. -/
def TakesEffect (s t : Store) (id : String) : Prop :=
  (s.read? (transactionKey id) = none ∧ t.read? (transactionKey id) ≠ none) ∨
    (s.read? (Notification.key id) = none ∧ t.read? (Notification.key id) ≠ none)

instance (s t : Store) (id : String) : Decidable (TakesEffect s t id) :=
  inferInstanceAs (Decidable (_ ∧ _ ∨ _ ∧ _))

/-- How often something takes effect under an id, while events happen. -/
def World.effects (id : String) : World → List Event → Nat
  | _, [] => 0
  | w, e :: rest =>
    (if TakesEffect w.store (w.step e).store id then 1 else 0) + effects id (w.step e) rest

/-- Whether something stands under a key, as a number. -/
def Store.count (s : Store) (key : DocKey) : Nat := if s.read? key = none then 0 else 1

theorem Store.count_le {s t : Store} (h : s ≤ t) (key : DocKey) : s.count key ≤ t.count key := by
  by_cases hs : s.read? key = none
  · rw [count, if_pos hs]
    exact Nat.zero_le _
  · rw [count, if_neg hs, count, if_neg (present_of_le h hs)]

theorem Store.count_lt {s t : Store} {key : DocKey} (hs : s.read? key = none)
    (ht : t.read? key ≠ none) : s.count key < t.count key := by
  rw [count, if_pos hs, count, if_neg ht]
  exact Nat.one_pos

theorem World.Sound.le_step {w : World} (h : w.Sound) (e : Event) :
    w.store ≤ (w.step e).store := by
  rcases (h.step e).2 with hsame | ⟨i, chance, c, ch, -, -, -, hmakes⟩
  · rw [hsame]
  · exact hmakes.le

/-- What takes effect under an id stands there in the end. -/
theorem World.Sound.effects_le {w : World} (h : w.Sound) (id : String) (es : List Event) :
    w.effects id es + (w.store.count (transactionKey id) + w.store.count (Notification.key id)) ≤
      (w.after es).store.count (transactionKey id) +
        (w.after es).store.count (Notification.key id) := by
  induction es generalizing w with
  | nil =>
    rw [effects, Nat.zero_add]
    exact le_refl _
  | cons e rest ih =>
    have hrest := ih (h.step e).1
    have hledger := Store.count_le (h.le_step e) (transactionKey id)
    have hqueue := Store.count_le (h.le_step e) (Notification.key id)
    rw [effects]
    change _ ≤ ((w.step e).after rest).store.count _ + ((w.step e).after rest).store.count _
    split
    · rename_i heffect
      -- The key was free and is taken now, so it counts for one more from here on.
      rcases heffect with ⟨hnone, hsome⟩ | ⟨hnone, hsome⟩
      · have hlt := Store.count_lt hnone hsome
        omega
      · have hlt := Store.count_lt hnone hsome
        omega
    · omega

/-! ## What executed actions do -/

/-- Accounts, ledger and queue are as they were. -/
def SameFunds (s t : Store) : Prop :=
  ∀ id, t.read? (Ledger.accountKey id) = s.read? (Ledger.accountKey id) ∧
    t.read? (transactionKey id) = s.read? (transactionKey id) ∧
    t.read? (Notification.key id) = s.read? (Notification.key id)

/-- Something new stands under an id, and all else in the ledger and the queue is as it was. -/
def Settles (s t : Store) (id : String) : Prop :=
  TakesEffect s t id ∧ ∀ other, other ≠ id →
    t.read? (transactionKey other) = s.read? (transactionKey other) ∧
    t.read? (Notification.key other) = s.read? (Notification.key other)

theorem Call.not_brings {c : Call} (hdraws : c.draws = false) (id : String) : ¬ c.Brings id := by
  rintro ⟨text, htext, -⟩
  cases c with
  | apply | applyTransaction | execute | executeBatch | enqueue => cases hdraws
  | _ => cases htext

theorem sameFunds_of_untouched {ch : Change} {s t : Store} (hmakes : ch.Makes s t)
    (haccounts : Collection.accounts ∉ ch.collections)
    (htransactions : Collection.transactions ∉ ch.collections)
    (hnotifications : Collection.notifications ∉ ch.collections) : SameFunds s t :=
  fun id => ⟨hmakes.untouched haccounts id, hmakes.untouched htransactions id,
    hmakes.untouched hnotifications id⟩

theorem settles_of_booking {s t : Store} {r : TransactionRequest} {id : String} {now : Instant}
    {parties : List Account} {origin : Origin}
    (hmakes : (Change.booking r id now parties origin).Makes s t) : Settles s t id := by
  have hfits : Fits (Ledger.record r id now) := hmakes.allowed.fits
  have hwritten := hmakes.get?_written (List.mem_append_right _ (List.mem_singleton.2 rfl)) hfits
  refine ⟨.inl ⟨hmakes.allowed.new, Store.present_of_get? hwritten⟩, fun other hother => ⟨?_, ?_⟩⟩
  · rw [hmakes.made]
    refine Store.read?_putAll_of_notMem ?_
    intro w hw heq
    rcases List.mem_append.1 hw with hw | hw
    · obtain ⟨a, -, rfl⟩ := List.mem_map.1 hw
      exact Collection.key_ne_of_ne (by decide) heq
    · rw [List.mem_singleton.1 hw] at heq
      exact hother (Collection.key_inj.1 heq).2.symm
  · exact hmakes.untouched (by simp [Change.collections]) other

theorem settles_of_queueing {s t : Store} {n : Notification} {origin : Origin}
    (hmakes : (Change.queueing n origin).Makes s t) : Settles s t n.id := by
  have hwritten := hmakes.get?_written (List.mem_singleton.2 rfl) hmakes.allowed.1
  refine ⟨.inr ⟨hmakes.allowed.2.2.1, Store.present_of_get? hwritten⟩,
    fun other hother => ⟨?_, ?_⟩⟩
  · exact hmakes.untouched (by simp [Change.collections]) other
  · rw [hmakes.made]
    refine Store.read?_putAll_of_notMem ?_
    intro w hw heq
    rw [List.mem_singleton.1 hw] at heq
    exact hother (Collection.key_inj.1 heq).2.symm

/-- A call that executes actions of rituals leaves the funds as they were, or settles one position
of a scope that it runs. -/
theorem settles_of_may {c : Call} {ch : Change} {s t : Store} (hexecutes : c.executes = true)
    (hdraws : c.draws = false) (hmay : c.May ch) (hmakes : ch.Makes s t) :
    SameFunds s t ∨ ∃ scope position, c.Runs scope ∧ Settles s t (scope.key position) := by
  -- Such a call brings no ids along and draws none, so it keeps to the keys of its scopes.
  have hdue : ∀ {id origin}, c.Uses id origin →
      ∃ scope position, origin = .due scope position ∧ c.Runs scope := by
    intro id origin huses
    cases origin with
    | supplied => exact absurd huses (Call.not_brings hdraws id)
    | drawn =>
      rw [Call.Uses, hdraws] at huses
      cases huses
    | due scope position => exact ⟨scope, position, rfl, huses⟩
  cases ch with
  | opening a =>
    rw [hmay] at hexecutes
    cases hexecutes
  | marking n =>
    rw [hmay] at hexecutes
    cases hexecutes
  | booking r id now parties origin =>
    obtain ⟨scope, position, rfl, hruns⟩ := hdue hmay
    have hid : id = scope.key position := hmakes.allowed.backed.1
    exact .inr ⟨scope, position, hruns, hid ▸ settles_of_booking hmakes⟩
  | queueing n origin =>
    obtain ⟨scope, position, rfl, hruns⟩ := hdue hmay
    have hid : n.id = scope.key position := hmakes.allowed.2.2.2.1
    exact .inr ⟨scope, position, hruns, hid ▸ settles_of_queueing hmakes⟩
  | unlocking _ _ _ | creating _ _ _ _ | stepping _ _ _ _ _ _ | logging _ _ =>
    refine .inl (sameFunds_of_untouched hmakes ?_ ?_ ?_)
    all_goals simp [Change.collections]

/-! ## Payments -/

/-- An action is not both booked and queued. -/
theorem not_booked_and_queued {a : Action} {ritual subject ritual' subject' : String}
    {tx : Transaction} {n : Notification} (hbooked : a.IsBookedAs ritual subject tx)
    (hqueued : a.IsQueuedAs ritual' subject' n) : False := by
  obtain ⟨rfl, -⟩ := hqueued
  exact hbooked.2.2.2

section

variable {calls : List Call} {s : Store} {scope : Scope} {position : Nat} (hs : s.WellTyped)
  (hkeys : s.HasDistinctKeys) (hmirrored : Mirrored s) (haccounted : Accounted calls s)
  (haway : ∀ c ∈ calls, c.KeepsAway s) (habout : scope.IsAbout s)

include hs hkeys hmirrored haccounted haway habout

/-- A transaction under a derived key is what is owed there. -/
theorem booked_of_present (hpresent : s.read? (transactionKey (scope.key position)) ≠ none) :
    ∃ tx ritual subject a, s.get? Transaction (transactionKey (scope.key position)) = some tx ∧
      Owed s scope position ritual subject a ∧ a.IsBookedAs ritual subject tx := by
  obtain ⟨tx, hget⟩ := hs.readable (α := Transaction) hpresent
  obtain ⟨ritual, subject, a, hdue, hfrom⟩ := due_of_explained hs hkeys hmirrored haccounted haway
    habout (haccounted.transactions _ tx hget)
  exact ⟨tx, ritual, subject, a, hget, owed_of_due hmirrored hdue, hfrom⟩

/-- A notification under a derived key is what is owed there. -/
theorem queued_of_present (hpresent : s.read? (Notification.key (scope.key position)) ≠ none) :
    ∃ n ritual subject a,
      s.get? Notification (Notification.key (scope.key position)) = some n ∧
      Owed s scope position ritual subject a ∧ a.IsQueuedAs ritual subject n := by
  obtain ⟨n, hget⟩ := hs.readable (α := Notification) hpresent
  obtain ⟨ritual, subject, a, hdue, hfrom⟩ := due_of_explained hs hkeys hmirrored haccounted haway
    habout (haccounted.notifications _ n hget)
  exact ⟨n, ritual, subject, a, hget, owed_of_due hmirrored hdue, hfrom⟩

/-- Something stands under a derived key in the ledger or in the queue, and not in both. -/
theorem count_le_one (hscope : ∀ entry, scope ≠ .mood entry) :
    s.count (transactionKey (scope.key position)) +
      s.count (Notification.key (scope.key position)) ≤ 1 := by
  rw [Store.count, Store.count]
  split
  · split <;> omega
  · rename_i hledger
    split
    · omega
    · rename_i hqueue
      obtain ⟨tx, ritual, subject, a, -, howed, hfrom⟩ :=
        booked_of_present hs hkeys hmirrored haccounted haway habout hledger
      obtain ⟨n, ritual', subject', a', -, howed', hfrom'⟩ :=
        queued_of_present hs hkeys hmirrored haccounted haway habout hqueue
      -- A position of a scope stands for one action.
      obtain rfl := howed.unique howed' hscope
      exact (not_booked_and_queued hfrom hfrom').elim

end

/-- A client that executes actions of rituals, when it is served, leaves the funds as they were or
settles a position of a scope that it runs. -/
theorem World.Sound.settles {w : World} (h : w.Sound) {i : Nat} {chance : Chance} {c : Client}
    (hc : w.clients[i]? = some c) (hexecutes : c.call.executes = true)
    (hdraws : c.call.draws = false) :
    SameFunds w.store (w.step (.served i chance)).store ∨
      ∃ scope position, c.call.Runs scope ∧
        Settles w.store (w.step (.served i chance)).store (scope.key position) := by
  rcases (h.step (.served i chance)).2 with hsame | ⟨i', chance', c', ch, heq, hc', hmay, hmakes⟩
  · rw [hsame]
    exact .inl fun id => ⟨rfl, rfl, rfl⟩
  · cases heq
    cases hc.symm.trans hc'
    exact settles_of_may hexecutes hdraws hmay hmakes

/-- **Payments are made at most once, and never confused.** Callers keep away from derived keys.
Then, whatever calls overlap, fail, are cut short or repeated: under a key of a scope whose ritual
is stored, something takes effect at most once. (The key of a mood does not name its ritual; it is
left out here only.) What stands under a key, there or in a scope of a mood, is what the ritual has
at that position: its kind, amount or message, subject and ritual are those of the action. And a
call that executes actions of rituals changes accounts, ledger and queue in no other way than by
settling a position of a scope that it runs. -/
theorem paid_at_most_once (ttl : Int) (es : List Event)
    (haway : ∀ c ∈ Event.calls es, c.KeepsAway ((World.initial ttl).after es).store) :
    (∀ scope : Scope, scope.IsAbout ((World.initial ttl).after es).store → ∀ position : Nat,
      ((∀ entry, scope ≠ .mood entry) →
        (World.initial ttl).effects (scope.key position) es ≤ 1) ∧
      (((World.initial ttl).after es).store.read? (transactionKey (scope.key position)) ≠ none →
        ∃ tx ritual subject a,
          ((World.initial ttl).after es).store.get? Transaction
            (transactionKey (scope.key position)) = some tx ∧
          Owed ((World.initial ttl).after es).store scope position ritual subject a ∧
          a.IsBookedAs ritual subject tx) ∧
      (((World.initial ttl).after es).store.read? (Notification.key (scope.key position)) ≠ none →
        ∃ n ritual subject a,
          ((World.initial ttl).after es).store.get? Notification
            (Notification.key (scope.key position)) = some n ∧
          Owed ((World.initial ttl).after es).store scope position ritual subject a ∧
          a.IsQueuedAs ritual subject n)) ∧
    ∀ before e rest, es = before ++ e :: rest → ∀ i chance c, e = .served i chance →
      ((World.initial ttl).after before).clients[i]? = some c →
      c.call.executes = true → c.call.draws = false →
      SameFunds ((World.initial ttl).after before).store
          ((World.initial ttl).after (before ++ [e])).store ∨
        ∃ scope position, c.call.Runs scope ∧
          Settles ((World.initial ttl).after before).store
            ((World.initial ttl).after (before ++ [e])).store (scope.key position) := by
  constructor
  · intro scope habout position
    have hsound := World.sound_after ttl es
    have hs := hsound.wellTyped
    have hkeys := hsound.distinctKeys
    have hmirrored := mirrored_after ttl es
    have haccounted := accounted_after ttl es
    have hinitial : (World.initial ttl).Sound := World.sound_initial
    have heffects := hinitial.effects_le (scope.key position) es
    refine ⟨?_, ?_, ?_⟩
    · intro hscope
      have hone : ((World.initial ttl).after es).store.count (transactionKey (scope.key position)) +
          ((World.initial ttl).after es).store.count (Notification.key (scope.key position)) ≤ 1 :=
        count_le_one hs hkeys hmirrored haccounted haway habout hscope
      omega
    · intro hpresent
      exact booked_of_present hs hkeys hmirrored haccounted haway habout hpresent
    · intro hpresent
      exact queued_of_present hs hkeys hmirrored haccounted haway habout hpresent
  · rintro before e rest - i chance c rfl hc hexecutes hdraws
    have hsound := World.sound_after ttl before
    rw [World.after_concat]
    exact hsound.settles hc hexecutes hdraws

/-- The step of the only task in the ritual of `contested`. -/
def contestedStep : Step := ⟨"11111111-1111-4111-8111-111111111111", "ana", 0⟩

/-- A run in which two calls complete the only task of a ritual at the same time, and the completion
is replayed afterwards; a gift is booked under a key of its own. -/
def contested : List Event :=
  let ritual : Definition :=
    ⟨"kim", "ana", "Walk", "", [⟨"Go out", "", .any, 7⟩],
      [⟨.completion, .ge, .number 0, [.reward 2, .notify "Well done"]⟩]⟩
  let gift : TransactionRequest :=
    { TransactionRequest.plain .reward none (some "ana") 5 with key := some "gift" }
  let calls : List Call :=
    [.openAccount "kim", .openAccount "ana", .create ritual,
      .complete contestedStep (.text "done"), .complete contestedStep (.text "done too"),
      .replay contestedStep, .apply gift]
  let served (client : Nat) : Event := .served client ⟨none, ⟨1700000000, 0⟩, ""⟩
  let drawing (id : String) : Event := .served 2 ⟨none, ⟨1700000000, 0⟩, id⟩
  calls.map (.called ⟨3⟩) ++
    ([0, 0, 0, 1, 1, 1, 2].map served ++
      [drawing contestedStep.ritual, drawing "22222222-2222-4222-8222-222222222222",
        drawing "33333333-3333-4333-8333-333333333333"] ++
      (List.replicate 5 2 ++ (List.replicate 25 [3, 4]).flatten ++ List.replicate 15 5 ++
        List.replicate 4 6).map served)

/-- In `contested` the reward of the task is paid, and paid once. -/
theorem paid_once_in_contested :
    (∀ c ∈ Event.calls contested, c.KeepsAway ((World.initial 0).after contested).store) ∧
    (Scope.reward contestedStep).IsAbout ((World.initial 0).after contested).store ∧
    (World.initial 0).effects ((Scope.reward contestedStep).key 0) contested ≤ 1 ∧
    ∃ tx ritual subject a,
      ((World.initial 0).after contested).store.get? Transaction
        (transactionKey ((Scope.reward contestedStep).key 0)) = some tx ∧
      Owed ((World.initial 0).after contested).store (.reward contestedStep) 0 ritual subject a ∧
      a.IsBookedAs ritual subject tx := by
  have hrun : (∀ c ∈ Event.calls contested,
        c.KeepsAway ((World.initial 0).after contested).store) ∧
      ((World.initial 0).after contested).store.read? (Ritual.key contestedStep.ritual) ≠ none ∧
      ((World.initial 0).after contested).store.read?
        (transactionKey ((Scope.reward contestedStep).key 0)) ≠ none := by
    decide +kernel
  obtain ⟨haway, habout, hstored⟩ := hrun
  obtain ⟨hpaid, -⟩ := paid_at_most_once 0 contested haway
  obtain ⟨honce, hbooked, -⟩ := hpaid (.reward contestedStep) habout 0
  exact ⟨haway, habout, honce nofun, hbooked hstored⟩

end RitualLedger
