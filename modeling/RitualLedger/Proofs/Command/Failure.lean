import RitualLedger.Proofs.Command.Dialogue
import RitualLedger.Proofs.Engine.Discretion

/-!
# Commands that fail

A command that fails leaves the documents as they were (`EngineCommand.store_of_failed`). Where it
makes a single call this is what is known of calls. A command with several calls does not fail any
more once it has changed something: the balances of the parties of a tribute can be read when it is
booked, and a batch has a result for each action whatever becomes of it.
-/

namespace RitualLedger

variable {policy : RetryPolicy} {s : Setting} {last : Nat}

/-! ## Reading changes nothing -/

theorem Ledger.run_account (subject : String) (s : Setting) :
    ∃ answer, (account subject).run s = (answer, s) := by
  obtain ⟨answer, hread⟩ : ∃ answer,
      (readDocument? (α := Account) (accountKey subject)).run s = (answer, s) :=
    ⟨_, Operation.run_readDocument _ s⟩
  rw [account]
  cases answer with
  | error e => exact ⟨_, Operation.run_bind_error hread⟩
  | ok found =>
    rw [Operation.run_bind hread]
    cases found <;> exact ⟨_, rfl⟩

/-- The balance of an account that is there can be read. -/
theorem Ledger.run_balance (subject : String) (s : Setting) :
    ∃ answer, (balance subject).run s = (answer, s) := by
  obtain ⟨answer, haccount⟩ := run_account subject s
  rw [balance]
  cases answer with
  | error e => exact ⟨_, Operation.run_bind_error haccount⟩
  | ok a => exact ⟨_, Operation.run_bind haccount⟩

theorem Ledger.run_balance_of_present {subject : String} (hs : s.store.WellTyped)
    (hpresent : s.store.read? (accountKey subject) ≠ none) :
    ∃ b, (balance subject).run s = (.ok b, s) := by
  obtain ⟨a, ha⟩ := hs.readable (α := Account) hpresent
  have haccount : (account subject).run s = (.ok a, s) :=
    Operation.run_bind (Operation.run_readDocument_of_get? ha)
  exact ⟨a.tokenBalance, Operation.run_bind haccount⟩

theorem Ritual.run_find?_still (id : String) (s : Setting) :
    ∃ answer, (find? id).run s = (answer, s) := ⟨_, Operation.run_readDocument (key id) s⟩

theorem Ritual.run_evaluate_still (id : String) (t : Trigger) (s : Setting) :
    ∃ answer, (evaluate id t).run s = (answer, s) := by
  obtain ⟨answer, hfind⟩ := run_find?_still id s
  have hget : ∃ found, (get id).run s = (found, s) := by
    rw [run_get_eq, hfind]
    obtain _ | _ | _ := answer <;> exact ⟨_, rfl⟩
  obtain ⟨found, hget⟩ := hget
  rw [evaluate]
  cases found with
  | error e => exact ⟨_, Operation.run_bind_error hget⟩
  | ok r => exact ⟨_, Operation.run_bind hget⟩

/-! ## Dialogues of a client that is alone -/

theorem Setting.Onwards.refl (h : s.intrusions = []) : s.Onwards s := ⟨h, .refl _, .refl _⟩

theorem Setting.Onwards.trans {t u : Setting} (h : s.Onwards t) (h' : t.Onwards u) : s.Onwards u :=
  ⟨h'.still, h.clock.trans h'.clock, h.ids.trans h'.ids⟩

variable (policy) in
/-- A call of a client that is alone leaves a setting in which it can go on, and if it fails, the
store as it was. -/
theorem Call.leaves {c : Call} (hc : c.Sendable) (h : s.Ready last)
    (hlast : ((c.operation policy).run s).2.ids.drawn ≤ last) :
    ((c.operation policy).run s).2.Ready last ∧
      ∀ e, ((c.operation policy).run s).1 = .error e →
        ((c.operation policy).run s).2.store = s.store := by
  obtain ⟨hready, hfailed, -⟩ :=
    Operation.leaves h (operation_ensures hc) (traceless_operation h.regular c) hlast
  exact ⟨hready, hfailed⟩

namespace Dialogue

variable {d : Dialogue}

variable (policy) in
theorem onwards_hold (d : Dialogue) (h : s.intrusions = []) : s.Onwards (d.hold policy s).2 := by
  induction d generalizing s with
  | done answer => exact .refl h
  | ask c next ih =>
    have hcall : s.Onwards ((c.operation policy).run s).2 := Program.onwards_run _ h
    rcases hrun : (c.operation policy).run s with ⟨_ | a, after⟩ <;> rw [hrun] at hcall
    · rw [hold_of_error hrun]
      exact hcall
    · rw [hold_of_ok hrun]
      exact hcall.trans (ih a hcall.still)

/-- A dialogue that is not about prompts leaves them alone. -/
theorem prompts_hold (hd : d.Every fun c => c.isAboutPrompts = false) (s : Setting) :
    (d.hold policy s).2.prompts = s.prompts := by
  induction d generalizing s with
  | done answer => rfl
  | ask c next ih =>
    obtain ⟨hc, hnext⟩ := hd
    have hcall : ((c.operation policy).run s).2.prompts = s.prompts :=
      Call.prompts_run hc policy s
    rcases hrun : (c.operation policy).run s with ⟨_ | a, after⟩ <;> rw [hrun] at hcall
    · rw [hold_of_error hrun]
      exact hcall
    · rw [hold_of_ok hrun]
      exact (ih a (hnext a) after).trans hcall

/-- After a dialogue a client that is alone can go on. -/
theorem ready_hold (hd : d.Every Call.Sendable) (h : s.Ready last)
    (hlast : (d.hold policy s).2.ids.drawn ≤ last) : (d.hold policy s).2.Ready last := by
  induction d generalizing s with
  | done answer => exact h
  | ask c next ih =>
    obtain ⟨hc, hnext⟩ := hd
    have hcall := Call.leaves policy hc h
    have honwards : s.Onwards ((c.operation policy).run s).2 :=
      Program.onwards_run _ h.undisturbed.intrusions
    rcases hrun : (c.operation policy).run s with ⟨_ | a, after⟩ <;> rw [hrun] at hcall honwards
    · rw [hold_of_error hrun] at hlast ⊢
      exact (hcall hlast).1
    · rw [hold_of_ok hrun] at hlast ⊢
      have hafter := ((next a).onwards_hold policy honwards.still).ids.drawn
      exact ih a (hnext a) (hcall (hafter.trans hlast)).1 hlast

end Dialogue

/-! ## Failures -/

variable (policy) in
/-- A tribute that runs alone has changed nothing, or both parties have accounts. -/
theorem Ledger.tribute_leaves (sender receiver : String) (amount : UInt64)
    (description : Option String) (h : s.Ready last)
    (hlast : ((tribute policy sender receiver amount description).run s).2.ids.drawn ≤ last) :
    let after := ((tribute policy sender receiver amount description).run s).2
    after.Ready last ∧ (after.store = s.store ∨
      after.store.read? (accountKey sender) ≠ none ∧
        after.store.read? (accountKey receiver) ≠ none) := by
  let may : Change → Prop := fun ch => ∃ r id now parties origin,
    ch = .booking r id now parties origin ∧ r.senderId = some sender ∧ r.receiverId = some receiver
  have hensures : (tribute policy sender receiver amount description).Ensures may
      (fun _ _ => True) ⟨s.store, [], h.regular.wellTyped⟩ := by
    refine .followed (apply_ensures .supplied (fun _ _ _ => trivial) ?_ ?_) fun _ _ => .pure trivial
    · intro id now parties _
      exact ⟨_, id, now, parties, _, rfl, rfl, rfl⟩
    · intro id now parties _
      exact ⟨_, id, now, parties, _, rfl, rfl, rfl⟩
  let c : Call := .tribute sender receiver amount description
  have htraceless : Operation.Traceless .engine (c.operation policy) s.store :=
    Call.traceless_operation h.regular c
  obtain ⟨hready, -, hchanged⟩ := Operation.leaves h hensures htraceless hlast
  refine ⟨hready, hchanged.imp id ?_⟩
  rintro ⟨_, u, v, ⟨r, id, now, parties, origin, rfl, hsender, hreceiver⟩, hmakes, hle⟩
  have hparty : ∀ subject ∈ [sender, receiver],
      ((tribute policy sender receiver amount description).run s).2.store.read?
        (accountKey subject) ≠ none := by
    intro subject hsubject
    have hsubjects : parties.map (·.subjectId) = [sender, receiver] := by
      rw [hmakes.allowed.subjects, hsender, hreceiver]
      rfl
    rw [← hsubjects] at hsubject
    obtain ⟨a, ha, rfl⟩ := List.mem_map.1 hsubject
    obtain ⟨a₀, hget, -⟩ := hmakes.allowed.moved a ha
    exact Store.present_of_le (hmakes.le.trans hle) (Store.present_of_get? hget)
  exact ⟨hparty _ List.mem_cons_self, hparty _ (List.mem_cons_of_mem _ List.mem_cons_self)⟩

namespace Dialogue

/-- A dialogue that fails has left the store as it was, if nothing fails after its first call. -/
theorem store_of_failed_ask {c : Call} {f : c.Result → Dialogue} (hc : c.Sendable)
    (h : s.Ready last) (hlast : ((ask c f).hold policy s).2.ids.drawn ≤ last)
    (hnext : ∀ a after, (c.operation policy).run s = (.ok a, after) → ∀ e,
      ((f a).hold policy after).1 = .error e → ((f a).hold policy after).2.store = s.store)
    {e : CommandError} (hfailed : ((ask c f).hold policy s).1 = .error e) :
    ((ask c f).hold policy s).2.store = s.store := by
  have hcall := Call.leaves policy hc h
  rcases hrun : (c.operation policy).run s with ⟨error | a, after⟩
  · rw [hrun] at hcall
    rw [hold_of_error hrun] at hlast ⊢
    exact (hcall hlast).2 error rfl
  · rw [hold_of_ok hrun] at hfailed ⊢
    exact hnext a after hrun e hfailed

/-- A dialogue with one call, whose answer is shown. -/
theorem store_of_failed_show {c : Call} {g : c.Result → Json} (hc : c.Sendable) (h : s.Ready last)
    (hlast : ((ask c fun a => done (.ok (g a))).hold policy s).2.ids.drawn ≤ last)
    {e : CommandError} (hfailed : ((ask c fun a => done (.ok (g a))).hold policy s).1 = .error e) :
    ((ask c fun a => done (.ok (g a))).hold policy s).2.store = s.store := by
  refine store_of_failed_ask hc h hlast ?_ hfailed
  intro a after _ e he
  cases he

theorem store_of_failed_checked {α : Type} {r : Except CommandError α} {f : α → Dialogue}
    (h : ∀ a, r = .ok a → ((f a).hold policy s).2.store = s.store) :
    ((checked r f).hold policy s).2.store = s.store := by
  cases r with
  | ok a => exact h a rfl
  | error e => rfl

end Dialogue

namespace EngineCommand

variable {fs : Files} {c : EngineCommand}

/-- Balances are only read. -/
theorem hold_settling (policy : RetryPolicy) (sender receiver id : String) (s : Setting) :
    ((settling sender receiver id).hold policy s).2 = s := by
  obtain ⟨answer, hsender⟩ := Ledger.run_balance sender s
  cases answer with
  | error e => exact congrArg Prod.snd (Dialogue.hold_of_error (c := .readBalance sender) hsender)
  | ok b =>
    refine (congrArg Prod.snd (Dialogue.hold_of_ok (c := .readBalance sender) hsender)).trans ?_
    obtain ⟨answer, hreceiver⟩ := Ledger.run_balance receiver s
    cases answer with
    | error e =>
      exact congrArg Prod.snd (Dialogue.hold_of_error (c := .readBalance receiver) hreceiver)
    | ok b' => exact congrArg Prod.snd (Dialogue.hold_of_ok (c := .readBalance receiver) hreceiver)

variable (policy) in
/-- The balances of accounts that are there can be shown. -/
theorem hold_settling_of_present {sender receiver : String} (id : String) (hs : s.store.WellTyped)
    (hsender : s.store.read? (Ledger.accountKey sender) ≠ none)
    (hreceiver : s.store.read? (Ledger.accountKey receiver) ≠ none) :
    ∃ shown, ((settling sender receiver id).hold policy s).1 = .ok shown := by
  obtain ⟨b, hb⟩ := Ledger.run_balance_of_present hs hsender
  obtain ⟨b', hb'⟩ := Ledger.run_balance_of_present hs hreceiver
  have hfirst : (settling sender receiver id).hold policy s = _ :=
    Dialogue.hold_of_ok (c := .readBalance sender) hb
  exact ⟨_, congrArg Prod.fst
    (hfirst.trans (Dialogue.hold_of_ok (c := .readBalance receiver) hb'))⟩

/-- **A command that fails leaves the store as it was.** -/
theorem store_of_failed (h : s.Ready last) (hc : (c.dialogue fs).Every Call.Sendable)
    (hlast : ((c.dialogue fs).hold policy s).2.ids.drawn ≤ last) {e : CommandError}
    (hfailed : ((c.dialogue fs).hold policy s).1 = .error e) :
    ((c.dialogue fs).hold policy s).2.store = s.store := by
  cases c with
  | openAccount | showAccount | history | currentTask | replayTask | logMood | reportStreak
  | listNotifications | readNotification => exact Dialogue.store_of_failed_show hc.1 h hlast hfailed
  | createRitual file =>
    rw [dialogue] at hc hlast hfailed ⊢
    refine Dialogue.store_of_failed_checked fun d hd => ?_
    rw [hd] at hc hlast hfailed
    exact Dialogue.store_of_failed_show hc.1 h hlast hfailed
  | completeTask ritual subject index text photo =>
    rw [dialogue] at hc hlast hfailed ⊢
    refine Dialogue.store_of_failed_checked fun d hd => ?_
    rw [hd] at hc hlast hfailed
    exact Dialogue.store_of_failed_show hc.1 h hlast hfailed
  | showRitual id =>
    refine Dialogue.store_of_failed_ask hc.1 h hlast ?_ hfailed
    intro found after hrun e he
    obtain ⟨answer, hfind⟩ := Ritual.run_find?_still id s
    cases hfind.symm.trans hrun
    obtain _ | _ := found <;> rfl
  | tribute sender receiver amount description =>
    rw [dialogue] at hc hlast hfailed ⊢
    refine Dialogue.store_of_failed_ask hc.1 h hlast ?_ hfailed
    intro (id : String) after hrun e he
    have hstill := hold_settling policy sender receiver id after
    have hheld : (Dialogue.ask (.tribute sender receiver amount description)
        (settling sender receiver)).hold policy s =
          (settling sender receiver id).hold policy after := Dialogue.hold_of_ok hrun
    rw [hheld, hstill] at hlast
    have hleaves := Ledger.tribute_leaves policy sender receiver amount description h
    have hrun' : (Ledger.tribute policy sender receiver amount description).run s =
      (.ok id, after) := hrun
    rw [hrun'] at hleaves
    obtain ⟨hready, hsame | ⟨hsender, hreceiver⟩⟩ := hleaves hlast
    · rw [hstill]
      exact hsame
    · obtain ⟨shown, hshown⟩ := hold_settling_of_present policy id
        hready.regular.wellTyped hsender hreceiver
      cases hshown.symm.trans he
  | evaluate ritual subject trigger value dryRun =>
    rw [dialogue] at hc hlast hfailed ⊢
    refine Dialogue.store_of_failed_checked fun t ht => ?_
    rw [ht] at hc hlast hfailed
    refine Dialogue.store_of_failed_ask hc.1 h hlast ?_ hfailed
    intro (actions : List Action) after hrun e he
    cases dryRun with
    | true =>
      rw [hold_rehearsal] at he
      cases he
    | false =>
      rw [hold_execution] at he
      cases he

end EngineCommand

end RitualLedger
