import RitualLedger.Proofs.Ledger.Effect
import RitualLedger.Proofs.Rule.Rerun

/-!
# Batches that run alone

A batch that nobody interferes with is a course of errands, in a scope or without one: an action
that has no key of a scope takes effect under an id that is drawn for it
(`Batch.course_of_run_unscoped`). So its amounts are tallied, and those of a second run are tallied
after those of the first; `batches_are_tallied` says it of the call.
-/

namespace RitualLedger

open Ledger (transactionKey accountKey)

/-! ## Drawing a key -/

/-- The ids to come are all different, and the ledger has a transaction under none of them. -/
structure Setting.Provides (s : Setting) : Prop where
  distinct : ∀ m n, s.ids.drawn ≤ m → s.ids.drawn ≤ n → s.ids.value m = s.ids.value n → m = n
  unused : ∀ n, s.ids.drawn ≤ n → s.store.read? (transactionKey (s.ids.value n)) = none

/-- An action without a key is executed under the id that would be drawn next. The id is drawn, or
nothing is booked. -/
theorem Action.execute_drawn (policy : RetryPolicy) (a : Action) (b : Batch) (s : Setting) :
    ∃ ids, (ids = s.ids.draw.2 ∨ ids = s.ids ∧
        ¬ Errand.Books ⟨b.ritual, b.subject, b.trigger, s.ids.draw.1, a⟩) ∧
      (a.execute policy b.ritual b.subject none).run s =
        (a.execute policy b.ritual b.subject (some s.ids.draw.1)).run { s with ids := ids } := by
  have hbook : ∀ kind sender receiver amount,
      Errand.request? ⟨b.ritual, b.subject, b.trigger, s.ids.draw.1, a⟩ =
        some (a.booking kind sender receiver amount b.ritual (some s.ids.draw.1)) →
      ∃ ids, (ids = s.ids.draw.2 ∨ ids = s.ids ∧
          ¬ Errand.Books ⟨b.ritual, b.subject, b.trigger, s.ids.draw.1, a⟩) ∧
        (Ledger.apply policy (a.booking kind sender receiver amount b.ritual none)).run s =
          (Ledger.apply policy
            (a.booking kind sender receiver amount b.ritual (some s.ids.draw.1))).run
              { s with ids := ids } := by
    intro kind sender receiver amount hr
    have hsame : (a.booking kind sender receiver amount b.ritual (some s.ids.draw.1)).validate =
      (a.booking kind sender receiver amount b.ritual none).validate := rfl
    cases hvalidate : (a.booking kind sender receiver amount b.ritual none).validate with
    | ok _ => exact ⟨_, .inl rfl, Ledger.run_apply_drawn rfl hvalidate⟩
    | error fault =>
      refine ⟨s.ids, .inr ⟨rfl, ?_⟩, ?_⟩
      · rintro ⟨r, hr', hvalid⟩
        cases hr.symm.trans hr'
        cases hvalidate.symm.trans hvalid
      · rw [Ledger.run_apply_invalid hvalidate, Ledger.run_apply_invalid (hsame.trans hvalidate)]
  cases a with
  | reward amount =>
    obtain ⟨ids, hids, hrun⟩ := hbook .reward none (some b.subject) amount rfl
    refine ⟨ids, hids, ?_⟩
    rw [execute, execute, Operation.run_map, Operation.run_map, hrun]
  | penalty amount =>
    obtain ⟨ids, hids, hrun⟩ := hbook .penalty (some b.subject) none amount rfl
    refine ⟨ids, hids, ?_⟩
    rw [execute, execute, Operation.run_map, Operation.run_map, hrun]
  | unlockTask index =>
    refine ⟨s.ids, .inr ⟨rfl, ?_⟩, rfl⟩
    rintro ⟨_, hr, -⟩
    cases hr
  | notify message => exact ⟨_, .inl rfl, rfl⟩

/-! ## Courses under drawn ids -/

/-- An errand that is executed alone is performed. -/
theorem Errand.performs_of_run (policy : RetryPolicy) (e : Errand) {s : Setting}
    (hs : s.store.Regular) (halone : s.Undisturbed) :
    e.Performs s.store ((e.action.execute policy e.ritual e.subject (some e.key)).run s).1
      ((e.action.execute policy e.ritual e.subject (some e.key)).run s).2.store := by
  have hkeeps : (e.action.execute policy e.ritual e.subject (some e.key)).program.Keeps
      (.alone fun _ => True) (fun answer g t => g = () ∧ e.Performs s.store answer t) () s.store :=
    e.keeps_execute (Contract.alone_alone _) hs fun _ _ _ => trivial
  obtain ⟨_, -, hperforms⟩ := hkeeps.run halone fun _ _ => trivial
  exact hperforms

namespace Batch

variable {policy : RetryPolicy} {b : Batch} {actions : List Action} {position : Nat}
  {setting : Setting}

/-- An id that is drawn later is not the next one. -/
theorem ne_of_provides (hprovides : setting.Provides) {n : Nat} (hn : setting.ids.drawn < n) :
    setting.ids.value n ≠ setting.ids.draw.1 := by
  intro heq
  have hsame := hprovides.distinct n setting.ids.drawn hn.le (le_refl _) heq
  omega

/-- What an errand under the next id leaves provides ids to come. -/
theorem provides_after (hprovides : setting.Provides) {e : Errand} {later : Setting}
    {answer : Except EngineError ActionEffect} (hkey : e.key = setting.ids.draw.1)
    (hperforms : e.Performs setting.store answer later.store)
    (hvalue : later.ids.value = setting.ids.value)
    (hdrawn : setting.ids.drawn ≤ later.ids.drawn)
    (hbooked : e.Books → setting.ids.drawn < later.ids.drawn) : later.Provides where
  distinct m n hm hn heq := by
    rw [hvalue] at heq
    exact hprovides.distinct m n (hdrawn.trans hm) (hdrawn.trans hn) heq
  unused n hn := by
    rw [hvalue, hperforms.transaction_of_ne]
    · exact hprovides.unused n (hdrawn.trans hn)
    · intro hbooks
      rw [hkey]
      exact ne_of_provides hprovides ((hbooked hbooks).trans_le hn)

/-- Without a scope a batch is a course of errands under ids that are drawn. -/
theorem course_of_run_unscoped (hscope : b.scope = none) (hs : setting.store.Regular)
    (halone : setting.Undisturbed) (hprovides : setting.Provides) :
    ∃ errands : List Errand, errands.map (·.action) = actions ∧
      (∀ e ∈ errands, e.subject = b.subject) ∧
      (∀ e ∈ errands, ∃ n, setting.ids.drawn ≤ n ∧ e.key = setting.ids.value n) ∧
      (errands.Pairwise fun e e' => e.Books → e'.key ≠ e.key) ∧
      Course setting.store errands ((b.runFrom policy position actions).run setting).1
        ((b.runFrom policy position actions).run setting).2.store := by
  induction actions generalizing setting position with
  | nil => exact ⟨[], rfl, nofun, nofun, .nil, .done _⟩
  | cons a rest ih =>
    let e : Errand := ⟨b.ritual, b.subject, b.trigger, setting.ids.draw.1, a⟩
    obtain ⟨ids, hids, hrun⟩ := a.execute_drawn policy b setting
    -- The action is executed under the next id, from where the id was drawn or not.
    let start : Setting := { setting with ids := ids }
    let answer := ((a.execute policy b.ritual b.subject (some e.key)).run start).1
    let later := ((a.execute policy b.ritual b.subject (some e.key)).run start).2
    have hkey : b.key position = none := by rw [Batch.key, hscope]; rfl
    have hfirst : e.Performs setting.store answer later.store :=
      e.performs_of_run policy (s := start) hs ⟨halone.intrusions, halone.clock⟩
    have honwards : start.Onwards later := Program.onwards_run _ halone.intrusions
    have hvalue : later.ids.value = setting.ids.value := by
      rw [honwards.ids.value]
      rcases hids with rfl | ⟨rfl, -⟩ <;> rfl
    have hdrawn : setting.ids.drawn ≤ later.ids.drawn ∧
        (e.Books → setting.ids.drawn < later.ids.drawn) := by
      have hle := honwards.ids.drawn
      rcases hids with rfl | ⟨rfl, hnot⟩
      · have hlt : setting.ids.drawn < later.ids.drawn := hle
        exact ⟨hlt.le, fun _ => hlt⟩
      · exact ⟨hle, fun hbooks => absurd hbooks hnot⟩
    obtain ⟨errands, hactions, hsubject, hkeys, hpairwise, hcourse⟩ :=
      @ih (position + 1) later (hfirst.regular hs)
        (Setting.Undisturbed.run (s := start) ⟨halone.intrusions, halone.clock⟩ _)
        (provides_after hprovides rfl hfirst hvalue hdrawn.1 hdrawn.2)
    refine ⟨e :: errands, ?_, ?_, ?_, ?_, ?_⟩
    · rw [List.map_cons, hactions]
    · exact List.forall_mem_cons.2 ⟨rfl, hsubject⟩
    · refine List.forall_mem_cons.2 ⟨⟨_, le_refl _, rfl⟩, fun e' he' => ?_⟩
      obtain ⟨n, hn, hkey'⟩ := hkeys e' he'
      exact ⟨n, hdrawn.1.trans hn, by rw [hkey', hvalue]⟩
    · refine List.pairwise_cons.2 ⟨fun e' he' hbooks => ?_, hpairwise⟩
      obtain ⟨n, hn, hkey'⟩ := hkeys e' he'
      rw [hkey', hvalue]
      exact ne_of_provides hprovides ((hdrawn.2 hbooks).trans_le hn)
    · have hbatch : (b.runFrom policy position (a :: rest)).run setting =
          (b.result a answer :: ((b.runFrom policy (position + 1) rest).run later).1,
            ((b.runFrom policy (position + 1) rest).run later).2) := by
        rw [runFrom, hkey]
        change (Program.bind _ _).run setting = _
        rw [Program.run_bind]
        change (Program.bind _ _).run _ = _
        rw [Program.run_bind]
        have hsame : (a.execute policy b.ritual b.subject none).program.run setting =
          (answer, later) := hrun
        rw [hsame]
        rfl
      rw [hbatch]
      exact .next hfirst hcourse

/-- In a scope a batch is the course of its errands. -/
theorem course_of_run_scoped {scope : Scope} (hscope : b.scope = some scope)
    (hs : setting.store.Regular) (halone : setting.Undisturbed) :
    Course setting.store (b.errands scope position actions)
      ((b.runFrom policy position actions).run setting).1
      ((b.runFrom policy position actions).run setting).2.store := by
  have hkeeps : (b.runFrom policy position actions).Keeps (.alone fun _ => True)
      (fun results g t => g = () ∧
        Course setting.store (b.errands scope position actions) results t) () setting.store :=
    b.keeps_runFrom hscope (Contract.alone_alone _) hs fun _ _ _ => trivial
  obtain ⟨_, -, hcourse⟩ := hkeeps.run halone fun _ _ => trivial
  exact hcourse

/-- **A batch that runs alone is tallied**, in a scope or without one. -/
theorem tallied_of_run (hs : setting.store.Regular) (halone : setting.Undisturbed)
    (hname : b.subject ≠ "") (hids : b.scope = none → setting.Provides) :
    Tallied b.subject setting.store ((b.runFrom policy 0 actions).run setting).2.store
      (b.entries setting.store actions) ((b.runFrom policy 0 actions).run setting).1 := by
  cases hscope : b.scope with
  | some scope =>
    refine (course_of_run_scoped hscope hs halone).tallied hs hname ?_ ?_
      (counts_entries hscope setting.store actions)
    · intro e he
      obtain ⟨x, -, rfl⟩ := List.mem_map.1 he
      rfl
    · exact (List.pairwise_map.1 (nodup_keys b scope 0 actions)).imp fun hne _ => hne.symm
  | none =>
    have hprovides := hids hscope
    obtain ⟨errands, hactions, hsubject, hkeys, hpairwise, hcourse⟩ :=
      @course_of_run_unscoped policy b actions 0 setting hscope hs halone hprovides
    have hentries : b.entries setting.store actions =
        errands.map fun e => ⟨e.action, false⟩ := by
      rw [entries_of_unused, ← hactions, List.map_map]
      · rfl
      · intro p _ id hid
        rw [key, hscope] at hid
        cases hid
    rw [hentries]
    refine hcourse.tallied hs hname hsubject hpairwise ?_
    rw [List.forall₂_map_right_iff, List.forall₂_same]
    intro e he
    obtain ⟨n, hn, hkey⟩ := hkeys e he
    refine ⟨rfl, fun _ => ?_⟩
    rw [hkey, hprovides.unused n hn]
    simp

theorem run_run (policy : RetryPolicy) (b : Batch) (actions : List Action) (setting : Setting) :
    ∃ now later, (b.run policy actions).run setting =
        (⟨now, ((b.runFrom policy 0 actions).run setting).1⟩, later) ∧
      later.store = ((b.runFrom policy 0 actions).run setting).2.store := by
  refine ⟨_, _, Program.run_bind _ _ _, rfl⟩

end Batch

/-! ## Accounts have names -/

/-- Nobody without a name has an account. -/
theorem World.named_after (ttl : Int) (es : List Event) {subject : String}
    (h : ((initial ttl).after es).store.read? (accountKey subject) ≠ none) : subject ≠ "" := by
  rintro rfl
  refine h (induction_on_changes (P := fun s => s.read? (accountKey "") = none) ttl es rfl ?_)
  intro s t c ch _ _ hnone _ _ hmakes
  have hother : ∀ a : Account, a.subjectId ≠ "" → accountKey a.subjectId ≠ accountKey "" :=
    fun a ha => Collection.key_ne_of_id_ne ha
  cases ch with
  | opening a =>
    rw [hmakes.made, Store.read?_putAll_of_notMem, hnone]
    intro w hw
    rw [List.mem_singleton.1 hw]
    exact hother a hmakes.allowed.2.1
  | booking r id now parties origin =>
    rw [hmakes.made, Store.read?_putAll_of_notMem, hnone]
    intro w hw
    rcases List.mem_append.1 hw with hw | hw
    · obtain ⟨a, ha, rfl⟩ := List.mem_map.1 hw
      obtain ⟨a₀, hget, -⟩ := hmakes.allowed.moved a ha
      refine hother a fun hempty => ?_
      rw [hempty] at hget
      exact Store.present_of_get? hget hnone
    · rw [List.mem_singleton.1 hw]
      exact Collection.key_ne_of_ne (by decide)
  | queueing n origin | marking n | unlocking a index now | creating d r activity now
  | stepping step r a task evidence now | logging id e =>
    exact (hmakes.untouched (c := .accounts) (by simp [Change.collections]) "").trans hnone

/-! ## The running-balance law -/

/-- **Batches are tallied, and reruns after them.** In every state in which the subject has an
account, a batch that nobody interferes with has one result for each action, in order. The results
of its amounts and the balance afterwards are those of the running balance from the balance before,
where amounts that the ledger has on record are passed over; without a scope there are none.

When the keys of the scope are unused, a second run of the batch skips what succeeded in the first,
leaves every document as it is but the account of the subject and the transactions of amounts that
were refused, and tallies those again, from the balance that the first run has left. -/
theorem batches_are_tallied (ttl : Int) (es : List Event) {policy : RetryPolicy}
    {ritual subject : String} {trigger : Option TriggerKind} {scope : Option String}
    {actions : List Action} {setting : Setting}
    (hreached : setting.store = ((World.initial ttl).after es).store)
    (halone : setting.Undisturbed) (haccount : setting.store.read? (accountKey subject) ≠ none)
    (hids : scope = none → setting.Provides) :
    ∃ log after,
      ((Call.executeBatch ritual subject trigger scope actions).operation policy).run setting =
        (.ok log, after) ∧
      Tallied subject setting.store after.store
        (Batch.entries ⟨ritual, subject, trigger, scope.map .named⟩ setting.store actions)
        log.results ∧
      ((∀ name ∈ scope, ∀ p < actions.length,
          setting.store.read? (transactionKey ((Scope.named name).key p)) = none) →
        Tallied subject setting.store after.store (actions.map (⟨·, false⟩)) log.results ∧
        ∀ name ∈ scope, ∀ (policy' : RetryPolicy) (again : Setting), again.Undisturbed →
          again.store = after.store → ∃ log' last,
            ((Call.executeBatch ritual subject trigger scope actions).operation policy').run again =
              (.ok log', last) ∧
            Rerun (.named name) subject after.store last.store log.results log'.results) := by
  have hs : setting.store.Regular := by
    rw [hreached]
    exact World.regular_after ttl es
  have hname : subject ≠ "" := by
    rw [hreached] at haccount
    exact World.named_after ttl es haccount
  let b : Batch := ⟨ritual, subject, trigger, scope.map .named⟩
  have hcall : ∀ (policy : RetryPolicy) (s : Setting), ∃ now later,
      ((Call.executeBatch ritual subject trigger scope actions).operation policy).run s =
        (.ok ⟨now, ((b.runFrom policy 0 actions).run s).1⟩, later) ∧
      later.store = ((b.runFrom policy 0 actions).run s).2.store := by
    intro policy s
    obtain ⟨now, later, hrun, hstore⟩ := b.run_run policy actions s
    have hlift := Operation.run_lift (b.run policy actions) s
    rw [hrun] at hlift
    exact ⟨now, later, hlift, hstore⟩
  obtain ⟨now, after, hrun, hstore⟩ := hcall policy setting
  have htallied := @Batch.tallied_of_run policy b actions setting hs halone hname fun hnone =>
    hids (Option.map_eq_none_iff.1 hnone)
  rw [← hstore] at htallied
  refine ⟨_, after, hrun, htallied, fun hunused => ⟨?_, ?_⟩⟩
  · rw [b.entries_of_unused] at htallied
    · exact htallied
    · intro p hp key hkey
      obtain ⟨named, hnamed, rfl⟩ := Option.map_eq_some_iff.1 hkey
      obtain ⟨name, hname', rfl⟩ := Option.map_eq_some_iff.1 hnamed
      exact hunused name hname' p hp
  · intro name hname' policy' again halone' hsame
    obtain ⟨now', last, hrun', hstore'⟩ := hcall policy' again
    refine ⟨_, last, hrun', ?_⟩
    have hscope : b.scope = some (.named name) := congrArg (Option.map Scope.named) hname'
    have hfirst := @Batch.course_of_run_scoped policy b actions 0 setting _ hscope hs halone
    rw [← hstore] at hfirst
    have hsecond := @Batch.course_of_run_scoped policy' b actions 0 again _ hscope
      (hsame ▸ hfirst.regular hs) halone'
    rw [← hstore', hsame] at hsecond
    exact Batch.rerun hs hname (hunused name hname') hfirst hsecond

/-- A batch in which a penalty comes before the reward that covers it. -/
def overdraft : List Action := [.penalty 3, .reward 5, .notify "Well done"]

/-- In `walkStore` the penalty of `overdraft` is refused. In a rerun it is all that happens. -/
theorem overdraft_tallied_in_walk :
    ∃ (log log' : ActionLog) (after last : Setting),
      Tallied "ana" walkStore after.store (overdraft.map (⟨·, false⟩)) log.results ∧
      log.results.map (·.status.verdict) = [.refused, .granted, .granted] ∧
      Rerun (.named "week") "ana" after.store last.store log.results log'.results ∧
      log'.results.map (·.status.verdict) = [.granted, .passed, .passed] := by
  let call : Call := .executeBatch "" "ana" none (some "week") overdraft
  let start : Setting := .still walkStore ⟨1700000001, 0⟩
  have hverdicts :
      ((call.operation ⟨1⟩).run start).1.map (fun log => log.results.map (·.status.verdict)) =
        .ok [.refused, .granted, .granted] ∧
      ((call.operation ⟨1⟩).run ((call.operation ⟨1⟩).run start).2).1.map
        (fun log => log.results.map (·.status.verdict)) = .ok [.granted, .passed, .passed] := by
    decide +kernel
  have hstart : start.Undisturbed := Setting.undisturbed_still (by decide)
  obtain ⟨log, after, hrun, -, hrerun⟩ := @batches_are_tallied 0 walkBegun ⟨1⟩ "" "ana" none
    (some "week") overdraft start rfl hstart (by decide +kernel) nofun
  obtain ⟨htallied, hrerun⟩ := hrerun (by decide +kernel)
  have hcall : (call.operation ⟨1⟩).run start = (.ok log, after) := hrun
  have hafter : after.Undisturbed := by
    have hundisturbed := hstart.run (call.operation ⟨1⟩).program
    rw [Operation.run] at hcall
    rwa [hcall] at hundisturbed
  obtain ⟨log', last, hrun', hrerun⟩ := hrerun "week" rfl ⟨1⟩ after hafter rfl
  have hcall' : (call.operation ⟨1⟩).run after = (.ok log', last) := hrun'
  rw [hcall, hcall'] at hverdicts
  exact ⟨log, log', after, last, htallied, Except.ok.inj hverdicts.1, hrerun,
    Except.ok.inj hverdicts.2⟩

end RitualLedger
