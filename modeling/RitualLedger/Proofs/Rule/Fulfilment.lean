import RitualLedger.Proofs.Engine.Telling
import RitualLedger.Proofs.Rule.Unlocking

/-!
# Errands done among others

What was answered to an errand tells what is stored, also when others are at work: an errand that
was answered without an error is done, and stays done whatever happens (`Errand.Done`). Its
transaction or its message stays on record. Its task stays unlocked for as long as the subject
follows the ritual, so that the errand is settled then.

A batch reports on its errands in order (`Batch.keeps_run_reports`). Errands that are settled do
nothing when they are performed again, and are reported as before but for the status
(`Course.again`): an amount or a message is skipped then. A task that is unlocked already counts as
a success.
-/

namespace RitualLedger

open Ledger (transactionKey)

variable {s t u : Store} {policy : RetryPolicy} {refuses : StoreError → Prop} {e : Errand}
  {errands : List Errand} {results results' : List ActionResult}

/-- What is there stays there, whatever others do. -/
theorem Store.Regular.present_of_moves (hs : s.Regular) (hst : Rely.history.moves s t)
    {key : DocKey} (h : s.read? key ≠ none) : t.read? key ≠ none :=
  (hst.2 hs).present key h

/-! ## Single errands -/

namespace Errand

/-- The errand is done, for good: its transaction or its message is stored, or its task is unlocked
for as long as the subject follows the ritual. -/
def Done (e : Errand) (s : Store) : Prop :=
  e.Valid ∧ match e.action with
    | .reward _ | .penalty _ => s.read? (transactionKey e.key) ≠ none
    | .unlockTask index => s.HasUnlocked e.ritual e.subject index
    | .notify _ => s.read? (Notification.key e.key) ≠ none

/-- What is done stays done. -/
theorem Done.moved (h : e.Done s) (hs : s.Regular) (hst : Rely.history.moves s t) : e.Done t := by
  obtain ⟨hvalid, hdone⟩ := h
  refine ⟨hvalid, ?_⟩
  cases ha : e.action with
  | reward amount | penalty amount | notify message =>
    simp only [ha] at hdone
    exact hs.present_of_moves hst hdone
  | unlockTask index =>
    simp only [ha] at hdone
    exact hdone.moved hs hst

/-- What is done is settled, while the subject follows the ritual. -/
theorem Done.settled (h : e.Done s) (hassigned : s.IsAssigned e.subject e.ritual) :
    e.Settled s := by
  obtain ⟨-, hdone⟩ := h
  rw [Settled]
  cases ha : e.action with
  | reward amount | penalty amount | notify message =>
    simp only [ha] at hdone
    exact hdone
  | unlockTask index =>
    simp only [ha] at hdone
    obtain ⟨a, hget, hritual⟩ := hassigned
    exact ⟨a, hget, hritual, TaskSet.contains_iff.2 (hdone.2 a hget hritual)⟩

/-- An amount is done when its transaction is there. -/
theorem done_of_present {r : TransactionRequest} (hr : e.request? = some r) (hvalid : e.Valid)
    (hpresent : s.read? (transactionKey e.key) ≠ none) : e.Done s := by
  refine ⟨hvalid, ?_⟩
  rw [request?] at hr
  cases ha : e.action with
  | reward amount | penalty amount => exact hpresent
  | unlockTask index | notify message =>
    simp only [ha] at hr
    cases hr

/-- A result reports on an errand: it tells of an error, or the errand is done. -/
def Reports (e : Errand) (s : Store) (r : ActionResult) : Prop :=
  ∃ answer, r = e.result answer ∧
    ∀ effect, answer = .ok effect → e.Done s ∧ ∃ new, effect = e.effect new

theorem Reports.moved {r : ActionResult} (h : e.Reports s r) (hs : s.Regular)
    (hst : Rely.history.moves s t) : e.Reports t r := by
  obtain ⟨answer, hr, hdone⟩ := h
  refine ⟨answer, hr, fun effect heffect => ?_⟩
  obtain ⟨hdone, hnew⟩ := hdone effect heffect
  exact ⟨hdone.moved hs hst, hnew⟩

/-- An errand is done when all has gone well. -/
theorem Reports.done {r : ActionResult} (h : e.Reports s r) (hfine : r.IsFine) :
    e.Done s ∧ ∃ new, r = e.result (.ok (e.effect new)) := by
  obtain ⟨answer, rfl, htells⟩ := h
  obtain ⟨effect, rfl⟩ := isFine_result.1 hfine
  obtain ⟨hdone, new, rfl⟩ := htells effect rfl
  exact ⟨hdone, new, rfl⟩

/-! ## Executing an errand -/

/-- An amount that is granted is on record, now or before. -/
theorem keeps_book_done (hs : s.Regular) {r : TransactionRequest} (hr : e.request? = some r) :
    (ActionEffect.booked <$> Ledger.apply policy r).Keeps (.among .history refuses)
      (fun _ _ _ => True) (fun effect _ t => e.Done t ∧ ∃ new, effect = e.effect new) () s := by
  have hasks := asks_of_request? hr
  refine .map ?_
  have hcheck : (Operation.ofValidation r.validate).Keeps (.among .history refuses)
      (fun _ _ _ => True) (fun _ _ t => t = s ∧ e.Valid) () s :=
    .ofValidation (fun _ hvalid => ⟨rfl, hasks.valid.2 hvalid⟩) fun _ _ => trivial
  refine .bind hcheck ?_
  rintro _ _ s ⟨rfl, hvalid⟩
  have hid : (liftM (Ledger.idOr r.key) : Operation String).Keeps (.among .history refuses)
      (fun _ _ _ => True) (fun id _ t => t = s ∧ id = e.key) () s := by
    rw [hasks.key]
    exact .lift ⟨rfl, rfl⟩
  refine .bind hid ?_
  rintro _ _ s ⟨rfl, rfl⟩
  refine .bind .now ?_
  rintro now _ s₁ ⟨rfl, hs₁, hnow⟩
  refine .transact (fun _ _ _ _ _ _ => trivial) (fun _ _ _ _ => trivial) ?_ ?_
  · intro snapshot t plan ht hgathered hdecision hwrites
    obtain ⟨hhas, hresult⟩ := Ledger.replayed_of_decide hdecision hwrites
    have hpresent := hgathered.present (fun u hu => hu.2.le) List.mem_cons_self hhas
    rw [hresult]
    exact ⟨done_of_present hr hvalid hpresent, false, (hasks.effect false).symm⟩
  · intro t plan u ht hcommits hknown
    have hregular : t.Regular := ht.1.regular (hs₁.1.regular hs)
    obtain ⟨hresult, -, hpresent⟩ :=
      Ledger.receipt_of_commits hregular (hasks.valid.1 hvalid) hnow hcommits
    rw [hresult]
    exact ⟨(), trivial, done_of_present hr hvalid hpresent, true, (hasks.effect true).symm⟩

/-- A message is on record, now or before. -/
theorem keeps_notify_done {message : String} (ha : e.action = .notify message) :
    (ActionEffect.queued <$>
      Notification.enqueue policy e.subject message e.ritual (some e.key)).Keeps
      (.among .history refuses) (fun _ _ _ => True)
      (fun effect _ t => e.Done t ∧ ∃ new, effect = e.effect new) () s := by
  have hdone : ∀ {t : Store}, t.read? (Notification.key e.key) ≠ none → e.Done t := by
    intro t hpresent
    refine ⟨valid_of_request?_none ?_, ?_⟩
    · rw [request?, ha]
    · rw [ha]
      exact hpresent
  have heffect : ∀ new, e.effect new = .queued ⟨e.key, !new⟩ := by
    intro new
    rw [effect, ha]
  refine .map ?_
  rw [Notification.enqueue_given]
  refine .bind .now ?_
  rintro now _ s₁ ⟨rfl, hs₁, hnow⟩
  refine .transact (fun _ _ _ _ _ _ => trivial) (fun _ _ _ _ => trivial) ?_ ?_
  · intro snapshot t plan ht hgathered hdecision hwrites
    obtain ⟨hhas, hresult⟩ := Notification.has_of_writes hdecision hwrites
    rw [hresult]
    exact ⟨hdone (hgathered.present (fun u hu => hu.2.le) List.mem_cons_self hhas), false,
      (heffect false).symm⟩
  · intro t plan u ht hcommits hknown
    have hmakes := Notification.queueing_of_decide .supplied hnow trivial hcommits
    have hpresent : u.read? (Notification.key e.key) ≠ none :=
      Store.present_of_get? (hmakes.get?_written (List.mem_singleton.2 rfl) hmakes.allowed.1)
    rw [Notification.plan_of_writes hcommits.decided hcommits.writes]
    exact ⟨(), trivial, hdone hpresent, true, (heffect true).symm⟩

/-- **An errand that is answered without an error is done**, whatever others do. -/
theorem keeps_execute_done (hs : s.Regular) :
    (e.action.execute policy e.ritual e.subject (some e.key)).Keeps (.among .history refuses)
      (fun _ _ _ => True) (fun effect _ t => e.Done t ∧ ∃ new, effect = e.effect new) () s := by
  cases ha : e.action with
  | reward amount =>
    refine keeps_book_done hs ?_
    rw [request?, ha]
  | penalty amount =>
    refine keeps_book_done hs ?_
    rw [request?, ha]
  | notify message => exact keeps_notify_done ha
  | unlockTask index =>
    refine (Action.keeps_unlock hs).imp (fun _ _ _ h => h) ?_
    rintro _ _ t ⟨hunlocked, newly, rfl⟩
    refine ⟨⟨valid_of_request?_none ?_, ?_⟩, newly, ?_⟩
    · rw [request?, ha]
    · rw [ha]
      exact hunlocked
    · rw [effect, ha]

end Errand

/-! ## Batches -/

/-- Results report on errands, one for each. -/
def AllReport (s : Store) (errands : List Errand) (results : List ActionResult) : Prop :=
  List.Forall₂ (fun e r => e.Reports s r) errands results

theorem AllReport.moved (h : AllReport s errands results) (hs : s.Regular)
    (hst : Rely.history.moves s t) : AllReport t errands results :=
  List.Forall₂.imp (fun _ _ hreports => hreports.moved hs hst) h

namespace Batch

variable {b : Batch} {scope : Scope}

theorem keeps_runFrom_reports (hscope : b.scope = some scope) (hs : s.Regular) (position : Nat)
    (actions : List Action) : (b.runFrom policy position actions).Keeps (.among .history refuses)
      (fun results _ t => AllReport t (b.errands scope position actions) results) () s := by
  obtain ⟨ritual, subject, trigger, _⟩ := b
  obtain rfl := hscope
  induction actions generalizing position s with
  | nil => exact List.Forall₂.nil
  | cons a rest ih =>
    let e : Errand := ⟨ritual, subject, trigger, scope.key position, a⟩
    have hfirst : (a.execute policy ritual subject (some e.key)).program.Keeps
        (.among .history refuses) (fun answer _ t => e.Reports t (e.result answer)) () s := by
      refine Operation.Keeps.program ((e.keeps_execute_done hs).imp ?_ ?_)
      · exact fun error _ t _ => ⟨.error error, rfl, nofun⟩
      · rintro effect _ t hdone
        refine ⟨.ok effect, rfl, ?_⟩
        rintro _ ⟨⟩
        exact hdone
    refine Program.Keeps.bind (Program.Keeps.along hfirst) ?_
    rintro answer _ s₁ ⟨hanswer, hs₁⟩
    have hregular := hs₁.1.regular hs
    refine Program.Keeps.bind (Program.Keeps.along (ih hregular (position + 1))) ?_
    rintro results _ s₂ ⟨hresults, hs₂⟩
    exact .cons (hanswer.moved hregular hs₂) hresults

/-- **A batch reports on its errands in order.** -/
theorem keeps_run_reports (hscope : b.scope = some scope) (hs : s.Regular)
    (actions : List Action) : (b.run policy actions).Keeps (.among .history refuses)
      (fun log _ t => AllReport t (b.errands scope 0 actions) log.results) () s := by
  refine Program.Keeps.bind (Program.Keeps.along (keeps_runFrom_reports hscope hs 0 actions)) ?_
  rintro results _ s₁ ⟨hresults, hs₁⟩ s₂ now hs₂ -
  exact hresults.moved (hs₁.1.regular hs) hs₂

end Batch

/-! ## Performing errands again -/

/-- How an action that has gone well is reported when it is executed again. An amount or a message
is skipped; a task that is unlocked already is unlocked with success. -/
def ActionResult.again (r : ActionResult) : ActionResult :=
  match r.action with
  | .reward _ | .penalty _ | .notify _ => { r with status := .skipped "already applied" }
  | .unlockTask _ => { r with status := .success }

theorem Errand.result_effect_again (e : Errand) (new : Bool) :
    e.result (.ok (e.effect false)) = (e.result (.ok (e.effect new))).again := by
  obtain ⟨ritual, subject, trigger, key, action⟩ := e
  cases action <;> rfl

/-- What is executed again is skipped, unless it unlocks a task. -/
theorem ActionResult.status_again {r : ActionResult} :
    r.again.status = .skipped "already applied" ↔ ∀ index, r.action ≠ .unlockTask index := by
  obtain ⟨trigger, action, status, transactionId⟩ := r
  cases action with
  | unlockTask index => exact ⟨nofun, fun h => absurd rfl (h index)⟩
  | reward amount | penalty amount | notify message => exact ⟨fun _ => nofun, fun _ => rfl⟩

/-- **Errands that have gone well are reported again and do nothing.** -/
theorem Course.again (h : Course s errands results' u) (hreports : AllReport s errands results)
    (hfine : ∀ r ∈ results, r.IsFine)
    (hassigned : ∀ e ∈ errands, s.IsAssigned e.subject e.ritual) :
    u = s ∧ results' = results.map ActionResult.again := by
  induction h generalizing results with
  | done s =>
    cases hreports
    exact ⟨rfl, rfl⟩
  | next hfirst hrest ih =>
    cases hreports with
    | cons hreport hreports =>
      obtain ⟨hdone, new, rfl⟩ := hreport.done (hfine _ List.mem_cons_self)
      have hsettled := hdone.settled (hassigned _ List.mem_cons_self)
      obtain ⟨rfl, rfl⟩ := hfirst.of_settled hdone.1 hsettled
      obtain ⟨rfl, rfl⟩ := ih hreports (fun r hr => hfine r (List.mem_cons_of_mem _ hr))
        fun e he => hassigned e (List.mem_cons_of_mem _ he)
      refine ⟨rfl, ?_⟩
      rw [List.map_cons, Errand.result_effect_again _ new]

end RitualLedger
