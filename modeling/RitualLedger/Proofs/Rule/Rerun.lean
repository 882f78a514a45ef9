import RitualLedger.Proofs.Rule.Tally

/-!
# Reruns

When a batch is run again in its scope, each errand has its turn for a second time. What was done is
settled, and what could not be unlocked still cannot be. So nothing happens but that amounts which
were refused are tried again, on the balance that is there now.

`Batch.rerun` says so of two courses, one after the other. That an errand has nothing to do is an
invariant (`Errand.Idle`): an errand has nothing to do after its turn, unless it is an amount that
was refused (`Course.idle_or_refused`), and no errand gives another something to do.
-/

namespace RitualLedger

open Ledger (transactionKey accountKey)

/-! ## Turns -/

namespace Errand

variable {e e' : Errand} {s t : Store} {answer : Except EngineError ActionEffect}

/-- The errand has nothing to do: it is done, or it cannot be done for want of an assignment. -/
def Idle (e : Errand) (s : Store) : Prop :=
  e.Valid ∧ e.Settled s ∨ (∃ index, e.action = .unlockTask index) ∧ ¬ e.Possible s

/-- An errand that has nothing to do does nothing. -/
theorem Performs.of_idle (h : e.Performs s answer t) (hidle : e.Idle s) : t = s := by
  cases h with
  | again | refused => rfl
  | anew hvalid hnew hpossible h =>
    rcases hidle with ⟨-, hsettled⟩ | ⟨-, himpossible⟩
    · exact absurd hsettled hnew
    · exact absurd hpossible himpossible

/-- No errand gives an errand that has nothing to do something to do. -/
theorem Idle.performs (hidle : e.Idle s) (h : e'.Performs s answer t) (hs : s.Regular) :
    e.Idle t := by
  cases h with
  | again | refused => exact hidle
  | anew hvalid hnew hpossible h =>
    rcases hidle with ⟨hvalid, hsettled⟩ | ⟨⟨index, ha⟩, himpossible⟩
    · exact .inl ⟨hvalid, hsettled.made h hs⟩
    · refine .inr ⟨⟨index, ha⟩, fun hpossible => himpossible ?_⟩
      rw [Possible, ha] at hpossible ⊢
      obtain ⟨a, hget, hritual⟩ := hpossible
      rcases h.assignment_cases hs e.subject with hsame | ⟨a', index, now, hget', hunlocked⟩
      · exact ⟨a, hsame.symm.trans hget, hritual⟩
      · cases hunlocked.symm.trans hget
        exact ⟨a', hget', hritual⟩

/-- After its turn an errand has nothing to do, unless it is an amount that was refused. -/
theorem Performs.idle_or_refused (h : e.Performs s answer t) (hs : s.Regular) :
    e.Idle t ∨ e.action.isAmount = true ∧ (e.result answer).status.verdict = .refused := by
  cases answer with
  | ok effect => exact .inl (.inl (h.settled hs))
  | error error =>
    cases h with
    | refused _ h =>
      cases ha : e.action with
      | reward amount | penalty amount => exact .inr ⟨rfl, rfl⟩
      | unlockTask index =>
        refine .inl (.inr ⟨⟨index, ha⟩, ?_⟩)
        rcases h with hinvalid | ⟨-, himpossible⟩
        · exact absurd (valid_of_request?_none (by rw [request?, ha])) hinvalid
        · exact himpossible
      | notify message =>
        rcases h with hinvalid | ⟨-, himpossible⟩
        · exact absurd (valid_of_request?_none (by rw [request?, ha])) hinvalid
        · exact absurd (by rw [Possible, ha]; trivial) himpossible

/-- An amount writes its transaction and the account of its subject. -/
theorem Performs.read?_of_amount (h : e.Performs s answer t) (hamount : e.action.isAmount = true)
    {key : DocKey} (htransaction : key ≠ transactionKey e.key)
    (haccount : key ≠ accountKey e.subject) : t.read? key = s.read? key := by
  cases h with
  | again | refused => rfl
  | anew hvalid hnew hpossible h =>
    cases h with
    | booked r now parties hr h =>
      rw [h.made]
      refine Store.read?_putAll_of_notMem ?_
      intro w hw
      rcases List.mem_append.1 hw with hw | hw
      · obtain ⟨party, hparty, rfl⟩ := List.mem_map.1 hw
        have hsubject : party.subjectId ∈ r.senderId.toList ++ r.receiverId.toList := by
          rw [← h.allowed.subjects]
          exact List.mem_map_of_mem hparty
        have hname : party.subjectId = e.subject := by
          rw [request?] at hr
          cases ha : e.action with
          | reward amount | penalty amount =>
            simp only [ha] at hr
            cases hr
            exact List.mem_singleton.1 hsubject
          | unlockTask index | notify message => simp [ha, Action.isAmount] at hamount
        rw [hname]
        exact haccount.symm
      · rw [List.mem_singleton.1 hw]
        exact htransaction.symm
    | queued message now ha h => simp [ha, Action.isAmount] at hamount
    | unlocked index now a ha hsubject hritual h => simp [ha, Action.isAmount] at hamount

end Errand

namespace Course

variable {s t u : Store} {errands : List Errand} {results results' : List ActionResult}
  {e : Errand} {p : Nat}

/-- Every errand of a course has its turn. -/
theorem turn (h : Course s errands results t) (he : errands[p]? = some e) :
    ∃ before after first last v w answer, errands = before ++ e :: after ∧
      Course s before first v ∧ e.Performs v answer w ∧ Course w after last t ∧
      results[p]? = some (e.result answer) := by
  induction h generalizing p with
  | done s => simp at he
  | @next s v t e' answer rest results hfirst hrest ih =>
    cases p with
    | zero =>
      cases he
      exact ⟨[], rest, [], results, s, v, answer, rfl, .done s, hfirst, hrest, rfl⟩
    | succ p =>
      obtain ⟨before, after, first, last, v', w, answer', rfl, hbefore, hperforms, hafter,
        hresult⟩ := ih he
      exact ⟨e' :: before, after, _, last, v', w, answer', rfl, .next hfirst hbefore, hperforms,
        hafter, hresult⟩

theorem length_eq (h : Course s errands results t) : results.length = errands.length := by
  induction h with
  | done s => rfl
  | next hfirst hrest ih => rw [List.length_cons, List.length_cons, ih]

/-- Errands touch no transaction but their own. -/
theorem transaction_of_ne (h : Course s errands results t) {id : String}
    (hid : ∀ e ∈ errands, id ≠ e.key) :
    t.read? (transactionKey id) = s.read? (transactionKey id) := by
  induction h with
  | done s => rfl
  | next hfirst hrest ih =>
    rw [ih fun e he => hid e (List.mem_cons_of_mem _ he),
      hfirst.transaction_of_ne fun _ => hid _ List.mem_cons_self]

theorem stillIdle (h : Course s errands results t) (hs : s.Regular) (hidle : e.Idle s) :
    e.Idle t := by
  induction h with
  | done s => exact hidle
  | next hfirst hrest ih => exact ih (hfirst.regular hs) (hidle.performs hfirst hs)

/-- After a course an errand has nothing to do, unless it is an amount that was refused. -/
theorem idle_or_refused (h : Course s errands results t) (hs : s.Regular)
    (he : errands[p]? = some e) : e.Idle t ∨ e.action.isAmount = true ∧
      ∃ r, results[p]? = some r ∧ r.status.verdict = .refused := by
  obtain ⟨before, after, first, last, v, w, answer, -, hbefore, hperforms, hafter, hresult⟩ :=
    h.turn he
  have hv := hbefore.regular hs
  rcases hperforms.idle_or_refused hv with hidle | ⟨hamount, hrefused⟩
  · exact .inl (hafter.stillIdle (hperforms.regular hv) hidle)
  · exact .inr ⟨hamount, _, hresult, hrefused⟩

/-- **Errands that have nothing to do leave all documents alone**, and amounts all but their
transactions and the accounts of their subjects. -/
theorem untouched (h : Course s errands results t) (hs : s.Regular) {key : DocKey}
    (hkey : ∀ e ∈ errands, e.Idle s ∨ e.action.isAmount = true ∧ key ≠ transactionKey e.key ∧
      key ≠ accountKey e.subject) : t.read? key = s.read? key := by
  induction h with
  | done s => rfl
  | @next s u t e answer rest results hfirst hrest ih =>
    have hsame : u.read? key = s.read? key := by
      rcases hkey e List.mem_cons_self with hidle | ⟨hamount, htransaction, haccount⟩
      · rw [hfirst.of_idle hidle]
      · exact hfirst.read?_of_amount hamount htransaction haccount
    rw [← hsame]
    refine ih (hfirst.regular hs) fun e' he' => ?_
    exact (hkey e' (List.mem_cons_of_mem _ he')).imp (·.performs hfirst hs) id

/-- After a course without a transaction of the errand before it, the errand is on record when its
amount was granted. -/
theorem onRecord_iff (h : Course s errands results t) (hs : s.Regular)
    (hkeys : (errands.map (·.key)).Nodup) (he : errands[p]? = some e)
    (hamount : e.action.isAmount = true) (hunused : s.read? (transactionKey e.key) = none)
    {r : ActionResult} (hr : results[p]? = some r) :
    r.status.verdict = .granted ↔ t.read? (transactionKey e.key) ≠ none := by
  obtain ⟨before, after, first, last, v, w, answer, rfl, hbefore, hperforms, hafter, hresult⟩ :=
    h.turn he
  cases hr.symm.trans hresult
  rw [List.map_append, List.map_cons] at hkeys
  obtain ⟨-, hlater, hearlier⟩ := List.nodup_append.1 hkeys
  obtain ⟨request, hrequest⟩ := Errand.exists_request hamount
  have hsettled := (Errand.asks_of_request? hrequest).settled
  have hv := hbefore.regular hs
  have hnew : v.read? (transactionKey e.key) = none := by
    rw [hbefore.transaction_of_ne, hunused]
    intro e' he' heq
    exact hearlier _ (List.mem_map_of_mem he') _ List.mem_cons_self heq.symm
  cases hperforms with
  | again hvalid hold => exact absurd hnew ((hsettled v).1 hold)
  | refused error h =>
    refine ⟨nofun, fun hpresent => absurd ?_ hpresent⟩
    rw [hafter.transaction_of_ne, hnew]
    intro e' he' heq
    exact (List.nodup_cons.1 hlater).1 (heq ▸ List.mem_map_of_mem he')
  | anew hvalid hunsettled hpossible h =>
    refine ⟨fun _ => ?_, fun _ => ?_⟩
    · exact (hsettled t).1 (hafter.stillSettled (h.regular hv) (h.settled hv))
    · rw [Errand.status_of_amount hamount]
      rfl

end Course

/-! ## Reruns -/

/-- What a second run of a batch comes to, by the results of the first one. -/
structure Rerun (scope : Scope) (subject : String) (t u : Store)
    (results results' : List ActionResult) : Prop where
  /-- An amount or a message that succeeded is skipped; an amount names its transaction. -/
  skipped : ∀ (p : Nat) (r : ActionResult), results[p]? = some r → r.status = .success →
    (∀ index, r.action ≠ .unlockTask index) →
      results'[p]? = some { r with status := .skipped "already applied" } ∧
        (r.action.isAmount = true → r.transactionId = some (scope.key p))
  /-- Nothing is written but the account and the transactions of amounts that were refused. -/
  untouched : ∀ key, key ≠ accountKey subject →
    (∀ (p : Nat) (r : ActionResult), results[p]? = some r → r.action.isAmount = true →
      r.status.verdict = .refused → key ≠ transactionKey (scope.key p)) →
      u.read? key = t.read? key
  /-- What was not granted is tallied again. -/
  retried : Tallied subject t u
    (results.map fun r => ⟨r.action, r.status.verdict = .granted⟩) results'

/-- An amount or a message that was done before is reported like a new one but for its status. -/
theorem Errand.result_again {e : Errand} (hlock : ∀ index, e.action ≠ .unlockTask index) :
    e.result (.ok (e.effect false)) =
      { e.result (.ok (e.effect true)) with status := .skipped "already applied" } := by
  obtain ⟨ritual, subject, trigger, key, action⟩ := e
  cases action with
  | unlockTask index => exact absurd rfl (hlock index)
  | reward amount | penalty amount | notify message => rfl

theorem Errand.Performs.effect_of_success {e : Errand} {s t : Store}
    {answer : Except EngineError ActionEffect} (h : e.Performs s answer t)
    (hlock : ∀ index, e.action ≠ .unlockTask index)
    (hsuccess : (e.result answer).status = .success) : answer = .ok (e.effect true) := by
  cases h with
  | again hvalid hsettled =>
    rw [result_again hlock] at hsuccess
    cases hsuccess
  | refused error h => cases hsuccess
  | anew => rfl

namespace Batch

variable {b : Batch} {scope : Scope} {actions : List Action} {s t u : Store}
  {results results' : List ActionResult}

theorem errands_getElem? (b : Batch) (scope : Scope) (actions : List Action) (p : Nat) :
    (b.errands scope 0 actions)[p]? =
      actions[p]?.map fun a => ⟨b.ritual, b.subject, b.trigger, scope.key p, a⟩ := by
  rw [errands, List.getElem?_map, List.getElem?_zipIdx, Option.map_map, Nat.zero_add]
  rfl

/-- Every result of a batch is that of the errand at its position. -/
theorem errand_of_result (h : Course s (b.errands scope 0 actions) results t) {p : Nat}
    {r : ActionResult} (hr : results[p]? = some r) : ∃ e : Errand,
      (b.errands scope 0 actions)[p]? = some e ∧ e.key = scope.key p ∧ e.subject = b.subject ∧
        e.action = r.action ∧ p < actions.length := by
  have hlength : results.length = actions.length := by
    rw [h.length_eq, errands, List.length_map, List.length_zipIdx]
  have hp : p < actions.length := hlength ▸ (List.getElem?_eq_some_iff.1 hr).1
  have he := errands_getElem? b scope actions p
  rw [List.getElem?_eq_getElem hp] at he
  refine ⟨_, he, rfl, rfl, ?_, hp⟩
  obtain ⟨_, _, _, _, _, _, answer, -, -, -, -, hresult⟩ := h.turn he
  cases hr.symm.trans hresult
  cases answer <;> rfl

/-- What a batch has granted, the same batch skips when it is run again. -/
theorem skipped_of_rerun (hs : s.Regular) (h : Course s (b.errands scope 0 actions) results t)
    (h' : Course t (b.errands scope 0 actions) results' u) {p : Nat} {r : ActionResult}
    (hr : results[p]? = some r) (hsuccess : r.status = .success)
    (hlock : ∀ index, r.action ≠ .unlockTask index) :
    results'[p]? = some { r with status := .skipped "already applied" } ∧
      (r.action.isAmount = true → r.transactionId = some (scope.key p)) := by
  have ht := h.regular hs
  obtain ⟨e, he, hkey, -, haction, -⟩ := errand_of_result h hr
  rw [← haction] at hlock
  obtain ⟨_, _, _, _, v, w, answer, -, hbefore, hperforms, hafter, hresult⟩ := h.turn he
  have hv := hbefore.regular hs
  cases hr.symm.trans hresult
  obtain rfl := hperforms.effect_of_success hlock hsuccess
  obtain ⟨hvalid, hsettled⟩ := hperforms.settled hv
  obtain ⟨_, _, _, _, v', w', answer', -, hbefore', hperforms', -, hresult'⟩ := h'.turn he
  have hsettled' := hbefore'.stillSettled ht (hafter.stillSettled (hperforms.regular hv) hsettled)
  obtain ⟨rfl, -⟩ := hperforms'.of_settled hvalid hsettled'
  refine ⟨by rw [hresult', Errand.result_again hlock], fun hamount => ?_⟩
  rw [← haction] at hamount
  obtain ⟨request, hrequest⟩ := Errand.exists_request hamount
  rw [(Errand.asks_of_request? hrequest).effect, ← hkey]
  rfl

/-- A batch that is run again leaves alone what belongs to no amount that was refused. -/
theorem untouched_of_rerun (hs : s.Regular) (h : Course s (b.errands scope 0 actions) results t)
    (h' : Course t (b.errands scope 0 actions) results' u) {key : DocKey}
    (haccount : key ≠ accountKey b.subject)
    (htransaction : ∀ (p : Nat) (r : ActionResult), results[p]? = some r →
      r.action.isAmount = true → r.status.verdict = .refused → key ≠ transactionKey (scope.key p)) :
    u.read? key = t.read? key := by
  refine h'.untouched (h.regular hs) fun e he => ?_
  obtain ⟨p, hp⟩ := List.mem_iff_getElem?.1 he
  refine (h.idle_or_refused hs hp).imp id ?_
  rintro ⟨hamount, r, hr, hrefused⟩
  obtain ⟨e', he', hkey, hsubject, haction, -⟩ := errand_of_result h hr
  cases hp.symm.trans he'
  refine ⟨hamount, ?_, by rw [hsubject]; exact haccount⟩
  rw [hkey]
  exact htransaction p r hr (haction ▸ hamount) hrefused

/-- **A batch that is run again tries again what was refused, and does nothing else.** -/
theorem rerun (hs : s.Regular) (hname : b.subject ≠ "")
    (hunused : ∀ p < actions.length, s.read? (transactionKey (scope.key p)) = none)
    (h : Course s (b.errands scope 0 actions) results t)
    (h' : Course t (b.errands scope 0 actions) results' u) :
    Rerun scope b.subject t u results results' := by
  have hkeys := nodup_keys b scope 0 actions
  refine ⟨fun p r hr => skipped_of_rerun hs h h' hr,
    fun key => untouched_of_rerun hs h h', ?_⟩
  refine h'.tallied (h.regular hs) hname ?_ ?_ ?_
  · intro e he
    obtain ⟨x, -, rfl⟩ := List.mem_map.1 he
    rfl
  · exact (List.pairwise_map.1 hkeys).imp fun hne _ => hne.symm
  · -- An amount counts as on record when the first run has granted it.
    rw [List.forall₂_map_right_iff, List.forall₂_iff_get]
    refine ⟨h.length_eq.symm, fun p hp hr => ?_⟩
    have hr' : results[p]? = some results[p] := List.getElem?_eq_getElem hr
    obtain ⟨e, he, hkey, -, haction, hp'⟩ := errand_of_result h hr'
    have heq : (b.errands scope 0 actions).get ⟨p, hp⟩ = e := by
      rw [List.get_eq_getElem]
      exact Option.some.inj ((List.getElem?_eq_getElem hp).symm.trans he)
    rw [heq]
    refine ⟨haction.symm, fun hamount => ?_⟩
    rw [List.get_eq_getElem, decide_eq_true_iff]
    exact h.onRecord_iff hs hkeys he hamount (hkey ▸ hunused p hp') hr'

end Batch

end RitualLedger
