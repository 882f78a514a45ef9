import RitualLedger.Proofs.Completion.Decision
import RitualLedger.Proofs.Engine.Footprint

/-!
# Operations keep to their footprints

What is asked for some people is done with the documents of these people. The ledger works on the
accounts of the parties, a step on the ritual and the assignment of its subject, and actions on the
account and the assignment of theirs; what they book and queue has the ids that they were given, or
ids that are drawn.

A step needs a look at the ritual before it is known whose it is. When it is another's, the subject
has no assignment to it, and the step fails whatever has become of the ritual meanwhile.
-/

namespace RitualLedger

open Text (IsUuid)

variable {f : Footprint} {s : Setting} {policy : RetryPolicy}

/-! ## The ledger -/

namespace Ledger

theorem idOr_minds {key : Option String} (hkey : ∀ id ∈ key, f.ids id) :
    (idOr key).Minds f (fun id _ => f.ids id) s := by
  cases key with
  | none => exact Program.Minds.freshId.imp fun _ _ h => h.1
  | some id => exact .pure (hkey id rfl)

/-- What a request writes it has read. -/
theorem mem_keys_of_decide {r : TransactionRequest} {id : String} {now : Instant} {store : Store}
    {plan : Plan Receipt} (hs : store.WellTyped) (hvalid : r.validate = .ok ())
    (h : decide r id now (.atOnce store (keys r id)) = .ok plan) {w : Write}
    (hw : w ∈ plan.writes) : w.key ∈ keys r id := by
  by_cases hnew : store.read? (transactionKey id) = none
  · obtain ⟨parties, hplanned⟩ := planned_of_decide hs hvalid hnew h
    rw [hplanned.writes] at hw
    rcases List.mem_append.1 hw with hw | hw
    · obtain ⟨a, ha, rfl⟩ := List.mem_map.1 hw
      refine List.mem_cons_of_mem _ (List.mem_map_of_mem ?_)
      exact hplanned.subjects ▸ List.mem_map_of_mem ha
    · obtain rfl := List.mem_singleton.1 hw
      exact List.mem_cons_self
  · rw [decide_of_present hnew] at h
    cases h
    cases hw

/-- A request works on the accounts of its parties. -/
theorem apply_minds {r : TransactionRequest}
    (hparties : ∀ x ∈ r.senderId.toList ++ r.receiverId.toList, x ∈ f.people)
    (hkey : ∀ id ∈ r.key, f.ids id) : (apply policy r).Minds f (fun _ _ => True) s := by
  refine .bind .ofValidation ?_
  rintro _ _ ⟨hvalid, rfl⟩
  refine .bind (.lift (idOr_minds hkey)) ?_
  intro id s hid
  refine .bind (.lift .now) ?_
  rintro now _ ⟨hnow, rfl⟩
  refine .transact ?_ ?_ ?_
  · intro _ key hmem
    rcases List.mem_cons.1 hmem with rfl | hmem
    · exact Footprint.owns_key.2 hid
    · obtain ⟨party, hparty, rfl⟩ := List.mem_map.1 hmem
      exact Footprint.owns_key.2 (hparties party hparty)
  · intro h plan hdecision
    exact ⟨fun w hw => mem_keys_of_decide h.reaches.regular.wellTyped hvalid hdecision hw,
      fun _ => trivial⟩
  · intro h plan t hcommits
    obtain ⟨parties, hmakes⟩ := booking_of_decide .supplied h.reaches.regular.wellTyped hvalid hnow
      trivial hcommits
    exact ⟨.booking r id now parties .supplied, hparties, hmakes⟩

end Ledger

/-! ## Notifications -/

theorem Notification.enqueue_minds {subject message ritual : String} {id : Option String}
    (hsubject : subject ∈ f.people) (hid : ∀ i ∈ id, f.ids i) :
    (enqueue policy subject message ritual id).Minds f (fun _ _ => True) s := by
  have hqueue : ∀ (i : String) (s : Setting), f.ids i →
      (queueUnder policy subject message ritual i).Minds f (fun _ _ => True) s := by
    intro i s hi
    refine .bind (.lift .now) ?_
    rintro now _ ⟨hnow, rfl⟩
    refine .transact ?_ ?_ ?_
    · intro _ key hkey
      rw [List.mem_singleton.1 hkey]
      exact Footprint.owns_key.2 hi
    · intro _ plan hdecision
      exact ⟨fun w hw => List.mem_singleton.2 (keys_of_decideQueueing hdecision w hw),
        fun _ => trivial⟩
    · intro _ plan t hcommits
      exact ⟨.queueing (about ritual subject message i now) .supplied, hsubject,
        queueing_of_decide .supplied hnow trivial hcommits⟩
  cases id with
  | some i =>
    rw [enqueue_given]
    exact hqueue i s (hid i rfl)
  | none =>
    rw [enqueue_drawn]
    exact .bind (.lift .freshId) fun i s' h => hqueue i s' h.1

/-! ## Actions -/

namespace Action

theorem unlock_minds {ritual subject : String} {index : UInt64} (hsubject : subject ∈ f.people) :
    (unlock policy ritual subject index).Minds f (fun _ _ => True) s := by
  rw [unlock_eq]
  refine .bind (.lift .now) ?_
  rintro now _ ⟨hnow, rfl⟩
  refine .transact ?_ ?_ ?_
  · intro _ key hkey
    rw [List.mem_singleton.1 hkey]
    exact Footprint.owns_key.2 hsubject
  · intro _ plan hdecision
    refine ⟨fun w hw => ?_, fun _ => trivial⟩
    obtain ⟨a, -, hdecision⟩ := ok_of_bind hdecision
    split at hdecision
    · cases hdecision
      cases hw
    · cases hdecision
      rw [List.mem_singleton.1 hw]
      exact List.mem_singleton_self _
  · intro h plan t hcommits
    obtain ⟨a, rfl, -, hmakes⟩ :=
      unlocking_of_decide h.reaches.regular.wellTyped hnow hcommits
    exact ⟨.unlocking a index now, hsubject, hmakes⟩

/-- An action works on the documents of its subject. -/
theorem execute_minds {a : Action} {ritual subject : String} {key : Option String}
    (hsubject : subject ∈ f.people) (hkey : ∀ id ∈ key, f.ids id) :
    (a.execute policy ritual subject key).Minds f (fun _ _ => True) s := by
  have hparty : ∀ x ∈ [subject], x ∈ f.people := fun x hx => List.mem_singleton.1 hx ▸ hsubject
  cases a with
  | reward amount => exact .map (Ledger.apply_minds hparty hkey)
  | penalty amount => exact .map (Ledger.apply_minds hparty hkey)
  | unlockTask index => exact unlock_minds hsubject
  | notify message => exact .map (Notification.enqueue_minds hsubject hkey)

end Action

namespace Batch

theorem runFrom_minds {b : Batch} {actions : List Action} {position : Nat}
    (hsubject : b.subject ∈ f.people) (hkeys : ∀ p, ∀ id ∈ b.key p, f.ids id) :
    (b.runFrom policy position actions).Minds f (fun _ _ => True) s := by
  induction actions generalizing position s with
  | nil => exact .pure trivial
  | cons a rest ih =>
    refine Program.Minds.bind (Action.execute_minds hsubject (hkeys position)) ?_
    intro answer s _
    exact ih.bind fun _ _ _ => .pure trivial

/-- A batch works on the documents of its subject, under the keys of its positions. -/
theorem run_minds {b : Batch} {actions : List Action} (hsubject : b.subject ∈ f.people)
    (hkeys : ∀ p, ∀ id ∈ b.key p, f.ids id) :
    (b.run policy actions).Minds f (fun _ _ => True) s :=
  (runFrom_minds hsubject hkeys).bind fun _ _ _ => Program.Minds.now.bind fun _ _ _ => .pure trivial

theorem run_minds_of_scope {b : Batch} {scope : Scope} {actions : List Action}
    (hscope : b.scope = some scope) (hsubject : b.subject ∈ f.people)
    (hkeys : ∀ p, f.ids (scope.key p)) : (b.run policy actions).Minds f (fun _ _ => True) s := by
  refine run_minds hsubject fun p id hid => ?_
  rw [key, hscope] at hid
  cases hid
  exact hkeys p

end Batch

/-! ## Rituals -/

namespace Ritual

theorem get_minds {id : String} (hclaims : f.Claims id) :
    (get id).Minds f (fun r s' => s' = s ∧ s.store.get? Ritual (key id) = some r) s := by
  refine .bind (.readRecord? fun h u hu => hu.read?_ritual h.reaches hclaims) ?_
  rintro x _ ⟨rfl, hx⟩
  cases x with
  | some r => exact .pure ⟨rfl, hx.symm⟩
  | none => exact .throw

theorem evaluate_minds {id : String} {t : Trigger} (hclaims : f.Claims id) :
    (evaluate id t).Minds f (fun _ s' => s' = s) s :=
  (get_minds hclaims).bind fun _ _ h => .pure h.1

end Ritual

theorem Assignment.find?_minds {subject : String} (hsubject : subject ∈ f.people) :
    (find? subject).Minds f
      (fun x s' => s' = s ∧ x = s.store.get? Assignment (key subject)) s :=
  .readRecord? fun _ _ hu => hu.same _ (Footprint.owns_key.2 hsubject)

/-! ## Completions -/

namespace Completion

variable {step : Step} {evidence : Evidence} {c : CompletionRecord}

theorem assignmentOf_minds (hsubject : step.subject ∈ f.people) :
    (assignmentOf step).Minds f (fun a s' => s' = s ∧ a.ritualId = step.ritual ∧
      s.store.get? Assignment (Assignment.key step.subject) = some a) s := by
  refine .bind (Assignment.find?_minds hsubject) ?_
  rintro x _ ⟨rfl, hx⟩
  cases x with
  | none => exact .throw
  | some a =>
    dsimp only
    split
    · rename_i hassigned
      exact .pure ⟨rfl, hassigned, hx.symm⟩
    · exact .throw

/-- What a step writes it has read. -/
theorem mem_stepKeys_of_decide {taskId : String} {now : Instant} {snapshot : Snapshot}
    {plan : Plan CompletionRecord} (h : decide step taskId evidence now snapshot = .ok plan)
    {w : Write} (hw : w ∈ plan.writes) : w.key ∈ stepKeys step taskId := by
  obtain ⟨r, a, task, hdecided⟩ := decided_of_decide h
  rw [hdecided.writes] at hw
  simp only [List.mem_cons, List.not_mem_nil, or_false] at hw
  rcases hw with rfl | rfl | rfl | rfl <;> simp [stepKeys, Write.key]

/-- A step in a ritual of the subject. -/
theorem takeStep_minds_of_claims (hsubject : step.subject ∈ f.people)
    (hclaims : f.Claims step.ritual) :
    (takeStep policy step evidence).Minds f
      (fun c _ => c.step = step ∧ IsUuid step.ritual) s := by
  refine .bind (Ritual.get_minds hclaims) ?_
  rintro r₀ s ⟨rfl, hr₀⟩
  refine .bind (assignmentOf_minds hsubject) ?_
  rintro a₀ s ⟨rfl, -, -⟩
  have haccept : (Operation.ofExcept (accept step evidence r₀ a₀)).Minds f
      (fun task s' => accept step evidence r₀ a₀ = .ok task ∧ s' = s) s :=
    .ofExcept fun task htask => ⟨htask, rfl⟩
  refine .bind haccept ?_
  rintro task₀ s ⟨haccepted, rfl⟩
  obtain ⟨-, htask₀, haccepts⟩ := accept_eq_ok_iff.1 haccepted
  refine .bind (.lift .now) ?_
  rintro now _ ⟨hnow, rfl⟩
  have huuid : f.Reaches s.store → IsUuid step.ritual ∧ IsUuid task₀.id := by
    intro h
    obtain ⟨hritual, htasks⟩ := h.regular.mirrored.uuid _ r₀ hr₀
    have hid : r₀.id = step.ritual := (h.regular.wellTyped.named (α := Ritual) hr₀).2
    exact ⟨hid ▸ hritual, htasks _ (List.mem_map_of_mem (List.mem_of_getElem? htask₀))⟩
  refine .transact ?_ ?_ ?_
  · intro h key hkey
    obtain ⟨hritual, htask⟩ := huuid h.reaches
    simp only [stepKeys, List.mem_cons, List.not_mem_nil, or_false] at hkey
    rcases hkey with rfl | rfl | rfl | rfl
    · exact h.reaches.owns_ritual hr₀ hclaims
    · exact Footprint.owns_key.2 hsubject
    · exact Footprint.owns_key.2 ⟨step, rfl, hritual, hsubject⟩
    · exact Footprint.owns_key.2 ⟨task₀.id, step.subject, rfl, htask, hsubject⟩
  · intro h plan hdecision
    obtain ⟨r, a, task, hdecided⟩ := decided_of_decide hdecision
    refine ⟨fun w hw => mem_stepKeys_of_decide hdecision hw, fun _ => ⟨?_, (huuid h.reaches).1⟩⟩
    rw [hdecided.result]
    rfl
  · intro h plan t hcommits
    have hterms : ∀ r, s.store.get? Ritual (Ritual.key step.ritual) = some r →
        r₀.terms = r.terms := by
      intro r hr
      cases hr₀.symm.trans hr
      rfl
    obtain ⟨r, a, task, hmakes, -⟩ := stepping_of_decide hnow htask₀ haccepts hterms hcommits
    exact ⟨.stepping step r a task evidence now, hsubject, hmakes⟩

/-- A step in another's ritual is refused, whatever has become of the ritual. -/
theorem takeStep_minds_of_foreign {post : CompletionRecord → Setting → Prop} {r₁ : Ritual}
    (hsubject : step.subject ∈ f.people)
    (hr₁ : f.start.get? Ritual (Ritual.key step.ritual) = some r₁)
    (hforeign : r₁.subjectId ∉ f.people) : (takeStep policy step evidence).Minds f post s := by
  refine Program.Minds.writing fun h =>
    ⟨.error (.notFound .assignment step.subject), [], ?_, by simp, h.reaches, fun u hu => ?_⟩
  · rintro c ⟨⟩
  obtain ⟨r, hr⟩ := hu.stored step.ritual r₁ hr₁
  have hget : (Ritual.get step.ritual).run { s with store := u } =
      (.ok r, { s with store := u }) := Operation.run_bind (Operation.run_readDocument_of_get? hr)
  have hfind : (Assignment.find? step.subject).run { s with store := u } =
      (.ok (s.store.get? Assignment (Assignment.key step.subject)), { s with store := u }) :=
    Operation.run_readRecord? h.reaches.regular.wellTyped
      (hu.same _ (Footprint.owns_key.2 hsubject))
  refine (Operation.run_bind hget).trans (Operation.run_bind_error ?_)
  refine (Operation.run_bind hfind).trans ?_
  cases ha : s.store.get? Assignment (Assignment.key step.subject) with
  | none => rfl
  | some a =>
    -- The ritual of the subject's assignment is the subject's own.
    have hother : a.ritualId ≠ step.ritual := by
      intro heq
      obtain ⟨r', hr', hfollows⟩ := h.reaches.regular.mirrored.assigned _ a ha
      have hnamed : a.subjectId = step.subject :=
        (h.reaches.regular.wellTyped.named (α := Assignment) ha).2
      have hsame : r'.subjectId = step.subject := hfollows.subject.symm.trans hnamed
      rw [heq] at hr'
      exact hforeign (h.reaches.claims hr' (hsame ▸ hsubject) r₁ hr₁)
    simp only [if_neg hother]
    rfl

/-- **A step keeps to the documents of its subject.** -/
theorem takeStep_minds (hsubject : step.subject ∈ f.people) :
    (takeStep policy step evidence).Minds f
      (fun c _ => c.step = step ∧ IsUuid step.ritual ∧ f.Claims step.ritual) s := by
  by_cases hclaims : f.Claims step.ritual
  · exact (takeStep_minds_of_claims hsubject hclaims).imp fun _ _ h => ⟨h.1, h.2, hclaims⟩
  · simp only [Footprint.Claims, not_forall] at hclaims
    obtain ⟨r₁, hr₁, hforeign⟩ := hclaims
    exact takeStep_minds_of_foreign hsubject hr₁ hforeign

theorem payReward_minds (hsubject : c.subjectId ∈ f.people)
    (hkeys : ∀ p, f.ids ((Scope.reward c.step).key p)) :
    (payReward policy c).Minds f (fun _ _ => True) s := by
  rw [payReward]
  split
  · exact .pure trivial
  · exact (Batch.run_minds_of_scope rfl hsubject hkeys).bind fun _ _ _ => .pure trivial

theorem fire_minds {t : Trigger} {scope : Scope} (hsubject : c.subjectId ∈ f.people)
    (hclaims : f.Claims c.ritualId) (hkeys : ∀ p, f.ids (scope.key p)) :
    (fire policy c t scope).Minds f (fun _ _ => True) s :=
  (Ritual.evaluate_minds hclaims).bind fun _ _ _ =>
    .lift (Batch.run_minds_of_scope rfl hsubject hkeys)

/-- What follows a step keeps to the documents of its subject. -/
theorem followUp_minds (hsubject : c.subjectId ∈ f.people) (hclaims : f.Claims c.ritualId)
    (hkeys : ∀ scope : Scope, scope.step? = some c.step → ∀ p, f.ids (scope.key p)) :
    (followUp policy c).Minds f (fun _ _ => True) s := by
  refine .bind (.lift (payReward_minds hsubject (hkeys _ rfl))) fun _ _ _ => ?_
  refine .bind (fire_minds hsubject hclaims (hkeys _ rfl)) fun _ _ _ => ?_
  split
  · exact (fire_minds hsubject hclaims (hkeys _ rfl)).bind fun _ _ _ => .pure trivial
  · exact .pure trivial

/-- **A completion keeps to the documents of its subject.** -/
theorem complete_minds (hsubject : step.subject ∈ f.people)
    (hkeys : ∀ scope : Scope, scope.step? = some step → scope.IsDerived →
      ∀ p, f.ids (scope.key p)) :
    (complete policy step evidence).Minds f (fun _ _ => True) s := by
  refine .bind (takeStep_minds hsubject) ?_
  rintro c s ⟨rfl, huuid, hclaims⟩
  exact followUp_minds hsubject hclaims fun scope hscope =>
    hkeys scope hscope (Scope.isDerived_of_step? hscope huuid)

end Completion

/-! ## Moods and streaks -/

/-- A signal keeps to the documents of its subject. -/
theorem Signal.fire_minds {subject : String} {t : Trigger} {scope : String → Scope}
    (hsubject : subject ∈ f.people)
    (hkeys : ∀ ritual, IsUuid ritual → ∀ p, f.ids ((scope ritual).key p)) :
    (fire policy subject t scope).Minds f (fun _ _ => True) s := by
  refine .bind (Assignment.find?_minds hsubject) ?_
  rintro x s ⟨rfl, hx⟩
  cases x with
  | none => exact .bind (.lift .now) fun _ _ _ => .pure trivial
  | some a =>
    intro h
    have hs := h.reaches.regular
    obtain ⟨r, hr, hfollows⟩ := hs.mirrored.assigned subject a hx.symm
    have hnamed : a.subjectId = subject := (hs.wellTyped.named (α := Assignment) hx.symm).2
    have hown : r.subjectId ∈ f.people := hfollows.subject ▸ hnamed ▸ hsubject
    have huuid : IsUuid a.ritualId := hfollows.ritual ▸ (hs.mirrored.uuid _ r hr).1
    have hactions : (do
        let actions ← Ritual.evaluate a.ritualId t
        let batch : Batch := ⟨a.ritualId, subject, some t.kind, some (scope a.ritualId)⟩
        let log ← (batch.run policy actions : Program _)
        pure ⟨some a.ritualId, log⟩ : Operation Response).Minds f (fun _ _ => True) s :=
      (Ritual.evaluate_minds (h.reaches.claims hr hown)).bind fun _ _ _ =>
        (Operation.Minds.lift (Batch.run_minds_of_scope rfl hsubject (hkeys _ huuid))).bind
          fun _ _ _ => .pure trivial
    exact hactions h

theorem Mood.log_minds {subject text : String} (hsubject : subject ∈ f.people)
    (hkeys : ∀ n, s.ids.drawn ≤ n → ∀ p, f.ids ((Scope.mood (s.ids.value n)).key p)) :
    (log policy subject text).Minds f (fun _ _ => True) s := by
  refine .bind .ofValidation ?_
  rintro mood s ⟨-, rfl⟩
  refine .bind (.lift .now) ?_
  rintro now _ ⟨hnow, rfl⟩
  refine .bind (.lift (.append hnow hsubject)) ?_
  rintro id s' rfl
  exact .bind (Signal.fire_minds hsubject fun _ _ => hkeys _ (le_refl _)) fun _ _ _ => .pure trivial

theorem Streak.report_minds {subject : String} {count : UInt32} (hsubject : subject ∈ f.people)
    (hkeys : ∀ ritual, IsUuid ritual → ∀ p, f.ids ((Scope.streak ritual subject count).key p)) :
    (report policy subject count).Minds f (fun _ _ => True) s :=
  .bind (Signal.fire_minds hsubject hkeys) fun _ _ _ => .pure trivial

end RitualLedger
