import RitualLedger.Proofs.Ritual.Conduct
import RitualLedger.Proofs.Rule.Conduct

/-!
# What signals do to the store

A mood is logged under a drawn id, and its entry lasts; so the actions of a mood are due under the
id of the entry. The actions of a streak are due by the conditions alone.
-/

namespace RitualLedger

open Batch (MayRun)

variable {may : Change → Prop} {v : View} {policy : RetryPolicy}

/-- A signal runs in the ritual that the subject is assigned to when it is fired. -/
theorem Signal.fire_ensures {subject : String} {t : Trigger} {scope : String → Scope}
    (hmay : ∀ ritual, MayRun may (scope ritual))
    (hdue : ∀ v', v.LeadsTo v' → ∀ ritual j a, Asked v'.store ritual t j a →
      Due v'.store (scope ritual) j ritual subject a) :
    (fire policy subject t scope).Ensures may (fun _ _ => True) v := by
  have hfind : (Assignment.find? subject).Ensures may (fun _ v' => v.LeadsTo v') v :=
    .readDocument? fun v' hv => hv
  refine .bind hfind ?_
  rintro (_ | a) v₁ hv₁
  · exact .bind .now fun _ _ _ => .pure trivial
  · refine .bind Ritual.evaluate_ensures ?_
    rintro actions v₂ ⟨hv₂, hasked⟩
    let batch : Batch := ⟨a.ritualId, subject, some t.kind, some (scope a.ritualId)⟩
    have hrun : (batch.run policy actions).Ensures may (fun _ _ => True) v₂ := by
      refine Batch.run_ensures_of_due rfl (hmay a.ritualId) ?_
      intro j action haction
      exact hdue v₂ (hv₁.trans hv₂) _ j action (hasked j action haction)
    exact .followed (.lift hrun) fun _ _ => .pure trivial

namespace Mood

theorem log_ensures {subject text : String}
    (hmay : ∀ id (e : MoodEntry), e.subjectId = subject → may (.logging id e))
    (hrun : ∀ id, MayRun may (.mood id)) :
    (log policy subject text).Ensures may (fun _ _ => True) v := by
  have hread : (Operation.ofValidation (read text)).Ensures may (fun _ _ => True) v :=
    .ofExcept fun _ _ => trivial
  refine .followed hread ?_
  intro mood v₀
  refine .bind .now ?_
  rintro now v₁ ⟨-, hnow⟩
  -- The entry is stored under the id that is answered.
  have happend : (liftM (Request.append Collection.moods.name
      (encode (⟨subject, mood, now⟩ : MoodEntry))) : Operation String).Ensures may
        (fun id v' => v'.store.get? MoodEntry (Collection.moods.key id) =
          some ⟨subject, mood, now⟩) v₁ := by
    refine .lift ?_
    intro v' id hv hfresh
    have hmakes : (Change.logging id ⟨subject, mood, now⟩).Makes v'.store
        (v'.store.put (Collection.moods.key id) (encode (⟨subject, mood, now⟩ : MoodEntry))) :=
      ⟨⟨hnow, hfresh.uuid, hfresh.unused⟩, rfl⟩
    refine ⟨⟨_, hmay id _ rfl, ?_, hmakes⟩, Store.get?_put_self hnow⟩
    intro i hi
    rw [List.mem_singleton.1 hi]
    exact List.mem_cons_self
  refine .bind happend ?_
  intro id v₂ hentry
  refine .followed (Signal.fire_ensures (fun _ => hrun id) ?_) fun _ _ => .pure trivial
  intro v' hv ritual j a hasked
  exact ⟨_, hv.evolves.get? rfl hentry, rfl, hasked⟩

theorem ask_ensures {subject : String} : (ask subject).Ensures may (fun _ _ => True) v := by
  refine .bind .now ?_
  intro now v₁ _
  exact .followed (.lift fun _ _ => trivial) fun _ _ => .pure trivial

theorem reply_ensures {subject text : String}
    (hmay : ∀ id (e : MoodEntry), e.subjectId = subject → may (.logging id e))
    (hrun : ∀ id, MayRun may (.mood id)) :
    (reply policy subject text).Ensures may (fun _ _ => True) v := by
  have htake : (liftM (Request.takePrompt subject) : Operation _).Ensures may
      (fun _ _ => True) v := .lift fun _ _ _ => trivial
  refine .followed htake ?_
  rintro (_ | prompt) v'
  · exact .pure trivial
  · exact .map (log_ensures hmay hrun)

end Mood

theorem Streak.report_ensures {subject : String} {count : UInt32}
    (hrun : ∀ ritual, MayRun may (.streak ritual subject count)) :
    (report policy subject count).Ensures may (fun _ _ => True) v := by
  refine .followed (Signal.fire_ensures hrun ?_) fun _ _ => .pure trivial
  intro v' hv ritual j a hasked
  exact ⟨rfl, rfl, hasked⟩

end RitualLedger
