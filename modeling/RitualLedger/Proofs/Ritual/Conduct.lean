import RitualLedger.Proofs.Engine.Guarantee

/-!
# What the creation of a ritual does to the store

The creation draws an id for the ritual and one for each task before it commits. In between others
may create rituals too; but they do not use the ids that this client has drawn, so at the commit
they are still free.
-/

namespace RitualLedger

variable {may : Change → Prop} {v v' : View} {policy : RetryPolicy} {ids : List String}

/-- Different ids that a client has drawn and that are not in use. -/
structure Reserved (v : View) (ids : List String) : Prop where
  distinct : ids.Nodup
  own : ∀ id ∈ ids, id ∈ v.own
  unused : ∀ id ∈ ids, Text.IsUuid id ∧ v.store.Unused id

theorem Reserved.leadsTo (h : Reserved v ids) (hv : v.LeadsTo v') : Reserved v' ids where
  distinct := h.distinct
  own id hid := by
    rw [hv.own]
    exact h.own id hid
  unused id hid :=
    ⟨(h.unused id hid).1, hv.evolves.spared id (h.own id hid) (h.unused id hid).2⟩

theorem Reserved.draw {id : String} (h : Reserved v ids) (hfresh : v.Fresh id) :
    Reserved (v.draw id) (id :: ids) where
  distinct := List.nodup_cons.2 ⟨fun hid => hfresh.notOwn (h.own id hid), h.distinct⟩
  own i hi := by
    rcases List.mem_cons.1 hi with rfl | hi
    · exact List.mem_cons_self
    · exact List.mem_cons_of_mem _ (h.own i hi)
  unused i hi := by
    rcases List.mem_cons.1 hi with rfl | hi
    · exact ⟨hfresh.uuid, hfresh.unused⟩
    · exact h.unused i hi

theorem Reserved.perm {ids' : List String} (h : Reserved v ids) (hperm : ids.Perm ids') :
    Reserved v ids' where
  distinct := hperm.nodup_iff.1 h.distinct
  own id hid := h.own id (hperm.mem_iff.2 hid)
  unused id hid := h.unused id (hperm.mem_iff.2 hid)

namespace Ritual

/-- The tasks of a definition get ids that are reserved for them. -/
theorem drawTasks_ensures {order : Nat} {ts : List TaskDefinition} (h : Reserved v ids) :
    (drawTasks order ts).Ensures may (fun tasks v' =>
      Reserved v' (tasks.map (·.id) ++ ids) ∧ tasks.length = ts.length ∧
        tasks = begun order ts (tasks.map (·.id))) v := by
  induction ts generalizing order ids v with
  | nil => exact ⟨h, rfl, rfl⟩
  | cons t rest ih =>
    intro u id hu hfresh
    have hdrawn := (h.leadsTo hu).draw hfresh
    change Program.Ensures may _ ((drawTasks (order + 1) rest).bind _) _
    refine Program.Ensures.bind (ih hdrawn) ?_
    rintro tasks u' ⟨hreserved, hlength, htasks⟩
    refine ⟨hreserved.perm ?_, by rw [List.length_cons, hlength, List.length_cons], ?_⟩
    · exact List.perm_middle
    · rw [List.map_cons, begun, List.zip_cons_cons, List.zipIdx_cons, List.map_cons]
      exact congrArg _ htasks

/-- What a decision to create is. -/
theorem creating_of_decide {d : Definition} {r : Ritual} {activity : String} {now : Instant}
    {store t : Store} {plan : Plan Ritual} (hvalid : d.validate = .ok ())
    (hfew : d.tasks.length < 2 ^ 63) (hfits : Fits now) (hstart : r = start d r.id r.tasks now)
    (htasks : r.tasks = begun 0 d.tasks (r.tasks.map (·.id)))
    (hcount : r.tasks.length = d.tasks.length)
    (hdistinct : (r.id :: r.tasks.map (·.id)).Nodup)
    (hunused : ∀ id ∈ r.id :: r.tasks.map (·.id), Text.IsUuid id ∧ store.Unused id)
    (h : Commits (creationKeys r) (decideCreation r activity now) store plan t) :
    (Change.creating d r activity now).Makes store t := by
  have hdecided := h.decided
  rw [decideCreation, Snapshot.has_atOnce (by simp [creationKeys]),
    Snapshot.has_atOnce (by simp [creationKeys])] at hdecided
  split at hdecided
  · cases hdecided
  · rename_i howner
    split at hdecided
    · cases hdecided
    · rename_i hsubject
      cases hdecided
      have hnew := Store.absent_of_insert h.applied (List.mem_cons_self)
      have hnewActivity := Store.absent_of_insert h.applied
        (List.mem_cons_of_mem _ (List.mem_cons_of_mem _ List.mem_cons_self))
      refine ⟨⟨hvalid, hfew, hfits, hstart, htasks, hcount, hdistinct, hunused, hnew, ?_, ?_,
        hnewActivity⟩, Store.apply_eq_putAll h.applied⟩
      · intro habsent
        rw [habsent] at howner
        exact howner rfl
      · intro habsent
        rw [habsent] at hsubject
        exact hsubject rfl

theorem create_ensures {d : Definition} (hfew : d.tasks.length < 2 ^ 63)
    (hmay : ∀ r activity now, may (.creating d r activity now)) :
    (create policy d).Ensures may (fun _ _ => True) v := by
  refine .bind .ofValidation ?_
  rintro - _ ⟨hvalid, rfl⟩
  refine .bind .now ?_
  rintro now v₁ ⟨-, hnow⟩
  refine .bind .freshId ?_
  rintro id _ ⟨u, -, hfresh, rfl⟩
  have hnone : Reserved u [] := ⟨List.nodup_nil, nofun, nofun⟩
  refine .bind (.lift (drawTasks_ensures (hnone.draw hfresh))) ?_
  rintro tasks v₂ ⟨hreserved, hcount, htasks⟩
  refine .bind .freshId ?_
  rintro activity _ ⟨u', hu', -, rfl⟩
  have hids : Reserved (u'.draw activity) (id :: tasks.map (·.id)) := by
    have hperm : (tasks.map (·.id) ++ [id]).Perm (id :: tasks.map (·.id)) :=
      List.perm_append_singleton _ _
    have hstill := (hreserved.perm hperm).leadsTo hu'
    exact ⟨hstill.distinct, fun i hi => List.mem_cons_of_mem _ (hstill.own i hi), hstill.unused⟩
  refine .transact (fun _ _ _ _ _ _ => trivial) ?_
  intro v₃ plan t hv₃ hcommits
  -- Others may have created rituals meanwhile, but not with these ids.
  have hstill := hids.leadsTo hv₃
  have hmakes := creating_of_decide hvalid hfew hnow rfl htasks hcount hstill.distinct
    hstill.unused hcommits
  exact ⟨⟨_, hmay (start d id tasks now) activity now, hstill.own, hmakes⟩, trivial⟩

/-! ## Look-up -/

theorem get_ensures {id : String} : (get id).Ensures may
    (fun r v' => v.LeadsTo v' ∧ v'.store.get? Ritual (key id) = some r) v := by
  have hfind : (find? id).Ensures may
      (fun x v' => v.LeadsTo v' ∧ v'.store.get? Ritual (key id) = x) v :=
    .readDocument? fun v' hv => ⟨hv, rfl⟩
  refine .bind hfind ?_
  rintro (_ | r) v' ⟨hv, hget⟩
  · exact .throw _
  · exact .pure ⟨hv, hget⟩

/-- The actions that are asked for are those of the stored conditions. -/
theorem evaluate_ensures {id : String} {t : Trigger} : (evaluate id t).Ensures may
    (fun actions v' => v.LeadsTo v' ∧
      ∀ j a, actions[j]? = some a → Asked v'.store id t j a) v := by
  refine .bind get_ensures ?_
  rintro r v' ⟨hv, hget⟩
  exact .pure ⟨hv, fun j a ha => ⟨r, hget, ha⟩⟩

end Ritual

theorem Assignment.currentTask?_ensures {subject : String} :
    (currentTask? subject).Ensures may (fun _ _ => True) v := by
  have hfind : (find? subject).Ensures may (fun _ _ => True) v := .readDocument? fun _ _ => trivial
  refine .followed hfind ?_
  rintro (_ | a) v'
  · exact .pure trivial
  · dsimp only
    split
    · exact .pure trivial
    · refine .followed (.anyhow Ritual.get_ensures) ?_
      intro r u
      split
      · exact .pure trivial
      · exact .pure trivial

end RitualLedger
