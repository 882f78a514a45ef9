import RitualLedger.Proofs.Completion.Decision
import RitualLedger.Proofs.Rule.Confinement

/-!
# Marking the first write

A `Contract.marking` asks nothing of a client's writes but of the first one, and marks whether it
was made. So it tells whether an operation that fails has written before.

Most operations cannot have: they check and read, and commit in the end, once. `Traceless` says that
an operation writes nothing if it fails. Only what follows a step or a signal goes on after a write.
Then all that is looked up is there: a step is taken in a stored ritual, and a subject is assigned
to one, and rituals stay.
-/

namespace RitualLedger

/-- A contract that asks for something of the first write only, and marks it. -/
def Contract.marking (R : Rely) (refuses : StoreError → Prop) (first : Store → Store → Prop) :
    Contract Bool where
  rely _ := R
  refuses := refuses
  known := R.moves
  gives g s g' t := g' = true ∧ (g = false → first s t)

/-- A contract that asks for nothing, and marks the first write. -/
def Contract.tracing (R : Rely) : Contract Bool := .marking R (fun _ => True) fun _ _ => True

variable {R : Rely} {α β : Type} {s t : Store} {policy : RetryPolicy}

theorem Contract.lax_tracing : (Contract.tracing R).Lax R fun _ => True where
  moves := id
  known := id
  gives _ _ _ _ := ⟨true, trivial, rfl, fun _ => trivial⟩

/-- After the first write nothing more is asked. -/
theorem Contract.lax_marking {refuses : StoreError → Prop} {first : Store → Store → Prop} :
    (Contract.marking R refuses first).Lax R (· = true) where
  moves := id
  known := id
  gives := by
    rintro _ s t rfl
    exact ⟨true, rfl, rfl, nofun⟩

namespace Operation

/-- An operation that fails has written nothing. -/
def Traceless (R : Rely) (o : Operation α) (s : Store) : Prop :=
  o.Keeps (.tracing R) (fun _ g _ => g = false) (fun _ _ _ => True) false s

namespace Idle

/-- After an operation that writes nothing, another may fail without a trace. -/
theorem followed {o : Operation α} {f : α → Operation β} (h : Idle (.tracing R) false o s)
    (hf : ∀ a s', R.moves s s' → Traceless R (f a) s') : Traceless R (o >>= f) s := by
  refine Keeps.bind h ?_
  rintro a _ s' ⟨rfl, hs⟩
  exact hf a s' hs

theorem traceless {o : Operation α} (h : Idle (.tracing R) false o s) : Traceless R o s :=
  Keeps.imp h (fun _ _ _ h => h) fun _ _ _ _ => trivial

end Idle

namespace Traceless

/-- A transaction commits once, in the end. -/
theorem transact {keys : List DocKey} {decision : Snapshot → Except EngineError (Plan α)} :
    Traceless R (RitualLedger.transact policy keys decision) s :=
  Keeps.transact (fun _ _ _ _ _ _ => rfl) (fun _ _ _ _ => rfl) (fun _ _ _ _ _ _ _ => trivial)
    fun _ _ _ _ _ _ => ⟨true, ⟨rfl, fun _ => trivial⟩, trivial⟩

theorem map {o : Operation α} {f : α → β} (h : Traceless R o s) : Traceless R (f <$> o) s :=
  Keeps.map h

theorem lift (p : Program α) : Traceless R (liftM p : Operation α) s :=
  Keeps.lift ((Program.Keeps.anyhow Contract.lax_tracing p trivial s).imp fun _ _ _ _ => trivial)

/-- What follows an operation does not fail. -/
theorem bind_pure {o : Operation α} {f : α → β} (h : Traceless R o s) :
    Traceless R (o >>= fun a => Pure.pure (f a)) s :=
  Keeps.bind h fun _ _ _ _ => Keeps.pure trivial

end Traceless

end Operation

/-! ## Operations that commit once -/

open Operation (Idle Traceless)

namespace Ledger

theorem traceless_apply (r : TransactionRequest) : Traceless R (apply policy r) s := by
  refine Idle.followed (.ofValidation _) ?_
  intro _ s₁ _
  refine Idle.followed (idle_idOr r.key) ?_
  intro id s₂ _
  refine Idle.followed .now ?_
  intro now s₃ _
  exact .transact

theorem traceless_openAccount (subject : String) : Traceless R (openAccount policy subject) s := by
  rw [openAccount]
  split
  · exact Idle.traceless (.throw _)
  · refine Idle.followed .now ?_
    intro now s' _
    exact .transact

end Ledger

namespace Notification

theorem traceless_enqueue (subject message ritual : String) (id : Option String) :
    Traceless R (enqueue policy subject message ritual id) s := by
  have hqueue : ∀ (i : String) (s' : Store),
      Traceless R (queueUnder policy subject message ritual i) s' :=
    fun i s' => Idle.followed .now fun _ _ _ => .transact
  cases id with
  | some i => exact hqueue i s
  | none => exact Idle.followed .freshId fun i s' _ => hqueue i s'

end Notification

namespace Action

theorem traceless_unlock (ritual subject : String) (index : UInt64) :
    Traceless R (unlock policy ritual subject index) s :=
  Idle.followed .now fun _ _ _ => .transact

/-- **An action that fails has changed nothing.** -/
theorem traceless_execute (a : Action) (ritual subject : String) (key : Option String) :
    Traceless R (a.execute policy ritual subject key) s := by
  cases a with
  | reward amount => exact .map (Ledger.traceless_apply _)
  | penalty amount => exact .map (Ledger.traceless_apply _)
  | unlockTask index => exact traceless_unlock ritual subject index
  | notify message => exact .map (Notification.traceless_enqueue subject message ritual key)

end Action

namespace Ritual

theorem traceless_create (d : Definition) : Traceless R (create policy d) s := by
  refine Idle.followed (.ofValidation _) ?_
  intro _ s₁ _
  refine Idle.followed .now ?_
  intro now s₂ _
  refine Idle.followed .freshId ?_
  intro id s₃ _
  refine Idle.followed (idle_drawTasks 0 d.tasks) ?_
  intro tasks s₄ _
  refine Idle.followed .freshId ?_
  intro activity s₅ _
  exact .transact

end Ritual

/-! ## Operations that go on after a write

From here on others are clients of the engine, and the store is regular. -/

namespace Completion

/-- A step that was taken is about a stored ritual; one that was refused has left no trace. -/
theorem keeps_takeStep (hs : s.Regular) (step : Step) (evidence : Evidence) :
    (takeStep policy step evidence).Keeps (.tracing .engine) (fun _ g _ => g = false)
      (fun c _ s' => s'.Regular ∧ ∃ r, s'.get? Ritual (Ritual.key c.ritualId) = some r)
      false s := by
  refine .bind (Ritual.idle_get step.ritual) ?_
  rintro r _ s₁ ⟨rfl, hs₁⟩
  refine .bind (Completion.idle_assignmentOf step) ?_
  rintro a _ s₂ ⟨rfl, hs₂⟩
  refine .bind (Idle.ofExcept _) ?_
  rintro task _ s₃ ⟨rfl, hs₃⟩
  refine .bind Idle.now ?_
  rintro now _ s₄ ⟨rfl, hs₄⟩
  have hregular : s₄.Regular := hs₄.regular (hs₃.regular (hs₂.regular (hs₁.regular hs)))
  refine .transact (fun _ _ _ _ _ _ => rfl) (fun _ _ _ _ => rfl) ?_ ?_
  · intro snapshot t plan _ _ hdecision hwrites
    obtain ⟨r', a', task', hdecided⟩ := decided_of_decide hdecision
    rw [hdecided.writes] at hwrites
    cases hwrites
  · intro t plan u ht hcommits hknown
    obtain ⟨r', a', task', hdecided, hr', -⟩ := decided_of_commits hcommits
    obtain ⟨r'', hr'', -⟩ := hknown.evolves.rituals _ r' hr'
    refine ⟨true, ⟨rfl, fun _ => trivial⟩, hknown.regular (ht.regular hregular), r'', ?_⟩
    rw [hdecided.result]
    exact hr''

/-- What follows a record leaves no trace of a failure, because it does not fail. -/
theorem traceless_followUp {c : CompletionRecord} {r : Ritual} {g : Bool} (hs : s.Regular)
    (hr : s.get? Ritual (Ritual.key c.ritualId) = some r) :
    (followUp policy c).Keeps (.tracing .engine) (fun _ g _ => g = false) (fun _ _ _ => True) g s :=
  (keeps_followUp_within (Contract.lax_tracing.admits _ _) hs hr
    ⟨trivial, Rely.engine.refl s⟩).imp (fun _ _ _ h => h.elim) fun _ _ _ _ => trivial

theorem traceless_complete (hs : s.Regular) (step : Step) (evidence : Evidence) :
    Traceless .engine (complete policy step evidence) s := by
  refine .bind (keeps_takeStep hs step evidence) ?_
  rintro c g s' ⟨hs', r, hr⟩
  exact traceless_followUp hs' hr

/-- A replay fails only when there is no record. -/
theorem traceless_replay (hs : s.Regular) (step : Step) :
    Traceless .engine (replay policy step) s := by
  have hfind : (find? step).Keeps (.tracing .engine) (fun _ g _ => g = false)
      (fun x g s' => g = false ∧ s'.Regular ∧ x = s'.get? CompletionRecord step.key) false s :=
    .readRecord? (fun s' hs' => (Store.Proceeds.regular hs' hs).wellTyped)
      fun s' hs' => ⟨rfl, Store.Proceeds.regular hs' hs, rfl⟩
  refine .bind hfind ?_
  rintro x _ s' ⟨rfl, hs', hx⟩
  cases x with
  | none => exact .throw rfl
  | some c =>
    obtain ⟨r, hr, -⟩ := hs'.mirrored.records _ c hx.symm
    exact traceless_followUp hs' hr

end Completion

theorem Signal.traceless_fire {g : Bool} (hs : s.Regular) (subject : String) (t : Trigger)
    (scope : String → Scope) : (fire policy subject t scope).Keeps (.tracing .engine)
      (fun _ g _ => g = false) (fun _ _ _ => True) g s :=
  (keeps_fire_within (fun ritual => Contract.lax_tracing.admits subject ritual) hs
    ⟨trivial, Rely.engine.refl s⟩ t scope).imp (fun _ _ _ h => h.elim) fun _ _ _ _ => trivial

namespace Mood

theorem traceless_log (hs : s.Regular) (subject text : String) :
    Traceless .engine (log policy subject text) s := by
  refine Idle.followed (.ofValidation _) ?_
  intro mood s₁ hs₁
  refine Idle.followed .now ?_
  intro now s₂ hs₂
  have happend : (liftM (Request.append Collection.moods.name
      (encode (⟨subject, mood, now⟩ : MoodEntry))) : Operation String).Keeps (.tracing .engine)
        (fun _ g _ => g = false) (fun _ _ s' => s'.Regular) false s₂ := by
    refine .lift ?_
    intro s' id hs' hknown
    refine ⟨true, ⟨rfl, fun _ => trivial⟩, ?_⟩
    exact (Rely.engine.trans (Rely.engine.trans (Rely.engine.trans hs₁ hs₂) hs') hknown).regular hs
  refine .bind happend ?_
  intro id g₃ s₃ hs₃
  exact .bind (Signal.traceless_fire hs₃ _ _ _) fun _ _ _ _ => .pure trivial

theorem traceless_reply (hs : s.Regular) (subject text : String) :
    Traceless .engine (reply policy subject text) s := by
  refine Idle.followed (.takePrompt subject) ?_
  rintro (_ | prompt) s' hs'
  · exact Idle.traceless (.pure none)
  · exact .map (traceless_log (hs'.regular hs) subject text)

theorem traceless_ask (subject : String) : Traceless .engine (ask subject) s := by
  refine Idle.followed .now ?_
  intro now s' _
  exact .bind_pure (.lift _)

end Mood

theorem Streak.traceless_report (hs : s.Regular) (subject : String) (count : UInt32) :
    Traceless .engine (report policy subject count) s :=
  .bind (Signal.traceless_fire hs _ _ _) fun _ _ _ _ => .pure trivial

/-! ## Every call -/

/-- **A call that fails has written nothing**, whatever other clients of the engine do meanwhile. -/
theorem Call.traceless_operation (hs : s.Regular) (c : Call) :
    Traceless .engine (c.operation policy) s := by
  cases c with
  | openAccount subject => exact Ledger.traceless_openAccount subject
  | readAccount subject => exact (Ledger.idle_account subject).traceless
  | readBalance subject =>
    exact Idle.traceless (.bind (Ledger.idle_account subject) fun _ _ _ => .pure _)
  | apply r => exact Ledger.traceless_apply r
  | applyTransaction r => exact .bind_pure (Ledger.traceless_apply r)
  | tribute sender receiver amount description => exact .bind_pure (Ledger.traceless_apply _)
  | findTransaction id => exact Idle.traceless (.readDocument? _)
  | history subject limit => exact Idle.traceless (.queryDocuments _)
  | create d => exact Ritual.traceless_create d
  | findRitual id => exact Idle.traceless (.readDocument? _)
  | evaluate id t => exact (Ritual.idle_evaluate id t).traceless
  | findAssignment subject => exact Idle.traceless (.readDocument? _)
  | currentTask subject => exact (Assignment.idle_currentTask? subject).traceless
  | complete step evidence => exact Completion.traceless_complete hs step evidence
  | replay step => exact Completion.traceless_replay hs step
  | findCompletion step => exact Idle.traceless (.readDocument? _)
  | execute a ritual subject key => exact Action.traceless_execute a ritual subject key
  | executeBatch ritual subject trigger scope actions => exact .lift _
  | rehearse ritual subject trigger actions => exact .lift _
  | logMood subject text => exact Mood.traceless_log hs subject text
  | askMood subject => exact Mood.traceless_ask subject
  | replyMood subject text => exact Mood.traceless_reply hs subject text
  | reportStreak subject count => exact Streak.traceless_report hs subject count
  | enqueue subject message ritual id =>
    exact Notification.traceless_enqueue subject message ritual id
  | pending subject => exact Idle.traceless (.queryDocuments _)
  | markRead id => exact .transact

end RitualLedger
