import RitualLedger.Proofs.Engine.Acts
import RitualLedger.Proofs.Engine.NoTrace

/-!
# What answers tell

The answer of an operation tells what the operation has done to the ledger and to the queue.
`Contract.acting` keeps record of the acts of a client while others are at work, and
`Operation.Tells` says what an answer tells of the record. Its rules follow the program: checks,
look-ups and draws do nothing (`Operation.Tells.idle_bind`), and a commit does what the change does
that it makes (`Operation.Tells.transact`).

A receipt tells of one transaction, or of none if it says that the request was a replay
(`Receipt.Tells`); and so does what is answered for a message (`Notification.Queued.Tells`). The
effect of an action tells what its receipt tells; an unlocked task is no act (`ActionEffect.Tells`).
-/

namespace RitualLedger

open Ledger (transactionKey)

variable {α β : Type} {s t u : Store} {policy : RetryPolicy}

/-! ## Records of acts -/

/-- A contract that asks for nothing, and keeps record of the client's own acts. -/
def Contract.acting : Contract (List Act) where
  rely _ := .engine
  refuses _ := True
  known := Rely.engine.moves
  gives g s g' t := g' = g ++ s.acts t

theorem Contract.lax_acting : Contract.acting.Lax .engine fun _ => True where
  moves := id
  known := id
  gives _ _ _ _ := ⟨_, trivial, rfl⟩

/-- A program ends with an answer that tells what it has done. -/
def Program.Tells (tells : α → List Act → Store → Prop) (p : Program α) (s : Store) : Prop :=
  ∀ g, p.Keeps .acting (fun a g' s' => ∃ acts, g' = g ++ acts ∧ tells a acts s') g s

/-- An operation has done something if it fails, and its result tells what it has done otherwise. -/
def Operation.Tells (fails : List Act → Prop) (tells : α → List Act → Store → Prop)
    (o : Operation α) (s : Store) : Prop :=
  o.program.Tells (fun
    | .ok a => tells a
    | .error _ => fun acts _ => fails acts) s

namespace Program.Tells

variable {tells mid : α → List Act → Store → Prop} {post : β → List Act → Store → Prop}

theorem finish {a : α} (h : tells a [] s) : (finish a).Tells tells s :=
  fun g => ⟨[], (List.append_nil g).symm, h⟩

theorem imp {tells' : α → List Act → Store → Prop} {p : Program α} (h : p.Tells tells s)
    (himp : ∀ a acts s', tells a acts s' → tells' a acts s') : p.Tells tells' s := by
  intro g
  refine (h g).imp ?_
  rintro a g' s' ⟨acts, hg, hacts⟩
  exact ⟨acts, hg, himp a acts s' hacts⟩

/-- What one program does is followed by what the next one does. -/
theorem bind {p : Program α} {f : α → Program β} (h : p.Tells mid s)
    (hf : ∀ a acts s', s.Proceeds s' → mid a acts s' →
      (f a).Tells (fun b acts' => post b (acts ++ acts')) s') : (p.bind f).Tells post s := by
  intro g
  refine ((h g).moving Contract.lax_acting).bind ?_
  rintro a _ s' ⟨⟨acts, rfl, hmid⟩, hs⟩
  refine (hf a acts s' hs hmid _).imp ?_
  rintro b _ s'' ⟨acts', rfl, hpost⟩
  exact ⟨acts ++ acts', List.append_assoc _ _ _, hpost⟩

end Program.Tells

namespace Operation.Tells

variable {fails : List Act → Prop} {tells mid : α → List Act → Store → Prop}
  {post : β → List Act → Store → Prop}

theorem pure {a : α} (h : tells a [] s) : Operation.Tells fails tells (pure a) s := by
  refine Program.Tells.finish ?_
  exact h

theorem throw {e : EngineError} (h : fails []) :
    Operation.Tells fails tells (throw e : Operation α) s := by
  refine Program.Tells.finish ?_
  exact h

theorem imp {tells' : α → List Act → Store → Prop} {o : Operation α} (h : o.Tells fails tells s)
    (himp : ∀ a acts s', tells a acts s' → tells' a acts s') : o.Tells fails tells' s := by
  refine Program.Tells.imp h ?_
  rintro (e | a) acts s' hanswer
  · exact hanswer
  · exact himp a acts s' hanswer

/-- One may leave open what is done by an operation that fails. -/
theorem anyway {o : Operation α} (h : o.Tells fails tells s) : o.Tells (fun _ => True) tells s := by
  refine Program.Tells.imp h ?_
  rintro (e | a) acts s' hanswer
  · trivial
  · exact hanswer

theorem bind {o : Operation α} {f : α → Operation β} (h : o.Tells fails mid s)
    (hf : ∀ a acts s', s.Proceeds s' → mid a acts s' →
      (f a).Tells (fun acts' => fails (acts ++ acts'))
        (fun b acts' => post b (acts ++ acts')) s') : (o >>= f).Tells fails post s := by
  refine Program.Tells.bind h ?_
  rintro (e | a) acts s' hs hanswer
  · refine Program.Tells.finish ?_
    rw [List.append_nil]
    exact hanswer
  · refine Program.Tells.imp (hf a acts s' hs hanswer) ?_
    rintro (e | b) acts' s'' hpost
    · exact hpost
    · exact hpost

/-- What is made of an answer is no act. -/
theorem bind_pure {o : Operation α} {f : α → β} (h : o.Tells fails mid s)
    (hf : ∀ a acts s', mid a acts s' → post (f a) acts s') :
    (o >>= fun a => Pure.pure (f a)).Tells fails post s := by
  refine bind h ?_
  intro a acts s' _ ha
  refine pure ?_
  rw [List.append_nil]
  exact hf a acts s' ha

theorem lift {p : Program α} (h : p.Tells tells s) :
    (liftM p : Operation α).Tells fails tells s := by
  refine Program.Tells.bind h ?_
  intro a acts s' _ ha
  refine Program.Tells.finish ?_
  rw [List.append_nil]
  exact ha

theorem map {o : Operation α} {f : α → β} (h : o.Tells fails (fun a => post (f a)) s) :
    (f <$> o).Tells fails post s := by
  refine Program.Tells.bind h ?_
  rintro (e | a) acts s' _ hanswer
  all_goals
    refine Program.Tells.finish ?_
    rw [List.append_nil]
    exact hanswer

/-- An operation that writes nothing does nothing. -/
theorem of_idle {o : Operation α} (hfails : fails []) (h : ∀ g, o.Idle .acting g s) :
    o.Tells fails (fun _ acts _ => acts = []) s := by
  intro g
  refine Program.Keeps.imp (h g) ?_
  rintro (e | a) g' s' hg
  · exact ⟨[], hg.trans (List.append_nil g).symm, hfails⟩
  · exact ⟨[], hg.1.trans (List.append_nil g).symm, rfl⟩

/-- An operation that writes nothing comes before another. -/
theorem idle_bind {o : Operation α} {f : α → Operation β} (hfails : fails [])
    (h : ∀ g, o.Idle .acting g s) (hf : ∀ a s', s.Proceeds s' → (f a).Tells fails post s') :
    (o >>= f).Tells fails post s := by
  refine (of_idle hfails h).bind ?_
  rintro a _ s' hs rfl
  exact hf a s' hs

theorem ofValidation {r : Except ValidationError α} {f : α → Operation β} (hfails : fails [])
    (hf : ∀ a, r = .ok a → (f a).Tells fails post s) :
    (Operation.ofValidation r >>= f).Tells fails post s := by
  cases r with
  | ok a => exact hf a rfl
  | error e => exact throw hfails

theorem now {f : Instant → Operation β}
    (hf : ∀ time s', s.Proceeds s' → Fits time → (f time).Tells fails post s') :
    ((liftM Request.now : Operation _) >>= f).Tells fails post s :=
  fun g s' time hs htime => hf time s' hs htime g

/-- **The rule for transactions.** What a commit does is what the change does that it makes. -/
theorem transact {keys : List DocKey} {decision : Snapshot → Except EngineError (Plan α)}
    (hs : s.Regular) (hfails : fails [])
    (hidle : ∀ snapshot t plan, s.Proceeds t →
      snapshot.Gathered (Program.Keeps.Between .acting [] s t) keys →
      decision snapshot = .ok plan → plan.writes = [] → tells plan.result [] t)
    (hcommit : ∀ t plan u, s.Proceeds t → t.Regular → u.Regular →
      Commits keys decision t plan u → tells plan.result (t.acts u) u) :
    (RitualLedger.transact policy keys decision).Tells fails tells s := by
  intro g
  refine Operation.Keeps.program (.transact ?_ ?_ ?_ ?_)
  · exact fun _ _ _ _ _ _ => ⟨[], (List.append_nil g).symm, hfails⟩
  · exact fun _ _ _ _ => ⟨[], (List.append_nil g).symm, hfails⟩
  · intro snapshot t plan ht hgathered hdecision hwrites
    exact ⟨[], (List.append_nil g).symm, hidle snapshot t plan ht hgathered hdecision hwrites⟩
  · intro t plan u ht hcommits hknown
    have hregular : t.Regular := Store.Proceeds.regular ht hs
    exact ⟨_, rfl, t.acts u, rfl,
      hcommit t plan u ht hregular (Store.Proceeds.regular hknown hregular) hcommits⟩

end Operation.Tells

/-- What a snapshot has was there, and still is. -/
theorem Snapshot.Gathered.present {snapshot : Snapshot} {P : Store → Prop} {keys : List DocKey}
    (h : snapshot.Gathered P keys) (hP : ∀ u, P u → u ≤ t) {key : DocKey} (hkey : key ∈ keys)
    (hhas : snapshot.has key = true) : t.read? key ≠ none := by
  obtain ⟨u, hu, hdoc⟩ := h.doc? hkey
  rw [Snapshot.has, hdoc] at hhas
  exact Store.present_of_le (hP u hu) (Option.isSome_iff_ne_none.1 hhas)

/-- The records of a collection that is not written to are the same. -/
theorem Store.all_putAll_of_notMem [Document α] [LawfulDocument α] [Record α]
    {ws : List (DocKey × Json)} (h : ∀ w ∈ ws, w.1.collection ≠ (Record.collection α).name) :
    (s.putAll ws).all α = s.all α := by
  rw [Store.all, Store.all, Store.inCollection_putAll_of_notMem h]

/-- Writes elsewhere do nothing to the ledger and to the queue. -/
theorem Store.Regular.acts_elsewhere (hs : s.Regular) (ht : t.Regular) {ws : List (DocKey × Json)}
    (hmade : t = s.putAll ws) (hws : ∀ w ∈ ws, w.1.collection ≠ Collection.transactions.name ∧
      w.1.collection ≠ Collection.notifications.name) : s.acts t = [] := by
  refine hs.acts_of_append ht [] [] ?_ ?_ (List.forall_mem_nil _) (List.forall_mem_nil _)
  · rw [List.append_nil, hmade]
    exact Store.all_putAll_of_notMem fun w hw => (hws w hw).1
  · rw [List.append_nil, hmade]
    exact Store.all_putAll_of_notMem fun w hw => (hws w hw).2

/-! ## Single requests -/

/-- What a receipt tells: one transaction was applied under the id, or it was stored before. -/
structure Receipt.Tells (s : Store) (key : Option String) (stands : Transaction → Prop)
    (receipt : Receipt) (acts : List Act) : Prop where
  key : ∀ id ∈ key, receipt.transactionId = id
  present : s.read? (transactionKey receipt.transactionId) ≠ none
  replayed : receipt.replayed = true → acts = []
  fresh : receipt.replayed = false →
    ∃ x, stands x ∧ x.id = receipt.transactionId ∧ acts = [.applied x]

/-- What is told of a message: it was queued under the id, or there was one before. -/
structure Notification.Queued.Tells (s : Store) (key : Option String)
    (stands : Notification → Prop) (queued : Queued) (acts : List Act) : Prop where
  key : ∀ id ∈ key, queued.id = id
  present : s.read? (Notification.key queued.id) ≠ none
  replayed : queued.replayed = true → acts = []
  fresh : queued.replayed = false → ∃ n, stands n ∧ n.id = queued.id ∧ acts = [.queued n]

theorem Receipt.Tells.mono {key : Option String} {stands : Transaction → Prop} {receipt : Receipt}
    {acts : List Act} (h : receipt.Tells s key stands acts) (hst : s ≤ t) :
    receipt.Tells t key stands acts :=
  { h with present := Store.present_of_le hst h.present }

theorem Notification.Queued.Tells.mono {key : Option String} {stands : Notification → Prop}
    {queued : Queued} {acts : List Act} (h : queued.Tells s key stands acts) (hst : s ≤ t) :
    queued.Tells t key stands acts :=
  { h with present := Store.present_of_le hst h.present }

namespace Ledger

variable {r : TransactionRequest}

/-- A decision to write nothing finds the id in use. -/
theorem replayed_of_decide {id : String} {now : Instant} {snapshot : Snapshot}
    {plan : Plan Receipt} (h : decide r id now snapshot = .ok plan) (hidle : plan.writes = []) :
    snapshot.has (transactionKey id) = true ∧ plan.result = ⟨id, true⟩ := by
  rw [decide] at h
  split at h
  · rename_i hhas
    cases h
    exact ⟨hhas, rfl⟩
  · obtain ⟨plan₁, -, h⟩ := ok_of_bind h
    obtain ⟨plan₂, -, h⟩ := ok_of_bind h
    cases h
    exact absurd hidle (by simp [Plan.insert])

/-- What a commit of a request does, and what it answers. -/
theorem receipt_of_commits {id : String} {now : Instant} {plan : Plan Receipt} (hs : s.Regular)
    (hvalid : r.validate = .ok ()) (hnow : Fits now)
    (h : Commits (keys r id) (decide r id now) s plan t) :
    plan.result = ⟨id, false⟩ ∧ s.acts t = [.applied (record r id now)] ∧
      t.read? (transactionKey id) ≠ none := by
  obtain ⟨parties, hmakes⟩ := booking_of_decide .supplied hs.wellTyped hvalid hnow trivial h
  obtain ⟨_, hplanned⟩ := planned_of_decide hs.wellTyped hvalid hmakes.allowed.new h.decided
  have hwritten : (transactionKey id, encode (record r id now)) ∈
      (Change.booking r id now parties .supplied).writes := by simp [Change.writes]
  exact ⟨hplanned.result, hmakes.acts hs,
    Store.present_of_get? (hmakes.get?_written hwritten hmakes.allowed.fits)⟩

/-- **The receipt of a request tells what has been done for it.** -/
theorem tells_apply (hs : s.Regular) (r : TransactionRequest) : (apply policy r).Tells (· = [])
    (fun receipt acts t => receipt.Tells t r.key (fun x => ∃ now, x = record r x.id now) acts)
    s := by
  refine .ofValidation rfl fun _ hvalid => ?_
  have hid : (liftM (idOr r.key) : Operation String).Tells (· = [])
      (fun id acts _ => acts = [] ∧ ∀ i ∈ r.key, id = i) s := by
    cases r.key with
    | some i => exact .lift (.finish ⟨rfl, fun _ h => Option.some.inj h⟩)
    | none => exact (Operation.Tells.of_idle rfl fun _ => .freshId).imp fun _ _ _ h => ⟨h, nofun⟩
  refine hid.bind ?_
  rintro id _ s₁ hs₁ ⟨rfl, hkey⟩
  refine .now fun now s₂ hs₂ hnow => ?_
  refine .transact (hs₂.regular (hs₁.regular hs)) rfl ?_ ?_
  · intro snapshot t plan ht hgathered hdecision hwrites
    obtain ⟨hhas, hresult⟩ := replayed_of_decide hdecision hwrites
    rw [hresult]
    exact ⟨hkey, hgathered.present (fun u hu => hu.2.le) List.mem_cons_self hhas,
      fun _ => rfl, nofun⟩
  · intro t plan u ht hregular hregular' hcommits
    obtain ⟨hresult, hacts, hpresent⟩ := receipt_of_commits hregular hvalid hnow hcommits
    rw [hresult, hacts]
    exact ⟨hkey, hpresent, nofun, fun _ => ⟨_, ⟨now, rfl⟩, rfl, rfl⟩⟩

end Ledger

namespace Notification

variable {subject message ritual : String}

/-- **The answer to a message tells whether it was queued.** -/
theorem tells_enqueue (hs : s.Regular) (subject message ritual : String) (id : Option String) :
    (enqueue policy subject message ritual id).Tells (· = [])
      (fun queued acts t => queued.Tells t id
        (fun n => ∃ now, n = about ritual subject message n.id now) acts) s := by
  have hqueue : ∀ (i : String) (s' : Store), s'.Regular → (∀ j ∈ id, i = j) →
      (queueUnder policy subject message ritual i).Tells (· = []) (fun queued acts t =>
        queued.Tells t id (fun n => ∃ now, n = about ritual subject message n.id now) acts) s' := by
    intro i s' hs' hkey
    refine .now fun now s₁ hs₁ hnow => ?_
    refine .transact (hs₁.regular hs') rfl ?_ ?_
    · intro snapshot t plan ht hgathered hdecision hwrites
      obtain ⟨hhas, hresult⟩ := has_of_writes hdecision hwrites
      rw [hresult]
      exact ⟨hkey, hgathered.present (fun u hu => hu.2.le) List.mem_cons_self hhas,
        fun _ => rfl, nofun⟩
    · intro t plan u ht hregular hregular' hcommits
      have hmakes := queueing_of_decide .supplied hnow trivial hcommits
      have hacts : t.acts u = [.queued (about ritual subject message i now)] :=
        hmakes.acts hregular
      have hpresent : u.read? (key i) ≠ none :=
        Store.present_of_get? (hmakes.get?_written (List.mem_singleton.2 rfl) hmakes.allowed.1)
      rw [hacts, plan_of_writes hcommits.decided hcommits.writes]
      exact ⟨hkey, hpresent, nofun, fun _ => ⟨_, ⟨now, rfl⟩, rfl, rfl⟩⟩
  cases id with
  | some i =>
    rw [enqueue_given]
    exact hqueue i s hs fun _ h => Option.some.inj h
  | none =>
    rw [enqueue_drawn]
    exact .idle_bind rfl (fun _ => .freshId) fun i s' hs' => hqueue i s' (hs'.regular hs) nofun

end Notification

/-! ## Actions -/

theorem Receipt.Tells.imp {key : Option String} {stands stands' : Transaction → Prop}
    {receipt : Receipt} {acts : List Act} (h : receipt.Tells s key stands acts)
    (himp : ∀ x, stands x → stands' x) : receipt.Tells s key stands' acts where
  key := h.key
  present := h.present
  replayed := h.replayed
  fresh hfresh := by
    obtain ⟨x, hx, hrest⟩ := h.fresh hfresh
    exact ⟨x, himp x hx, hrest⟩

theorem Notification.Queued.Tells.imp {key : Option String} {stands stands' : Notification → Prop}
    {queued : Queued} {acts : List Act} (h : queued.Tells s key stands acts)
    (himp : ∀ n, stands n → stands' n) : queued.Tells s key stands' acts where
  key := h.key
  present := h.present
  replayed := h.replayed
  fresh hfresh := by
    obtain ⟨n, hn, hrest⟩ := h.fresh hfresh
    exact ⟨n, himp n hn, hrest⟩

/-- What the effect of an action tells. To unlock a task is no act. -/
def ActionEffect.Tells (s : Store) (a : Action) (ritual subject : String) (key : Option String) :
    ActionEffect → List Act → Prop
  | .booked receipt, acts => receipt.Tells s key (a.IsBookedAs ritual subject) acts
  | .unlocked _ _, acts => (∃ index, a = .unlockTask index) ∧ acts = []
  | .queued n, acts => n.Tells s key (a.IsQueuedAs ritual subject) acts

namespace Action

variable {ritual subject : String}

theorem tells_unlock (hs : s.Regular) (index : UInt64) :
    (unlock policy ritual subject index).Tells (· = [])
      (fun effect acts _ => (∃ newly, effect = .unlocked index newly) ∧ acts = []) s := by
  have hresult : ∀ {snapshot : Snapshot} {now : Instant} {plan : Plan ActionEffect}, (do
      let a ← assignmentIn snapshot ritual subject
      if a.unlockedTasks.contains index then .ok (.done (.unlocked index false))
      else
        let unlocked := { a with unlockedTasks := a.unlockedTasks.insert index, lastUpdated := now }
        .ok ((Plan.done (.unlocked index true)).put (Assignment.key subject) unlocked)) =
      Except.ok plan → ∃ newly, plan.result = .unlocked index newly := by
    intro snapshot now plan h
    obtain ⟨a, -, h⟩ := ok_of_bind h
    split at h <;> cases h
    · exact ⟨false, rfl⟩
    · exact ⟨true, rfl⟩
  refine .now fun now s₁ hs₁ hnow => ?_
  refine .transact (hs₁.regular hs) rfl ?_ ?_
  · intro snapshot t plan _ _ hdecision _
    exact ⟨hresult hdecision, rfl⟩
  · intro t plan u _ hregular _ hcommits
    obtain ⟨a, -, -, hmakes⟩ := unlocking_of_decide hregular.wellTyped hnow hcommits
    exact ⟨hresult hcommits.decided, hmakes.acts hregular⟩

/-- **The effect of an action tells what has been done for it.** -/
theorem tells_execute (hs : s.Regular) (a : Action) (ritual subject : String)
    (key : Option String) : (a.execute policy ritual subject key).Tells (· = [])
      (fun effect acts t => effect.Tells t a ritual subject key acts) s := by
  -- Amounts are booked, and the record says whose they are.
  have hbook : ∀ kind sender receiver amount,
      (∀ id now, a.IsBookedAs ritual subject
        (Ledger.record (a.booking kind sender receiver amount ritual key) id now)) →
      Operation.Tells (· = [])
        (fun (effect : ActionEffect) acts t => effect.Tells t a ritual subject key acts)
        (.booked <$> Ledger.apply policy (a.booking kind sender receiver amount ritual key)) s := by
    intro kind sender receiver amount hrecord
    refine .map ((Ledger.tells_apply hs _).imp fun receipt acts t h => ?_)
    refine Receipt.Tells.imp h ?_
    rintro x ⟨now, hx⟩
    rw [hx]
    exact hrecord _ now
  cases a with
  | reward amount => exact hbook _ _ _ _ fun id now => ⟨rfl, rfl, rfl, rfl, rfl, rfl, rfl⟩
  | penalty amount => exact hbook _ _ _ _ fun id now => ⟨rfl, rfl, rfl, rfl, rfl, rfl, rfl⟩
  | unlockTask index =>
    refine (tells_unlock hs index).imp ?_
    rintro _ acts t ⟨⟨newly, rfl⟩, hacts⟩
    exact ⟨⟨index, rfl⟩, hacts⟩
  | notify message =>
    refine .map ((Notification.tells_enqueue hs _ _ _ _).imp fun queued acts t h => ?_)
    refine Notification.Queued.Tells.imp h ?_
    rintro n ⟨now, hn⟩
    rw [hn]
    exact ⟨rfl, rfl, rfl, rfl⟩

end Action

end RitualLedger
