import RitualLedger.Proofs.Engine.Idle
import RitualLedger.Proofs.Engine.Regular

/-!
# What actions may touch

An action is executed for one subject of one ritual, and its writes stay with the two: the account
and the assignment of the subject, and transactions and messages that name both. `Store.Confines`
says so of two stores. For each kind of change it is plain (`Change.Makes.confines`); that actions
make no other changes holds whatever else a contract asks for, so it is proved for every contract
that admits changes of this kind (`Batch.keeps_run_within`), and with it of all that follows a step
or a signal. None of that fails: what is looked up there is stored.
-/

namespace RitualLedger

open Ledger (accountKey transactionKey)

variable {s t u : Store} {subject ritual : String}

/-! ## Documents and changes -/

/-- A document that belongs to a subject of a ritual. -/
inductive Store.Concerns (s : Store) (subject ritual : String) : DocKey → Prop
  | account : Concerns s subject ritual (accountKey subject)
  | assignment {a : Assignment} (hstored : s.get? Assignment (Assignment.key subject) = some a)
    (hritual : a.ritualId = ritual) : Concerns s subject ritual (Assignment.key subject)
  | transaction {x : Transaction} (hstored : s.get? Transaction (transactionKey x.id) = some x)
    (hritual : x.relatedEntityType = some "ritual" ∧ x.relatedEntityId = some ritual)
    (hparties : x.senderId.toList ++ x.receiverId.toList = [subject]) :
    Concerns s subject ritual (transactionKey x.id)
  | notification {n : Notification}
    (hstored : s.get? Notification (Notification.key n.id) = some n)
    (hritual : n.relatedTo = "ritual" ∧ n.relatedId = ritual) (hsubject : n.subjectId = subject) :
    Concerns s subject ritual (Notification.key n.id)

/-- Every document that is new or has changed belongs to a subject of a ritual. -/
def Store.Confines (s : Store) (subject ritual : String) (t : Store) : Prop :=
  ∀ key, t.read? key ≠ s.read? key → t.Concerns subject ritual key

theorem Store.confines_refl (s : Store) (subject ritual : String) : s.Confines subject ritual s :=
  fun _ h => absurd rfl h

/-- A change that an action makes for a subject of a ritual. -/
def Change.Concerns (subject ritual : String) : Change → Prop
  | .booking r _ _ _ _ => (r.relatedEntityType = some "ritual" ∧ r.relatedEntityId = some ritual) ∧
      r.senderId.toList ++ r.receiverId.toList = [subject]
  | .queueing n _ => (n.relatedTo = "ritual" ∧ n.relatedId = ritual) ∧ n.subjectId = subject
  | .unlocking a _ _ => a.ritualId = ritual ∧ a.subjectId = subject
  | .opening _ | .marking _ | .creating _ _ _ _ | .stepping _ _ _ _ _ _ | .logging _ _ => False

namespace Change.Makes

variable {ch : Change}

/-- What has changed was written. -/
theorem mem_writes (h : ch.Makes s t) {key : DocKey} (hkey : t.read? key ≠ s.read? key) :
    ∃ body, (key, body) ∈ ch.writes := by
  by_contra hnone
  refine hkey ?_
  rw [h.made]
  refine Store.read?_putAll_of_notMem fun w hw heq => hnone ⟨w.2, ?_⟩
  rw [← heq]
  exact hw

/-- **Such a change touches nobody else's documents.** -/
theorem confines (h : ch.Makes s t) (hs : s.WellTyped) (hc : ch.Concerns subject ritual) :
    s.Confines subject ritual t := by
  intro key hkey
  obtain ⟨body, hmem⟩ := h.mem_writes hkey
  cases ch with
  | booking r id now parties origin =>
    obtain ⟨hritual, hparties⟩ := hc
    rcases List.mem_append.1 hmem with hmem | hmem
    · obtain ⟨a, ha, heq⟩ := List.mem_map.1 hmem
      have hparty : a.subjectId ∈ parties.map (·.subjectId) := List.mem_map_of_mem ha
      rw [h.allowed.subjects, hparties] at hparty
      cases heq
      rw [List.mem_singleton.1 hparty]
      exact .account
    · cases List.mem_singleton.1 hmem
      have hwritten : (transactionKey id, encode (Ledger.record r id now)) ∈
          (Change.booking r id now parties origin).writes := by simp [Change.writes]
      exact .transaction (x := Ledger.record r id now)
        (h.get?_written hwritten h.allowed.fits) hritual hparties
  | queueing n origin =>
    obtain ⟨hritual, hsubject⟩ := hc
    cases List.mem_singleton.1 hmem
    exact .notification (h.get?_written (List.mem_singleton.2 rfl) h.allowed.1) hritual hsubject
  | unlocking a index now =>
    obtain ⟨hritual, rfl⟩ := hc
    cases List.mem_singleton.1 hmem
    have hfits := (hs.named (α := Assignment) h.allowed.2.2).1
    exact .assignment (h.get?_written (x := a.unlocked index now) (List.mem_singleton.2 rfl)
      ⟨hfits.1, h.allowed.1⟩) hritual
  | opening | marking | creating | stepping | logging => exact hc.elim

/-- Actions log no moods. -/
theorem moods_of_concerns (h : ch.Makes s t) (hc : ch.Concerns subject ritual) :
    t.inCollection Collection.moods.name = s.inCollection Collection.moods.name := by
  rw [h.made]
  refine Store.inCollection_putAll_of_notMem fun w hw heq => ?_
  obtain ⟨c, hmem, id, hkey⟩ := collections_of_mem_writes hw
  rw [hkey] at heq
  obtain rfl : c = .moods := Collection.name_injective heq
  cases ch with
  | booking | queueing | unlocking => simp [collections] at hmem
  | opening | marking | creating | stepping | logging => exact hc.elim

end Change.Makes

/-! ## Contracts that admit what actions do -/

variable {γ α : Type} {k : Contract γ} {g : γ} {phases : γ → Prop} {policy : RetryPolicy}
  {s₀ : Store}

/-- In some phases a contract leaves room for what actions do for a subject of a ritual; the others
are clients of the engine. -/
structure Contract.Admits (k : Contract γ) (subject ritual : String) (phases : γ → Prop) :
    Prop where
  moves : ∀ {g s t}, k.moves g s t → s.Proceeds t
  gives : ∀ {g s t ch}, phases g → s.Regular → ch.Concerns subject ritual → Change.Makes ch s t →
    ∃ g', phases g' ∧ k.gives g s g' t

/-- A client is still in such a phase, and the store has moved on. -/
def Contract.Within (phases : γ → Prop) (s₀ : Store) (g : γ) (s : Store) : Prop :=
  phases g ∧ s₀.Proceeds s

open Contract (Within)

/-- A contract that asks for nothing in some phases leaves that room in them. -/
theorem Contract.Lax.admits (h : k.Lax .engine phases) (subject ritual : String) :
    k.Admits subject ritual phases where
  moves := h.moves
  gives hg _ _ _ := h.gives _ _ _ hg

theorem Contract.Within.moved (hw : Within phases s₀ g s) (h : k.Admits subject ritual phases)
    (hst : k.moves g s t) : Within phases s₀ g t :=
  ⟨hw.1, Rely.engine.trans hw.2 (h.moves hst)⟩

/-- A ritual that is stored is there whatever others do. -/
theorem Contract.Within.found (hw : Within phases s₀ g s) (h : k.Admits subject ritual phases)
    {id : String} {r : Ritual} (hr : s₀.get? Ritual (Ritual.key id) = some r) :
    ∀ t, k.moves g s t → ∃ r', t.get? Ritual (Ritual.key id) = some r' := by
  intro t hst
  obtain ⟨r', hr', -⟩ := (hw.moved h hst).2.evolves.rituals id r hr
  exact ⟨r', hr'⟩

/-- Amid all of this a transaction may make a change for the subject. -/
theorem Operation.keeps_transact_within (h : k.Admits subject ritual phases) (hs₀ : s₀.Regular)
    (hw : Within phases s₀ g s) {keys : List DocKey}
    {decision : Snapshot → Except EngineError (Plan α)}
    (hcommit : ∀ t plan u, t.Regular → Commits keys decision t plan u →
      ∃ ch : Change, ch.Concerns subject ritual ∧ ch.Makes t u) :
    (transact policy keys decision).Keeps k (fun _ => Within phases s₀)
      (fun _ => Within phases s₀) g s := by
  refine .transact (fun _ t _ ht _ _ => hw.moved h ht) (fun t _ ht _ => hw.moved h ht)
    (fun _ t _ ht _ _ _ => hw.moved h ht) ?_
  intro t plan u ht hcommits _
  have hthere := hw.moved h ht
  have hregular := hthere.2.regular hs₀
  obtain ⟨ch, hconcerns, hmakes⟩ := hcommit t plan u hregular hcommits
  obtain ⟨g', hg', hgives⟩ := h.gives hw.1 hregular hconcerns hmakes
  exact ⟨g', hgives, hg', Rely.engine.trans hthere.2 (hmakes.proceeds hregular.wellTyped)⟩

/-- The clock is read on the way. -/
theorem Operation.keeps_now_within (h : k.Admits subject ritual phases) (hw : Within phases s₀ g s)
    {f : Instant → Operation α} (hf : ∀ now g s, Fits now → Within phases s₀ g s →
      (f now).Keeps k (fun _ => Within phases s₀) (fun _ => Within phases s₀) g s) :
    (liftM Request.now >>= f).Keeps k (fun _ => Within phases s₀)
      (fun _ => Within phases s₀) g s := by
  refine .bind .now ?_
  rintro now _ s' ⟨rfl, hs', hnow⟩
  exact hf now _ s' hnow (hw.moved h hs')

namespace Ledger

/-- A request for the subject on behalf of the ritual is booked. -/
theorem keeps_apply_within (h : k.Admits subject ritual phases) (hs₀ : s₀.Regular)
    (hw : Within phases s₀ g s) {r : TransactionRequest}
    (hr : ∀ id now parties, (Change.booking r id now parties .supplied).Concerns subject ritual) :
    (apply policy r).Keeps k (fun _ => Within phases s₀) (fun _ => Within phases s₀) g s := by
  have hvalidate : (Operation.ofValidation r.validate).Keeps k (fun _ => Within phases s₀)
      (fun _ g' s' => r.validate = .ok () ∧ Within phases s₀ g' s') g s :=
    .ofValidation (fun _ hvalid => ⟨hvalid, hw⟩) fun _ _ => hw
  refine .bind hvalidate ?_
  rintro _ g₁ s₁ ⟨hvalid, hw₁⟩
  have hid : (liftM (idOr r.key) : Operation String).Keeps k (fun _ => Within phases s₀)
      (fun _ => Within phases s₀) g₁ s₁ := by
    cases r.key with
    | some id => exact .pure hw₁
    | none => exact .lift fun s' id hs' => hw₁.moved h hs'
  refine .bind hid fun id g₂ s₂ hw₂ => ?_
  refine Operation.keeps_now_within h hw₂ fun now g₃ s₃ hnow hw₃ => ?_
  refine Operation.keeps_transact_within h hs₀ hw₃ fun t plan u ht hcommits => ?_
  obtain ⟨parties, hmakes⟩ :=
    booking_of_decide .supplied ht.wellTyped hvalid hnow trivial hcommits
  exact ⟨_, hr id now parties, hmakes⟩

end Ledger

namespace Notification

/-- A message to the subject about the ritual is queued. -/
theorem keeps_enqueue_within (h : k.Admits subject ritual phases) (hs₀ : s₀.Regular)
    (hw : Within phases s₀ g s) (message : String) (id : Option String) :
    (enqueue policy subject message ritual id).Keeps k (fun _ => Within phases s₀)
      (fun _ => Within phases s₀) g s := by
  have hqueue : ∀ (i : String) (g : γ) (s : Store), Within phases s₀ g s →
      (queueUnder policy subject message ritual i).Keeps k (fun _ => Within phases s₀)
        (fun _ => Within phases s₀) g s := by
    intro i g s hw
    refine Operation.keeps_now_within h hw fun now g' s' hnow hw' => ?_
    refine Operation.keeps_transact_within h hs₀ hw' fun t plan u ht hcommits => ?_
    exact ⟨.queueing (about ritual subject message i now) .supplied, ⟨⟨rfl, rfl⟩, rfl⟩,
      queueing_of_decide .supplied hnow trivial hcommits⟩
  cases id with
  | some i =>
    rw [enqueue_given]
    exact hqueue i g s hw
  | none =>
    rw [enqueue_drawn]
    refine .bind .freshId ?_
    rintro i _ s' ⟨rfl, hs'⟩
    exact hqueue i _ s' (hw.moved h hs')

end Notification

namespace Action

/-- A task is unlocked in the assignment of the subject to the ritual, if it has that. -/
theorem keeps_unlock_within (h : k.Admits subject ritual phases) (hs₀ : s₀.Regular)
    (hw : Within phases s₀ g s) (index : UInt64) :
    (unlock policy ritual subject index).Keeps k (fun _ => Within phases s₀)
      (fun _ => Within phases s₀) g s := by
  refine Operation.keeps_now_within h hw fun now g' s' hnow hw' => ?_
  refine Operation.keeps_transact_within h hs₀ hw' fun t plan u ht hcommits => ?_
  obtain ⟨a, hsubject, hritual, hmakes⟩ := unlocking_of_decide ht.wellTyped hnow hcommits
  exact ⟨.unlocking a index now, ⟨hritual, hsubject⟩, hmakes⟩

/-- An action is executed for the subject and the ritual that it is given. -/
theorem keeps_execute_within (h : k.Admits subject ritual phases) (hs₀ : s₀.Regular)
    (hw : Within phases s₀ g s) (a : Action) (key : Option String) :
    (a.execute policy ritual subject key).Keeps k (fun _ => Within phases s₀)
      (fun _ => Within phases s₀) g s := by
  cases a with
  | reward amount | penalty amount =>
    exact .map (Ledger.keeps_apply_within h hs₀ hw fun _ _ _ => ⟨⟨rfl, rfl⟩, rfl⟩)
  | unlockTask index => exact keeps_unlock_within h hs₀ hw index
  | notify message => exact .map (Notification.keeps_enqueue_within h hs₀ hw message key)

end Action

namespace Batch

theorem keeps_runFrom_within {b : Batch} (h : k.Admits b.subject b.ritual phases)
    (hs₀ : s₀.Regular) (hw : Within phases s₀ g s) (position : Nat) (actions : List Action) :
    (b.runFrom policy position actions).Keeps k (fun _ => Within phases s₀) g s := by
  induction actions generalizing position g s with
  | nil => exact hw
  | cons a rest ih =>
    have hfirst : (a.execute policy b.ritual b.subject (b.key position)).Keeps k
        (fun _ => Within phases s₀) (fun _ => Within phases s₀) g s :=
      Action.keeps_execute_within h hs₀ hw a (b.key position)
    have hanswer : (a.execute policy b.ritual b.subject (b.key position)).program.Keeps k
        (fun _ => Within phases s₀) g s := by
      refine Program.Keeps.imp hfirst ?_
      rintro (e | effect) g' s' hw'
      · exact hw'
      · exact hw'
    refine Program.Keeps.bind hanswer fun answer g₁ s₁ hw₁ => ?_
    exact Program.Keeps.bind (ih hw₁ (position + 1)) fun _ _ _ hw₂ => hw₂

/-- **A batch works for its own subject and ritual.** -/
theorem keeps_run_within {b : Batch} (h : k.Admits b.subject b.ritual phases) (hs₀ : s₀.Regular)
    (hw : Within phases s₀ g s) (actions : List Action) :
    (b.run policy actions).Keeps k (fun _ => Within phases s₀) g s := by
  refine Program.Keeps.bind (keeps_runFrom_within h hs₀ hw 0 actions) fun results g₁ s₁ hw₁ => ?_
  exact fun s' now hs' _ => hw₁.moved h hs'

end Batch

/-! ## What follows a step or a signal -/

/-- The step that an outcome is about. -/
def CompletionOutcome.step (o : CompletionOutcome) : Step :=
  ⟨o.ritualId, o.subjectId, o.taskIndex⟩

namespace Completion

variable {c : CompletionRecord} {r : Ritual}

theorem keeps_payReward_within (h : k.Admits c.subjectId c.ritualId phases) (hs₀ : s₀.Regular)
    (hw : Within phases s₀ g s) :
    (payReward policy c).Keeps k (fun _ => Within phases s₀) g s := by
  rw [payReward]
  split
  · exact hw
  · let batch : Batch := ⟨c.ritualId, c.subjectId, none, some (.reward c.step)⟩
    exact Program.Keeps.bind (Batch.keeps_run_within (b := batch) h hs₀ hw _) fun _ _ _ hw' => hw'

theorem keeps_fire_within (h : k.Admits c.subjectId c.ritualId phases) (hs₀ : s₀.Regular)
    (hr : s₀.get? Ritual (Ritual.key c.ritualId) = some r) (hw : Within phases s₀ g s)
    (t : Trigger) (scope : Scope) :
    (fire policy c t scope).Keeps k (fun _ _ _ => False) (fun _ => Within phases s₀) g s := by
  refine .bind (Ritual.keeps_evaluate (hw.found h hr) t) ?_
  rintro actions _ s' ⟨rfl, hs', -⟩
  let batch : Batch := ⟨c.ritualId, c.subjectId, some t.kind, some scope⟩
  exact .lift (Batch.keeps_run_within (b := batch) h hs₀ (hw.moved h hs') actions)

/-- **What follows a record is for its subject and its ritual**, and so is its outcome. It does not
fail: the ritual is stored. -/
theorem keeps_followUp_within (h : k.Admits c.subjectId c.ritualId phases) (hs₀ : s₀.Regular)
    (hr : s₀.get? Ritual (Ritual.key c.ritualId) = some r) (hw : Within phases s₀ g s) :
    (followUp policy c).Keeps k (fun _ _ _ => False)
      (fun o g' s' => o.step = c.step ∧ Within phases s₀ g' s') g s := by
  refine .bind (.lift (keeps_payReward_within h hs₀ hw)) ?_
  intro reward g₁ s₁ hw₁
  refine .bind (keeps_fire_within h hs₀ hr hw₁ _ _) ?_
  intro log g₂ s₂ hw₂
  split
  · exact .bind (keeps_fire_within h hs₀ hr hw₂ _ _) fun _ _ _ hw₃ => .pure ⟨rfl, hw₃⟩
  · exact .pure ⟨rfl, hw₂⟩

end Completion

/-- **What follows a signal is for its subject and the ritual that it is assigned to**, and does not
fail: that ritual is stored. -/
theorem Signal.keeps_fire_within (h : ∀ ritual, k.Admits subject ritual phases) (hs₀ : s₀.Regular)
    (hw : Within phases s₀ g s) (t : Trigger) (scope : String → Scope) :
    (fire policy subject t scope).Keeps k (fun _ _ _ => False) (fun _ => Within phases s₀) g s := by
  have hmoved : ∀ {s'}, k.moves g s s' → Within phases s₀ g s' := fun hs' => hw.moved (h "") hs'
  have hfind : (Assignment.find? subject).Keeps k (fun _ _ _ => False)
      (fun x g' s' => Within phases s₀ g' s' ∧
        x = s'.get? Assignment (Assignment.key subject)) g s :=
    .readRecord? (fun s' hs' => ((hmoved hs').2.regular hs₀).wellTyped)
      fun s' hs' => ⟨hmoved hs', rfl⟩
  refine .bind hfind ?_
  rintro x g₁ s₁ ⟨hw₁, hx⟩
  cases x with
  | none =>
    refine .bind .now ?_
    rintro now _ s₂ ⟨rfl, hs₂, -⟩
    exact .pure (hw₁.moved (h "") hs₂)
  | some a =>
    have hs₁ := hw₁.2.regular hs₀
    obtain ⟨r, hr, -⟩ := hs₁.mirrored.assigned subject a hx.symm
    -- The ritual of the assignment is looked for from where the assignment was found.
    have hthere : Within phases s₁ g₁ s₁ := ⟨hw₁.1, Rely.engine.refl s₁⟩
    refine .bind (Ritual.keeps_evaluate (hthere.found (h "") hr) t) ?_
    rintro actions g₂ s₂ ⟨rfl, hs₂, -⟩
    let batch : Batch := ⟨a.ritualId, subject, some t.kind, some (scope a.ritualId)⟩
    have hrun : (batch.run policy actions).Keeps k (fun _ => Within phases s₀) g₂ s₂ :=
      Batch.keeps_run_within (h a.ritualId) hs₀ (hw₁.moved (h "") hs₂) actions
    exact .bind (.lift hrun) fun _ _ _ hw₃ => .pure hw₃

end RitualLedger
