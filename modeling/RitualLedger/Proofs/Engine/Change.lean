import Mathlib.Data.List.Nodup
import RitualLedger.Proofs.Ledger.Request
import RitualLedger.Proofs.Ritual.Definition
import RitualLedger.Proofs.Rule.Due

/-!
# The changes that the engine makes

Whatever clients do, and however their requests are interleaved, the store of the engine changes in
eight ways. `Change` lists them; each change goes through as a whole. `Change.Allowed` says when a
change may be made, in terms of what the store holds at that moment, and `Change.writes` what is
written then. A change writes to the collections of `Change.collections` and to no others.

Everything that holds of all reachable stores is proved by going through these eight changes. Here
it is proved that a change keeps the store typed (`Change.Makes.wellTyped`), and that it takes back
nothing that other clients rely on (`Change.Makes.evolves`).
-/

namespace RitualLedger

/-- One change of the store of the engine. -/
inductive Change where
  /-- An account is opened. -/
  | opening (a : Account)
  /-- A request is booked under an id; the parties are given as they are afterwards. -/
  | booking (r : TransactionRequest) (id : String) (now : Instant) (parties : List Account)
      (origin : Origin)
  /-- A notification is queued. -/
  | queueing (n : Notification) (origin : Origin)
  /-- A notification is marked as read. -/
  | marking (n : Notification)
  /-- A task is unlocked in an assignment. -/
  | unlocking (a : Assignment) (index : UInt64) (now : Instant)
  /-- A ritual is created from a definition. -/
  | creating (d : Definition) (r : Ritual) (activity : String) (now : Instant)
  /-- A step is taken, in a ritual and an assignment as they were. -/
  | stepping (s : Step) (r : Ritual) (a : Assignment) (task : Task) (evidence : Evidence)
      (now : Instant)
  /-- A mood is logged. -/
  | logging (id : String) (e : MoodEntry)

/-- What a transaction adds to the balance of a subject. -/
def Transaction.delta (t : Transaction) (subject : String) : Int :=
  (if t.receiverId = some subject then (t.amount.toNat : Int) else 0) -
    if t.senderId = some subject then (t.amount.toNat : Int) else 0

/-- An assignment with one more unlocked task. -/
def Assignment.unlocked (a : Assignment) (index : UInt64) (now : Instant) : Assignment :=
  { a with unlockedTasks := a.unlockedTasks.insert index, lastUpdated := now }

/-- A notification that was read. -/
def Notification.marked (n : Notification) : Notification := { n with read := true }

/-! ## When a change may be made -/

/-- A request may be booked: the id is free, and the parties are the stored accounts after the
transaction, which they can bear. -/
structure BookingAllowed (s : Store) (r : TransactionRequest) (id : String) (now : Instant)
    (parties : List Account) (origin : Origin) : Prop where
  valid : r.validate = .ok ()
  fits : Fits now
  new : s.read? (Ledger.transactionKey id) = none
  subjects : parties.map (·.subjectId) = r.senderId.toList ++ r.receiverId.toList
  moved : ∀ a ∈ parties, ∃ a₀, s.get? Account (Ledger.accountKey a.subjectId) = some a₀ ∧
    a = { a₀ with tokenBalance := a.tokenBalance } ∧
    (0 ≤ a₀.tokenBalance.toInt → 0 ≤ a.tokenBalance.toInt ∧
      a.tokenBalance.toInt =
        a₀.tokenBalance.toInt + (Ledger.record r id now).delta a.subjectId)
  backed : origin.Backs s id fun a ritual subject =>
    a.IsBookedAs ritual subject (Ledger.record r id now)

/-- The tasks of definitions under given ids, counted from a place on. -/
def Ritual.begun (order : Nat) (ts : List TaskDefinition) (ids : List String) : List Task :=
  ((ts.zip ids).zipIdx order).map fun ((t, id), order) =>
    ⟨id, UInt64.ofNat order, t.title, t.description, t.evidenceKind, t.tokenReward, .pending, none⟩

/-- A ritual is the beginning of a definition, with ids that are not in use. -/
structure CreationAllowed (s : Store) (d : Definition) (r : Ritual) (activity : String)
    (now : Instant) : Prop where
  valid : d.validate = .ok ()
  few : d.tasks.length < 2 ^ 63
  fits : Fits now
  start : r = Ritual.start d r.id r.tasks now
  tasks : r.tasks = Ritual.begun 0 d.tasks (r.tasks.map (·.id))
  count : r.tasks.length = d.tasks.length
  distinct : (r.id :: r.tasks.map (·.id)).Nodup
  unused : ∀ id ∈ r.id :: r.tasks.map (·.id), Text.IsUuid id ∧ s.Unused id
  new : s.read? (Ritual.key r.id) = none
  owner : s.read? (Ledger.accountKey r.ownerId) ≠ none
  subject : s.read? (Ledger.accountKey r.subjectId) ≠ none
  newActivity : s.read? (Collection.activities.key activity) = none

/-- A step may be taken: the assignment is at this step of the ritual, the task takes the evidence,
and neither the step nor its evidence is on record. -/
structure SteppingAllowed (s : Store) (step : Step) (r : Ritual) (a : Assignment) (task : Task)
    (evidence : Evidence) (now : Instant) : Prop where
  fits : Fits now
  ritual : s.get? Ritual (Ritual.key step.ritual) = some r
  assignment : s.get? Assignment (Assignment.key step.subject) = some a
  assigned : a.ritualId = step.ritual
  current : Completion.staleness? step a = none
  taken : r.task? step.index = some task
  accepted : task.evidenceKind.accepts evidence = true
  new : s.read? step.key = none
  newEvidence : s.read? (evidenceKey task.id step.subject) = none

namespace Change

/-- When a change may be made. -/
def Allowed (s : Store) : Change → Prop
  | .opening a => Fits a ∧ a.subjectId ≠ "" ∧ a.tokenBalance = 0 ∧
      s.read? (Ledger.accountKey a.subjectId) = none
  | .booking r id now parties origin => BookingAllowed s r id now parties origin
  | .queueing n origin => Fits n ∧ n.read = false ∧ s.read? (Notification.key n.id) = none ∧
      origin.Backs s n.id fun a ritual subject => a.IsQueuedAs ritual subject n
  | .marking n => n.read = false ∧ s.get? Notification (Notification.key n.id) = some n
  | .unlocking a index now => Fits now ∧ a.unlockedTasks.contains index = false ∧
      s.get? Assignment (Assignment.key a.subjectId) = some a
  | .creating d r activity now => CreationAllowed s d r activity now
  | .stepping step r a task evidence now => SteppingAllowed s step r a task evidence now
  | .logging id e => Fits e ∧ Text.IsUuid id ∧ s.Unused id

/-- What a change writes. -/
def writes : Change → List (DocKey × Json)
  | .opening a => [(Ledger.accountKey a.subjectId, encode a)]
  | .booking r id now parties _ =>
    parties.map (fun a => (Ledger.accountKey a.subjectId, encode a)) ++
      [(Ledger.transactionKey id, encode (Ledger.record r id now))]
  | .queueing n _ => [(Notification.key n.id, encode n)]
  | .marking n => [(Notification.key n.id, encode n.marked)]
  | .unlocking a index now =>
    [(Assignment.key a.subjectId, encode (a.unlocked index now))]
  | .creating _ r activity now =>
    [(Ritual.key r.id, encode r),
      (Assignment.key r.subjectId, encode (Ritual.firstAssignment r now)),
      (Collection.activities.key activity, encode (Ritual.creation r now))]
  | .stepping step r a task evidence now =>
    let c := Completion.recordOf step r task now
    [(Ritual.key step.ritual, encode (Completion.advance r c)),
      (Assignment.key step.subject, encode (Completion.advanceAssignment a c)),
      (step.key, encode c),
      (evidenceKey task.id step.subject, encode (Completion.evidenceOf step task evidence now))]
  | .logging id e => [(Collection.moods.key id, encode e)]

/-- The collections that a change writes to. -/
def collections : Change → List Collection
  | .opening _ => [.accounts]
  | .booking _ _ _ _ _ => [.accounts, .transactions]
  | .queueing _ _ | .marking _ => [.notifications]
  | .unlocking _ _ _ => [.assignments]
  | .creating _ _ _ _ => [.rituals, .assignments, .activities]
  | .stepping _ _ _ _ _ _ => [.rituals, .assignments, .completions, .evidence]
  | .logging _ _ => [.moods]

/-- The drawn ids that a change puts to use, of those that must not be used twice. -/
def ids : Change → List String
  | .creating _ r _ _ => r.id :: r.tasks.map (·.id)
  | .logging id _ => [id]
  | .opening _ | .booking _ _ _ _ _ | .queueing _ _ | .marking _ | .unlocking _ _ _
  | .stepping _ _ _ _ _ _ => []

end Change

/-! ## Several writes at once -/

namespace Store

/-- The store after bodies were written, one after the other. -/
def putAll (s : Store) (ws : List (DocKey × Json)) : Store :=
  ws.foldl (fun s w => s.put w.1 w.2) s

variable {s : Store} {ws : List (DocKey × Json)} {key : DocKey}

theorem putAll_append {ws' : List (DocKey × Json)} :
    s.putAll (ws ++ ws') = (s.putAll ws).putAll ws' := List.foldl_append

theorem le_putAll : s ≤ s.putAll ws := by
  induction ws generalizing s with
  | nil => exact le_refl s
  | cons w rest ih => exact le_put.trans ih

/-- A key that is not written reads as before. -/
theorem read?_putAll_of_notMem (h : ∀ w ∈ ws, w.1 ≠ key) :
    (s.putAll ws).read? key = s.read? key := by
  induction ws generalizing s with
  | nil => rfl
  | cons w rest ih =>
    have hrest : ∀ w ∈ rest, w.1 ≠ key := fun w' hw' => h w' (List.mem_cons_of_mem w hw')
    have hput : (s.put w.1 w.2).read? key = s.read? key :=
      read?_put_of_ne (Ne.symm (h w List.mem_cons_self))
    exact (ih hrest).trans hput

theorem get?_putAll_of_notMem {α : Type} [Document α] (h : ∀ w ∈ ws, w.1 ≠ key) :
    (s.putAll ws).get? α key = s.get? α key := by
  rw [get?, get?, read?_putAll_of_notMem h]

/-- Of keys that are all different, each has the body that was written there. -/
theorem read?_putAll_of_mem {body : Json} (hkeys : (ws.map (·.1)).Nodup) (hmem : (key, body) ∈ ws) :
    ∃ version, (s.putAll ws).read? key = some ⟨body, version⟩ := by
  induction ws generalizing s with
  | nil => cases hmem
  | cons w rest ih =>
    obtain ⟨hnew, hrest⟩ := List.nodup_cons.1 hkeys
    rcases List.mem_cons.1 hmem with rfl | hmem
    · have hothers : ∀ w ∈ rest, w.1 ≠ key := by
        intro w hw heq
        exact hnew (List.mem_map.2 ⟨w, hw, heq⟩)
      exact ⟨_, (read?_putAll_of_notMem hothers).trans read?_put_self⟩
    · exact ih hrest hmem

/-- A collection that is not written to is listed as before. -/
theorem inCollection_putAll_of_notMem {collection : String}
    (h : ∀ w ∈ ws, w.1.collection ≠ collection) :
    (s.putAll ws).inCollection collection = s.inCollection collection := by
  induction ws generalizing s with
  | nil => rfl
  | cons w rest ih =>
    have hrest := ih (s := s.put w.1 w.2) fun w' hw' => h w' (List.mem_cons_of_mem w hw')
    exact hrest.trans (inCollection_put_of_ne (h w List.mem_cons_self))

/-- Writes that go through leave their bodies, one after the other. -/
theorem apply_eq_putAll {ws : List Write} {t : Store} (h : s.apply ws = .ok t) :
    t = s.putAll (ws.map fun w => (w.key, w.body)) := by
  induction ws generalizing s with
  | nil =>
    cases h
    rfl
  | cons w rest ih =>
    obtain ⟨s', hwrite, hrest⟩ := apply_cons h
    rw [write_eq_put hwrite] at hrest
    exact ih hrest

/-- Writes to different keys go through, when what they insert is new. -/
theorem apply_of_new (ws : List Write) (hkeys : (ws.map (·.key)).Nodup)
    (hnew : ∀ key body, .insert key body ∈ ws → s.read? key = none) : ∃ t, s.apply ws = .ok t := by
  induction ws generalizing s with
  | nil => exact ⟨s, rfl⟩
  | cons w rest ih =>
    obtain ⟨hw, hrest⟩ := List.nodup_cons.1 hkeys
    have hwrite : s.write w = .ok (s.put w.key w.body) := by
      cases w with
      | put key body => rfl
      | insert key body =>
        have habsent : s.read? key = none := hnew key body List.mem_cons_self
        simp only [write, habsent]
        rfl
    obtain ⟨t, ht⟩ := ih (s := s.put w.key w.body) hrest (by
      intro key body hmem
      rw [read?_put_of_ne]
      · exact hnew key body (List.mem_cons_of_mem _ hmem)
      · rintro rfl
        exact hw (List.mem_map.2 ⟨_, hmem, rfl⟩))
    refine ⟨t, ?_⟩
    change (s.write w).bind (fun s' => s'.apply rest) = .ok t
    rw [hwrite]
    exact ht

/-- What was inserted was not there. -/
theorem absent_of_insert {ws : List Write} {t : Store} {body : Json} (h : s.apply ws = .ok t)
    (hmem : .insert key body ∈ ws) : s.read? key = none := by
  induction ws generalizing s with
  | nil => cases hmem
  | cons w rest ih =>
    rcases List.mem_cons.1 hmem with rfl | hmem
    · exact (apply_insert h).1
    · obtain ⟨s', hwrite, hrest⟩ := apply_cons h
      rw [write_eq_put hwrite] at hrest
      exact absent_of_le le_put (ih hrest hmem)

theorem WellTyped.putAll (h : s.WellTyped)
    (hws : ∀ w ∈ ws, ∃ c id, w.1 = Collection.key c id ∧ c.Holds id w.2) :
    (s.putAll ws).WellTyped := by
  induction ws generalizing s with
  | nil => exact h
  | cons w rest ih =>
    obtain ⟨c, id, hkey, hholds⟩ := hws w List.mem_cons_self
    have hput : (s.put w.1 w.2).WellTyped := by
      rw [hkey]
      exact h.put hholds
    exact ih hput fun w' hw' => hws w' (List.mem_cons_of_mem w hw')

theorem HasDistinctKeys.putAll (h : s.HasDistinctKeys) : (s.putAll ws).HasDistinctKeys := by
  induction ws generalizing s with
  | nil => exact h
  | cons w rest ih => exact ih h.put

end Store

/-! ## Making a change -/

/-- A change leads from one store to another. -/
structure Change.Makes (ch : Change) (s t : Store) : Prop where
  allowed : ch.Allowed s
  made : t = s.putAll ch.writes

theorem CreationAllowed.fitsRitual {s : Store} {d : Definition} {r : Ritual} {activity : String}
    {now : Instant} (h : CreationAllowed s d r activity now) : Fits r := by
  have hconditions := Definition.fits_of_validateConditions
    (Definition.accepted_of_validate h.valid).conditions
  rw [h.start]
  refine ⟨hconditions, ?_, h.fits⟩
  intro t ht
  change t ∈ r.tasks at ht
  rw [h.tasks] at ht
  obtain ⟨x, -, rfl⟩ := List.mem_map.1 ht
  exact nofun

theorem Completion.fits_advance {r : Ritual} {c : CompletionRecord} (h : Fits r)
    (hnow : Fits c.completedAt) : Fits (Completion.advance r c) := by
  refine ⟨h.1, ?_, h.2.2⟩
  intro t ht
  obtain ⟨j, hj⟩ := List.mem_iff_getElem?.1 ht
  simp only [Completion.advance, List.getElem?_modify] at hj
  obtain ⟨t₀, ht₀, rfl⟩ := Option.map_eq_some_iff.1 hj
  split
  · intro time htime
    cases htime
    exact hnow
  · exact h.2.1 t₀ (List.mem_of_getElem? ht₀)

/-- The parties of a valid request have accounts of their own. -/
theorem Ledger.nodup_accountKeys {r : TransactionRequest} {parties : List Account}
    (hvalid : r.validate = .ok ())
    (hsubjects : parties.map (·.subjectId) = r.senderId.toList ++ r.receiverId.toList) :
    (parties.map fun a => Ledger.accountKey a.subjectId).Nodup := by
  have hnodup : (parties.map (·.subjectId)).Nodup := by
    rw [hsubjects]
    exact TransactionRequest.parties_nodup hvalid
  have hinjective : Function.Injective Ledger.accountKey := fun i j hij =>
    (Collection.key_inj.1 hij).2
  have hmap := hnodup.map hinjective
  rwa [List.map_map] at hmap

namespace Change

variable {ch : Change} {s t : Store}

theorem collections_of_mem_writes {w : DocKey × Json} (h : w ∈ ch.writes) :
    ∃ c ∈ ch.collections, ∃ id, w.1 = c.key id := by
  cases ch with
  | opening a =>
    obtain rfl := List.mem_singleton.1 h
    exact ⟨.accounts, by simp [collections], _, rfl⟩
  | booking r id now parties origin =>
    rcases List.mem_append.1 h with h | h
    · obtain ⟨a, -, rfl⟩ := List.mem_map.1 h
      exact ⟨.accounts, by simp [collections], _, rfl⟩
    · obtain rfl := List.mem_singleton.1 h
      exact ⟨.transactions, by simp [collections], _, rfl⟩
  | queueing n origin | marking n =>
    obtain rfl := List.mem_singleton.1 h
    exact ⟨.notifications, by simp [collections], _, rfl⟩
  | unlocking a index now =>
    obtain rfl := List.mem_singleton.1 h
    exact ⟨.assignments, by simp [collections], _, rfl⟩
  | creating d r activity now =>
    simp only [writes, List.mem_cons, List.not_mem_nil, or_false] at h
    rcases h with rfl | rfl | rfl
    · exact ⟨.rituals, by simp [collections], _, rfl⟩
    · exact ⟨.assignments, by simp [collections], _, rfl⟩
    · exact ⟨.activities, by simp [collections], _, rfl⟩
  | stepping step r a task evidence now =>
    simp only [writes, List.mem_cons, List.not_mem_nil, or_false] at h
    rcases h with rfl | rfl | rfl | rfl
    · exact ⟨.rituals, by simp [collections], _, rfl⟩
    · exact ⟨.assignments, by simp [collections], _, rfl⟩
    · exact ⟨.completions, by simp [collections], _, rfl⟩
    · exact ⟨.evidence, by simp [collections], _, rfl⟩
  | logging id e =>
    obtain rfl := List.mem_singleton.1 h
    exact ⟨.moods, by simp [collections], _, rfl⟩

namespace Makes

theorem le (h : ch.Makes s t) : s ≤ t := by
  rw [h.made]
  exact Store.le_putAll

/-- A change leaves the other collections alone. -/
theorem untouched (h : ch.Makes s t) {c : Collection} (hc : c ∉ ch.collections) (id : String) :
    t.read? (c.key id) = s.read? (c.key id) := by
  rw [h.made]
  refine Store.read?_putAll_of_notMem ?_
  intro w hw heq
  obtain ⟨c', hc', id', hkey⟩ := collections_of_mem_writes hw
  obtain ⟨rfl, -⟩ := Collection.key_inj.1 (hkey.symm.trans heq)
  exact hc hc'

theorem get?_untouched {α : Type} [Document α] (h : ch.Makes s t) {c : Collection}
    (hc : c ∉ ch.collections) (id : String) : t.get? α (c.key id) = s.get? α (c.key id) := by
  rw [Store.get?, Store.get?, h.untouched hc id]

theorem all_untouched {α : Type} [Document α] [LawfulDocument α] [Record α] (h : ch.Makes s t)
    (hc : Record.collection α ∉ ch.collections) : t.all α = s.all α := by
  rw [Store.all, Store.all, h.made, Store.inCollection_putAll_of_notMem]
  intro w hw heq
  obtain ⟨c, hmem, id, hkey⟩ := collections_of_mem_writes hw
  rw [hkey] at heq
  exact hc (Collection.name_injective heq ▸ hmem)

/-- A change writes documents of the right types. -/
theorem holds (h : ch.Makes s t) (hs : s.WellTyped) {w : DocKey × Json} (hw : w ∈ ch.writes) :
    ∃ c id, w.1 = Collection.key c id ∧ c.Holds id w.2 := by
  have hallowed := h.allowed
  cases ch with
  | opening a =>
    obtain rfl := List.mem_singleton.1 hw
    exact ⟨.accounts, _, rfl, a, hallowed.1, rfl, rfl⟩
  | booking r id now parties origin =>
    rcases List.mem_append.1 hw with hw | hw
    · obtain ⟨a, ha, rfl⟩ := List.mem_map.1 hw
      -- A party differs from its stored account in the balance only.
      obtain ⟨a₀, hget, heq, -⟩ := hallowed.moved a ha
      have hfits : Fits a₀.createdAt := (hs.named (α := Account) hget).1
      refine ⟨.accounts, _, rfl, a, ?_, rfl, rfl⟩
      rw [heq]
      exact hfits
    · obtain rfl := List.mem_singleton.1 hw
      exact ⟨.transactions, _, rfl, Ledger.record r id now, hallowed.fits, rfl, rfl⟩
  | queueing n origin =>
    obtain rfl := List.mem_singleton.1 hw
    exact ⟨.notifications, _, rfl, n, hallowed.1, rfl, rfl⟩
  | marking n =>
    obtain rfl := List.mem_singleton.1 hw
    have hfits := (hs.named (α := Notification) hallowed.2).1
    exact ⟨.notifications, _, rfl, n.marked, hfits, rfl, rfl⟩
  | unlocking a index now =>
    obtain rfl := List.mem_singleton.1 hw
    have hfits := (hs.named (α := Assignment) hallowed.2.2).1
    exact ⟨.assignments, _, rfl, a.unlocked index now, ⟨hfits.1, hallowed.1⟩, rfl, rfl⟩
  | creating d r activity now =>
    simp only [writes, List.mem_cons, List.not_mem_nil, or_false] at hw
    rcases hw with rfl | rfl | rfl
    · exact ⟨.rituals, _, rfl, r, hallowed.fitsRitual, rfl, rfl⟩
    · refine ⟨.assignments, _, rfl, Ritual.firstAssignment r now, ?_, rfl, rfl⟩
      exact ⟨hallowed.fits, hallowed.fits⟩
    · exact ⟨.activities, _, rfl, Ritual.creation r now, hallowed.fits, trivial, rfl⟩
  | stepping step r a task evidence now =>
    obtain ⟨hfitsR, hid⟩ := hs.named (α := Ritual) hallowed.ritual
    obtain ⟨hfitsA, hsubject⟩ := hs.named (α := Assignment) hallowed.assignment
    simp only [writes, List.mem_cons, List.not_mem_nil, or_false] at hw
    rcases hw with rfl | rfl | rfl | rfl
    · refine ⟨.rituals, _, rfl, Completion.advance r (Completion.recordOf step r task now), ?_, hid,
        rfl⟩
      exact Completion.fits_advance hfitsR hallowed.fits
    · refine ⟨.assignments, _, rfl,
        Completion.advanceAssignment a (Completion.recordOf step r task now), ?_, hsubject, rfl⟩
      exact ⟨hfitsA.1, hallowed.fits⟩
    · exact ⟨.completions, _, rfl, Completion.recordOf step r task now, hallowed.fits, rfl, rfl⟩
    · exact ⟨.evidence, _, rfl, Completion.evidenceOf step task evidence now, hallowed.fits, rfl,
        rfl⟩
  | logging id e =>
    obtain rfl := List.mem_singleton.1 hw
    exact ⟨.moods, _, rfl, e, hallowed.1, trivial, rfl⟩

/-- **Changes keep the store typed.** -/
theorem wellTyped (h : ch.Makes s t) (hs : s.WellTyped) : t.WellTyped := by
  rw [h.made]
  exact hs.putAll fun w hw => h.holds hs hw

/-- A change writes each key once. -/
theorem keys_nodup (h : ch.Makes s t) : (ch.writes.map (·.1)).Nodup := by
  have hallowed := h.allowed
  cases ch with
  | opening _ | queueing _ _ | marking _ | unlocking _ _ _ | logging _ _ =>
    exact List.nodup_singleton _
  | booking r id now parties origin =>
    -- The parties have different accounts, and the record is in a collection of its own.
    have hkeys := Ledger.nodup_accountKeys hallowed.valid hallowed.subjects
    simp only [writes, List.map_append, List.map_map, List.map_cons, List.map_nil]
    refine List.nodup_append.2 ⟨hkeys, List.nodup_singleton _, ?_⟩
    intro key hkey key' hkey' heq
    obtain ⟨a, -, rfl⟩ := List.mem_map.1 hkey
    obtain rfl := List.mem_singleton.1 hkey'
    exact Collection.key_ne_of_ne (by decide) heq
  | creating d r activity now =>
    simp [writes, Ritual.key, Assignment.key]
  | stepping step r a task evidence now =>
    simp [writes, Ritual.key, Assignment.key, Step.key, evidenceKey]

/-- Under a key stands what the change writes there, or what stood there before. -/
theorem get?_cases {α : Type} [Document α] (h : ch.Makes s t) (key : DocKey) :
    (∃ body, (key, body) ∈ ch.writes ∧ t.get? α key = decode? body) ∨
      t.get? α key = s.get? α key := by
  by_cases hmem : key ∈ ch.writes.map (·.1)
  · obtain ⟨w, hw, rfl⟩ := List.mem_map.1 hmem
    refine .inl ⟨w.2, hw, ?_⟩
    obtain ⟨version, hread⟩ := Store.read?_putAll_of_mem (s := s) h.keys_nodup hw
    rw [h.made, Store.get?_of_read? hread]
  · refine .inr ?_
    rw [h.made]
    exact Store.get?_putAll_of_notMem fun w hw heq => hmem (List.mem_map.2 ⟨w, hw, heq⟩)

/-- A change reads back what it has written. -/
theorem get?_written {α : Type} [Document α] [LawfulDocument α] (h : ch.Makes s t) {key : DocKey}
    {x : α} (hmem : (key, encode x) ∈ ch.writes) (hfits : Fits x) : t.get? α key = some x := by
  obtain ⟨version, hread⟩ := Store.read?_putAll_of_mem (s := s) h.keys_nodup hmem
  rw [h.made, Store.get?_of_read? hread, decode_encode hfits]

/-- A change that writes one document of a collection changes no other one there. -/
theorem get?_eq {α : Type} [Document α] [LawfulDocument α] (h : ch.Makes s t) {c : Collection}
    {id : String} {x : α} (hmem : (c.key id, encode x) ∈ ch.writes) (hfits : Fits x)
    (hothers : ∀ w ∈ ch.writes, w.1 = c.key id ∨ w.1.collection ≠ c.name) (id' : String) :
    t.get? α (c.key id') = if id' = id then some x else s.get? α (c.key id') := by
  split
  · rename_i heq
    rw [heq]
    exact h.get?_written hmem hfits
  · rename_i hne
    rw [h.made]
    refine Store.get?_putAll_of_notMem ?_
    intro w hw heq
    rcases hothers w hw with hkey | hcollection
    · exact hne (Collection.key_inj.1 (heq.symm.trans hkey)).2
    · exact hcollection (congrArg DocKey.collection heq)

/-- A change that writes one document only changes no other one. -/
theorem get?_eq_of_single {α : Type} [Document α] [LawfulDocument α] (h : ch.Makes s t)
    {c : Collection} {id : String} {x : α} (hwrites : ch.writes = [(c.key id, encode x)])
    (hfits : Fits x) (id' : String) :
    t.get? α (c.key id') = if id' = id then some x else s.get? α (c.key id') := by
  refine h.get?_eq (hwrites ▸ List.mem_singleton_self _) hfits (fun w hw => ?_) id'
  rw [hwrites] at hw
  rw [List.mem_singleton.1 hw]
  exact .inl rfl

/-- A new document goes to the end of its collection. -/
theorem all_snoc {α : Type} [Document α] [LawfulDocument α] [Record α] (h : ch.Makes s t)
    (before behind : List (DocKey × Json)) {id : String} {x : α}
    (hwrites : ch.writes = before ++ ((Record.collection α).key id, encode x) :: behind)
    (hothers : ∀ w ∈ before ++ behind, w.1.collection ≠ (Record.collection α).name)
    (hnew : s.read? ((Record.collection α).key id) = none) (hfits : Fits x) :
    t.all α = s.all α ++ [x] := by
  have hbefore : ∀ w ∈ before, w.1.collection ≠ (Record.collection α).name :=
    fun w hw => hothers w (List.mem_append_left _ hw)
  have hstill : (s.putAll before).read? ((Record.collection α).key id) = none := by
    rw [Store.read?_putAll_of_notMem, hnew]
    rintro w hw heq
    exact hbefore w hw (congrArg DocKey.collection heq)
  have hmade : t = (((s.putAll before).put ((Record.collection α).key id) (encode x)).putAll
      behind) := by
    rw [h.made, hwrites, Store.putAll_append]
    rfl
  have hlist : t.inCollection (Record.collection α).name =
      s.inCollection (Record.collection α).name ++ [(id, encode x)] := by
    rw [hmade, Store.inCollection_putAll_of_notMem fun w hw =>
      hothers w (List.mem_append_right _ hw)]
    refine (Store.inCollection_put_new hstill).trans ?_
    rw [Store.inCollection_putAll_of_notMem hbefore]
  rw [Store.all, hlist, List.filterMap_append]
  simp only [List.filterMap_cons, List.filterMap_nil, decode_encode hfits]
  rfl

/-- Entries are written to free keys only. -/
theorem absent_of_isFrozen (h : ch.Makes s t) {c : Collection} {id : String} {body : Json}
    (hc : c.isFrozen = true) (hw : (c.key id, body) ∈ ch.writes) : s.read? (c.key id) = none := by
  have hallowed := h.allowed
  cases ch with
  | opening _ | queueing _ _ | marking _ | unlocking _ _ _ =>
    obtain ⟨rfl, -⟩ := Collection.key_inj.1 (Prod.mk.inj (List.mem_singleton.1 hw)).1
    cases hc
  | logging id' e =>
    have hkey := (Prod.mk.inj (List.mem_singleton.1 hw)).1
    rw [hkey]
    exact hallowed.2.2.mood
  | booking r id' now parties origin =>
    rcases List.mem_append.1 hw with hw | hw
    · obtain ⟨a, -, heq⟩ := List.mem_map.1 hw
      obtain ⟨rfl, -⟩ := Collection.key_inj.1 (Prod.mk.inj heq).1
      cases hc
    · rw [(Prod.mk.inj (List.mem_singleton.1 hw)).1]
      exact hallowed.new
  | creating d r activity now =>
    simp only [writes, List.mem_cons, List.not_mem_nil, or_false, Prod.mk.injEq] at hw
    rcases hw with ⟨hkey, -⟩ | ⟨hkey, -⟩ | ⟨hkey, -⟩
    · obtain ⟨rfl, -⟩ := Collection.key_inj.1 hkey
      cases hc
    · obtain ⟨rfl, -⟩ := Collection.key_inj.1 hkey
      cases hc
    · rw [hkey]
      exact hallowed.newActivity
  | stepping step r a task evidence now =>
    simp only [writes, List.mem_cons, List.not_mem_nil, or_false, Prod.mk.injEq] at hw
    rcases hw with ⟨hkey, -⟩ | ⟨hkey, -⟩ | ⟨hkey, -⟩ | ⟨hkey, -⟩
    · obtain ⟨rfl, -⟩ := Collection.key_inj.1 hkey
      cases hc
    · obtain ⟨rfl, -⟩ := Collection.key_inj.1 hkey
      cases hc
    · rw [hkey]
      exact hallowed.new
    · rw [hkey]
      exact hallowed.newEvidence

/-- A ritual is as it was, or it was created, or a step was taken in it. -/
theorem ritual_cases (h : ch.Makes s t) (hs : s.WellTyped) {id : String} {r : Ritual}
    (hget : t.get? Ritual (Ritual.key id) = some r) :
    s.get? Ritual (Ritual.key id) = some r ∨
      (∃ d activity now, ch = .creating d r activity now ∧ id = r.id) ∨
      ∃ step r₀ a task evidence now, ch = .stepping step r₀ a task evidence now ∧
        id = step.ritual ∧ r = Completion.advance r₀ (Completion.recordOf step r₀ task now) := by
  have hallowed := h.allowed
  rcases h.get?_cases (α := Ritual) (Ritual.key id) with ⟨body, hw, hread⟩ | hsame
  · rw [hread] at hget
    cases ch with
    | opening _ | queueing _ _ | marking _ | unlocking _ _ _ | logging _ _ =>
      exact absurd (Prod.mk.inj (List.mem_singleton.1 hw)).1 (Collection.key_ne_of_ne (by decide))
    | booking r' id' now parties origin =>
      rcases List.mem_append.1 hw with hw | hw
      · obtain ⟨a, -, heq⟩ := List.mem_map.1 hw
        exact absurd (Prod.mk.inj heq).1 (Collection.key_ne_of_ne (by decide))
      · exact absurd (Prod.mk.inj (List.mem_singleton.1 hw)).1
          (Collection.key_ne_of_ne (by decide))
    | creating d r' activity now =>
      simp only [writes, List.mem_cons, List.not_mem_nil, or_false, Prod.mk.injEq] at hw
      rcases hw with ⟨hkey, rfl⟩ | ⟨hkey, -⟩ | ⟨hkey, -⟩
      · rw [decode_encode hallowed.fitsRitual] at hget
        cases hget
        exact .inr (.inl ⟨d, activity, now, rfl, (Collection.key_inj.1 hkey).2⟩)
      · exact absurd hkey (Collection.key_ne_of_ne (by decide))
      · exact absurd hkey (Collection.key_ne_of_ne (by decide))
    | stepping step r₀ a task evidence now =>
      simp only [writes, List.mem_cons, List.not_mem_nil, or_false, Prod.mk.injEq] at hw
      rcases hw with ⟨hkey, rfl⟩ | ⟨hkey, -⟩ | ⟨hkey, -⟩ | ⟨hkey, -⟩
      · have hfits := (hs.named (α := Ritual) hallowed.ritual).1
        rw [decode_encode (Completion.fits_advance hfits hallowed.fits)] at hget
        cases hget
        exact .inr (.inr ⟨step, r₀, a, task, evidence, now, rfl, (Collection.key_inj.1 hkey).2,
          rfl⟩)
      · exact absurd hkey (Collection.key_ne_of_ne (by decide))
      · exact absurd hkey (Collection.key_ne_of_ne (by decide))
      · exact absurd hkey (Collection.key_ne_of_ne (by decide))
  · exact .inl (hsame.symm.trans hget)

/-- An id stays out of use, unless the change uses it. -/
theorem unused (h : ch.Makes s t) (hs : s.WellTyped) {id : String} (hid : id ∉ ch.ids)
    (hunused : s.Unused id) : t.Unused id := by
  -- Every ritual after the change has the ids of one before it, or ids that the change uses.
  have hrituals : ∀ key r, t.get? Ritual (Ritual.key key) = some r →
      r.id ≠ id ∧ id ∉ r.tasks.map (·.id) := by
    intro key r hget
    have hbefore : ∀ r₀, s.get? Ritual (Ritual.key key) = some r₀ →
        r₀.id ≠ id ∧ id ∉ r₀.tasks.map (·.id) := by
      intro r₀ hget₀
      refine ⟨hunused.ritual _ _ hget₀, ?_⟩
      intro hmem
      obtain ⟨task, htask, htaskId⟩ := List.mem_map.1 hmem
      exact hunused.task _ _ hget₀ task htask htaskId
    rcases h.ritual_cases hs hget with hsame | ⟨d, activity, now, rfl, -⟩ |
      ⟨step, r₀, a, task, evidence, now, rfl, rfl, rfl⟩
    · exact hbefore r hsame
    · exact ⟨fun heq => hid (heq ▸ List.mem_cons_self),
        fun hmem => hid (List.mem_cons_of_mem _ hmem)⟩
    · obtain ⟨hid', htasks⟩ := Ritual.ids_of_terms (Completion.terms_advance r₀
        (Completion.recordOf step r₀ task now))
      rw [hid', htasks]
      exact hbefore r₀ h.allowed.ritual
  refine ⟨fun key r hget => (hrituals key r hget).1, ?_, ?_⟩
  · intro key r hget task htask heq
    exact (hrituals key r hget).2 (List.mem_map.2 ⟨task, htask, heq⟩)
  · by_cases hmoods : Collection.moods ∈ ch.collections
    · cases ch with
      | logging id' e =>
        have hne : id ≠ id' := fun heq => hid (List.mem_singleton.2 heq)
        rw [h.made]
        exact (Store.read?_put_of_ne (Collection.key_ne_of_id_ne hne)).trans hunused.mood
      | opening _ | booking _ _ _ _ _ | queueing _ _ | marking _ | unlocking _ _ _
      | creating _ _ _ _ | stepping _ _ _ _ _ _ => simp [collections] at hmoods
    · exact (h.untouched hmoods id).trans hunused.mood

/-- **Nothing is taken back.** Whoever relies on ids that a change does not use may rely on the
store after it. -/
theorem evolves (h : ch.Makes s t) (hs : s.WellTyped) {own : List String}
    (hown : ∀ id ∈ own, id ∉ ch.ids) : Evolves own s t where
  le := h.le
  entries c id doc hc hread := by
    rw [h.made, Store.read?_putAll_of_notMem, hread]
    intro w hw hkey
    obtain ⟨key, body⟩ := w
    cases hkey
    rw [h.absent_of_isFrozen hc hw] at hread
    cases hread
  rituals id r hget := by
    have hpresent : t.read? (Ritual.key id) ≠ none :=
      Store.present_of_le h.le (Store.present_of_get? hget)
    obtain ⟨r', hget'⟩ := (h.wellTyped hs).readable (α := Ritual) hpresent
    refine ⟨r', hget', ?_⟩
    -- A ritual that is there was not created now, and a step in it has kept its terms.
    rcases h.ritual_cases hs hget' with hsame | ⟨d, activity, now, rfl, rfl⟩ |
      ⟨step, r₀, a, task, evidence, now, rfl, rfl, rfl⟩
    · cases hget.symm.trans hsame
      rfl
    · exact absurd h.allowed.new (Store.present_of_get? hget)
    · cases hget.symm.trans h.allowed.ritual
      exact Completion.terms_advance _ _
  spared id hid hunused := h.unused hs (hown id hid) hunused

end Makes

end Change

end RitualLedger
