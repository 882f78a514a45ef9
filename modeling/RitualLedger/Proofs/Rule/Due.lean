import RitualLedger.Proofs.Engine.Evolution

/-!
# What is due

A scope promises actions, one at each position: the reward of a task that was completed, or what the
conditions of a ritual ask for when a trigger fires. `Due` reads the promise off the store. The
promise lasts: the record of a step and the entry of a mood stay as they are, and a ritual keeps its
conditions. So the action at a position of a scope is the same however often the scope is run.
-/

namespace RitualLedger

/-- An action is asked for by the conditions of a ritual, at a position, when a trigger fires. -/
def Asked (s : Store) (ritual : String) (t : Trigger) (position : Nat) (a : Action) : Prop :=
  ∃ r, s.get? Ritual (Ritual.key ritual) = some r ∧
    (Condition.matchingActions r.conditions t)[position]? = some a

/-- The record of a step is stored. -/
def Recorded (s : Store) (step : Step) (c : CompletionRecord) : Prop :=
  s.get? CompletionRecord step.key = some c ∧ c.step = step

/-- An action is due to a subject of a ritual, at a position of a scope. -/
def Due (s : Store) (scope : Scope) (position : Nat) (ritual subject : String) (a : Action) :
    Prop :=
  match scope with
  | .reward step =>
    ritual = step.ritual ∧ subject = step.subject ∧ position = 0 ∧
      ∃ c, Recorded s step c ∧ a = .reward c.tokenReward
  | .completion step =>
    ritual = step.ritual ∧ subject = step.subject ∧ (∃ c, Recorded s step c) ∧
      Asked s ritual (.completion step.index) position a
  | .ritualCompletion step =>
    ritual = step.ritual ∧ subject = step.subject ∧
      (∃ c, Recorded s step c ∧ c.ritualCompleted = true) ∧
      Asked s ritual .ritualCompletion position a
  | .streak ritual' subject' count =>
    ritual = ritual' ∧ subject = subject' ∧ Asked s ritual (.streak count) position a
  | .mood entry =>
    ∃ e, s.get? MoodEntry (Collection.moods.key entry) = some e ∧ subject = e.subjectId ∧
      Asked s ritual (.mood e.mood) position a
  | .named _ => False

variable {own : List String} {s t : Store}

theorem Asked.mono {ritual : String} {trigger : Trigger} {position : Nat} {a : Action}
    (h : Asked s ritual trigger position a) (hle : Evolves own s t) :
    Asked t ritual trigger position a := by
  obtain ⟨r, hr, ha⟩ := h
  obtain ⟨r', hr', hterms⟩ := hle.rituals _ r hr
  refine ⟨r', hr', ?_⟩
  rw [Ritual.conditions_of_terms hterms, ha]

theorem Recorded.mono {step : Step} {c : CompletionRecord} (h : Recorded s step c)
    (hle : Evolves own s t) : Recorded t step c :=
  ⟨hle.get? rfl h.1, h.2⟩

/-- **What is due stays due.** -/
theorem Due.mono {scope : Scope} {position : Nat} {ritual subject : String} {a : Action}
    (h : Due s scope position ritual subject a) (hle : Evolves own s t) :
    Due t scope position ritual subject a := by
  cases scope with
  | reward step =>
    obtain ⟨hritual, hsubject, hposition, c, hc, ha⟩ := h
    exact ⟨hritual, hsubject, hposition, c, hc.mono hle, ha⟩
  | completion step =>
    obtain ⟨hritual, hsubject, ⟨c, hc⟩, hasked⟩ := h
    exact ⟨hritual, hsubject, ⟨c, hc.mono hle⟩, hasked.mono hle⟩
  | ritualCompletion step =>
    obtain ⟨hritual, hsubject, ⟨c, hc, hlast⟩, hasked⟩ := h
    exact ⟨hritual, hsubject, ⟨c, hc.mono hle, hlast⟩, hasked.mono hle⟩
  | streak ritual' subject' count =>
    obtain ⟨hritual, hsubject, hasked⟩ := h
    exact ⟨hritual, hsubject, hasked.mono hle⟩
  | mood entry =>
    obtain ⟨e, he, hsubject, hasked⟩ := h
    exact ⟨e, hle.get? rfl he, hsubject, hasked.mono hle⟩
  | named name => exact h

/-! ## What an action comes to -/

/-- A transaction is what an action on a subject of a ritual comes to. -/
def Action.IsBookedAs (a : Action) (ritual subject : String) (t : Transaction) : Prop :=
  t.description = a.description ∧ t.relatedEntityType = some "ritual" ∧
    t.relatedEntityId = some ritual ∧
    match a with
    | .reward amount =>
      t.kind = .reward ∧ t.senderId = none ∧ t.receiverId = some subject ∧ t.amount = amount
    | .penalty amount =>
      t.kind = .penalty ∧ t.senderId = some subject ∧ t.receiverId = none ∧ t.amount = amount
    | .unlockTask _ | .notify _ => False

/-- A notification is what an action on a subject of a ritual comes to. -/
def Action.IsQueuedAs (a : Action) (ritual subject : String) (n : Notification) : Prop :=
  a = .notify n.message ∧ n.subjectId = subject ∧ n.relatedTo = "ritual" ∧ n.relatedId = ritual

/-- Where the id of a transaction or a notification comes from. -/
inductive Origin where
  /-- A client has chosen it. -/
  | supplied
  /-- It was drawn. -/
  | drawn
  /-- It is the key of a position of a scope. -/
  | due (scope : Scope) (position : Nat)

/-- Whether an id may have an origin, when what stands under it comes from an action. -/
def Origin.Backs (o : Origin) (s : Store) (id : String)
    (comesFrom : Action → String → String → Prop) : Prop :=
  match o with
  | .supplied => True
  | .drawn => Text.IsUuid id
  | .due scope position => id = scope.key position ∧
    ∃ ritual subject a, Due s scope position ritual subject a ∧ comesFrom a ritual subject

theorem Origin.Backs.mono {o : Origin} {id : String} {comesFrom : Action → String → String → Prop}
    (h : o.Backs s id comesFrom) (hle : Evolves own s t) : o.Backs t id comesFrom := by
  cases o with
  | supplied => exact h
  | drawn => exact h
  | due scope position =>
    obtain ⟨hid, ritual, subject, a, hdue, hfrom⟩ := h
    exact ⟨hid, ritual, subject, a, hdue.mono hle, hfrom⟩

end RitualLedger
