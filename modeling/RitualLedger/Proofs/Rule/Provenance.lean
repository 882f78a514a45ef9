import RitualLedger.Proofs.Ritual.Mirror

/-!
# Where entries come from

What follows from a step or a signal is booked and queued under derived keys. `Explained` says where
an id of the ledger or the queue can come from: a call has brought it along, it was drawn, or it is
the key of a position of a scope, and then what stands under it is what is due there. This holds of
every entry in every run (`Accounted`).

So when the callers keep away from the derived keys, an entry under such a key is what is due under
it (`due_of_explained`): drawn ids are no keys, and no two positions of scopes share one.
-/

namespace RitualLedger

open Ledger (transactionKey)

/-! ## New entries -/

namespace Change.Makes

variable {ch : Change} {s t : Store}

/-- A transaction was there before, or it was booked. -/
theorem transaction_cases (h : ch.Makes s t) {id : String} {tx : Transaction}
    (hget : t.get? Transaction (transactionKey id) = some tx) :
    s.get? Transaction (transactionKey id) = some tx ∨
      ∃ r now parties origin, ch = .booking r id now parties origin ∧
        tx = Ledger.record r id now := by
  cases ch with
  | booking r id' now parties origin =>
    have hfits : Fits (Ledger.record r id' now) := h.allowed.fits
    have hread : t.get? Transaction (transactionKey id) =
        if id = id' then some (Ledger.record r id' now)
        else s.get? Transaction (transactionKey id) := by
      refine h.get?_eq (List.mem_append_right _ (List.mem_singleton.2 rfl)) hfits ?_ id
      intro w hw
      rcases List.mem_append.1 hw with hw | hw
      · obtain ⟨a, -, rfl⟩ := List.mem_map.1 hw
        refine .inr ?_
        change Collection.accounts.name ≠ Collection.transactions.name
        decide
      · rw [List.mem_singleton.1 hw]
        exact .inl rfl
    rw [hread] at hget
    split at hget
    · rename_i hid
      subst hid
      cases hget
      exact .inr ⟨r, now, parties, origin, rfl, rfl⟩
    · exact .inl hget
  | opening _ | queueing _ _ | marking _ | unlocking _ _ _ | creating _ _ _ _
  | stepping _ _ _ _ _ _ | logging _ _ =>
    refine .inl ((h.get?_untouched ?_ id).symm.trans hget)
    simp [collections]

/-- A notification was there before, perhaps unread, or it was queued. -/
theorem notification_cases (h : ch.Makes s t) (hs : s.WellTyped) {id : String} {n : Notification}
    (hget : t.get? Notification (Notification.key id) = some n) :
    (∃ n₀, s.get? Notification (Notification.key id) = some n₀ ∧ (n = n₀ ∨ n = n₀.marked)) ∨
      ∃ origin, ch = .queueing n origin ∧ n.id = id := by
  cases ch with
  | queueing n' origin =>
    rw [Notification.key, h.get?_eq_of_single rfl h.allowed.1] at hget
    split at hget
    · rename_i hid
      cases hget
      exact .inr ⟨origin, rfl, hid.symm⟩
    · exact .inl ⟨n, hget, .inl rfl⟩
  | marking n' =>
    have hstored := h.allowed.2
    have hfits : Fits n'.marked := (hs.named (α := Notification) hstored).1
    rw [Notification.key, h.get?_eq_of_single rfl hfits] at hget
    split at hget
    · rename_i hid
      cases hget
      exact .inl ⟨n', hid ▸ hstored, .inr rfl⟩
    · exact .inl ⟨n, hget, .inl rfl⟩
  | opening _ | booking _ _ _ _ _ | unlocking _ _ _ | creating _ _ _ _
  | stepping _ _ _ _ _ _ | logging _ _ =>
    refine .inl ⟨n, (h.get?_untouched ?_ id).symm.trans hget, .inl rfl⟩
    simp [collections]

end Change.Makes

/-! ## Where entries come from -/

/-- Where an id can come from, when what stands under it comes from an action. -/
inductive Explained (calls : List Call) (s : Store) (id : String)
    (comesFrom : Action → String → String → Prop) : Prop
  | brought (c : Call) (hcall : c ∈ calls) (hbrings : c.Brings id)
  | drawn (huuid : Text.IsUuid id)
  | due (scope : Scope) (position : Nat) (ritual subject : String) (a : Action)
      (hid : id = scope.key position) (hdue : Due s scope position ritual subject a)
      (hfrom : comesFrom a ritual subject)

theorem explained_of_backs {calls : List Call} {c : Call} {s : Store} {id : String}
    {comesFrom : Action → String → String → Prop} {origin : Origin} (hcall : c ∈ calls)
    (huses : c.Uses id origin) (hbacks : origin.Backs s id comesFrom) :
    Explained calls s id comesFrom := by
  cases origin with
  | supplied => exact .brought c hcall huses
  | drawn => exact .drawn hbacks
  | due scope position =>
    obtain ⟨hid, ritual, subject, a, hdue, hfrom⟩ := hbacks
    exact .due scope position ritual subject a hid hdue hfrom

theorem Explained.mono {calls : List Call} {s t : Store} {id : String}
    {comesFrom : Action → String → String → Prop} (h : Explained calls s id comesFrom)
    {own : List String} (hevolves : Evolves own s t) : Explained calls t id comesFrom := by
  cases h with
  | brought c hcall hbrings => exact .brought c hcall hbrings
  | drawn huuid => exact .drawn huuid
  | due scope position ritual subject a hid hdue hfrom =>
    exact .due scope position ritual subject a hid (hdue.mono hevolves) hfrom

/-- Every entry of the ledger and the queue is explained, and moods are logged under drawn ids. -/
structure Accounted (calls : List Call) (s : Store) : Prop where
  transactions : ∀ id tx, s.get? Transaction (transactionKey id) = some tx →
    Explained calls s id fun a ritual subject => a.IsBookedAs ritual subject tx
  notifications : ∀ id n, s.get? Notification (Notification.key id) = some n →
    Explained calls s id fun a ritual subject => a.IsQueuedAs ritual subject n
  moods : ∀ id, s.read? (Collection.moods.key id) ≠ none → Text.IsUuid id

theorem accounted_empty (calls : List Call) : Accounted calls .empty where
  transactions := nofun
  notifications := nofun
  moods _ h := absurd rfl h

/-- **Every change keeps the entries explained.** -/
theorem Accounted.preserved {calls : List Call} {s t : Store} {c : Call} {ch : Change}
    (h : Accounted calls s) (hs : s.WellTyped) (hcall : c ∈ calls) (hmay : c.May ch)
    (hmakes : ch.Makes s t) : Accounted calls t := by
  have hevolves : Evolves [] s t := hmakes.evolves hs nofun
  refine ⟨?_, ?_, ?_⟩
  · intro id tx hget
    rcases hmakes.transaction_cases hget with hget | ⟨r, now, parties, origin, rfl, rfl⟩
    · exact (h.transactions id tx hget).mono hevolves
    · exact (explained_of_backs hcall hmay hmakes.allowed.backed).mono hevolves
  · intro id n hget
    rcases hmakes.notification_cases hs hget with ⟨n₀, hget₀, rfl | rfl⟩ | ⟨origin, rfl, rfl⟩
    · exact (h.notifications id n hget₀).mono hevolves
    · -- Whether a notification was read makes no difference to where it comes from.
      exact (h.notifications id n₀ hget₀).mono hevolves
    · exact (explained_of_backs hcall hmay hmakes.allowed.2.2.2).mono hevolves
  · intro id hpresent
    by_cases hmoods : Collection.moods ∈ ch.collections
    · cases ch with
      | logging id' e =>
        by_cases hid : id = id'
        · rw [hid]
          exact hmakes.allowed.2.1
        · refine h.moods id ?_
          rw [hmakes.made] at hpresent
          have hother : (s.put (Collection.moods.key id') (encode e)).read?
              (Collection.moods.key id) = s.read? (Collection.moods.key id) :=
            Store.read?_put_of_ne (Collection.key_ne_of_id_ne hid)
          rw [← hother]
          exact hpresent
      | opening _ | booking _ _ _ _ _ | queueing _ _ | marking _ | unlocking _ _ _
      | creating _ _ _ _ | stepping _ _ _ _ _ _ => simp [Change.collections] at hmoods
    · rw [hmakes.untouched hmoods] at hpresent
      exact h.moods id hpresent

theorem accounted_after (ttl : Int) (es : List Event) :
    Accounted (Event.calls es) ((World.initial ttl).after es).store := by
  refine World.induction_on_changes ttl es (accounted_empty _) ?_
  intro s t c ch hs _ haccounted hcall hmay hmakes
  exact haccounted.preserved hs hcall hmay hmakes

/-! ## Derived keys -/

/-- Whether what a scope is about is stored. -/
def Scope.IsAbout (s : Store) : Scope → Prop
  | .reward step | .completion step | .ritualCompletion step =>
    s.read? (Ritual.key step.ritual) ≠ none
  | .streak ritual _ _ => s.read? (Ritual.key ritual) ≠ none
  | .mood entry => s.read? (Collection.moods.key entry) ≠ none
  | .named _ => False

/-- Whether a call keeps away from derived keys: what it was given begins with no ritual id, and
neither like the keys of streaks nor like those of moods. -/
def Call.KeepsAway (s : Store) (c : Call) : Prop :=
  ∀ text ∈ c.supplied, ¬ Text.BeginsWith text "streak:" ∧ ¬ Text.BeginsWith text "mood:" ∧
    ∀ d ∈ s.inCollection Collection.rituals.name, ¬ Text.BeginsWith text d.1

instance (s : Store) (c : Call) : Decidable (c.KeepsAway s) :=
  inferInstanceAs (Decidable (∀ text ∈ c.supplied, _ ∧ _ ∧ _))

section

variable {calls : List Call} {s : Store} {scope : Scope} {position : Nat}

/-- A call that brings a derived key along was given a text that begins like it. -/
theorem Call.Brings.beginsWith {c : Call} (h : c.Brings (scope.key position)) :
    ∃ text ∈ c.supplied, Text.BeginsWith text scope.beginning := by
  obtain ⟨text, htext, heq | ⟨position', heq⟩⟩ := h
  · exact ⟨text, htext, heq ▸ scope.key_beginsWith position⟩
  · obtain ⟨hsame, -⟩ := Text.cut_right (Text.noColon_number _) (Text.noColon_number _) heq
    have hname : scope.text = text := hsame
    exact ⟨text, htext, hname ▸ scope.text_beginsWith⟩

theorem not_brings_of_keepsAway (hkeys : s.HasDistinctKeys) {c : Call} (haway : c.KeepsAway s)
    (habout : scope.IsAbout s) : ¬ c.Brings (scope.key position) := by
  intro hbrings
  obtain ⟨text, htext, hbegins⟩ := hbrings.beginsWith
  obtain ⟨hstreak, hmood, hritual⟩ := haway text htext
  have hritual : ∀ ritual, s.read? (Ritual.key ritual) ≠ none →
      ¬ Text.BeginsWith text ritual := by
    intro ritual hpresent
    obtain ⟨⟨body, version⟩, hread⟩ := Option.ne_none_iff_exists'.1 hpresent
    exact hritual (ritual, body) ((Store.mem_inCollection hkeys).2 ⟨version, hread⟩)
  cases scope with
  | reward step | completion step | ritualCompletion step => exact hritual _ habout hbegins
  | streak ritual subject count => exact hstreak hbegins
  | mood entry => exact hmood hbegins
  | named name => exact habout

theorem isDerived_of_isAbout (hs : s.WellTyped) (hmirrored : Mirrored s)
    (haccounted : Accounted calls s) (habout : scope.IsAbout s) : scope.IsDerived := by
  have huuid : ∀ ritual, s.read? (Ritual.key ritual) ≠ none → Text.IsUuid ritual := by
    intro ritual hpresent
    obtain ⟨r, hget⟩ := hs.readable (α := Ritual) hpresent
    have hid : r.id = ritual := (hs.named (α := Ritual) hget).2
    exact hid ▸ (hmirrored.uuid _ r hget).1
  cases scope with
  | reward step | completion step | ritualCompletion step => exact huuid _ habout
  | streak ritual subject count => exact huuid _ habout
  | mood entry => exact haccounted.moods entry habout
  | named name => exact habout

theorem isAbout_of_due (hmirrored : Mirrored s) {ritual subject : String} {a : Action}
    (h : Due s scope position ritual subject a) : scope.IsAbout s := by
  have hrecorded : ∀ {step c}, Recorded s step c → s.read? (Ritual.key step.ritual) ≠ none := by
    rintro step c ⟨hget, rfl⟩
    obtain ⟨r, hr, -⟩ := hmirrored.records _ c hget
    exact Store.present_of_get? hr
  cases scope with
  | reward step =>
    obtain ⟨-, -, -, c, hc, -⟩ := h
    exact hrecorded hc
  | completion step =>
    obtain ⟨-, -, ⟨c, hc⟩, -⟩ := h
    exact hrecorded hc
  | ritualCompletion step =>
    obtain ⟨-, -, ⟨c, hc, -⟩, -⟩ := h
    exact hrecorded hc
  | streak ritual' subject' count =>
    obtain ⟨rfl, -, r, hr, -⟩ := h
    exact Store.present_of_get? hr
  | mood entry =>
    obtain ⟨e, he, -⟩ := h
    exact Store.present_of_get? he
  | named name => exact h

/-- Under a derived key stands only what is due at that position of that scope. -/
theorem due_of_explained (hs : s.WellTyped) (hkeys : s.HasDistinctKeys) (hmirrored : Mirrored s)
    (haccounted : Accounted calls s) (haway : ∀ c ∈ calls, c.KeepsAway s)
    (habout : scope.IsAbout s) {comesFrom : Action → String → String → Prop}
    (h : Explained calls s (scope.key position) comesFrom) :
    ∃ ritual subject a, Due s scope position ritual subject a ∧ comesFrom a ritual subject := by
  cases h with
  | brought c hcall hbrings =>
    exact absurd hbrings (not_brings_of_keepsAway hkeys (haway c hcall) habout)
  | drawn huuid => exact absurd rfl (Scope.key_ne_uuid huuid)
  | due scope' position' ritual subject a hid hdue hfrom =>
    -- Both keys are derived, and such keys are never confused.
    have hderived := isDerived_of_isAbout hs hmirrored haccounted habout
    have hderived' := isDerived_of_isAbout hs hmirrored haccounted
      (isAbout_of_due hmirrored hdue)
    obtain ⟨rfl, rfl⟩ := Scope.key_injective hderived hderived' hid
    exact ⟨ritual, subject, a, hdue, hfrom⟩

end

end RitualLedger
