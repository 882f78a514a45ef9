import RitualLedger.Proofs.Engine.Alone
import RitualLedger.Proofs.Engine.Contention
import RitualLedger.Proofs.Store.Apart

/-!
# Footprints

A client that acts for some people reads and writes the documents of these people and nothing else:
their accounts, their assignments, the rituals that are theirs, the records of their steps, and what
it books, queues or logs under ids of its own. `Footprint` says whose documents these are and which
ids; `Footprint.Owns` says which documents lie in it.

`Program.Minds f` says that a program keeps to a footprint. Where it begins in a store with the
rituals and people that the footprint tells of, it writes documents of the footprint only, and does
the same in every store that tells it the same (`Footprint.Agrees`), whatever else is stored there.
Rituals of others need not be the same, only be there or not.

The rules follow the way programs are put together. The rule for transactions asks for the changes
that are made, because it is these that keep a store in order.
-/

namespace RitualLedger

open Text (IsUuid)

/-! ## What entries are about -/

/-- An entry names no one but some people: they are its subject, or its parties. -/
inductive Collection.Names (people : List String) : Collection → Json → Prop
  | transaction (t : Transaction)
    (h : ∀ x ∈ t.senderId.toList ++ t.receiverId.toList, x ∈ people) :
    Names people .transactions (encode t)
  | notification (n : Notification) (h : n.subjectId ∈ people) :
    Names people .notifications (encode n)
  | mood (e : MoodEntry) (h : e.subjectId ∈ people) : Names people .moods (encode e)
  | completion (c : CompletionRecord) (h : c.subjectId ∈ people) :
    Names people .completions (encode c)
  | evidence (e : EvidenceRecord) (h : e.subjectId ∈ people) : Names people .evidence (encode e)

/-- Whose documents a client works on. -/
structure Footprint where
  /-- What is stored in the beginning. -/
  start : Store
  people : List String
  /-- The ids under which the client books, queues and logs. -/
  ids : String → Prop

namespace Footprint

variable {f : Footprint} {s t u : Store} {ch : Change} {c : Collection} {id : String}

/-! ## What lies in a footprint -/

/-- Whether the document of an id lies in a footprint. A ritual is its subject's. -/
def OwnsIn (f : Footprint) : Collection → String → Prop
  | .accounts, id | .assignments, id => id ∈ f.people
  | .rituals, id => ∃ r, f.start.get? Ritual (Ritual.key id) = some r ∧ r.subjectId ∈ f.people
  | .completions, id => ∃ step : Step, id = step.id ∧ IsUuid step.ritual ∧ step.subject ∈ f.people
  | .evidence, id =>
    ∃ task subject, id = task ++ ":" ++ subject ∧ IsUuid task ∧ subject ∈ f.people
  | .transactions, id | .notifications, id | .moods, id => f.ids id
  | .activities, _ => False

/-- Whether a document lies in a footprint. -/
def Owns (f : Footprint) (key : DocKey) : Prop := ∃ c id, key = Collection.key c id ∧ f.OwnsIn c id

/-- Whether a ritual, if it is stored in the beginning, has a subject in a footprint. -/
def Claims (f : Footprint) (id : String) : Prop :=
  ∀ r, f.start.get? Ritual (Ritual.key id) = some r → r.subjectId ∈ f.people

theorem owns_key : f.Owns (c.key id) ↔ f.OwnsIn c id := by
  constructor
  · rintro ⟨c', id', hkey, howns⟩
    obtain ⟨rfl, rfl⟩ := Collection.key_inj.1 hkey
    exact howns
  · exact fun howns => ⟨c, id, rfl, howns⟩

/-! ## Stores that are reached within a footprint -/

/-- A store that was reached from the start by a client of the footprint: rituals have the same
subjects, and what was added names the people of the footprint. -/
structure Reaches (f : Footprint) (t : Store) : Prop where
  regular : t.Regular
  subjects : ∀ id, (t.get? Ritual (Ritual.key id)).map (·.subjectId) =
    (f.start.get? Ritual (Ritual.key id)).map (·.subjectId)
  added : ∀ (c : Collection) id doc, t.read? (c.key id) = some doc →
    f.start.read? (c.key id) ≠ none ∨ c.Names f.people doc.body

theorem reaches_start (h : f.start.Regular) : f.Reaches f.start where
  regular := h
  subjects _ := rfl
  added c id doc hread := by
    rw [hread]
    exact .inl (Option.some_ne_none doc)

/-- The changes that are made in a footprint: they book, queue, unlock and step for its people. -/
def Allows (f : Footprint) : Change → Prop
  | .booking r _ _ _ _ => ∀ x ∈ r.senderId.toList ++ r.receiverId.toList, x ∈ f.people
  | .queueing n _ => n.subjectId ∈ f.people
  | .unlocking a _ _ => a.subjectId ∈ f.people
  | .stepping s _ _ _ _ _ => s.subject ∈ f.people
  | .opening _ | .marking _ | .creating _ _ _ _ | .logging _ _ => False

/-- A change in a footprint rewrites accounts, assignments and rituals that are there, and adds
entries that name its people. -/
theorem Allows.names (hallows : f.Allows ch) (h : ch.Makes s t) {w : DocKey × Json}
    (hw : w ∈ ch.writes) : ∃ c id, w.1 = Collection.key c id ∧
      (s.read? w.1 ≠ none ∧ (∀ body, ¬ c.Names f.people body) ∨ c.Names f.people w.2) := by
  have hallowed := h.allowed
  cases ch with
  | opening _ | marking _ | creating _ _ _ _ | logging _ _ => exact hallows.elim
  | booking r id now parties origin =>
    rcases List.mem_append.1 hw with hw | hw
    · obtain ⟨a, ha, rfl⟩ := List.mem_map.1 hw
      obtain ⟨a₀, hget, -⟩ := hallowed.moved a ha
      refine ⟨.accounts, _, rfl, .inl ⟨Store.present_of_get? hget, ?_⟩⟩
      intro body hnames
      cases hnames
    · obtain rfl := List.mem_singleton.1 hw
      exact ⟨.transactions, _, rfl, .inr (.transaction _ hallows)⟩
  | queueing n origin =>
    obtain rfl := List.mem_singleton.1 hw
    exact ⟨.notifications, _, rfl, .inr (.notification n hallows)⟩
  | unlocking a index now =>
    obtain rfl := List.mem_singleton.1 hw
    refine ⟨.assignments, _, rfl, .inl ⟨Store.present_of_get? hallowed.2.2, ?_⟩⟩
    intro body hnames
    cases hnames
  | stepping step r a task evidence now =>
    simp only [Change.writes, List.mem_cons, List.not_mem_nil, or_false] at hw
    rcases hw with rfl | rfl | rfl | rfl
    · refine ⟨.rituals, _, rfl, .inl ⟨Store.present_of_get? hallowed.ritual, ?_⟩⟩
      intro body hnames
      cases hnames
    · refine ⟨.assignments, _, rfl, .inl ⟨Store.present_of_get? hallowed.assignment, ?_⟩⟩
      intro body hnames
      cases hnames
    · exact ⟨.completions, _, rfl, .inr (.completion _ hallows)⟩
    · exact ⟨.evidence, _, rfl, .inr (.evidence _ hallows)⟩

/-- A change in a footprint leaves the rituals with their subjects. -/
theorem Allows.subject_eq (hallows : f.Allows ch) (h : ch.Makes s t) (hs : s.WellTyped)
    (id : String) : (t.get? Ritual (Ritual.key id)).map (·.subjectId) =
      (s.get? Ritual (Ritual.key id)).map (·.subjectId) := by
  cases ht : t.get? Ritual (Ritual.key id) with
  | some r =>
    rcases h.ritual_cases hs ht with hsame | ⟨d, activity, now, rfl, rfl⟩ |
      ⟨step, r₀, a, task, evidence, now, rfl, rfl, rfl⟩
    · rw [hsame]
    · exact hallows.elim
    · rw [h.allowed.ritual]
      rfl
  | none =>
    -- No ritual goes away.
    cases hget : s.get? Ritual (Ritual.key id) with
    | none => rfl
    | some r =>
      obtain ⟨r', hr', -⟩ := (h.proceeds hs).evolves.rituals id r hget
      cases ht.symm.trans hr'

theorem Reaches.makes (h : f.Reaches s) (hallows : f.Allows ch) (hmakes : ch.Makes s t) :
    f.Reaches t where
  regular := hmakes.regular h.regular
  subjects id := (hallows.subject_eq hmakes h.regular.wellTyped id).trans (h.subjects id)
  added c id doc hread := by
    rw [hmakes.made] at hread
    by_cases hwritten : ∃ w ∈ ch.writes, w.1 = c.key id
    · obtain ⟨w, hw, hkey, version, hbody⟩ := Store.exists_write_of_mem (s := s) hwritten
      cases hbody.symm.trans hread
      obtain ⟨c', id', hkey', hcases⟩ := hallows.names hmakes hw
      obtain ⟨rfl, rfl⟩ := Collection.key_inj.1 (hkey'.symm.trans hkey)
      rcases hcases with ⟨hpresent, hnever⟩ | hnames
      · obtain ⟨doc, hdoc⟩ := Option.ne_none_iff_exists'.1 (hkey ▸ hpresent)
        exact .inl ((h.added c' id' doc hdoc).resolve_right (hnever _))
      · exact .inr hnames
    · have hothers : ∀ w ∈ ch.writes, w.1 ≠ c.key id := fun w hw heq => hwritten ⟨w, hw, heq⟩
      rw [Store.read?_putAll_of_notMem hothers] at hread
      exact h.added c id doc hread

/-- A mood may be logged in a footprint. -/
theorem Reaches.put_mood (h : f.Reaches s) {entry : MoodEntry} (hentry : Fits entry)
    (hsubject : entry.subjectId ∈ f.people) :
    f.Reaches (s.put (Collection.moods.key id) (encode entry)) where
  regular := h.regular.put_mood id hentry
  subjects key := by
    have hget : (s.put (Collection.moods.key id) (encode entry)).get? Ritual (Ritual.key key) =
        s.get? Ritual (Ritual.key key) := Store.get?_put_mood (by decide) key
    rw [hget, h.subjects key]
  added c key doc hread := by
    by_cases hkey : c.key key = Collection.moods.key id
    · obtain ⟨rfl, rfl⟩ := Collection.key_inj.1 hkey
      rw [Store.read?_put_self] at hread
      cases hread
      exact .inr (.mood entry hsubject)
    · rw [Store.read?_put_of_ne hkey] at hread
      exact h.added c key doc hread

/-! ## Stores that tell the same -/

/-- The second store tells the same as the first one: what lies in the footprint is the same there,
and the same rituals are there. -/
structure Agrees (f : Footprint) (s u : Store) : Prop where
  same : ∀ key, f.Owns key → u.read? key = s.read? key
  absent : ∀ id, f.start.get? Ritual (Ritual.key id) = none → u.read? (Ritual.key id) = none
  stored : ∀ id r, f.start.get? Ritual (Ritual.key id) = some r →
    ∃ r', u.get? Ritual (Ritual.key id) = some r'

/-- The rituals that are there are those of the start. -/
theorem Reaches.absent (h : f.Reaches s) (hnone : f.start.get? Ritual (Ritual.key id) = none) :
    s.read? (Ritual.key id) = none := by
  by_contra hpresent
  obtain ⟨r, hr⟩ := h.regular.wellTyped.readable (α := Ritual) hpresent
  have hr : s.get? Ritual (Ritual.key id) = some r := hr
  have hsame := h.subjects id
  rw [hnone, hr] at hsame
  cases hsame

theorem Reaches.stored (h : f.Reaches s) {r : Ritual}
    (hr : f.start.get? Ritual (Ritual.key id) = some r) :
    ∃ r', s.get? Ritual (Ritual.key id) = some r' := by
  have hsame := h.subjects id
  rw [hr] at hsame
  obtain ⟨r', hr', -⟩ := Option.map_eq_some_iff.1 hsame
  exact ⟨r', hr'⟩

theorem Reaches.agrees (h : f.Reaches s) : f.Agrees s s :=
  ⟨fun _ _ => rfl, fun _ => h.absent, fun _ _ => h.stored⟩

/-- A ritual with a subject in the footprint is the same, or it is not there. -/
theorem Agrees.read?_ritual (h : f.Agrees s u) (hs : f.Reaches s) (hclaims : f.Claims id) :
    u.read? (Ritual.key id) = s.read? (Ritual.key id) := by
  cases hstart : f.start.get? Ritual (Ritual.key id) with
  | none => rw [h.absent id hstart, hs.absent hstart]
  | some r => exact h.same _ (owns_key.2 ⟨r, hstart, hclaims r hstart⟩)

/-- A ritual is claimed when its subject is in the footprint. -/
theorem Reaches.claims (h : f.Reaches s) {r : Ritual}
    (hr : s.get? Ritual (Ritual.key id) = some r) (hsubject : r.subjectId ∈ f.people) :
    f.Claims id := by
  intro r₀ hr₀
  have hsame := h.subjects id
  rw [hr, hr₀] at hsame
  have hsame : r.subjectId = r₀.subjectId := Option.some.inj hsame
  exact hsame ▸ hsubject

/-- A ritual that is claimed and there lies in the footprint. -/
theorem Reaches.owns_ritual (h : f.Reaches s) {r : Ritual}
    (hr : s.get? Ritual (Ritual.key id) = some r) (hclaims : f.Claims id) :
    f.Owns (Ritual.key id) := by
  have hsame := h.subjects id
  rw [hr] at hsame
  obtain ⟨r₀, hr₀, -⟩ := Option.map_eq_some_iff.1 hsame.symm
  exact owns_key.2 ⟨r₀, hr₀, hclaims r₀ hr₀⟩

/-- Stores that tell the same still do so after the same writes in the footprint. -/
theorem Agrees.putAll {ws : List (DocKey × Json)} (h : f.Agrees s u)
    (howns : ∀ w ∈ ws, f.Owns w.1) (hreaches : f.Reaches (s.putAll ws)) :
    f.Agrees (s.putAll ws) (u.putAll ws) := by
  have hothers : ∀ key, ¬ f.Owns key → (u.putAll ws).read? key = u.read? key := by
    intro key hnot
    refine Store.read?_putAll_of_notMem ?_
    rintro w hw rfl
    exact hnot (howns w hw)
  have hsame : ∀ key, f.Owns key → (u.putAll ws).read? key = (s.putAll ws).read? key :=
    fun key hkey => Store.read?_putAll_congr ws (h.same key hkey)
  refine ⟨hsame, ?_, ?_⟩
  · intro id hnone
    refine (hothers _ ?_).trans (h.absent id hnone)
    rintro hown
    obtain ⟨r, hr, -⟩ := owns_key.1 hown
    cases hnone.symm.trans hr
  · intro id r hr
    by_cases hown : f.Owns (Ritual.key id)
    · obtain ⟨r', hr'⟩ := hreaches.stored hr
      refine ⟨r', ?_⟩
      rw [Store.get?, hsame _ hown, ← Store.get?, hr']
    · obtain ⟨r', hr'⟩ := h.stored id r hr
      refine ⟨r', ?_⟩
      rw [Store.get?, hothers _ hown, ← Store.get?, hr']

/-! ## Settings -/

/-- A setting in which a client of the footprint may go on: nobody else is there, and the ids that
are drawn lie in the footprint. -/
structure Hosts (f : Footprint) (s : Setting) : Prop where
  undisturbed : s.Undisturbed
  reaches : f.Reaches s.store
  ids : ∀ n, s.ids.drawn ≤ n → f.ids (s.ids.value n)

/-- What a program leaves behind, when the store is still in order. -/
theorem Hosts.onwards {s t : Setting} (h : f.Hosts s) (ht : s.Onwards t)
    (hundisturbed : t.Undisturbed) (hreaches : f.Reaches t.store) : f.Hosts t := by
  refine ⟨hundisturbed, hreaches, fun n hn => ?_⟩
  rw [ht.ids.value]
  exact h.ids n (ht.ids.drawn.trans hn)

end Footprint

/-! ## Programs that keep to a footprint -/

namespace Program

variable {α β : Type} {f : Footprint} {s : Setting}

/-- A program that writes documents of a footprint only, and does the same wherever it is told the
same; its result has a property. -/
def Minds (f : Footprint) (post : α → Setting → Prop) (p : Program α) (s : Setting) : Prop :=
  f.Hosts s → post (p.run s).1 (p.run s).2 ∧ ∃ ws : List (DocKey × Json),
    (∀ w ∈ ws, f.Owns w.1) ∧ f.Reaches (s.store.putAll ws) ∧
      ∀ u, f.Agrees s.store u → p.run { s with store := u } =
        ((p.run s).1, { (p.run s).2 with store := u.putAll ws })

/-- **The rule for programs that write nothing.** -/
theorem Minds.reading {post : α → Setting → Prop} {p : Program α}
    (hpost : f.Hosts s → post (p.run s).1 (p.run s).2)
    (hsame : f.Hosts s → ∀ u, f.Agrees s.store u →
      p.run { s with store := u } = ((p.run s).1, { (p.run s).2 with store := u })) :
    p.Minds f post s :=
  fun h => ⟨hpost h, [], by simp, h.reaches, hsame h⟩

theorem Minds.pure {post : α → Setting → Prop} {a : α} (h : post a s) :
    (Pure.pure a : Program α).Minds f post s :=
  .reading (fun _ => h) fun _ _ _ => rfl

/-- What a program leaves is the store after its writes. -/
theorem store_run {p : Program α} {ws : List (DocKey × Json)} (h : f.Hosts s)
    (hsame : ∀ u, f.Agrees s.store u → p.run { s with store := u } =
      ((p.run s).1, { (p.run s).2 with store := u.putAll ws })) :
    (p.run s).2.store = s.store.putAll ws := by
  have hrun := hsame s.store h.reaches.agrees
  exact congrArg (fun x => x.2.store) hrun

/-- A program leaves a setting in which another may go on. -/
theorem Minds.hosts {post : α → Setting → Prop} {p : Program α} (hp : p.Minds f post s)
    (h : f.Hosts s) : f.Hosts (p.run s).2 := by
  obtain ⟨-, ws, -, hreaches, hsame⟩ := hp h
  refine h.onwards (p.onwards_run h.undisturbed.intrusions) (h.undisturbed.run p) ?_
  rw [store_run h hsame]
  exact hreaches

theorem Minds.imp {post post' : α → Setting → Prop} {p : Program α} (hp : p.Minds f post s)
    (hpost : ∀ a s', post a s' → post' a s') : p.Minds f post' s :=
  fun h => ⟨hpost _ _ (hp h).1, (hp h).2⟩

/-- The writes of a program are followed by those of the next one. -/
theorem Minds.bind {mid : α → Setting → Prop} {post : β → Setting → Prop} {p : Program α}
    {g : α → Program β} (hp : p.Minds f mid s)
    (hg : ∀ a s', mid a s' → (g a).Minds f post s') : (p >>= g).Minds f post s := by
  intro h
  change post ((p.bind g).run s).1 ((p.bind g).run s).2 ∧ ∃ ws : List (DocKey × Json),
    (∀ w ∈ ws, f.Owns w.1) ∧ f.Reaches (s.store.putAll ws) ∧
      ∀ u, f.Agrees s.store u → (p.bind g).run { s with store := u } =
        (((p.bind g).run s).1, { ((p.bind g).run s).2 with store := u.putAll ws })
  obtain ⟨hmid, ws, howns, hreaches, hsame⟩ := hp h
  have hstore := store_run h hsame
  obtain ⟨hpost, ws', howns', hreaches', hsame'⟩ := hg _ _ hmid (hp.hosts h)
  rw [hstore] at hreaches' hsame'
  rw [run_bind]
  refine ⟨hpost, ws ++ ws', ?_, ?_, ?_⟩
  · intro w hw
    exact (List.mem_append.1 hw).elim (howns w) (howns' w)
  · rw [Store.putAll_append]
    exact hreaches'
  · intro u hu
    rw [run_bind, hsame u hu, Store.putAll_append]
    exact hsame' (u.putAll ws) (hu.putAll howns hreaches)

/-- **The rule for programs that draw nothing.** They answer and write the same wherever they are
told the same. -/
theorem Minds.writing {post : α → Setting → Prop} {p : Program α}
    (h : f.Hosts s → ∃ (a : α) (ws : List (DocKey × Json)),
      post a { s with store := s.store.putAll ws } ∧ (∀ w ∈ ws, f.Owns w.1) ∧
        f.Reaches (s.store.putAll ws) ∧
        ∀ u, f.Agrees s.store u →
          p.run { s with store := u } = (a, { s with store := u.putAll ws })) :
    p.Minds f post s := by
  intro hs
  obtain ⟨a, ws, hpost, howns, hreaches, hsame⟩ := h hs
  have hself : p.run s = (a, { s with store := s.store.putAll ws }) :=
    hsame s.store hs.reaches.agrees
  rw [hself]
  exact ⟨hpost, ws, howns, hreaches, hsame⟩

/-! ### Single requests -/

theorem Minds.now : Request.now.Minds f
    (fun time s' => Fits time ∧ s' = { s with clock := s.clock.draw.2 }) s :=
  .reading (fun h => ⟨h.undisturbed.clock s.clock.drawn, rfl⟩) fun _ _ _ => rfl

theorem Minds.freshId : Request.freshId.Minds f
    (fun id s' => f.ids id ∧ s' = { s with ids := s.ids.draw.2 }) s :=
  .reading (fun h => ⟨h.ids s.ids.drawn (le_refl _), rfl⟩) fun _ _ _ => rfl

/-- A mood of a person is logged under an id that is drawn. -/
theorem Minds.append {entry : MoodEntry} (hentry : Fits entry)
    (hsubject : entry.subjectId ∈ f.people) :
    (Request.append Collection.moods.name (encode entry)).Minds f
      (fun id _ => id = s.ids.value s.ids.drawn) s := by
  intro h
  let key := Collection.moods.key (s.ids.value s.ids.drawn)
  refine ⟨rfl, [(key, encode entry)], ?_, h.reaches.put_mood hentry hsubject, fun _ _ => rfl⟩
  intro w hw
  obtain rfl := List.mem_singleton.1 hw
  exact Footprint.owns_key.2 (h.ids s.ids.drawn (le_refl _))

end Program

/-! ## Operations that keep to a footprint -/

namespace Operation

variable {α β : Type} {f : Footprint} {s : Setting}

/-- An operation that writes documents of a footprint only, and does the same wherever it is told
the same; its results have a property. -/
def Minds (f : Footprint) (post : α → Setting → Prop) (o : Operation α) (s : Setting) : Prop :=
  o.program.Minds f (fun r s' => ∀ a, r = .ok a → post a s') s

namespace Minds

variable {post : α → Setting → Prop}

theorem pure {a : α} (h : post a s) : Minds f post (pure a) s :=
  Program.Minds.pure (by rintro b ⟨⟩; exact h)

theorem ofExcept {r : Except EngineError α} (h : ∀ a, r = .ok a → post a s) :
    Minds f post (Operation.ofExcept r) s := Program.Minds.pure h

theorem throw {e : EngineError} : Minds f post (throw e) s :=
  Program.Minds.pure (by rintro b ⟨⟩)

/-- A check that refuses ends the operation. -/
theorem ofValidation {r : Except ValidationError α} :
    Minds f (fun a s' => r = .ok a ∧ s' = s) (Operation.ofValidation r) s := by
  refine .ofExcept fun a ha => ⟨?_, rfl⟩
  cases r with
  | error e => cases ha
  | ok b =>
    cases ha
    rfl

theorem bind {mid : α → Setting → Prop} {post : β → Setting → Prop} {o : Operation α}
    {g : α → Operation β} (ho : Minds f mid o s) (hg : ∀ a s', mid a s' → Minds f post (g a) s') :
    Minds f post (o >>= g) s := by
  refine Program.Minds.bind ho ?_
  intro r s' hr
  cases r with
  | ok a => exact hg a s' (hr a rfl)
  | error e => exact throw

theorem imp {post' : α → Setting → Prop} {o : Operation α} (ho : Minds f post o s)
    (hpost : ∀ a s', post a s' → post' a s') : Minds f post' o s :=
  Program.Minds.imp ho fun _ s' hr a ha => hpost a s' (hr a ha)

theorem lift {p : Program α} (hp : p.Minds f post s) : Minds f post (liftM p : Operation α) s :=
  Program.Minds.bind hp fun _ _ h => pure h

theorem map {post : β → Setting → Prop} {o : Operation α} {g : α → β}
    (ho : Minds f (fun a => post (g a)) o s) : Minds f post (g <$> o) s := by
  rw [map_eq_pure_bind]
  exact ho.bind fun _ _ h => .pure h

/-- A document is read that is the same wherever the same is told. -/
theorem readRecord? {γ : Type} [Document γ] [LawfulDocument γ] [Record γ] {id : String}
    (hsame : f.Hosts s → ∀ u, f.Agrees s.store u →
      u.read? ((Record.collection γ).key id) = s.store.read? ((Record.collection γ).key id)) :
    Minds f (fun x s' => s' = s ∧ x = s.store.get? γ ((Record.collection γ).key id))
      (RitualLedger.readDocument? ((Record.collection γ).key id)) s := by
  refine Program.Minds.writing fun h =>
    ⟨.ok (s.store.get? γ ((Record.collection γ).key id)), [], ?_, by simp, h.reaches,
      fun u hu => ?_⟩
  · rintro x ⟨⟩
    exact ⟨rfl, rfl⟩
  · exact run_readRecord? h.reaches.regular.wellTyped (hsame h u hu)

/-- **The rule for transactions.** The documents that are read and written lie in the footprint, and
what is committed is a change that the footprint allows. -/
theorem transact {policy : RetryPolicy} {keys : List DocKey}
    {decision : Snapshot → Except EngineError (Plan α)}
    (hkeys : f.Hosts s → ∀ key ∈ keys, f.Owns key)
    (hplan : f.Hosts s → ∀ plan, decision (.atOnce s.store keys) = .ok plan →
      (∀ w ∈ plan.writes, w.key ∈ keys) ∧ ∀ s', post plan.result s')
    (hmakes : f.Hosts s → ∀ plan t, Commits keys decision s.store plan t →
      ∃ ch, f.Allows ch ∧ ch.Makes s.store t) :
    Minds f post (RitualLedger.transact policy keys decision) s := by
  refine Program.Minds.writing fun h => ?_
  have hsnapshot : ∀ {u}, f.Agrees s.store u →
      Snapshot.atOnce u keys = Snapshot.atOnce s.store keys :=
    fun hu => Snapshot.atOnce_of_agree fun key hkey => hu.same key (hkeys h key hkey)
  have hrun : ∀ u, (RitualLedger.transact policy keys decision).run { s with store := u } = _ :=
    fun u => Program.run_transact_still policy
      (show ({ s with store := u } : Setting).intrusions = [] from h.undisturbed.intrusions)
  cases hdecision : decision (.atOnce s.store keys) with
  | error e =>
    refine ⟨.error e, [], by rintro b ⟨⟩, by simp, h.reaches, fun u hu => ?_⟩
    refine (hrun u).trans ?_
    simp only [hsnapshot hu, hdecision]
    rfl
  | ok plan =>
    obtain ⟨hwithin, hpost⟩ := hplan h plan hdecision
    have hagree : ∀ {u}, f.Agrees s.store u → ∀ w ∈ plan.writes,
        u.read? w.key = s.store.read? w.key :=
      fun hu w hw => hu.same _ (hkeys h _ (hwithin w hw))
    cases happly : s.store.apply plan.writes with
    | error e =>
      -- Writes that fail here fail wherever the same is told.
      have hfails : ∀ {u}, f.Agrees s.store u → ∃ e', u.apply plan.writes = .error e' := by
        intro u hu
        cases hu' : u.apply plan.writes with
        | error e' => exact ⟨e', rfl⟩
        | ok v =>
          have hok := Store.apply_of_agree (fun w hw => (hagree hu w hw).symm) hu'
          cases happly.symm.trans hok
      refine ⟨.error (.store (.retriesExhausted policy.limit)), [], by rintro b ⟨⟩, by simp,
        h.reaches, fun u hu => ?_⟩
      obtain ⟨e', hfails⟩ := hfails hu
      refine (hrun u).trans ?_
      simp only [hsnapshot hu, hdecision, hfails]
      rfl
    | ok t =>
      refine ⟨.ok plan.result, plan.writes.map fun w => (w.key, w.body), ?_, ?_, ?_, ?_⟩
      · rintro b ⟨⟩
        exact hpost _
      · intro w hw
        obtain ⟨w', hw', rfl⟩ := List.mem_map.1 hw
        exact hkeys h _ (hwithin w' hw')
      · rw [← Store.apply_eq_putAll happly]
        by_cases hwrites : plan.writes = []
        · rw [hwrites] at happly
          cases happly
          exact h.reaches
        · obtain ⟨ch, hallows, hch⟩ := hmakes h plan t ⟨hdecision, hwrites, happly⟩
          exact h.reaches.makes hallows hch
      · intro u hu
        refine (hrun u).trans ?_
        simp only [hsnapshot hu, hdecision, Store.apply_of_agree (hagree hu) happly]

end Minds

end Operation

end RitualLedger
