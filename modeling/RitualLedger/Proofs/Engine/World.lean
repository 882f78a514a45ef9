import RitualLedger.Proofs.Engine.Call

/-!
# Worlds

A world is a scene with any number of clients in it, each at its own place in the program of a call.
In an event a new call comes in, or the next request of a client is served. So a list of events is a
run of the engine: calls overlap as they like, they lose races and start over, and one that is not
served any more was cut short.

An event has to be possible: the clock shows a time that a date can name, and a drawn id is a random
identifier that was not drawn before. An event that is not possible changes nothing.

The main statement is `World.Sound.step`: in every event the store stays as it was, or the client
that is served makes one change that its call may make. What all changes preserve therefore holds
in every run (`World.induction_on_changes`).
-/

namespace RitualLedger

/-- A call on its way. -/
structure Client where
  call : Call
  /-- The ids that it has drawn. -/
  own : List String
  rest : Program (Except EngineError call.Result)

/-- Clients in a scene. -/
structure World where
  scene : Scene
  clients : List Client

/-- What can happen. -/
inductive Event where
  /-- A call comes in. -/
  | called (policy : RetryPolicy) (call : Call)
  /-- The next request of a client is served. -/
  | served (client : Nat) (chance : Chance)

/-- Whether the next request of a program draws an id. -/
def Program.draws {α : Type} : Program α → Bool
  | append _ _ _ | freshId _ => true
  | finish _ | read _ _ | commit _ _ _ | query _ _ | openPrompt _ _ | takePrompt _ _
  | now _ => false

/-- Serves the next request of a client. -/
def Client.serve (c : Client) (scene : Scene) (chance : Chance) : Client × Scene :=
  let (rest, after) := c.rest.serve scene chance
  ({ c with own := if c.rest.draws then chance.id :: c.own else c.own, rest := rest }, after)

namespace World

/-- What is stored in a world. -/
def store (w : World) : Store := w.scene.store

/-- The ids that were drawn so far. -/
def drawn (w : World) : List String := w.clients.flatMap (·.own)

/-- Whether a client would draw an id now. -/
def draws (w : World) (client : Nat) : Bool := w.clients[client]?.any fun c => c.rest.draws

/-- Whether an event can happen. -/
def Possible (w : World) : Event → Prop
  | .called _ call => call.Sendable
  | .served i chance => chance.now.IsNameable ∧
    (w.draws i = true → Text.IsUuid chance.id ∧ chance.id ∉ w.drawn)

instance (w : World) : (e : Event) → Decidable (w.Possible e)
  | .called _ call => inferInstanceAs (Decidable call.Sendable)
  | .served _ _ => inferInstanceAs (Decidable (_ ∧ (_ → _)))

/-- What comes of an event that can happen. -/
def happen (w : World) : Event → World
  | .called policy call =>
    { w with clients := w.clients ++ [⟨call, [], (call.operation policy).program⟩] }
  | .served i chance =>
    match w.clients[i]? with
    | none => w
    | some c =>
      let (served, after) := c.serve w.scene chance
      ⟨after, w.clients.set i served⟩

/-- The world after an event. -/
def step (w : World) (e : Event) : World := if w.Possible e then w.happen e else w

/-- The world after some events. -/
def after (w : World) (es : List Event) : World := es.foldl step w

/-- The world before anyone has called, with a time to live for prompts. -/
def initial (ttl : Int) : World := ⟨⟨.empty, .empty ttl⟩, []⟩

end World

/-- The calls that come in. -/
def Event.calls (es : List Event) : List Call :=
  es.filterMap fun
    | .called _ call => some call
    | .served _ _ => none

/-! ## Serving a client that keeps its guarantee -/

/-- A client that is served leaves the store as it was, or makes a change that it may make; and it
goes on to keep its guarantee. -/
theorem Program.Ensures.serve {α : Type} {may : Change → Prop} {post : α → View → Prop}
    {p : Program α} {chance : Chance} {v : View} (h : p.Ensures may post v) (scene : Scene)
    (hv : v.store = scene.store) (hnow : Fits chance.now)
    (hid : p.draws = true → v.Fresh chance.id) :
    ∃ v' : View, v'.store = (p.serve scene chance).2.store ∧
      v'.own = (if p.draws then chance.id :: v.own else v.own) ∧
      (p.serve scene chance).1.Ensures may post v' ∧
      (v'.store = v.store ∨
        ∃ ch, may ch ∧ (∀ id ∈ ch.ids, id ∈ v'.own) ∧ ch.Makes v.store v'.store) := by
  cases p with
  | finish result => exact ⟨v, hv, rfl, h, .inl rfl⟩
  | read key next =>
    refine ⟨v, hv, rfl, ?_, .inl rfl⟩
    have hnext := h v (.refl v)
    rwa [hv] at hnext
  | query q next =>
    refine ⟨v, hv, rfl, ?_, .inl rfl⟩
    have hnext := h v (.refl v)
    rwa [hv] at hnext
  | openPrompt prompt next => exact ⟨v, hv, rfl, h v (.refl v), .inl rfl⟩
  | takePrompt subject next => exact ⟨v, hv, rfl, h v _ (.refl v), .inl rfl⟩
  | now next => exact ⟨v, hv, rfl, h v _ (.refl v) hnow, .inl rfl⟩
  | freshId next => exact ⟨v.draw chance.id, hv, rfl, h v _ (.refl v) (hid rfl), .inl rfl⟩
  | append collection body next =>
    obtain ⟨hchanged, hnext⟩ := h v chance.id (.refl v) (hid rfl)
    refine ⟨_, ?_, rfl, hnext, .inr hchanged⟩
    exact congrArg (fun s : Store => s.put ⟨collection, chance.id⟩ body) hv
  | commit stamps ws next =>
    obtain ⟨herror, hok⟩ := h v (.refl v)
    rcases serve_commit scene chance next with ⟨e, hserve⟩ | ⟨t, hcommit, hserve⟩
    · rw [hserve]
      exact ⟨v, hv, rfl, herror e, .inl rfl⟩
    · rw [hserve]
      obtain ⟨hchanged, hnext⟩ := hok t (hv ▸ hcommit)
      exact ⟨v.commit hchanged, rfl, rfl, hnext, .inr hchanged⟩

/-! ## Sound worlds -/

namespace World

/-- Every client keeps its guarantee from here on, and ids are drawn and used once. -/
structure Sound (w : World) : Prop where
  wellTyped : w.store.WellTyped
  distinctKeys : w.store.HasDistinctKeys
  drawnOnce : w.drawn.Nodup
  /-- Nothing is in use that was not drawn. -/
  spared : ∀ id, id ∉ w.drawn → w.store.Unused id
  ensures : ∀ c ∈ w.clients,
    c.rest.Ensures c.call.May (fun _ _ => True) ⟨w.store, c.own, wellTyped⟩

/-- What an event does to the store: nothing, or a change of the client that is served. -/
def Changes (w : World) (e : Event) (t : Store) : Prop :=
  t = w.store ∨ ∃ i chance c ch, e = .served i chance ∧ w.clients[i]? = some c ∧ c.call.May ch ∧
    ch.Makes w.store t

variable {w : World} {ttl : Int}

theorem sound_initial : (initial ttl).Sound where
  wellTyped := Store.wellTyped_empty
  distinctKeys := Store.hasDistinctKeys_empty
  drawnOnce := List.nodup_nil
  spared id _ := Store.unused_empty id
  ensures _ h := absurd h List.not_mem_nil

/-- Nothing comes of the turn of a client that is not there. -/
theorem happen_of_absent {i : Nat} (hc : w.clients[i]? = none) (chance : Chance) :
    w.happen (.served i chance) = w := by
  simp only [happen, hc]

theorem happen_served {i : Nat} {c : Client} (hc : w.clients[i]? = some c) (chance : Chance) :
    w.happen (.served i chance) =
      ⟨(c.serve w.scene chance).2, w.clients.set i (c.serve w.scene chance).1⟩ := by
  simp only [happen, hc]

/-- An id that is drawn is new. -/
theorem new_of_possible {i : Nat} {c : Client} {chance : Chance}
    (hpossible : w.Possible (.served i chance)) (hc : w.clients[i]? = some c)
    (hdraws : c.rest.draws = true) : Text.IsUuid chance.id ∧ chance.id ∉ w.drawn := by
  refine hpossible.2 ?_
  rw [draws, hc]
  exact hdraws

theorem Sound.called (h : w.Sound) {policy : RetryPolicy} {call : Call} (hcall : call.Sendable) :
    (w.happen (.called policy call)).Sound := by
  have hdrawn : (w.happen (.called policy call)).drawn = w.drawn := by
    simp [happen, drawn]
  refine ⟨h.wellTyped, h.distinctKeys, hdrawn ▸ h.drawnOnce, hdrawn ▸ h.spared, ?_⟩
  intro c hc
  rcases List.mem_append.1 hc with hc | hc
  · exact h.ensures c hc
  · obtain rfl := List.mem_singleton.1 hc
    exact (Call.operation_ensures hcall).imp fun _ _ _ => trivial

/-- One client has moved on, and may have drawn an id. -/
structure Moves (w w' : World) (before : List Client) (c c' : Client) (behind : List Client) :
    Prop where
  start : w.clients = before ++ c :: behind
  after : w'.clients = before ++ c' :: behind
  own : c'.own = c.own ∨ ∃ id, id ∉ w.drawn ∧ c'.own = id :: c.own

namespace Moves

variable {w' : World} {before behind : List Client} {c c' : Client}

theorem drawn_start (h : Moves w w' before c c' behind) :
    w.drawn = before.flatMap (·.own) ++ (c.own ++ behind.flatMap (·.own)) := by
  simp [drawn, h.start]

theorem drawn_after (h : Moves w w' before c c' behind) :
    w'.drawn = before.flatMap (·.own) ++ (c'.own ++ behind.flatMap (·.own)) := by
  simp [drawn, h.after]

/-- The ids that were drawn before are drawn, and at most a new one besides. -/
theorem drawn_perm (h : Moves w w' before c c' behind) :
    w'.drawn = w.drawn ∨ ∃ id, id ∉ w.drawn ∧ w'.drawn.Perm (id :: w.drawn) := by
  rw [h.drawn_after]
  rcases h.own with hown | ⟨id, hid, hown⟩
  · rw [hown, h.drawn_start]
    exact .inl rfl
  · refine .inr ⟨id, hid, ?_⟩
    rw [hown, h.drawn_start]
    exact List.perm_middle

theorem drawnOnce (h : Moves w w' before c c' behind) (hw : w.drawn.Nodup) : w'.drawn.Nodup := by
  rcases h.drawn_perm with hsame | ⟨id, hid, hperm⟩
  · exact hsame ▸ hw
  · exact hperm.nodup_iff.2 (List.nodup_cons.2 ⟨hid, hw⟩)

theorem stillDrawn (h : Moves w w' before c c' behind) {id : String} (hid : id ∈ w.drawn) :
    id ∈ w'.drawn := by
  rcases h.drawn_perm with hsame | ⟨new, -, hperm⟩
  · exact hsame ▸ hid
  · exact hperm.mem_iff.2 (List.mem_cons_of_mem _ hid)

theorem mem_drawn (h : Moves w w' before c c' behind) {id : String} (hid : id ∈ c'.own) :
    id ∈ w'.drawn := by
  rw [h.drawn_after]
  exact List.mem_append_right _ (List.mem_append_left _ hid)

/-- What one client has drawn, no one else has. -/
theorem disjoint (h : Moves w w' before c c' behind) (hw : w.drawn.Nodup) {other : Client}
    (hother : other ∈ before ∨ other ∈ behind) : ∀ id ∈ other.own, id ∉ c'.own := by
  intro id hid hidc
  have hnodup := h.drawnOnce hw
  rw [h.drawn_after] at hnodup
  obtain ⟨-, hrest, hbefore⟩ := List.nodup_append.1 hnodup
  obtain ⟨-, -, hbehind⟩ := List.nodup_append.1 hrest
  rcases hother with hother | hother
  · exact hbefore id (List.mem_flatMap.2 ⟨other, hother, hid⟩) id (List.mem_append_left _ hidc) rfl
  · exact hbehind id hidc id (List.mem_flatMap.2 ⟨other, hother, hid⟩) rfl

end Moves

/-- The client that is served moves on. -/
theorem moves_of_served {i : Nat} {c : Client} {chance : Chance}
    (hpossible : w.Possible (.served i chance)) (hc : w.clients[i]? = some c) :
    ∃ before behind,
      Moves w (w.happen (.served i chance)) before c (c.serve w.scene chance).1 behind := by
  obtain ⟨hi, hci⟩ := List.getElem?_eq_some_iff.1 hc
  obtain ⟨before, behind, hstart, -, hset⟩ : ∃ before behind : List Client,
      w.clients = before ++ w.clients[i] :: behind ∧ before.length = i ∧
        w.clients.set i (c.serve w.scene chance).1 =
          before ++ (c.serve w.scene chance).1 :: behind :=
    List.exists_of_set hi
  rw [hci] at hstart
  refine ⟨before, behind, hstart, ?_, ?_⟩
  · rw [happen_served hc]
    exact hset
  · simp only [Client.serve]
    split
    · rename_i hdraws
      exact .inr ⟨chance.id, (new_of_possible hpossible hc hdraws).2, rfl⟩
    · exact .inl rfl

/-- A world stays sound when a client moves on that makes at most one change, with ids of its
own. -/
theorem Sound.moves (h : w.Sound) {w' : World} {before behind : List Client} {c c' : Client}
    {v : View} (hmoves : Moves w w' before c c' behind) (hstore : v.store = w'.store)
    (hown : v.own = c'.own) (hensures : c'.rest.Ensures c'.call.May (fun _ _ => True) v)
    (hchange : w'.store = w.store ∨
      ∃ ch : Change, (∀ id ∈ ch.ids, id ∈ c'.own) ∧ ch.Makes w.store w'.store) : w'.Sound := by
  have hwellTyped : w'.store.WellTyped := hstore ▸ v.wellTyped
  -- The change uses ids of the client that moves, on which no other client relies.
  have hevolves : ∀ own : List String, (∀ id ∈ own, id ∉ c'.own) →
      Evolves own w.store w'.store := by
    intro own hdisjoint
    rcases hchange with hsame | ⟨ch, hids, hmakes⟩
    · rw [hsame]
      exact .refl _ _
    · exact hmakes.evolves h.wellTyped fun id hid hused => hdisjoint id hid (hids id hused)
  have hothers : ∀ other ∈ w.clients, other ∈ before ∨ other ∈ behind →
      other.rest.Ensures other.call.May (fun _ _ => True) ⟨w'.store, other.own, hwellTyped⟩ := by
    intro other hmem hother
    have hleads : View.LeadsTo ⟨w.store, other.own, h.wellTyped⟩
        ⟨w'.store, other.own, hwellTyped⟩ :=
      ⟨rfl, hevolves other.own (hmoves.disjoint h.drawnOnce hother)⟩
    exact (h.ensures other hmem).leadsTo hleads fun _ _ _ _ _ => trivial
  refine ⟨hwellTyped, ?_, hmoves.drawnOnce h.drawnOnce, ?_, ?_⟩
  · rcases hchange with hsame | ⟨ch, -, hmakes⟩
    · exact hsame ▸ h.distinctKeys
    · rw [hmakes.made]
      exact h.distinctKeys.putAll
  · intro id hid
    have hunused := h.spared id fun hold => hid (hmoves.stillDrawn hold)
    refine (hevolves [id] ?_).spared id List.mem_cons_self hunused
    intro id' hid' hown'
    obtain rfl := List.mem_singleton.1 hid'
    exact hid (hmoves.mem_drawn hown')
  · intro other hother
    rw [hmoves.after] at hother
    rw [hmoves.start] at hothers
    rcases List.mem_append.1 hother with hmem | hmem
    · exact hothers other (List.mem_append_left _ hmem) (.inl hmem)
    · rcases List.mem_cons.1 hmem with rfl | hmem
      · have hview : (⟨w'.store, other.own, hwellTyped⟩ : View) = v :=
          View.ext hstore.symm hown.symm
        rw [hview]
        exact hensures
      · exact hothers other (List.mem_append_right _ (List.mem_cons_of_mem _ hmem)) (.inr hmem)

/-- A client that is served makes at most one change, and leaves the world sound. -/
theorem Sound.served (h : w.Sound) {i : Nat} {chance : Chance}
    (hpossible : w.Possible (.served i chance)) :
    (w.happen (.served i chance)).Sound ∧
      w.Changes (.served i chance) (w.happen (.served i chance)).store := by
  cases hc : w.clients[i]? with
  | none =>
    rw [happen_of_absent hc]
    exact ⟨h, .inl rfl⟩
  | some c =>
    have hmem : c ∈ w.clients := List.mem_of_getElem? hc
    obtain ⟨before, behind, hmoves⟩ := moves_of_served hpossible hc
    -- A drawn id is fresh, because nothing is in use that was not drawn.
    have hfresh : c.rest.draws = true →
        View.Fresh ⟨w.store, c.own, h.wellTyped⟩ chance.id := by
      intro hdraws
      obtain ⟨huuid, hnew⟩ := new_of_possible hpossible hc hdraws
      exact ⟨huuid, fun hown => hnew (List.mem_flatMap.2 ⟨c, hmem, hown⟩), h.spared _ hnew⟩
    obtain ⟨v, hstore, hown, hensures, hchange⟩ :=
      (h.ensures c hmem).serve w.scene rfl hpossible.1 hfresh
    rw [happen_served hc] at hmoves ⊢
    rw [hstore, hown] at hchange
    refine ⟨h.moves hmoves hstore hown hensures ?_, ?_⟩
    · rcases hchange with hsame | ⟨ch, -, hids, hmakes⟩
      · exact .inl hsame
      · exact .inr ⟨ch, hids, hmakes⟩
    · rcases hchange with hsame | ⟨ch, hmay, -, hmakes⟩
      · exact .inl hsame
      · exact .inr ⟨i, chance, c, ch, rfl, hc, hmay, hmakes⟩

/-- **Every event leaves the store as it was, or makes one change.** The change is one that the call
of the served client may make. -/
theorem Sound.step (h : w.Sound) (e : Event) :
    (w.step e).Sound ∧ w.Changes e (w.step e).store := by
  rw [World.step]
  split
  · rename_i hpossible
    cases e with
    | called policy call => exact ⟨h.called hpossible, .inl rfl⟩
    | served i chance => exact h.served hpossible
  · exact ⟨h, .inl rfl⟩

/-! ## Runs -/

theorem after_concat (w : World) (es : List Event) (e : Event) :
    w.after (es ++ [e]) = (w.after es).step e := List.foldl_concat ..

theorem after_append (w : World) (es es' : List Event) :
    w.after (es ++ es') = (w.after es).after es' := List.foldl_append ..

theorem Sound.after (h : w.Sound) (es : List Event) : (w.after es).Sound := by
  induction es using List.reverseRecOn with
  | nil => exact h
  | append_singleton es e ih =>
    rw [after_concat]
    exact (ih.step e).1

theorem sound_after (ttl : Int) (es : List Event) : ((initial ttl).after es).Sound :=
  sound_initial.after es

/-- A client has the call that it came in with. -/
theorem call_of_mem_step {e : Event} {c : Client} (h : c ∈ (w.step e).clients) :
    (∃ c₀ ∈ w.clients, c₀.call = c.call) ∨ c.call ∈ Event.calls [e] := by
  rw [step] at h
  split at h
  · cases e with
    | called policy call =>
      rcases List.mem_append.1 h with h | h
      · exact .inl ⟨c, h, rfl⟩
      · obtain rfl := List.mem_singleton.1 h
        exact .inr (List.mem_singleton.2 rfl)
    | served i chance =>
      refine .inl ?_
      simp only [happen] at h
      split at h
      · exact ⟨c, h, rfl⟩
      · rename_i c₀ hc₀
        rcases List.mem_or_eq_of_mem_set h with h | rfl
        · exact ⟨c, h, rfl⟩
        · exact ⟨c₀, List.mem_of_getElem? hc₀, rfl⟩
  · exact .inl ⟨c, h, rfl⟩

theorem call_mem_of_mem_clients {es : List Event} {c : Client}
    (h : c ∈ ((initial ttl).after es).clients) : c.call ∈ Event.calls es := by
  induction es using List.reverseRecOn generalizing c with
  | nil => cases h
  | append_singleton es e ih =>
    rw [after_concat] at h
    rw [Event.calls, List.filterMap_append]
    rcases call_of_mem_step h with ⟨c₀, hc₀, hcall⟩ | hnew
    · rw [← hcall]
      exact List.mem_append_left _ (ih hc₀)
    · exact List.mem_append_right _ hnew

/-- **What every change preserves holds in every run.** The changes are made by the calls that come
in. -/
theorem induction_on_changes {P : Store → Prop} (ttl : Int) (es : List Event) (hempty : P .empty)
    (hchange : ∀ s t c ch, s.WellTyped → s.HasDistinctKeys → P s → c ∈ Event.calls es →
      c.May ch → ch.Makes s t → P t) : P ((initial ttl).after es).store := by
  induction es using List.reverseRecOn with
  | nil => exact hempty
  | append_singleton es e ih =>
    have hbefore : P ((initial ttl).after es).store := by
      refine ih fun s t c ch hs hkeys hP hc => hchange s t c ch hs hkeys hP ?_
      rw [Event.calls, List.filterMap_append]
      exact List.mem_append_left _ hc
    have hsound := sound_after ttl es
    rw [after_concat]
    rcases (hsound.step e).2 with hsame | ⟨i, chance, c, ch, -, hc, hmay, hmakes⟩
    · rw [hsame]
      exact hbefore
    · refine hchange _ _ c.call ch hsound.wellTyped hsound.distinctKeys hbefore ?_ hmay hmakes
      rw [Event.calls, List.filterMap_append]
      exact List.mem_append_left _ (call_mem_of_mem_clients (List.mem_of_getElem? hc))

end World

end RitualLedger
