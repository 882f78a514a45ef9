import RitualLedger.Proofs.Engine.NoTrace

/-!
# From the first turn on

Some calls decide in their first turn what they will answer: they look a record up or take a prompt,
and the rest of their program depends on what they have found. `World.FirstTurn` says which turn of
a client that was, and with it in which scene it was made.

A call whose first turn only looks something up keeps a contract from there on, and in the end it
has passed from phase to phase as its own turns have led it (`Contract.Leads`). The main statement,
`World.begun_of_answer`, says so of every client that has its answer, whatever overlaps with it.
-/

namespace RitualLedger

variable {γ : Type} {k : Contract γ} {g g' : γ}

/-! ## Turns and phases -/

/-- Turns, each with the store before and after it, lead from one phase of a contract to another. In
each the store stays as it was, or the client gives what it has to. -/
inductive Contract.Leads (k : Contract γ) (g : γ) : List (Store × Store) → γ → Prop
  | start : Leads k g [] g
  | still {turns : List (Store × Store)} {g' : γ} (h : Leads k g turns g') (s : Store) :
    Leads k g (turns ++ [(s, s)]) g'
  | given {turns : List (Store × Store)} {g' g'' : γ} {s t : Store} (h : Leads k g turns g')
    (hgives : k.gives g' s g'' t) : Leads k g (turns ++ [(s, t)]) g''

/-- In a phase that no write leads to nothing has been written. -/
theorem Contract.Leads.still_of_unmarked {turns : List (Store × Store)} (h : k.Leads g turns g')
    (hmarks : ∀ g s t, ¬ k.gives g s g' t) : ∀ turn ∈ turns, turn.2 = turn.1 := by
  induction h with
  | start => exact nofun
  | still _ s ih =>
    intro turn hturn
    rcases List.mem_append.1 hturn with hturn | hturn
    · exact ih hmarks turn hturn
    · rw [List.mem_singleton.1 hturn]
  | given _ hgives => exact absurd hgives (hmarks _ _ _)

/-- A contract of a client amid other clients of the engine, where the store may refuse anything. -/
structure Contract.Amid (k : Contract γ) : Prop where
  moves : ∀ {g s t}, s.Proceeds t → k.moves g s t
  refuses : ∀ e, k.refuses e
  known : ∀ {s t}, s.Proceeds t → k.known s t

namespace World

variable {w : World} {es : List Event} {e : Event} {i : Nat}

instance (i : Nat) : (e : Event) → Decidable (IsElsewhere i e)
  | .called _ _ => isTrue nofun
  | .served j _ => decidable_of_iff (j ≠ i)
    ⟨fun hne _ heq => hne (Event.served.inj heq).1,
      fun h heq => h _ (congrArg (Event.served · _) heq)⟩

/-- The store before and after each turn of the client at a place. -/
def turns (w : World) (i : Nat) : List Event → List (Store × Store)
  | [] => []
  | e :: es =>
    if IsElsewhere i e then (w.step e).turns i es
    else (w.store, (w.step e).store) :: (w.step e).turns i es

theorem turns_append (w : World) (i : Nat) (es es' : List Event) :
    w.turns i (es ++ es') = w.turns i es ++ (w.after es).turns i es' := by
  induction es generalizing w with
  | nil => rfl
  | cons e es ih =>
    rw [List.cons_append, turns, turns, ih]
    split <;> rfl

theorem turns_concat_of_elsewhere (he : IsElsewhere i e) :
    w.turns i (es ++ [e]) = w.turns i es := by
  rw [turns_append, turns, if_pos he, turns, List.append_nil]

theorem turns_concat_served (w : World) (es : List Event) (i : Nat) (chance : Chance) :
    w.turns i (es ++ [.served i chance]) = w.turns i es ++
      [((w.after es).store, ((w.after es).step (.served i chance)).store)] := by
  rw [turns_append, turns, if_neg fun h => h chance rfl, turns]

/-- Who stays where it is in every turn leaves no trace. -/
theorem leavesNoTrace_of_turns (h : ∀ turn ∈ w.turns i es, turn.2 = turn.1) :
    w.LeavesNoTrace es i := by
  rintro before chance later rfl
  have hsplit : before ++ .served i chance :: later = (before ++ [.served i chance]) ++ later := by
    simp
  rw [hsplit, turns_append, turns_concat_served] at h
  rw [after_concat]
  exact h _ (List.mem_append_left _ (List.mem_append_right _ (List.mem_singleton_self _)))

/-- In a phase that no write leads to a client has left no trace. -/
theorem leavesNoTrace_of_unmarked (h : k.Leads g (w.turns i es) g')
    (hmarks : ∀ g s t, ¬ k.gives g s g' t) : w.LeavesNoTrace es i :=
  leavesNoTrace_of_turns (h.still_of_unmarked hmarks)

/-! ## The first turn -/

/-- A turn of a client in a run, in which its program is as it was when the call came in. -/
structure FirstTurn (w : World) (es : List Event) (i : Nat) (call : Call) (before : List Event)
    (chance : Chance) : Prop where
  turn : ∃ later, es = before ++ .served i chance :: later
  waiting : ∃ policy own,
    (w.after before).clients[i]? = some ⟨call, own, (call.operation policy).program⟩
  possible : (w.after before).Possible (.served i chance)

theorem FirstTurn.concat {call : Call} {before : List Event} {chance : Chance}
    (h : w.FirstTurn es i call before chance) (e : Event) :
    w.FirstTurn (es ++ [e]) i call before chance := by
  obtain ⟨⟨later, rfl⟩, hwaiting, hpossible⟩ := h
  exact ⟨⟨later ++ [e], by simp⟩, hwaiting, hpossible⟩

/-- Of two turns the earlier one is in the run that leads to the later one. -/
theorem FirstTurn.earlier {call : Call} {before before' : List Event} {chance : Chance}
    (h : w.FirstTurn es i call before chance) (hpart : before' <+: es)
    (hlength : before.length < before'.length) : w.FirstTurn before' i call before chance := by
  obtain ⟨⟨later, rfl⟩, hwaiting, hpossible⟩ := h
  have hfirst : before ++ [.served i chance] <+: before ++ .served i chance :: later :=
    ⟨later, by simp⟩
  have hlength : (before ++ [Event.served i chance]).length ≤ before'.length := by
    rw [List.length_append, List.length_singleton]
    exact hlength
  obtain ⟨rest, rfl⟩ := List.prefix_of_prefix_length_le hfirst hpart hlength
  exact ⟨⟨rest, by simp⟩, hwaiting, hpossible⟩

/-- From the first turn on the store has moved ahead. -/
theorem FirstTurn.proceeds {ttl : Int} {call : Call} {before : List Event} {chance : Chance}
    (h : (initial ttl).FirstTurn es i call before chance) :
    ((initial ttl).after before).store.Proceeds ((initial ttl).after es).store := by
  obtain ⟨later, rfl⟩ := h.turn
  rw [after_append]
  exact (sound_after ttl before).proceeds_after _

end World

/-- A call begins with a turn that leaves the store alone, and keeps a contract from there on. What
it answers, and in which phase, depends on the scene of that turn. -/
structure Call.Begins (k : Contract γ) (g : γ) (call : Call)
    (post : Scene → Chance → Except EngineError call.Result → γ → Prop) : Prop where
  busy : ∀ policy answer, (call.operation policy).program ≠ .finish answer
  idle : ∀ policy scene chance,
    ((call.operation policy).program.serve scene chance).2.store = scene.store
  keeps : ∀ policy scene chance, scene.store.Regular →
    ((call.operation policy).program.serve scene chance).1.Keeps k
      (fun answer g' _ => post scene chance answer g') g scene.store

namespace World

variable {es : List Event} {i : Nat} {call : Call}
  {post : Scene → Chance → Except EngineError call.Result → γ → Prop}

/-- How far a client has come: its first turn is still to come, or it has passed on from there. -/
inductive Stage (k : Contract γ) (g : γ) (w : World) (es : List Event) (i : Nat) (call : Call)
    (post : Scene → Chance → Except EngineError call.Result → γ → Prop)
    (rest : Program (Except EngineError call.Result)) : Prop
  | waiting (policy : RetryPolicy) (hrest : rest = (call.operation policy).program)
    (hleads : k.Leads g (w.turns i es) g)
  | begun (before : List Event) (chance : Chance) (g' : γ)
    (hfirst : w.FirstTurn es i call before chance) (hleads : k.Leads g (w.turns i es) g')
    (hkeeps : rest.Keeps k (fun answer g' _ => post (w.after before).scene chance answer g') g'
      (w.after es).store)

/-- The phase stays the same in an event that is no turn of the client, or leaves the store as it
was. -/
theorem leads_concat {w : World} (h : k.Leads g (w.turns i es) g') {e : Event}
    (he : ((w.after es).step e).store = (w.after es).store ∨ IsElsewhere i e) :
    k.Leads g (w.turns i (es ++ [e])) g' := by
  by_cases helsewhere : IsElsewhere i e
  · rw [turns_concat_of_elsewhere helsewhere]
    exact h
  · obtain ⟨chance, rfl⟩ := not_forall_not.1 helsewhere
    rw [turns_concat_served, he.resolve_right helsewhere]
    exact h.still _

/-- A client whose first turn is still to come waits on, or has it now. -/
theorem Stage.concat_waiting {w : World} (hregular : (w.after es).store.Regular)
    (hbegins : call.Begins k g post) (policy : RetryPolicy)
    (hleads : k.Leads g (w.turns i es) g) {own : List String}
    (hc : (w.after es).clients[i]? = some ⟨call, own, (call.operation policy).program⟩)
    (e : Event) : ∃ own' rest,
      ((w.after es).step e).clients[i]? = some ⟨call, own', rest⟩ ∧
      Stage k g w (es ++ [e]) i call post rest := by
  by_cases hpossible : (w.after es).Possible e
  · cases (w.after es).turn i e with
    | entry _ _ hnone => cases hc.symm.trans hnone
    | pause hclient hstore =>
      refine ⟨own, _, hclient.trans hc, .waiting policy rfl (leads_concat hleads ?_)⟩
      by_cases helsewhere : IsElsewhere i e
      · exact .inr helsewhere
      · obtain ⟨chance, he⟩ := not_forall_not.1 helsewhere
        exact .inl (hstore chance he)
    | served chance c he hc' hnow hclient hstore =>
      cases hc.symm.trans hc'
      cases he
      have hidle := hstore.trans (hbegins.idle policy (w.after es).scene chance)
      refine ⟨_, _, hclient, .begun es chance g
        ⟨⟨[], rfl⟩, ⟨policy, own, hc⟩, hpossible⟩ (leads_concat hleads (.inl hidle)) ?_⟩
      rw [after_concat, hidle]
      exact hbegins.keeps policy (w.after es).scene chance hregular
  · have hsame : (w.after es).step e = w.after es := if_neg hpossible
    rw [hsame]
    refine ⟨own, _, hc, .waiting policy rfl (leads_concat hleads (.inl ?_))⟩
    rw [hsame]

/-- A client that has begun passes on. -/
theorem Stage.concat_begun {w : World} (hsound : (w.after es).Sound) (hk : k.Amid)
    {before : List Event} {chance : Chance} (hfirst : w.FirstTurn es i call before chance)
    (hleads : k.Leads g (w.turns i es) g') {own : List String}
    {rest : Program (Except EngineError call.Result)}
    (hc : (w.after es).clients[i]? = some ⟨call, own, rest⟩)
    (hkeeps : rest.Keeps k (fun answer g' _ => post (w.after before).scene chance answer g') g'
      (w.after es).store) (e : Event) : ∃ own' rest',
      ((w.after es).step e).clients[i]? = some ⟨call, own', rest'⟩ ∧
      Stage k g w (es ++ [e]) i call post rest' := by
  obtain ⟨own', rest', g'', hc', hkeeps', hpasses⟩ := hsound.keeps_turn hc hkeeps e
    (fun _ _ err _ => hk.refuses err) hk.known
    fun _ => ⟨hk.moves (hsound.proceeds e), fun _ h => h⟩
  refine ⟨own', rest', hc', .begun before chance g'' (hfirst.concat e) ?_ ?_⟩
  · rcases hpasses with ⟨rfl, hquiet⟩ | ⟨⟨chance', rfl⟩, hgives⟩
    · exact leads_concat hleads hquiet
    · rw [turns_concat_served]
      exact hleads.given hgives
  · rw [after_concat]
    exact hkeeps'

/-- Before a client comes in, it has no turns that could matter. -/
theorem leads_of_absent {w : World} (h : (w.after es).clients[i]? = none) :
    k.Leads g (w.turns i es) g := by
  induction es using List.reverseRecOn with
  | nil => exact .start
  | append_singleton es e ih =>
    rw [after_concat] at h
    have hbefore := absent_of_step h
    refine leads_concat (ih hbefore) ?_
    by_cases helsewhere : IsElsewhere i e
    · exact .inr helsewhere
    · obtain ⟨chance, rfl⟩ := not_forall_not.1 helsewhere
      rw [step_of_absent hbefore]
      exact .inl rfl

theorem stage_after (ttl : Int) (hk : k.Amid) (hbegins : call.Begins k g post) {own : List String}
    {rest : Program (Except EngineError call.Result)}
    (hc : ((initial ttl).after es).clients[i]? = some ⟨call, own, rest⟩) :
    Stage k g (initial ttl) es i call post rest := by
  induction es using List.reverseRecOn generalizing own rest with
  | nil => cases hc
  | append_singleton es e ih =>
    rw [after_concat] at hc
    cases hbefore : ((initial ttl).after es).clients[i]? with
    | none =>
      obtain ⟨policy, call', heq, hstore⟩ := entered hbefore hc
      cases heq
      exact .waiting policy rfl (leads_concat (leads_of_absent hbefore) (.inl hstore))
    | some c₀ =>
      -- The client has had this call before.
      obtain ⟨call₀, own₀, rest₀⟩ := c₀
      obtain ⟨c', hc', hcall⟩ := client_stays hbefore e
      cases hc.symm.trans hc'
      obtain rfl : call = call₀ := hcall
      have hnext : ∃ own' rest',
          (((initial ttl).after es).step e).clients[i]? = some ⟨call, own', rest'⟩ ∧
            Stage k g (initial ttl) (es ++ [e]) i call post rest' := by
        cases ih hbefore with
        | waiting policy hrest hleads =>
          subst hrest
          exact Stage.concat_waiting (regular_after ttl es) hbegins policy hleads hbefore e
        | begun before chance g' hfirst hleads hkeeps =>
          exact Stage.concat_begun (sound_after ttl es) hk hfirst hleads hbefore hkeeps e
      obtain ⟨own', rest', hc'', hstage⟩ := hnext
      cases hc.symm.trans hc''
      exact hstage

/-- **What a call has answered was decided in the scene of its first turn**, and its turns have led
it to a phase that goes with the answer. -/
theorem begun_of_answer {ttl : Int} (hk : k.Amid) (hbegins : call.Begins k g post)
    {own : List String} {answer : Except EngineError call.Result}
    (hc : ((initial ttl).after es).clients[i]? = some ⟨call, own, .finish answer⟩) :
    ∃ before chance g', (initial ttl).FirstTurn es i call before chance ∧
      post ((initial ttl).after before).scene chance answer g' ∧
      k.Leads g ((initial ttl).turns i es) g' := by
  cases stage_after ttl hk hbegins hc with
  | waiting policy hrest _ => exact absurd hrest.symm (hbegins.busy policy answer)
  | begun before chance g' hfirst hleads hkeeps =>
    exact ⟨before, chance, g', hfirst, hkeeps, hleads⟩

end World

/-! ## Looking a record up first -/

namespace Operation

variable {α β : Type} {scene : Scene} {chance : Chance}

/-- The first turn of an operation that another follows, if that is all of it. -/
theorem serve_bind {o : Operation α} {f : α → Operation β} {a : α} {after : Scene}
    (hbusy : ∀ answer, o.program ≠ .finish answer)
    (h : o.program.serve scene chance = (.finish (.ok a), after)) :
    (o >>= f).program.serve scene chance = ((f a).program, after) := by
  change (o.program.bind _).serve scene chance = _
  rw [Program.serve_bind hbusy, h]
  rfl

/-- In a typed store a record is looked up in one turn. -/
theorem serve_readRecord? {δ : Type} [Document δ] [LawfulDocument δ] [Record δ]
    (hs : scene.store.WellTyped) (id : String) (chance : Chance) :
    (readDocument? (α := δ) ((Record.collection δ).key id)).program.serve scene chance =
      (.finish (.ok (scene.store.get? δ ((Record.collection δ).key id))), scene) := by
  let key : DocKey := (Record.collection δ).key id
  have hread : (liftM (Request.read key) : Operation _).program.serve scene chance =
      (.finish (.ok (scene.store.read? key)), scene) := rfl
  have hbusy : ∀ answer, (liftM (Request.read key) : Operation _).program ≠ .finish answer := by
    rintro answer ⟨⟩
  refine (serve_bind hbusy hread).trans ?_
  cases hdoc : scene.store.read? key with
  | none =>
    rw [Store.get?_of_absent hdoc]
    rfl
  | some doc =>
    have hpresent : scene.store.read? key ≠ none := by
      rw [hdoc]
      exact nofun
    obtain ⟨x, hx⟩ := hs.readable (α := δ) hpresent
    rw [hx]
    rw [Store.get?_of_read? hdoc] at hx
    simp only [hx]
    rfl

end Operation

end RitualLedger
