import RitualLedger.Proofs.Engine.Answers
import RitualLedger.Proofs.Engine.Passage
import RitualLedger.Proofs.Rule.Confinement
import RitualLedger.Proofs.Session.Reference

/-!
# Replies to prompts

A reply takes the live prompt of its subject in its first turn, and only then looks at the text. So
what comes of it depends on the prompt that it has taken and on the text alone, not on what others
do: without a prompt it is left alone, a text that leaves something is logged once, and a blank text
is refused. The prompt is used up in both of the latter cases. No two replies take the same prompt,
however the clock runs, and each has taken one that was asked before (`World.Consumes`).

The main statement is `replies_use_prompts_up`.
-/

namespace RitualLedger

open Contract (Within)

/-! ## Sessions at any readings of a clock -/

namespace Sessions

variable {α : Type} {s : Sessions α} {e : SessionEntry α} {now : Instant} {subject : String}

theorem after_append (s : Sessions α) (uses later : List (Use α)) :
    s.after (uses ++ later) = (s.after uses).after later := List.foldl_append ..

/-- What a take hands out is the live value. -/
theorem fst_take (s : Sessions α) (now : Instant) (subject : String) :
    (s.take now subject).1 = (s.get now subject).1 := by
  rw [take, get]
  cases s.entry? subject with
  | none => rfl
  | some e => cases hlive : e.isLive now <;> simp [hlive]

theorem mem_get (he : e ∈ (s.get now subject).2.entries) : e ∈ s.entries := by
  rw [get] at he
  split at he
  · exact he
  · split at he
    · exact he
    · exact (mem_remove.1 he).1

/-- After a take nothing is left for the subject. -/
theorem mem_take (he : e ∈ (s.take now subject).2.entries) :
    e ∈ s.entries ∧ e.subject ≠ subject := by
  rw [take] at he
  split at he
  · rename_i hnone
    refine ⟨he, fun heq => ?_⟩
    exact List.find?_eq_none.1 hnone e he (beq_iff_eq.2 heq)
  · exact mem_remove.1 he

@[simp] theorem ttl_use (s : Sessions α) (u : Use α) : (s.use u).2.ttl = s.ttl := by
  cases u with
  | put | purge => rfl
  | get now subject =>
    rw [use, get]
    split
    · rfl
    · split <;> rfl
  | take now subject =>
    rw [use, take]
    split <;> rfl

theorem ttl_after (s : Sessions α) (uses : List (Use α)) : (s.after uses).ttl = s.ttl := by
  induction uses using List.reverseRecOn with
  | nil => rfl
  | append_singleton past u ih => rw [after_concat, ttl_use, ih]

/-- Whatever a clock has shown, an entry is that of the last put for its subject. -/
theorem stands_of_mem {ttl : Int} {past : List (Use α)}
    (he : e ∈ ((empty ttl).after past).entries) :
    ∃ t, Stands past e.subject t e.value ∧ e = entryOf ttl t e.subject e.value := by
  induction past using List.reverseRecOn with
  | nil => cases he
  | append_singleton past u ih =>
    rw [after_concat] at he
    have hkept : e ∈ ((empty ttl).after past).entries → ¬ u.Unseats e.subject →
        ∃ t, Stands (past ++ [u]) e.subject t e.value ∧ e = entryOf ttl t e.subject e.value := by
      intro he hu
      obtain ⟨t, hstands, heq⟩ := ih he
      exact ⟨t, stands_concat.2 (.inr ⟨hu, hstands⟩), heq⟩
    cases u with
    | put now subject value =>
      rcases mem_put.1 he with ⟨⟨hmem, -⟩, hother⟩ | rfl
      · exact hkept hmem fun heq => hother heq.symm
      · rw [ttl_after]
        exact ⟨now, stands_concat.2 (.inl rfl), rfl⟩
    | get now subject => exact hkept (mem_get he) id
    | take now subject =>
      obtain ⟨hmem, hother⟩ := mem_take he
      exact hkept hmem fun heq => hother heq.symm
    | purge now => exact hkept (mem_sweep.1 he).1 id

/-- **What a take hands out was put before**, and has not been taken or replaced since. -/
theorem supplies_of_take {ttl : Int} {past : List (Use α)} {v : α} (later : List (Use α))
    (h : (((empty ttl).after past).take now subject).1 = some v) :
    ∃ i, Supplies ttl (past ++ .take now subject :: later) i past.length v := by
  rw [take] at h
  split at h
  · cases h
  · rename_i e hentry
    cases hlive : e.isLive now with
    | false => simp [hlive] at h
    | true =>
      obtain rfl : e.value = v := by simpa [hlive] using h
      obtain rfl : e.subject = subject := by simpa using List.find?_some hentry
      obtain ⟨t, hstands, heq⟩ := stands_of_mem (List.mem_of_find?_eq_some hentry)
      have htaken : (past ++ .take now e.subject :: later).take past.length = past := by simp
      rw [← htaken] at hstands
      obtain ⟨i, hi, hput, hquiet⟩ := (stands_take_iff (by simp)).1 hstands
      exact ⟨i, e.subject, t, .take now e.subject, hi, hput, by simp, rfl, hquiet, heq ▸ hlive⟩

end Sessions

open Sessions (Supplies Use)

/-! ## Prompts in a run -/

/-- The use of the prompts that serving the next request of a program makes. -/
def Program.promptUse? {α : Type} (p : Program α) (now : Instant) : Option (Use MoodPrompt) :=
  match p with
  | openPrompt prompt _ => some (.put now prompt.subjectId prompt)
  | takePrompt subject _ => some (.take now subject)
  | finish _ | read _ _ | commit _ _ _ | append _ _ _ | query _ _ | Program.now _ | freshId _ =>
    none

theorem Program.prompts_serve {α : Type} (p : Program α) (scene : Scene) (chance : Chance) :
    (p.serve scene chance).2.prompts =
      scene.prompts.after (p.promptUse? chance.now).toList := by
  cases p with
  | commit stamps ws next =>
    rcases serve_commit scene chance next with ⟨e, h⟩ | ⟨t, -, h⟩
    · rw [h]
      rfl
    · rw [h]
      rfl
  | finish | read | append | query | openPrompt | takePrompt | now | freshId => rfl

namespace World

/-- The use of the prompts that an event makes. -/
def promptUse? (w : World) : Event → Option (Use MoodPrompt)
  | .called _ _ => none
  | .served i chance =>
    if w.Possible (.served i chance) then
      w.clients[i]?.bind fun c => c.rest.promptUse? chance.now
    else none

/-- The uses of the prompts in a run. -/
def promptUses (w : World) : List Event → List (Use MoodPrompt)
  | [] => []
  | e :: es => (w.promptUse? e).toList ++ (w.step e).promptUses es

variable {w : World} {es : List Event} {i : Nat}

theorem promptUses_append (w : World) (es es' : List Event) :
    w.promptUses (es ++ es') = w.promptUses es ++ (w.after es).promptUses es' := by
  induction es generalizing w with
  | nil => rfl
  | cons e es ih =>
    rw [List.cons_append, promptUses, promptUses, ih, List.append_assoc]
    rfl

theorem prompts_step (w : World) (e : Event) :
    (w.step e).scene.prompts = w.scene.prompts.after (w.promptUse? e).toList := by
  rw [step]
  cases e with
  | called policy call => split <;> rfl
  | served i chance =>
    rw [promptUse?]
    split
    · cases hc : w.clients[i]? with
      | none =>
        rw [happen_of_absent hc]
        rfl
      | some c =>
        rw [happen_served hc]
        exact c.rest.prompts_serve w.scene chance
    · rfl

/-- The prompts are what their uses have made of them. -/
theorem prompts_after (w : World) (es : List Event) :
    (w.after es).scene.prompts = w.scene.prompts.after (w.promptUses es) := by
  induction es generalizing w with
  | nil => rfl
  | cons e es ih =>
    rw [promptUses, Sessions.after_append, ← prompts_step]
    exact ih (w.step e)

section

variable {subject text : String} {before : List Event} {chance : Chance}

/-- The first turn of a reply takes a prompt. -/
theorem FirstTurn.promptUse? (h : w.FirstTurn es i (.replyMood subject text) before chance) :
    (w.after before).promptUse? (.served i chance) = some (.take chance.now subject) := by
  obtain ⟨policy, own, hc⟩ := h.waiting
  rw [World.promptUse?, if_pos h.possible, hc]
  rfl

theorem FirstTurn.promptUses (h : w.FirstTurn es i (.replyMood subject text) before chance) :
    ∃ later, w.promptUses es = w.promptUses before ++ .take chance.now subject :: later := by
  obtain ⟨later, rfl⟩ := h.turn
  refine ⟨((w.after before).step (.served i chance)).promptUses later, ?_⟩
  rw [promptUses_append, World.promptUses, h.promptUse?]
  rfl

/-- Nothing is left of it for the subject. -/
theorem FirstTurn.subject_ne (h : w.FirstTurn es i (.replyMood subject text) before chance) :
    ∀ e ∈ (w.after (before ++ [.served i chance])).scene.prompts.entries,
      e.subject ≠ subject := by
  intro e he
  rw [after_concat, prompts_step, h.promptUse?] at he
  exact (Sessions.mem_take he).2

end

/-- A reply takes the prompt that was put at some place among the uses of prompts. -/
def Consumes (ttl : Int) (es : List Event) (i put : Nat) (prompt : MoodPrompt) : Prop :=
  ∃ subject text before chance,
    (initial ttl).FirstTurn es i (.replyMood subject text) before chance ∧
    Supplies ttl ((initial ttl).promptUses es) put ((initial ttl).promptUses before).length prompt

/-- A prompt that is live when a reply has its first turn was put before. -/
theorem consumes_of_live {ttl : Int} {subject text : String} {before : List Event}
    {chance : Chance} {prompt : MoodPrompt}
    (h : (initial ttl).FirstTurn es i (.replyMood subject text) before chance)
    (hlive : (((initial ttl).after before).scene.prompts.get chance.now subject).1 =
      some prompt) : ∃ put, Consumes ttl es i put prompt := by
  obtain ⟨later, huses⟩ := h.promptUses
  rw [prompts_after, ← Sessions.fst_take] at hlive
  obtain ⟨put, hput⟩ := Sessions.supplies_of_take later hlive
  rw [← huses] at hput
  exact ⟨put, subject, text, before, chance, h, hput⟩

/-- Whoever takes a prompt later makes a later use of the prompts. -/
theorem FirstTurn.promptUses_lt {subject text : String} {before before' : List Event}
    {chance : Chance} (h : w.FirstTurn es i (.replyMood subject text) before chance)
    (hpart : before' <+: es) (hlength : before.length < before'.length) :
    (w.promptUses before).length < (w.promptUses before').length := by
  obtain ⟨later, huses⟩ := (h.earlier hpart hlength).promptUses
  rw [huses, List.length_append, List.length_cons]
  omega

/-- **No prompt is taken by two replies.** -/
theorem Consumes.unique {ttl : Int} {i' put : Nat} {prompt prompt' : MoodPrompt}
    (h : Consumes ttl es i put prompt) (h' : Consumes ttl es i' put prompt') : i = i' := by
  obtain ⟨subject, text, before, chance, hfirst, hsupplies⟩ := h
  obtain ⟨subject', text', before', chance', hfirst', hsupplies'⟩ := h'
  have htake : ∀ {i subject text before chance},
      (initial ttl).FirstTurn es i (.replyMood subject text) before chance →
      ((initial ttl).promptUses es)[((initial ttl).promptUses before).length]? =
        some (.take chance.now subject) := by
    intro i subject text before chance hfirst
    obtain ⟨later, huses⟩ := hfirst.promptUses
    rw [huses]
    simp
  have hsame : ((initial ttl).promptUses before).length =
      ((initial ttl).promptUses before').length :=
    Nat.le_antisymm (hsupplies'.not_after_take hsupplies (htake hfirst') trivial)
      (hsupplies.not_after_take hsupplies' (htake hfirst) trivial)
  obtain ⟨later, hes⟩ := hfirst.turn
  obtain ⟨later', hes'⟩ := hfirst'.turn
  -- The two takes are the same use, so they are made in the same turn.
  have hlength : before.length = before'.length := by
    rcases Nat.lt_trichotomy before.length before'.length with hlt | heq | hlt
    · have huses := hfirst.promptUses_lt ⟨_, hes'.symm⟩ hlt
      omega
    · exact heq
    · have huses := hfirst'.promptUses_lt ⟨_, hes.symm⟩ hlt
      omega
  obtain ⟨-, hturn⟩ := List.append_inj (hes.symm.trans hes') hlength
  exact (Event.served.inj (List.cons.inj hturn).1).1

end World

/-! ## The log of moods -/

/-- A key that nothing stood under, if the document there may not change. -/
theorem Store.Proceeds.absent_of_put {s : Store} {c : Collection} {id : String} {body : Json}
    (h : s.Proceeds (s.put (c.key id) body)) (hc : c.isFrozen = true) :
    s.read? (c.key id) = none := by
  cases hread : s.read? (c.key id) with
  | none => rfl
  | some doc =>
    have hkept := h.evolves.entries c id doc hc hread
    rw [Store.read?_put_self, Store.version?, hread] at hkept
    have hversion := congrArg Versioned.version (Option.some.inj hkept)
    simp at hversion

/-- The moods that are logged, oldest first. -/
def Store.moods (s : Store) : List (String × Json) := s.inCollection Collection.moods.name

namespace Mood

/-- Turns that append some entries to the log of moods, in order, and leave the rest of it. -/
inductive Logs : List (Store × Store) → List (String × Json) → Prop
  | none : Logs [] []
  | turn {turns : List (Store × Store)} {logged new : List (String × Json)} {s t : Store}
    (h : Logs turns logged) (hnew : t.moods = s.moods ++ new) :
    Logs (turns ++ [(s, t)]) (logged ++ new)

end Mood

/-- A client is told what it has logged, from its first write on. -/
def Contract.logging : Contract (Option (List (String × Json))) where
  rely _ := .engine
  refuses _ := True
  known := Rely.engine.moves
  gives g s g' t := ∃ new, t.moods = s.moods ++ new ∧ g' = some (g.getD [] ++ new)

namespace Contract

theorem amid_logging : logging.Amid := ⟨id, fun _ => trivial, id⟩

/-- Actions log nothing. -/
theorem admits_logging (subject ritual : String) (logged : List (String × Json)) :
    logging.Admits subject ritual (· = some logged) where
  moves := id
  gives := by
    rintro _ s t ch rfl - hc hmakes
    refine ⟨some logged, rfl, [], ?_, ?_⟩
    · rw [List.append_nil]
      exact hmakes.moods_of_concerns hc
    · rw [Option.getD_some, List.append_nil]

theorem Leads.logs {turns : List (Store × Store)} {g : Option (List (String × Json))}
    (h : logging.Leads none turns g) : Mood.Logs turns (g.getD []) := by
  induction h with
  | start => exact .none
  | still _ s ih =>
    have hlogs := ih.turn (s := s) (List.append_nil _).symm
    rw [List.append_nil] at hlogs
    exact hlogs
  | given _ hgives ih =>
    obtain ⟨new, hnew, rfl⟩ := hgives
    exact ih.turn hnew

end Contract

/-! ## What comes of a reply -/

namespace Mood

open Contract (logging)

variable {policy : RetryPolicy} {s : Store}

/-- What is told of a text that is logged: a blank one is refused, and any other is trimmed. -/
def Logged (subject text : String) (answer : Except EngineError MoodOutcome)
    (g : Option (List (String × Json))) : Prop :=
  if Text.isBlank text then
    answer = .error (.validation (.invalidValue "mood" "must not be empty")) ∧ g = none
  else ∃ o time, answer = .ok o ∧
    g = some [(o.entryId, encode (⟨subject, Text.trim text, time⟩ : MoodEntry))]

/-- **A text that leaves something is logged once**, and what follows does not fail. -/
theorem keeps_log_logged (hs : s.Regular) (subject text : String) :
    (log policy subject text).program.Keeps logging
      (fun answer g _ => Logged subject text answer g) none s := by
  refine Operation.Keeps.program ?_
  by_cases hblank : Text.isBlank text = true
  · have hrefused : (Operation.ofValidation (read text)).Keeps logging
        (fun e g _ => Logged subject text (.error e) g) (fun _ _ _ => False) none s := by
      rw [read, if_pos hblank]
      exact .ofValidation nofun fun e he => by
        cases he
        rw [Logged, if_pos hblank]
        exact ⟨rfl, rfl⟩
    exact .bind hrefused fun _ _ _ h => h.elim
  · have haccepted : (Operation.ofValidation (read text)).Keeps logging
        (fun e g _ => Logged subject text (.error e) g)
        (fun mood g s' => mood = Text.trim text ∧ g = none ∧ s' = s) none s := by
      rw [read, if_neg hblank]
      exact .ofValidation (fun _ h => ⟨(Except.ok.inj h).symm, rfl, rfl⟩) nofun
    refine .bind haccepted ?_
    rintro _ _ _ ⟨rfl, rfl, rfl⟩
    refine .bind .now ?_
    rintro now _ s₁ ⟨rfl, hs₁, -⟩
    let entry : MoodEntry := ⟨subject, Text.trim text, now⟩
    have happend : (liftM (Request.append Collection.moods.name (encode entry)) :
        Operation String).Keeps logging (fun e g _ => Logged subject text (.error e) g)
        (fun id g s' => g = some [(id, encode entry)] ∧ s'.Regular) none s₁ := by
      refine .lift ?_
      intro s' id hs' hknown
      have habsent := Store.Proceeds.absent_of_put (c := .moods) hknown rfl
      refine ⟨some [(id, encode entry)], ⟨_, Store.inCollection_put_new habsent, rfl⟩, rfl, ?_⟩
      exact hknown.regular (hs'.regular (hs₁.regular hs))
    refine .bind happend ?_
    rintro id g s₂ ⟨rfl, hs₂⟩
    have hfire : (Signal.fire policy subject (.mood (Text.trim text)) fun _ => .mood id).Keeps
        logging (fun _ _ _ => False) (fun _ => Within (· = some [(id, encode entry)]) s₂)
        (some [(id, encode entry)]) s₂ :=
      Signal.keeps_fire_within (fun ritual => Contract.admits_logging subject ritual _) hs₂
        ⟨rfl, Rely.engine.refl s₂⟩ _ _
    refine .bind (hfire.imp (fun _ _ _ h => h.elim) fun _ _ _ h => h) ?_
    rintro response g s₃ ⟨rfl, -⟩
    refine .pure ?_
    rw [Logged, if_neg hblank]
    exact ⟨_, now, rfl, rfl⟩

/-- What is told of a reply, given the prompt that was live. -/
def Replied (subject text : String) (answer : Except EngineError (Option MoodOutcome))
    (g : Option (List (String × Json))) : Option MoodPrompt → Prop
  | none => answer = .ok none ∧ g = none
  | some _ => ∃ logged, answer = logged.map some ∧ Logged subject text logged g

theorem begins_reply (subject text : String) : (Call.replyMood subject text).Begins logging none
    fun scene chance answer g =>
      Replied subject text answer g (scene.prompts.get chance.now subject).1 where
  busy := by rintro policy answer ⟨⟩
  idle _ _ _ := rfl
  keeps policy scene chance hs := by
    rw [← Sessions.fst_take]
    have hserve : ((Call.replyMood subject text).operation policy).program.serve scene chance =
        ((match (scene.prompts.take chance.now subject).1 with
          | none => pure none
          | some _ => some <$> log policy subject text : Operation (Option MoodOutcome)).program,
          ⟨scene.store, (scene.prompts.take chance.now subject).2⟩) := rfl
    rw [hserve]
    cases (scene.prompts.take chance.now subject).1 with
    | none => exact ⟨rfl, rfl⟩
    | some prompt =>
      refine Program.Keeps.bind (keeps_log_logged hs subject text) ?_
      rintro (e | o) g s' hlogged
      · exact ⟨.error e, rfl, hlogged⟩
      · exact ⟨.ok o, rfl, hlogged⟩

end Mood

/-- What a client has answered to a reply was settled by the prompt that was live in its first turn
and by the text. -/
theorem World.replied_of_answer {ttl : Int} {es : List Event} {i : Nat} {own : List String}
    {subject text : String} {answer : Except EngineError (Option MoodOutcome)}
    (hc : ((initial ttl).after es).clients[i]? =
      some ⟨.replyMood subject text, own, .finish answer⟩) :
    ∃ before chance g, (initial ttl).FirstTurn es i (.replyMood subject text) before chance ∧
      Mood.Replied subject text answer g
        (((initial ttl).after before).scene.prompts.get chance.now subject).1 ∧
      Mood.Logs ((initial ttl).turns i es) (g.getD []) ∧
      (g = none → (initial ttl).LeavesNoTrace es i) := by
  obtain ⟨before, chance, g, hfirst, hreplied, hleads⟩ :=
    begun_of_answer Contract.amid_logging (Mood.begins_reply subject text) hc
  refine ⟨before, chance, g, hfirst, hreplied, hleads.logs, ?_⟩
  rintro rfl
  refine leavesNoTrace_of_unmarked hleads ?_
  rintro g s t ⟨new, -, hnone⟩
  cases hnone

/-- **A reply uses its prompt up, also when it is refused.** However calls overlap and whatever the
clock shows, what comes of a reply is settled in its first turn. If no prompt of its subject is live
then, it answers with nothing and leaves no trace. Otherwise it has taken a prompt that was asked
before and that no other reply takes, and nothing is left of it. If the text is blank, the reply
fails then and leaves no trace; if it is not, the reply succeeds, and all that its turns do to the
log of moods is to append one entry, with the trimmed text, under the id that is answered. In an
endless run every client that is served again and again is answered. -/
theorem replies_use_prompts_up (ttl : Int) (es : List Event) :
    let w := World.initial ttl
    (∀ i own subject text answer,
      (w.after es).clients[i]? = some ⟨.replyMood subject text, own, .finish answer⟩ →
      ∃ before chance, w.FirstTurn es i (.replyMood subject text) before chance ∧
        let prompts := (w.after before).scene.prompts
        ((prompts.get chance.now subject).1 = none →
          answer = .ok none ∧ w.LeavesNoTrace es i) ∧
        ∀ prompt, (prompts.get chance.now subject).1 = some prompt →
          (∃ put, World.Consumes ttl es i put prompt) ∧
          (∀ e ∈ (w.after (before ++ [.served i chance])).scene.prompts.entries,
            e.subject ≠ subject) ∧
          (Text.isBlank text = true →
            answer = .error (.validation (.invalidValue "mood" "must not be empty")) ∧
            w.LeavesNoTrace es i) ∧
          (Text.isBlank text = false → ∃ o time, answer = .ok (some o) ∧
            Mood.Logs (w.turns i es)
              [(o.entryId, encode (⟨subject, Text.trim text, time⟩ : MoodEntry))])) ∧
    (∀ i i' put prompt prompt', World.Consumes ttl es i put prompt →
      World.Consumes ttl es i' put prompt' → i = i') ∧
    ∀ i f n, w.KeepsServing f i → i < (w.afterFirst f n).clients.length →
      ∃ m ≥ n, ∃ answer, (w.afterFirst f m).answer? i = some answer := by
  intro w
  refine ⟨?_, fun _ _ _ _ _ => World.Consumes.unique, ?_⟩
  · intro i own subject text answer hc
    obtain ⟨before, chance, g, hfirst, hreplied, hlogs, htrace⟩ := World.replied_of_answer hc
    refine ⟨before, chance, hfirst, ?_, ?_⟩
    · intro hnone
      rw [hnone] at hreplied
      obtain ⟨hanswer, hg⟩ := hreplied
      exact ⟨hanswer, htrace hg⟩
    · intro prompt hlive
      rw [hlive] at hreplied
      obtain ⟨logged, rfl, hlogged⟩ := hreplied
      rw [Mood.Logged] at hlogged
      refine ⟨World.consumes_of_live hfirst hlive, hfirst.subject_ne, ?_, ?_⟩
      · intro hblank
        rw [if_pos hblank] at hlogged
        obtain ⟨rfl, hg⟩ := hlogged
        exact ⟨rfl, htrace hg⟩
      · intro htext
        rw [if_neg (Bool.eq_false_iff.1 htext)] at hlogged
        obtain ⟨o, time, rfl, rfl⟩ := hlogged
        exact ⟨o, time, rfl, hlogs⟩
  · intro i f n hserved hi
    exact World.answered hserved (List.getElem?_eq_getElem hi)

/-- A subject is asked for its mood, and two replies come in; one is blank. -/
def moodAsked : List Event :=
  [.askMood "ana", .replyMood "ana" "  ", .replyMood "ana" " fine "].map (.called ⟨1⟩) ++
    [.served 0 ⟨none, ⟨1700000000, 0⟩, ""⟩, .served 0 ⟨none, ⟨1700000000, 0⟩, ""⟩]

/-- The turns of one of the replies, at the time of the question. -/
def moodReply (client : Nat) : List Event :=
  List.replicate 6 (.served client ⟨none, ⟨1700000000, 0⟩, "44444444-4444-4444-8444-444444444444"⟩)

/-- The reply that leaves something is logged after `moodAsked`, when it comes first. -/
theorem reply_logged_in_moodAsked : ∃ o time,
    Mood.Logs ((World.initial 600000000000).turns 2 (moodAsked ++ moodReply 2))
      [(o, encode (⟨"ana", "fine", time⟩ : MoodEntry))] := by
  have hrun : (((World.initial 600000000000).after (moodAsked ++ moodReply 2)).answerTo? 2
      (.replyMood "ana" " fine ")).map (fun answer : Except EngineError (Option MoodOutcome) =>
        answer.map (·.map (·.entryId))) =
          some (.ok (some "44444444-4444-4444-8444-444444444444")) := by
    decide +kernel
  obtain ⟨answer, hanswer, hentry⟩ := Option.map_eq_some_iff.1 hrun
  obtain ⟨own, hclient⟩ := World.client_of_answerTo? hanswer
  obtain ⟨hreplies, -⟩ := replies_use_prompts_up 600000000000 (moodAsked ++ moodReply 2)
  obtain ⟨before, chance, -, hnone, hsome⟩ := hreplies 2 own _ _ answer hclient
  cases hprompt : (((World.initial 600000000000).after before).scene.prompts.get chance.now
      "ana").1 with
  | none =>
    obtain ⟨rfl, -⟩ := hnone hprompt
    cases hentry
  | some prompt =>
    obtain ⟨-, -, -, hlogged⟩ := hsome prompt hprompt
    obtain ⟨o, time, -, hlogs⟩ := hlogged (by decide)
    have htrim : Text.trim " fine " = "fine" := by decide
    rw [htrim] at hlogs
    exact ⟨o.entryId, time, hlogs⟩

/-- When the blank reply comes first after `moodAsked`, it fails, and though the clock stands still
the prompt is gone; so the other reply is left alone. -/
theorem prompt_lost_in_moodAsked :
    let w := World.initial 600000000000
    (((w.after moodAsked).scene.prompts.get ⟨1700000000, 0⟩ "ana").1 =
        some ⟨"ana", ⟨1700000000, 0⟩⟩ ∧
      (w.after (moodAsked ++ moodReply 1)).failure? 1 =
        some (.validation (.invalidValue "mood" "must not be empty"))) ∧
    ((w.after (moodAsked ++ moodReply 1)).scene.prompts.get ⟨1700000000, 0⟩ "ana").1 = none ∧
    ((w.after (moodAsked ++ moodReply 1 ++ moodReply 2)).answerTo? 2
      (.replyMood "ana" " fine ")).map (fun answer : Except EngineError (Option MoodOutcome) =>
        answer.map (·.isSome)) = some (.ok false) := by
  decide +kernel

end RitualLedger
