import RitualLedger.Proofs.Engine.Guarantee

/-!
# Contracts

What a client guarantees is one thing; what comes of the client itself depends on what others do
meanwhile. A `Contract` fixes both sides. It says what others may make of the store between two
requests, and for which reasons the store may refuse a commit; and it says what the client's own
writes have to come to. A client passes through phases, which its own writes bring about, and in
each phase it may rely on something else.

`Program.Keeps` says that a program keeps a contract from some phase and store on, and what holds
when it has finished. It is defined along the program, like `Program.Ensures`, and its rules follow
the way programs are put together. An operation that keeps a contract has one statement for its
failures and one for its results.

A contract is put to use where requests are served (`Program.Keeps.serve`), or where a client runs
alone to its end (`Program.Keeps.run`).
-/

namespace RitualLedger

/-- What a client may rely on: how others may move the store. -/
structure Rely where
  moves : Store → Store → Prop
  refl : ∀ s, moves s s
  trans : ∀ {s t u}, moves s t → moves t u → moves s u
  le : ∀ {s t}, moves s t → s ≤ t

/-- What a client relies on and what it keeps to, phase by phase. -/
structure Contract (γ : Type) where
  /-- What others may make of the store between two requests. -/
  rely : γ → Rely
  /-- Why the store may refuse a commit that meets no conflict. -/
  refuses : StoreError → Prop
  /-- What is known of the client's own writes anyway. -/
  known : Store → Store → Prop
  /-- What the client's own writes come to, and into which phase they bring it. -/
  gives : γ → Store → γ → Store → Prop

variable {γ α β : Type} {k : Contract γ} {g : γ} {s t u : Store}

namespace Contract

/-- How others may move the store in a phase. -/
def moves (k : Contract γ) (g : γ) (s t : Store) : Prop := (k.rely g).moves s t

theorem moves_refl (k : Contract γ) (g : γ) (s : Store) : k.moves g s s := (k.rely g).refl s

theorem moves.trans (h : k.moves g s t) (h' : k.moves g t u) : k.moves g s u :=
  (k.rely g).trans h h'

theorem moves.le (h : k.moves g s t) : s ≤ t := (k.rely g).le h

/-- In some phases nothing is asked of the client's own writes, and they do no more than others may
do. -/
structure Lax (k : Contract γ) (R : Rely) (phases : γ → Prop) : Prop where
  moves : ∀ {g s t}, k.moves g s t → R.moves s t
  known : ∀ {s t}, k.known s t → R.moves s t
  gives : ∀ g s t, phases g → ∃ g', phases g' ∧ k.gives g s g' t

end Contract

/-! ## Programs -/

namespace Program

/-- A program keeps a contract, and ends with a property. -/
def Keeps (k : Contract γ) (post : α → γ → Store → Prop) : Program α → γ → Store → Prop
  | finish result, g, s => post result g s
  | read key next, g, s => ∀ s', k.moves g s s' → Keeps k post (next (s'.read? key)) g s'
  | commit stamps ws next, g, s => ∀ s', k.moves g s s' →
    (∀ e, k.refuses e ∨ s'.commit stamps ws = .error e → Keeps k post (next (.error e)) g s') ∧
      ∀ t, s'.commit stamps ws = .ok t → k.known s' t →
        ∃ g', k.gives g s' g' t ∧ Keeps k post (next (.ok ())) g' t
  | append collection body next, g, s => ∀ s' id, k.moves g s s' →
    k.known s' (s'.put ⟨collection, id⟩ body) →
      ∃ g', k.gives g s' g' (s'.put ⟨collection, id⟩ body) ∧
        Keeps k post (next id) g' (s'.put ⟨collection, id⟩ body)
  | query q next, g, s => ∀ s', k.moves g s s' → Keeps k post (next (q.run s')) g s'
  | openPrompt _ next, g, s => ∀ s', k.moves g s s' → Keeps k post next g s'
  | takePrompt _ next, g, s => ∀ s' prompt, k.moves g s s' → Keeps k post (next prompt) g s'
  | now next, g, s => ∀ s' time, k.moves g s s' → Fits time → Keeps k post (next time) g s'
  | freshId next, g, s => ∀ s' id, k.moves g s s' → Keeps k post (next id) g s'

namespace Keeps

/-- A contract is kept by one program after another. -/
theorem bind {mid : α → γ → Store → Prop} {post : β → γ → Store → Prop} {p : Program α}
    {f : α → Program β} (h : p.Keeps k mid g s)
    (hf : ∀ a g' s', mid a g' s' → (f a).Keeps k post g' s') : (p.bind f).Keeps k post g s := by
  -- Along the first program, as for what programs ensure.
  induction p generalizing g s with
  | finish result => exact hf result g s h
  | read key next ih => exact fun s' hs => ih _ (h s' hs)
  | query q next ih => exact fun s' hs => ih _ (h s' hs)
  | openPrompt prompt next ih => exact fun s' hs => ih (h s' hs)
  | takePrompt subject next ih => exact fun s' prompt hs => ih _ (h s' prompt hs)
  | now next ih => exact fun s' time hs htime => ih _ (h s' time hs htime)
  | freshId next ih => exact fun s' id hs => ih _ (h s' id hs)
  | append collection body next ih =>
    intro s' id hs hknown
    obtain ⟨g', hgives, hnext⟩ := h s' id hs hknown
    exact ⟨g', hgives, ih _ hnext⟩
  | commit stamps ws next ih =>
    intro s' hs
    obtain ⟨herror, hok⟩ := h s' hs
    refine ⟨fun e he => ih _ (herror e he), ?_⟩
    intro t hcommit hknown
    obtain ⟨g', hgives, hnext⟩ := hok t hcommit hknown
    exact ⟨g', hgives, ih _ hnext⟩

theorem imp {post post' : α → γ → Store → Prop} {p : Program α} (h : p.Keeps k post g s)
    (hpost : ∀ a g' s', post a g' s' → post' a g' s') : p.Keeps k post' g s := by
  rw [← p.bind_finish]
  exact h.bind hpost

/-- A contract is still kept after others have moved the store. -/
theorem moved {post : α → γ → Store → Prop} {p : Program α} (h : p.Keeps k post g s)
    (hmoves : k.moves g s t) (hpost : ∀ a, post a g s → post a g t) : p.Keeps k post g t := by
  cases p with
  | finish result => exact hpost result h
  | read | query | openPrompt | commit => exact fun s' hs => h s' (hmoves.trans hs)
  | takePrompt | now | append | freshId => exact fun s' x hs => h s' x (hmoves.trans hs)

/-- When nothing is asked of it, every program keeps a contract, and ends where its own writes and
the moves of others have led. -/
theorem anyhow {R : Rely} {phases : γ → Prop} (h : k.Lax R phases) (p : Program α) (hg : phases g)
    (s : Store) : p.Keeps k (fun _ g' s' => phases g' ∧ R.moves s s') g s := by
  -- The program is followed from a fixed earlier store, which leads to the current one.
  suffices hfrom : ∀ s₀, R.moves s₀ s →
      p.Keeps k (fun _ g' s' => phases g' ∧ R.moves s₀ s') g s from
    hfrom s (R.refl s)
  intro s₀ hs
  induction p generalizing g s with
  | finish result => exact ⟨hg, hs⟩
  | read key next ih => exact fun s' hs' => ih _ hg s' (R.trans hs (h.moves hs'))
  | query q next ih => exact fun s' hs' => ih _ hg s' (R.trans hs (h.moves hs'))
  | openPrompt prompt next ih => exact fun s' hs' => ih hg s' (R.trans hs (h.moves hs'))
  | takePrompt subject next ih =>
    exact fun s' prompt hs' => ih _ hg s' (R.trans hs (h.moves hs'))
  | now next ih => exact fun s' time hs' _ => ih _ hg s' (R.trans hs (h.moves hs'))
  | freshId next ih => exact fun s' id hs' => ih _ hg s' (R.trans hs (h.moves hs'))
  | append collection body next ih =>
    intro s' id hs' hwrite
    obtain ⟨g', hg', hgives⟩ := h.gives g s' (s'.put ⟨collection, id⟩ body) hg
    exact ⟨g', hgives, ih id hg' _ (R.trans (R.trans hs (h.moves hs')) (h.known hwrite))⟩
  | commit stamps ws next ih =>
    intro s' hs'
    refine ⟨fun e _ => ih _ hg s' (R.trans hs (h.moves hs')), ?_⟩
    intro t hcommit hwrite
    obtain ⟨g', hg', hgives⟩ := h.gives g s' t hg
    exact ⟨g', hgives, ih _ hg' t (R.trans (R.trans hs (h.moves hs')) (h.known hwrite))⟩

/-- Whatever a program ends with, the store has moved on by then. -/
theorem moving {R : Rely} {phases : γ → Prop} (hk : k.Lax R phases)
    {post : α → γ → Store → Prop} {p : Program α} (h : p.Keeps k post g s) :
    p.Keeps k (fun a g' s' => post a g' s' ∧ R.moves s s') g s := by
  -- As in `anyhow`, the program is followed from a fixed earlier store.
  suffices hfrom : ∀ s₀, R.moves s₀ s →
      p.Keeps k (fun a g' s' => post a g' s' ∧ R.moves s₀ s') g s from
    hfrom s (R.refl s)
  intro s₀ hs
  induction p generalizing g s with
  | finish result => exact ⟨h, hs⟩
  | read key next ih => exact fun s' hs' => ih _ (h s' hs') (R.trans hs (hk.moves hs'))
  | query q next ih => exact fun s' hs' => ih _ (h s' hs') (R.trans hs (hk.moves hs'))
  | openPrompt prompt next ih => exact fun s' hs' => ih (h s' hs') (R.trans hs (hk.moves hs'))
  | takePrompt subject next ih =>
    exact fun s' prompt hs' => ih _ (h s' prompt hs') (R.trans hs (hk.moves hs'))
  | now next ih =>
    exact fun s' time hs' htime => ih _ (h s' time hs' htime) (R.trans hs (hk.moves hs'))
  | freshId next ih => exact fun s' id hs' => ih _ (h s' id hs') (R.trans hs (hk.moves hs'))
  | append collection body next ih =>
    intro s' id hs' hwrite
    obtain ⟨g', hgives, hnext⟩ := h s' id hs' hwrite
    exact ⟨g', hgives, ih id hnext (R.trans (R.trans hs (hk.moves hs')) (hk.known hwrite))⟩
  | commit stamps ws next ih =>
    intro s' hs'
    obtain ⟨herror, hok⟩ := h s' hs'
    refine ⟨fun e he => ih _ (herror e he) (R.trans hs (hk.moves hs')), ?_⟩
    intro t hcommit hwrite
    obtain ⟨g', hgives, hnext⟩ := hok t hcommit hwrite
    exact ⟨g', hgives, ih _ hnext (R.trans (R.trans hs (hk.moves hs')) (hk.known hwrite))⟩

end Keeps

end Program

/-! ## Transactions

What a transaction decides on was gathered key by key. Each document comes from a store that others
have led to, and from which they have led on to the current one. -/

namespace Snapshot

/-- Some keys were read, each in a store with a property. -/
structure Gathered (P : Store → Prop) (keys : List DocKey) (snapshot : Snapshot) : Prop where
  seen : ∀ d ∈ snapshot.docs, ∃ u, P u ∧ d.2 = u.read? d.1
  complete : snapshot.Completes [] keys

variable {P : Store → Prop} {keys : List DocKey} {snapshot : Snapshot}

theorem Gathered.imp {Q : Store → Prop} (h : snapshot.Gathered P keys) (hPQ : ∀ u, P u → Q u) :
    snapshot.Gathered Q keys := by
  refine ⟨fun d hd => ?_, h.complete⟩
  obtain ⟨u, hu, hread⟩ := h.seen d hd
  exact ⟨u, hPQ u hu, hread⟩

/-- What was gathered from one store is the snapshot of that store. -/
theorem Gathered.eq_atOnce (h : snapshot.Gathered P keys) (hP : ∀ u, P u → u = s) :
    snapshot = atOnce s keys := by
  have hdocs : snapshot.docs = snapshot.docs.map fun d => (d.1, s.read? d.1) := by
    refine (List.map_id snapshot.docs).symm.trans (List.map_congr_left ?_)
    intro d hd
    obtain ⟨u, hu, hread⟩ := h.seen d hd
    rw [← hP u hu, ← hread]
    rfl
  have hrefresh : snapshot = snapshot.refresh s := congrArg Snapshot.mk hdocs
  exact hrefresh.trans (h.complete s)

/-- Every key was read somewhere. -/
theorem Gathered.doc? (h : snapshot.Gathered P keys) {key : DocKey} (hkey : key ∈ keys) :
    ∃ u, P u ∧ snapshot.doc? key = u.read? key := by
  have hcovers : snapshot.covers key = true := by
    have hrefresh : snapshot.refresh .empty = atOnce .empty keys := h.complete .empty
    have hall : (snapshot.refresh .empty).covers key = true := by
      rw [hrefresh]
      exact (@extendFrom_eq_refresh empty .empty keys rfl).2 key (.inr hkey)
    exact covers_refresh.symm.trans hall
  obtain ⟨d, hd, hdkey⟩ := List.mem_map.1 (covers_iff.1 hcovers)
  obtain ⟨doc, hlookup⟩ : ∃ doc, snapshot.docs.lookup key = some doc := by
    refine Option.isSome_iff_exists.1 (List.lookup_isSome_iff.2 ⟨d, hd, ?_⟩)
    rw [hdkey]
    exact beq_self_eq_true key
  obtain ⟨u, hu, hread⟩ := h.seen (key, doc) (mem_of_lookup hlookup)
  refine ⟨u, hu, ?_⟩
  rw [Snapshot.doc?, hlookup]
  exact hread

/-- In typed stores a typed read succeeds, with what one of the stores has. -/
theorem Gathered.get {α : Type} [Document α] [LawfulDocument α] [Record α]
    (h : snapshot.Gathered P keys) (id : String) (hkey : (Record.collection α).key id ∈ keys)
    (hP : ∀ u, P u → u.WellTyped) :
    ∃ u, P u ∧ snapshot.get ((Record.collection α).key id) =
      .ok (u.get? α ((Record.collection α).key id)) := by
  obtain ⟨u, hu, hdoc⟩ := h.doc? hkey
  exact ⟨u, hu, (hP u hu).get_snapshot hdoc⟩

end Snapshot

namespace Program.Keeps

open Snapshot (Completes Gathered)

/-- Whether a store lies between two others. -/
def Between (k : Contract γ) (g : γ) (s t u : Store) : Prop := k.moves g s u ∧ k.moves g u t

variable {keys : List DocKey} {decision : Snapshot → Except EngineError (Plan α)}
  {post : Except EngineError α → γ → Store → Prop}

/-- The keys that are still to be read are gathered on the way. -/
theorem extend {f : Snapshot → Program β} {post : β → γ → Store → Prop} {snapshot : Snapshot}
    {rest : List DocKey} (hst : k.moves g s t)
    (hseen : ∀ d ∈ snapshot.docs, ∃ u, Between k g s t u ∧ d.2 = u.read? d.1)
    (hkeys : snapshot.Completes rest keys)
    (hf : ∀ snapshot t, k.moves g s t → snapshot.Gathered (Between k g s t) keys →
      (f snapshot).Keeps k post g t) :
    ((snapshot.extend rest).bind f).Keeps k post g t := by
  induction rest generalizing snapshot t with
  | nil => exact hf snapshot t hst ⟨hseen, hkeys⟩
  | cons key rest ih =>
    rw [Snapshot.extend]
    cases hcovers : snapshot.covers key with
    | true =>
      rw [if_pos rfl]
      exact ih hst hseen (hkeys.skip hcovers)
    | false =>
      rw [if_neg Bool.false_ne_true]
      intro t' ht
      refine ih (hst.trans ht) ?_ (hkeys.snoc hcovers)
      intro d hd
      rcases List.mem_append.1 hd with hd | hd
      · obtain ⟨u, hu, hread⟩ := hseen d hd
        exact ⟨u, ⟨hu.1, hu.2.trans ht⟩, hread⟩
      · obtain rfl := List.mem_singleton.1 hd
        exact ⟨t', ⟨hst.trans ht, k.moves_refl g t'⟩, rfl⟩

/-- **One attempt.** It fails on what it has gathered, or has nothing to write, or meets a refusal,
or commits; and where it commits, it has gathered what is current. -/
theorem attempt {left made : Nat}
    (hfail : ∀ snapshot t e, k.moves g s t → snapshot.Gathered (Between k g s t) keys →
      decision snapshot = .error e → post (.error e) g t)
    (hidle : ∀ snapshot t plan, k.moves g s t → snapshot.Gathered (Between k g s t) keys →
      decision snapshot = .ok plan → plan.writes = [] → post (.ok plan.result) g t)
    (hrefused : ∀ snapshot t plan u e, k.moves g s t →
      snapshot.Gathered (Between k g s t) keys → decision snapshot = .ok plan → k.moves g t u →
      (k.refuses e ∨ u.commit snapshot.stamps plan.writes = .error e) →
      (settle keys decision left made plan.result (.error e)).Keeps k post g u)
    (hcommit : ∀ t plan u, k.moves g s t → Commits keys decision t plan u → k.known t u →
      ∃ g', k.gives g t g' u ∧ post (.ok plan.result) g' u) :
    (tries keys decision (left + 1) made).Keeps k post g s := by
  rw [tries_succ]
  refine extend (k.moves_refl g s) nofun (Snapshot.completes_empty keys) ?_
  intro snapshot t hst hgathered
  rw [conclude]
  cases hdecision : decision snapshot with
  | error e => exact hfail snapshot t e hst hgathered hdecision
  | ok plan =>
    by_cases hwrites : plan.writes = []
    · simp only [hwrites, List.isEmpty_nil, if_true]
      exact hidle snapshot t plan hst hgathered hdecision hwrites
    · have hisEmpty : ¬plan.writes.isEmpty = true := fun h => hwrites (List.isEmpty_iff.1 h)
      simp only [if_neg hisEmpty]
      intro u htu
      refine ⟨fun e he => hrefused snapshot t plan u e hst hgathered hdecision htu he, ?_⟩
      intro t' ht' hknown
      have hseen : snapshot.Seen u := by
        intro d hd
        obtain ⟨u', hu', hread⟩ := hgathered.seen d hd
        exact ⟨u', hu'.2.le.trans htu.le, hread⟩
      have hcommits := Commits.of_commit hseen hgathered.complete hdecision hwrites ht'
      obtain ⟨g', hgives, hpost⟩ := hcommit u plan t' (hst.trans htu) hcommits hknown
      exact ⟨g', hgives, hpost⟩

/-- **An attempt that writes nothing**, whatever it has gathered. -/
theorem attempt_idle {left made : Nat} {plan : Plan α} (hwrites : plan.writes = [])
    (hdecision : ∀ snapshot t, k.moves g s t → snapshot.Gathered (Between k g s t) keys →
      decision snapshot = .ok plan)
    (hpost : ∀ t, k.moves g s t → post (.ok plan.result) g t) :
    (tries keys decision (left + 1) made).Keeps k post g s := by
  rw [tries_succ]
  refine extend (k.moves_refl g s) nofun (Snapshot.completes_empty keys) ?_
  intro snapshot t hst hgathered
  simp only [conclude, hdecision snapshot t hst hgathered, hwrites, List.isEmpty_nil, if_true]
  exact hpost t hst

end Program.Keeps

/-! ## Operations -/

namespace Operation

/-- What is to hold of a failure, and what of a result. -/
def either (fails : EngineError → γ → Store → Prop) (post : α → γ → Store → Prop) :
    Except EngineError α → γ → Store → Prop
  | .ok a => post a
  | .error e => fails e

/-- An operation keeps a contract; its failures and its results have their properties. -/
def Keeps (k : Contract γ) (fails : EngineError → γ → Store → Prop)
    (post : α → γ → Store → Prop) (o : Operation α) (g : γ) (s : Store) : Prop :=
  o.program.Keeps k (either fails post) g s

namespace Keeps

variable {fails : EngineError → γ → Store → Prop} {post : α → γ → Store → Prop}

theorem pure {a : α} (h : post a g s) : Keeps k fails post (pure a) g s := h

theorem throw {e : EngineError} (h : fails e g s) : Keeps k fails post (throw e) g s := h

theorem ofExcept {r : Except EngineError α} (hok : ∀ a, r = .ok a → post a g s)
    (herror : ∀ e, r = .error e → fails e g s) :
    Keeps k fails post (Operation.ofExcept r) g s := by
  cases r with
  | ok a => exact hok a rfl
  | error e => exact herror e rfl

theorem ofValidation {r : Except ValidationError α} (hok : ∀ a, r = .ok a → post a g s)
    (herror : ∀ e, r = .error e → fails (.validation e) g s) :
    Keeps k fails post (Operation.ofValidation r) g s := by
  cases r with
  | ok a => exact hok a rfl
  | error e => exact herror e rfl

theorem bind {mid : α → γ → Store → Prop} {post : β → γ → Store → Prop} {o : Operation α}
    {f : α → Operation β} (h : Keeps k fails mid o g s)
    (hf : ∀ a g' s', mid a g' s' → Keeps k fails post (f a) g' s') :
    Keeps k fails post (o >>= f) g s := by
  refine Program.Keeps.bind h ?_
  intro r g' s' hr
  cases r with
  | ok a => exact hf a g' s' hr
  | error e => exact hr

theorem imp {fails' : EngineError → γ → Store → Prop} {post' : α → γ → Store → Prop}
    {o : Operation α} (h : Keeps k fails post o g s)
    (hfails : ∀ e g' s', fails e g' s' → fails' e g' s')
    (hpost : ∀ a g' s', post a g' s' → post' a g' s') : Keeps k fails' post' o g s := by
  refine Program.Keeps.imp h ?_
  intro r g' s' hr
  cases r with
  | ok a => exact hpost a g' s' hr
  | error e => exact hfails e g' s' hr

/-- An operation's answer is a failure or a result. -/
theorem program {o : Operation α} {post : Except EngineError α → γ → Store → Prop}
    (h : Keeps k (fun e => post (.error e)) (fun a => post (.ok a)) o g s) :
    o.program.Keeps k post g s := by
  refine Program.Keeps.imp h ?_
  rintro (e | a) g' s' hpost
  · exact hpost
  · exact hpost

theorem lift {p : Program α} (h : p.Keeps k post g s) :
    Keeps k fails post (liftM p : Operation α) g s :=
  Program.Keeps.bind h fun _ _ _ ha => ha

theorem map {post : β → γ → Store → Prop} {o : Operation α} {f : α → β}
    (h : Keeps k fails (fun a => post (f a)) o g s) : Keeps k fails post (f <$> o) g s := by
  refine Program.Keeps.bind h ?_
  intro r g' s' hr
  cases r with
  | ok a => exact hr
  | error e => exact hr

theorem now : Keeps k fails (fun time g' s' => g' = g ∧ k.moves g s s' ∧ Fits time)
    (liftM Request.now : Operation _) g s :=
  lift fun _ _ hs htime => ⟨rfl, hs, htime⟩

theorem freshId : Keeps k fails (fun _ g' s' => g' = g ∧ k.moves g s s')
    (liftM Request.freshId : Operation _) g s :=
  lift fun _ _ hs => ⟨rfl, hs⟩

/-- A document is read, unless it is there and not readable. -/
theorem readDocument? {δ : Type} [Document δ] {key : DocKey} {post : Option δ → γ → Store → Prop}
    (hunreadable : ∀ s' e, k.moves g s s' → s'.read? key ≠ none → s'.get? δ key = none →
      fails e g s')
    (h : ∀ s', k.moves g s s' → post (s'.get? δ key) g s') :
    Keeps k fails post (RitualLedger.readDocument? key) g s := by
  have hread : Keeps k fails (fun doc g' s' => g' = g ∧ k.moves g s s' ∧ doc = s'.read? key)
      (liftM (Request.read key) : Operation _) g s := lift fun s' hs => ⟨rfl, hs, rfl⟩
  refine bind hread ?_
  rintro doc _ s' ⟨rfl, hs, hdoc⟩
  have hpost := h s' hs
  cases doc with
  | none =>
    rw [Store.get?_of_absent hdoc.symm] at hpost
    exact pure hpost
  | some doc =>
    have hget : s'.get? δ key = decode? doc.body := Store.get?_of_read? hdoc.symm
    rw [hget] at hpost
    cases hdecode : decode? (α := δ) doc.body with
    | none =>
      simp only [hdecode]
      refine throw (hunreadable s' _ hs ?_ (hget.trans hdecode))
      rw [← hdoc]
      exact nofun
    | some x =>
      rw [hdecode] at hpost
      simp only [hdecode]
      exact pure hpost

/-- A record of a typed store is read. -/
theorem readRecord? {δ : Type} [Document δ] [LawfulDocument δ] [Record δ] {id : String}
    {post : Option δ → γ → Store → Prop} (htyped : ∀ s', k.moves g s s' → s'.WellTyped)
    (h : ∀ s', k.moves g s s' → post (s'.get? δ ((Record.collection δ).key id)) g s') :
    Keeps k fails post (RitualLedger.readDocument? ((Record.collection δ).key id)) g s := by
  refine readDocument? ?_ h
  intro s' e hs hpresent hnone
  obtain ⟨x, hx⟩ := (htyped s' hs).readable (α := δ) hpresent
  cases hnone.symm.trans hx

theorem queryDocuments {δ : Type} [Document δ] {q : Query} {post : List δ → γ → Store → Prop}
    (hfails : ∀ s' e, k.moves g s s' → fails e g s')
    (h : ∀ s' found, k.moves g s s' → post found g s') :
    Keeps k fails post (RitualLedger.queryDocuments q) g s := by
  have hquery : Keeps k fails (fun _ g' s' => g' = g ∧ k.moves g s s')
      (Operation.ofStore (Request.query q)) g s := by
    intro s' hs
    cases q.run s' with
    | ok found => exact ⟨rfl, hs⟩
    | error e => exact hfails s' _ hs
  refine bind hquery ?_
  rintro found _ s' ⟨rfl, hs⟩
  exact ofExcept (fun xs _ => h s' xs hs) fun e _ => hfails s' e hs

/-- **The rule for transactions.** Every attempt fails, or is idle, or is refused, or commits on the
snapshot of the current store. -/
theorem transact {policy : RetryPolicy} {keys : List DocKey}
    {decision : Snapshot → Except EngineError (Plan α)}
    (hfail : ∀ snapshot t e, k.moves g s t →
      snapshot.Gathered (Program.Keeps.Between k g s t) keys → decision snapshot = .error e →
      fails e g t)
    (hstore : ∀ t e, k.moves g s t → k.refuses e ∨ (∃ made, e = .retriesExhausted made) →
      fails (.store e) g t)
    (hidle : ∀ snapshot t plan, k.moves g s t →
      snapshot.Gathered (Program.Keeps.Between k g s t) keys → decision snapshot = .ok plan →
      plan.writes = [] → post plan.result g t)
    (hcommit : ∀ t plan u, k.moves g s t → Commits keys decision t plan u → k.known t u →
      ∃ g', k.gives g t g' u ∧ post plan.result g' u) :
    Keeps k fails post (RitualLedger.transact policy keys decision) g s := by
  suffices hloop : ∀ left made t, k.moves g s t →
      (tries keys decision left made).Keeps k (either fails post) g t from
    hloop _ _ s (k.moves_refl g s)
  -- By induction on the attempts that are left.
  intro left
  induction left with
  | zero => exact fun made t ht => hstore t _ ht (.inr ⟨made, rfl⟩)
  | succ left ih =>
    intro made t ht
    have hwider : ∀ {u snapshot}, Snapshot.Gathered (Program.Keeps.Between k g t u) keys snapshot →
        Snapshot.Gathered (Program.Keeps.Between k g s u) keys snapshot :=
      fun hgathered => hgathered.imp fun u hu => ⟨ht.trans hu.1, hu.2⟩
    refine Program.Keeps.attempt ?_ ?_ ?_ ?_
    · intro snapshot u e hu hgathered hdecision
      exact hfail snapshot u e (ht.trans hu) (hwider hgathered) hdecision
    · intro snapshot u plan hu hgathered hdecision hwrites
      exact hidle snapshot u plan (ht.trans hu) (hwider hgathered) hdecision hwrites
    · intro snapshot u plan u' e hu hgathered hdecision hu' he
      have hmoves := ht.trans (hu.trans hu')
      cases e with
      | conflict text => exact ih (made + 1) u' hmoves
      | retriesExhausted _ | openFailed _ _ | queryFailed _ | locked | serialization _
      | poisoned =>
        rcases he with hrefuses | hcommit
        · exact hstore u' _ hmoves (.inl hrefuses)
        · obtain ⟨text, hconflict⟩ := Store.commit_error hcommit
          cases hconflict
    · intro u plan u' hu hcommits hknown
      exact hcommit u plan u' (ht.trans hu) hcommits hknown

/-- A transaction that has nothing to write is done with its first attempt. -/
theorem transact_idle {policy : RetryPolicy} {keys : List DocKey}
    {decision : Snapshot → Except EngineError (Plan α)} {plan : Plan α} (hwrites : plan.writes = [])
    (hdecision : ∀ snapshot t, k.moves g s t →
      snapshot.Gathered (Program.Keeps.Between k g s t) keys → decision snapshot = .ok plan)
    (hpost : ∀ t, k.moves g s t → post plan.result g t) :
    Keeps k fails post (RitualLedger.transact policy keys decision) g s := by
  rw [Keeps, program_transact]
  exact Program.Keeps.attempt_idle hwrites hdecision hpost

end Keeps

end Operation

/-! ## Rituals that are there -/

namespace Ritual

variable {id : String} {fails : EngineError → γ → Store → Prop}

/-- A ritual is found, or it is not there. -/
theorem keeps_get
    (hmissing : ∀ s' e, k.moves g s s' → s'.get? Ritual (key id) = none → fails e g s') :
    (get id).Keeps k fails
      (fun r g' s' => g' = g ∧ k.moves g s s' ∧ s'.get? Ritual (key id) = some r) g s := by
  have hfind : (find? id).Keeps k fails
      (fun x g' s' => g' = g ∧ k.moves g s s' ∧ x = s'.get? Ritual (key id)) g s :=
    .readDocument? (fun s' e hs _ => hmissing s' e hs) fun s' hs => ⟨rfl, hs, rfl⟩
  refine .bind hfind ?_
  rintro x _ s' ⟨rfl, hs, hx⟩
  cases x with
  | some r => exact .pure ⟨rfl, hs, hx.symm⟩
  | none => exact .throw (hmissing s' _ hs hx.symm)

/-- A ritual that is there whatever others do is found. -/
theorem keeps_get_found (hfound : ∀ s', k.moves g s s' → ∃ r, s'.get? Ritual (key id) = some r) :
    (get id).Keeps k fails
      (fun r g' s' => g' = g ∧ k.moves g s s' ∧ s'.get? Ritual (key id) = some r) g s := by
  refine keeps_get fun s' e hs hnone => ?_
  obtain ⟨r, hr⟩ := hfound s' hs
  cases hnone.symm.trans hr

/-- The conditions of a ritual that is there are evaluated. -/
theorem keeps_evaluate (hfound : ∀ s', k.moves g s s' → ∃ r, s'.get? Ritual (key id) = some r)
    (trigger : Trigger) :
    (evaluate id trigger).Keeps k fails
      (fun actions g' s' => g' = g ∧ k.moves g s s' ∧ ∃ r, s'.get? Ritual (key id) = some r ∧
        actions = Condition.matchingActions r.conditions trigger) g s := by
  refine .bind (keeps_get_found hfound) ?_
  rintro r _ s' ⟨rfl, hs, hr⟩
  exact .pure ⟨rfl, hs, r, hr, rfl⟩

end Ritual

/-! ## Serving -/

namespace Program.Keeps

variable {post : α → γ → Store → Prop} {p : Program α}

/-- **A client that is served keeps its contract.** The store stays as it was and the client in its
phase, or the client has given what it has to. -/
theorem serve {scene : Scene} {chance : Chance} (h : p.Keeps k post g scene.store)
    (hnow : Fits chance.now) (hrefuses : ∀ e ∈ chance.refusal, k.refuses e)
    (hknown : k.known scene.store (p.serve scene chance).2.store) :
    ∃ g', (p.serve scene chance).1.Keeps k post g' (p.serve scene chance).2.store ∧
      ((p.serve scene chance).2.store = scene.store ∧ g' = g ∨
        k.gives g scene.store g' (p.serve scene chance).2.store) := by
  cases p with
  | finish result => exact ⟨g, h, .inl ⟨rfl, rfl⟩⟩
  | read | query | openPrompt => exact ⟨g, h _ (k.moves_refl _ _), .inl ⟨rfl, rfl⟩⟩
  | takePrompt | freshId => exact ⟨g, h _ _ (k.moves_refl _ _), .inl ⟨rfl, rfl⟩⟩
  | now next => exact ⟨g, h _ _ (k.moves_refl _ _) hnow, .inl ⟨rfl, rfl⟩⟩
  | append collection body next =>
    obtain ⟨g', hgives, hnext⟩ := h _ chance.id (k.moves_refl _ _) hknown
    exact ⟨g', hnext, .inr hgives⟩
  | commit stamps ws next =>
    obtain ⟨herror, hok⟩ := h _ (k.moves_refl _ _)
    simp only [Program.serve, Scene.commit] at hknown ⊢
    cases hrefusal : chance.refusal with
    | some e => exact ⟨g, herror e (.inl (hrefuses e hrefusal)), .inl ⟨rfl, rfl⟩⟩
    | none =>
      cases hcommit : scene.store.commit stamps ws with
      | error e => exact ⟨g, herror e (.inr hcommit), .inl ⟨rfl, rfl⟩⟩
      | ok t =>
        simp only [hrefusal, hcommit] at hknown
        obtain ⟨g', hgives, hnext⟩ := hok t hcommit hknown
        exact ⟨g', hnext, .inr hgives⟩

end Program.Keeps

/-! ## Running alone -/

/-- An operation after another runs where that has ended. -/
theorem Operation.run_bind {α β : Type} {o : Operation α} {f : α → Operation β}
    {setting setting' : Setting} {a : α} (h : o.run setting = (.ok a, setting')) :
    (o >>= f).run setting = (f a).run setting' := by
  change (o.program.bind _).run setting = _
  rw [Program.run_bind]
  rw [Operation.run] at h
  rw [h]
  rfl

/-- Nothing runs after an operation that has failed. -/
theorem Operation.run_bind_error {α β : Type} {o : Operation α} {f : α → Operation β}
    {setting setting' : Setting} {e : EngineError} (h : o.run setting = (.error e, setting')) :
    (o >>= f).run setting = (.error e, setting') := by
  change (o.program.bind _).run setting = _
  rw [Program.run_bind]
  rw [Operation.run] at h
  rw [h]
  rfl

theorem Operation.run_map {α β : Type} (f : α → β) (o : Operation α) (s : Setting) :
    (f <$> o).run s = ((o.run s).1.map f, (o.run s).2) := by
  change (o.program.bind _).run s = _
  rw [Program.run_bind]
  change _ = ((o.program.run s).1.map f, (o.program.run s).2)
  cases (o.program.run s).1 with
  | error e => rfl
  | ok a => rfl

/-- A program that runs as an operation has a result. -/
theorem Operation.run_lift {α : Type} (p : Program α) (s : Setting) :
    (liftM p : Operation α).run s = (.ok (p.run s).1, (p.run s).2) := Program.run_bind p _ s

section

variable {δ : Type} [Document δ] {key : DocKey} {setting : Setting}

/-- A document at its type is read as a snapshot of it is. -/
theorem Operation.run_readDocument (key : DocKey) (s : Setting) :
    (readDocument? (α := δ) key).run s = ((Snapshot.atOnce s.store [key]).get key, s) := by
  have hread : (liftM (Request.read key) : Operation _).run s = (.ok (s.store.read? key), s) := rfl
  refine (run_bind hread).trans ?_
  rw [Snapshot.get, Snapshot.doc?_atOnce (List.mem_singleton_self key)]
  cases s.store.read? key with
  | none => rfl
  | some doc =>
    cases hdecode : decode? (α := δ) doc.body with
    | none =>
      simp only [hdecode]
      rfl
    | some x =>
      simp only [hdecode]
      rfl

/-- A document that is there and readable is read. -/
theorem Operation.run_readDocument_of_get? {x : δ} (h : setting.store.get? δ key = some x) :
    (readDocument? key).run setting = (.ok (some x), setting) := by
  obtain ⟨doc, hdoc⟩ := Option.ne_none_iff_exists'.1 (Store.present_of_get? h)
  rw [Store.get?_of_read? hdoc] at h
  rw [run_readDocument, Snapshot.get, Snapshot.doc?_atOnce (List.mem_singleton_self key), hdoc]
  simp only [h]

/-- A record that stands as it does in a typed store is read. -/
theorem Operation.run_readRecord? [LawfulDocument δ] [Record δ] {store : Store} {id : String}
    (hs : store.WellTyped) (hsame : setting.store.read? ((Record.collection δ).key id) =
      store.read? ((Record.collection δ).key id)) :
    (readDocument? ((Record.collection δ).key id)).run setting =
      (.ok (store.get? δ ((Record.collection δ).key id)), setting) := by
  rw [run_readDocument, hs.get_snapshot (α := δ)]
  rw [Snapshot.doc?_atOnce (List.mem_singleton_self _), hsame]

end

/-- Nobody else is there: the others commit nothing and never hold the store, and the clock shows
times that a date can name. -/
structure Setting.Undisturbed (s : Setting) : Prop where
  intrusions : s.intrusions = []
  clock : ∀ n, (s.clock.value n).IsNameable

/-- A store with nobody else there, at a time that does not pass. -/
def Setting.still (store : Store) (now : Instant) : Setting :=
  ⟨store, .empty 0, [], ⟨fun _ => now, 0⟩, ⟨fun _ => "", 0⟩⟩

theorem Setting.store_still (store : Store) (now : Instant) : (still store now).store = store := rfl

theorem Setting.undisturbed_still {store : Store} {now : Instant} (h : now.IsNameable) :
    (still store now).Undisturbed := ⟨rfl, fun _ => h⟩

/-- A client that runs alone to its end has kept its contract. -/
theorem Program.Keeps.run {post : α → γ → Store → Prop} {p : Program α} {setting : Setting}
    (h : p.Keeps k post g setting.store) (halone : setting.Undisturbed)
    (hknown : ∀ s t, k.known s t) :
    ∃ g', post (p.run setting).1 g' (p.run setting).2.store := by
  induction p generalizing g setting with
  | finish result => exact ⟨g, h⟩
  | read key next ih => exact ih _ (h _ (k.moves_refl _ _)) halone
  | query q next ih => exact ih _ (h _ (k.moves_refl _ _)) halone
  | openPrompt prompt next ih => exact ih (h _ (k.moves_refl _ _)) ⟨halone.1, halone.2⟩
  | takePrompt subject next ih =>
    exact ih _ (h _ (setting.takePrompt subject).1 (k.moves_refl _ _)) ⟨halone.1, halone.2⟩
  | now next ih =>
    exact ih _ (h _ _ (k.moves_refl _ _) (halone.clock setting.clock.drawn)) ⟨halone.1, halone.2⟩
  | freshId next ih =>
    exact ih _ (h _ setting.ids.draw.1 (k.moves_refl _ _)) ⟨halone.1, halone.2⟩
  | append collection body next ih =>
    obtain ⟨g', -, hnext⟩ := h _ setting.ids.draw.1 (k.moves_refl _ _) (hknown _ _)
    exact ih _ hnext ⟨halone.1, halone.2⟩
  | commit stamps ws next ih =>
    obtain ⟨herror, hok⟩ := h _ (k.moves_refl _ _)
    have hintrude : setting.intrude = (.ok (), setting) := by
      rw [Setting.intrude, halone.intrusions]
    simp only [Program.run, Setting.commit, hintrude]
    cases hcommit : setting.store.commit stamps ws with
    | error e => exact ih _ (herror e (.inr hcommit)) halone
    | ok t =>
      obtain ⟨g', -, hnext⟩ := hok t hcommit (hknown _ _)
      exact ih _ hnext ⟨halone.1, halone.2⟩

/-- An operation that runs alone to its end has failed, or has a result, as it says. -/
theorem Operation.Keeps.run {o : Operation α} {fails : EngineError → γ → Store → Prop}
    {post : α → γ → Store → Prop} {setting : Setting} (h : o.Keeps k fails post g setting.store)
    (halone : setting.Undisturbed) (hknown : ∀ s t, k.known s t) :
    (∃ e g', (o.run setting).1 = .error e ∧ fails e g' (o.run setting).2.store) ∨
      ∃ a g', (o.run setting).1 = .ok a ∧ post a g' (o.run setting).2.store := by
  obtain ⟨g', hpost⟩ := Program.Keeps.run h halone hknown
  change either fails post (o.run setting).1 g' (o.run setting).2.store at hpost
  cases hanswer : (o.run setting).1 with
  | error e =>
    rw [hanswer] at hpost
    exact .inl ⟨e, g', rfl, hpost⟩
  | ok a =>
    rw [hanswer] at hpost
    exact .inr ⟨a, g', rfl, hpost⟩

end RitualLedger
