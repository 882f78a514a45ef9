import RitualLedger.Proofs.Engine.Loop
import Mathlib.Algebra.BigOperators.Group.List.Basic
import Mathlib.Data.Int.Basic

/-!
# The optimistic loop is serializable

A transaction runs amid the commits of other clients, which may land before any of its requests: in
particular between the reads of one snapshot, and between the snapshot and the commit. Its history
is a list of happenings, and `Store.leftTo` is what the others alone make of the store.

Such a run comes to one of three things. Either there is one instant at which it took effect: the
decision on the snapshot of that instant asks for writes, and these were applied to the store of
that instant and nothing else was. Or it has finished with a decision that asks for no writes, or it
has failed, or it is still under way, and then the store is as the others alone have left it.

As a consequence no update of a snapshot key is lost. The clients of a `Counter.Crowd` each read a
counter, add to it and write it back; whoever is served when, and whatever others write to the
counter, the increments of the clients that succeeded add up.
-/

namespace RitualLedger

open Program (finish)

/-! ## One transaction -/

section

variable {α : Type} {keys : List DocKey} {decision : Snapshot → Except EngineError (Plan α)}

/-- The instant at which a client took effect: before it the client had changed nothing, and after
it the others were left alone with what the client had written. -/
structure TookEffect (keys : List DocKey) (decision : Snapshot → Except EngineError (Plan α))
    (p : Program (Except EngineError α)) (scene : Scene) (before : List Happening)
    (chance : Chance) (later : List Happening) (plan : Plan α) (after : Store) : Prop where
  before_store : (p.amid scene before).2.store = scene.store.leftTo before
  commits : Commits keys decision (scene.store.leftTo before) plan after
  commit_store : (p.amid scene (before ++ [.served chance])).2.store = after
  result : (p.amid scene (before ++ .served chance :: later)).1 = finish (.ok plan.result)
  later_store :
    (p.amid scene (before ++ .served chance :: later)).2.store = after.leftTo later

/-- What a client in the loop comes to amid others. -/
theorem InLoop.amid {p : Program (Except EngineError α)} {scene : Scene}
    (h : InLoop keys decision scene.store p) (hs : List Happening) :
    (InLoop keys decision (p.amid scene hs).2.store (p.amid scene hs).1 ∧
        (p.amid scene hs).2.store = scene.store.leftTo hs) ∨
      ∃ before chance later plan after, hs = before ++ .served chance :: later ∧
        TookEffect keys decision p scene before chance later plan after := by
  -- Each happening either leaves the client in the loop, or it is the commit.
  induction hs generalizing p scene with
  | nil => exact .inl ⟨h, rfl⟩
  | cons first rest ih =>
    cases first with
    | foreign stamps ws =>
      rcases @ih p { scene with store := scene.store.intruded stamps ws }
        (h.mono Store.le_intruded) with hloop | ⟨before, chance, later, plan, after, rfl, heffect⟩
      · exact .inl hloop
      · refine .inr ⟨.foreign stamps ws :: before, chance, later, plan, after, rfl, ?_⟩
        exact ⟨heffect.before_store, heffect.commits, heffect.commit_store, heffect.result,
          heffect.later_store⟩
    | served chance =>
      rcases h.serve chance with ⟨hnext, hscene⟩ | ⟨plan, after, hcommits, hserve⟩
      · have hturn : ∀ hs, p.amid scene (.served chance :: hs) =
            (p.serve scene chance).1.amid scene hs := by
          intro hs
          rw [Program.amid_served, hscene]
        rcases ih hnext with ⟨hloop, hstore⟩ | ⟨before, chance', later, plan, after, rfl, heffect⟩
        · refine .inl ⟨?_, ?_⟩
          · rw [hturn]
            exact hloop
          · rw [hturn, hstore, Store.leftTo]
        · refine .inr ⟨.served chance :: before, chance', later, plan, after, rfl, ?_⟩
          constructor
          · rw [hturn, heffect.before_store, Store.leftTo]
          · exact heffect.commits
          · rw [List.cons_append, hturn, heffect.commit_store]
          · rw [List.cons_append, hturn, heffect.result]
          · rw [List.cons_append, hturn, heffect.later_store]
      · have hturn : ∀ hs, p.amid scene (.served chance :: hs) =
            (finish (.ok plan.result),
              { scene with store := after.leftTo hs }) := by
          intro hs
          rw [Program.amid_served, hserve]
          exact Program.amid_finish _ _ hs
        refine .inr ⟨[], chance, rest, plan, after, rfl, rfl, hcommits, ?_, ?_, ?_⟩
        · rw [List.nil_append, hturn, Store.leftTo]
        · rw [List.nil_append, hturn]
        · rw [List.nil_append, hturn]

end

/-! ## Counters -/

namespace Counter

/-- The number in a document; none counts as zero. -/
def count : Option Versioned → Int
  | some ⟨.int n, _⟩ => n
  | _ => 0

/-- Adds an amount to the counter of a key. -/
def add (key : DocKey) (amount : Int) (snapshot : Snapshot) : Except EngineError (Plan Unit) :=
  .ok ⟨(), [.put key (.int (count (snapshot.doc? key) + amount))]⟩

/-- A client that adds an amount. It may read further documents, and bounds its attempts. -/
structure Client where
  policy : RetryPolicy
  others : List DocKey
  amount : Int

/-- What the client runs. -/
def Client.program (key : DocKey) (c : Client) : Program (Except EngineError Unit) :=
  (transact c.policy (key :: c.others) (add key c.amount)).program

/-- A client at work. -/
structure Member where
  client : Client
  program : Program (Except EngineError Unit)

/-- Whether a program has finished well. -/
def succeeded {α : Type} : Program (Except EngineError α) → Bool
  | .finish (.ok _) => true
  | _ => false

/-- What a client has added. -/
def Member.gain (m : Member) : Int := if succeeded m.program then m.client.amount else 0

/-- Clients at work on one store. -/
structure Crowd where
  members : List Member
  scene : Scene

/-- What happens next. -/
inductive Event where
  /-- The next request of a client, named by its place, is served. -/
  | served (client : Nat) (chance : Chance)
  /-- Someone else commits. -/
  | foreign (stamps : List Stamp) (writes : List Write)

namespace Crowd

/-- The crowd in which all clients begin. -/
def start (key : DocKey) (clients : List Client) (scene : Scene) : Crowd :=
  ⟨clients.map fun c => ⟨c, c.program key⟩, scene⟩

/-- The crowd after an event. -/
def step (crowd : Crowd) : Event → Crowd
  | .served i chance =>
    match crowd.members[i]? with
    | none => crowd
    | some m =>
      let (next, scene) := m.program.serve crowd.scene chance
      ⟨crowd.members.set i { m with program := next }, scene⟩
  | .foreign stamps ws =>
    { crowd with scene := { crowd.scene with store := crowd.scene.store.intruded stamps ws } }

/-- The crowd after events. -/
def after (crowd : Crowd) (es : List Event) : Crowd := es.foldl step crowd

/-- The number in the counter. -/
def total (key : DocKey) (crowd : Crowd) : Int := count (crowd.scene.store.read? key)

/-- What the clients have added. -/
def gain (crowd : Crowd) : Int := (crowd.members.map Member.gain).sum

/-- What the others have added. -/
def drift (key : DocKey) (crowd : Crowd) : List Event → Int
  | [] => 0
  | .served i chance :: rest => drift key (crowd.step (.served i chance)) rest
  | .foreign stamps ws :: rest =>
    let next := crowd.step (.foreign stamps ws)
    (next.total key - crowd.total key) + drift key next rest

end Crowd

/-- A client at work is in the loop, or it has succeeded. -/
def Member.Sound (key : DocKey) (store : Store) (m : Member) : Prop :=
  InLoop (key :: m.client.others) (add key m.client.amount) store m.program ∨
    m.program = finish (.ok ())

theorem Member.Sound.mono {key : DocKey} {store later : Store} {m : Member}
    (h : m.Sound key store) (hle : store ≤ later) : m.Sound key later := by
  rcases h with hloop | hdone
  · exact .inl (hloop.mono hle)
  · exact .inr hdone

/-- A client that adds has nothing to show before it commits. -/
theorem not_succeeded_of_inLoop {key : DocKey} {keys : List DocKey} {amount : Int} {store : Store}
    {p : Program (Except EngineError Unit)} (h : InLoop keys (add key amount) store p) :
    succeeded p = false := by
  cases h with
  | idle hdecision hwrites =>
    cases hdecision
    cases hwrites
  | reading | committing | refused => rfl

/-- **One turn of a client.** The counter moves by what the client has gained. -/
theorem Member.Sound.serve {key : DocKey} {scene : Scene} {m : Member} {chance : Chance}
    {next : Program (Except EngineError Unit)} {scene' : Scene}
    (h : m.Sound key scene.store) (hserve : m.program.serve scene chance = (next, scene')) :
    Member.Sound key scene'.store { m with program := next } ∧
      count (scene'.store.read? key) - count (scene.store.read? key) =
        Member.gain { m with program := next } - m.gain := by
  rcases h with hloop | hdone
  · have hbefore : m.gain = 0 := by
      rw [Member.gain, not_succeeded_of_inLoop hloop, if_neg Bool.false_ne_true]
    rcases hloop.serve chance with ⟨hnext, hscene⟩ | ⟨plan, after, hcommits, hturn⟩
    · rw [hserve] at hnext hscene
      cases hscene
      have hafter : Member.gain { m with program := next } = 0 := by
        rw [Member.gain, not_succeeded_of_inLoop hnext, if_neg Bool.false_ne_true]
      refine ⟨.inl hnext, ?_⟩
      rw [hbefore, hafter, Int.sub_self, Int.sub_self]
    · rw [hserve] at hturn
      obtain ⟨rfl, rfl⟩ := Prod.mk.inj hturn
      -- The plan is the one that adds to the counter as it stands.
      have hplan := hcommits.decided
      rw [add, Snapshot.doc?_atOnce List.mem_cons_self] at hplan
      cases hplan
      have hstore : after = scene.store.put key
          (.int (count (scene.store.read? key) + m.client.amount)) :=
        (Except.ok.inj hcommits.applied).symm
      refine ⟨.inr rfl, ?_⟩
      rw [hstore, Store.read?_put_self, hbefore]
      simp only [count, Member.gain, succeeded, if_true]
      omega
  · obtain ⟨client, program⟩ := m
    cases hdone
    cases hserve
    exact ⟨.inr rfl, (Int.sub_self _).trans (Int.sub_self _).symm⟩

theorem sum_set {f : Member → Int} {members : List Member} {i : Nat} {m m' : Member}
    (h : members[i]? = some m) :
    ((members.set i m').map f).sum = (members.map f).sum + (f m' - f m) := by
  induction members generalizing i with
  | nil => cases h
  | cons first rest ih =>
    cases i with
    | zero =>
      cases h
      simp only [List.set_cons_zero, List.map_cons, List.sum_cons]
      omega
    | succ i =>
      simp only [List.set_cons_succ, List.map_cons, List.sum_cons, ih h]
      omega

/-- The counter and the gains of a crowd move together, but for the drift. -/
theorem Crowd.total_after {key : DocKey} (es : List Event) {crowd : Crowd}
    (h : ∀ m ∈ crowd.members, m.Sound key crowd.scene.store) :
    (crowd.after es).total key =
      crowd.total key + ((crowd.after es).gain - crowd.gain) + crowd.drift key es := by
  induction es generalizing crowd with
  | nil =>
    simp only [after, List.foldl_nil, drift]
    omega
  | cons e rest ih =>
    have hafter : crowd.after (e :: rest) = (crowd.step e).after rest := rfl
    rw [hafter]
    cases e with
    | foreign stamps ws =>
      have hstep : ∀ m ∈ (crowd.step (.foreign stamps ws)).members,
          m.Sound key (crowd.step (.foreign stamps ws)).scene.store :=
        fun m hm => (h m hm).mono Store.le_intruded
      have hgain : (crowd.step (.foreign stamps ws)).gain = crowd.gain := rfl
      rw [ih hstep, hgain, drift]
      omega
    | served i chance =>
      rw [drift]
      cases hm : crowd.members[i]? with
      | none =>
        have hstep : crowd.step (.served i chance) = crowd := by
          simp only [step, hm]
        rw [hstep]
        exact ih h
      | some m =>
        obtain ⟨next, scene', hserve⟩ : ∃ next scene',
            m.program.serve crowd.scene chance = (next, scene') := ⟨_, _, rfl⟩
        have hstep : crowd.step (.served i chance) =
            ⟨crowd.members.set i { m with program := next }, scene'⟩ := by
          simp only [step, hm, hserve]
        have hmem : m ∈ crowd.members := List.mem_of_getElem? hm
        obtain ⟨hsound, hmoved⟩ := (h m hmem).serve hserve
        have hle : crowd.scene.store ≤ scene'.store := by
          have hle := m.program.le_serve crowd.scene chance
          rwa [hserve] at hle
        -- Only the client that was served has gained, and only by what the counter has moved.
        rw [hstep, ih ?_]
        · simp only [total, gain, sum_set hm]
          omega
        · intro other hother
          rcases List.mem_or_eq_of_mem_set hother with hother | rfl
          · exact (h other hother).mono hle
          · exact hsound

end Counter

/-! ## Serializability -/

/-- **Serializability of the optimistic loop.** A transaction amid any history of other commits has
taken effect at one instant, on the snapshot of that instant; or it has finished without writes, or
has not finished well, and the others alone have changed the store. And the increments of a counter
by any number of clients add up, together with what others write to the counter. -/
theorem transact_serializable :
    (∀ {α : Type} (policy : RetryPolicy) (keys : List DocKey)
        (decision : Snapshot → Except EngineError (Plan α)) (scene : Scene) (hs : List Happening),
      let loop := (transact policy keys decision).program
      let after := loop.amid scene hs
      (∃ before chance later plan store, hs = before ++ .served chance :: later ∧
          TookEffect keys decision loop scene before chance later plan store) ∨
        ((∃ snapshot plan, decision snapshot = .ok plan ∧ plan.writes = [] ∧
            after.1 = finish (.ok plan.result)) ∧
          after.2.store = scene.store.leftTo hs) ∨
        ((∀ v, after.1 ≠ finish (.ok v)) ∧ after.2.store = scene.store.leftTo hs)) ∧
    ∀ (key : DocKey) (clients : List Counter.Client) (scene : Scene) (es : List Counter.Event),
      let crowd := Counter.Crowd.start key clients scene
      (crowd.after es).total key =
        crowd.total key + (crowd.after es).gain + crowd.drift key es := by
  constructor
  · intro α policy keys decision scene hs
    have hstart : InLoop keys decision scene.store (transact policy keys decision).program :=
      inLoop_transact policy
    rcases hstart.amid hs with ⟨hloop, hstore⟩ | heffect
    · refine .inr ?_
      generalize hlast : (transact policy keys decision).program.amid scene hs = last
        at hloop hstore
      obtain ⟨p, scene'⟩ := last
      cases hloop with
      | idle hdecision hwrites => exact .inl ⟨⟨_, _, hdecision, hwrites, rfl⟩, hstore⟩
      | reading | committing | refused => exact .inr ⟨nofun, hstore⟩
    · exact .inl heffect
  · intro key clients scene es
    have hstart : ∀ m ∈ (Counter.Crowd.start key clients scene).members,
        m.Sound key scene.store := by
      intro m hm
      obtain ⟨c, -, rfl⟩ := List.mem_map.1 hm
      exact .inl (inLoop_transact c.policy)
    have hgain : (Counter.Crowd.start key clients scene).gain = 0 := by
      refine List.sum_eq_zero ?_
      intro gain hmem
      obtain ⟨m, hm, rfl⟩ := List.mem_map.1 hmem
      obtain ⟨c, -, rfl⟩ := List.mem_map.1 hm
      have hloop : InLoop (key :: c.others) (Counter.add key c.amount) scene.store
        (c.program key) := inLoop_transact c.policy
      rw [Counter.Member.gain, Counter.not_succeeded_of_inLoop hloop, if_neg Bool.false_ne_true]
    have htotal := Counter.Crowd.total_after es hstart
    rw [hgain] at htotal
    exact htotal.trans (by omega)

end RitualLedger
