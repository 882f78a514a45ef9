import RitualLedger.Proofs.Completion.Course
import RitualLedger.Proofs.Engine.Call
import RitualLedger.Proofs.Engine.Ownership

/-!
# Calls for different people are independent

A call that books, steps, logs, reports, queues or executes does so for some people: the parties
of a request, or a subject. It leaves what belongs to all others as it is, and what it adds names
nobody else (`Store.Isolates`).

`Call.Apart` says that two such calls have no person and no id in common. What they may use is told
apart by the ids: keys that were given, keys that are derived, and ids that are drawn. Derived keys
need no care, even where the names of subjects hold the colon that parts a key: they belong to one
scope, and a scope to one subject. So each of the calls finds what it needs as it was, whichever
comes first, and the calls can be made in either order (`apart_calls_commute`). Each draws its own
times and ids, the same ones in both orders; so nothing need be said about these.
-/

namespace RitualLedger

open Text (IsUuid)

/-! ## What belongs to a subject -/

/-- A document is a subject's account, assignment or ritual, or the record or the evidence of a step
of the subject. -/
inductive Store.BelongsTo (s : Store) (subject : String) : DocKey → Prop
  | account : BelongsTo s subject (Ledger.accountKey subject)
  | assignment : BelongsTo s subject (Assignment.key subject)
  | ritual {id : String} {r : Ritual} (hr : s.get? Ritual (Ritual.key id) = some r)
    (hsubject : r.subjectId = subject) : BelongsTo s subject (Ritual.key id)
  | completion {id : String} {c : CompletionRecord}
    (hc : s.get? CompletionRecord (Collection.completions.key id) = some c)
    (hsubject : c.subjectId = subject) : BelongsTo s subject (Collection.completions.key id)
  | evidence {id : String} {e : EvidenceRecord}
    (he : s.get? EvidenceRecord (Collection.evidence.key id) = some e)
    (hsubject : e.subjectId = subject) : BelongsTo s subject (Collection.evidence.key id)

/-- What happened between two stores concerns some people only: what belongs to others is as it was,
and what was added names no others. -/
structure Store.Isolates (people : List String) (s t : Store) : Prop where
  spares : ∀ subject, subject ∉ people → ∀ key,
    s.BelongsTo subject key ∨ t.BelongsTo subject key → t.read? key = s.read? key
  names : ∀ key doc, s.read? key = none → t.read? key = some doc →
    ∃ c id, key = Collection.key c id ∧ c.Names people doc.body

/-- A setting with another store. -/
def Setting.over (s : Setting) (store : Store) : Setting := { s with store := store }

namespace Footprint

variable {f f' : Footprint} {s t : Store}

/-- What belongs to others does not lie in a footprint. -/
theorem Reaches.not_owns (h : f.Reaches t) {subject : String} (hsubject : subject ∉ f.people)
    {key : DocKey} (hbelongs : t.BelongsTo subject key) : ¬ f.Owns key := by
  intro howns
  cases hbelongs with
  | account => exact hsubject (owns_key.1 howns)
  | assignment => exact hsubject (owns_key.1 howns)
  | @ritual id r hr howner =>
    obtain ⟨r₀, hr₀, hmem⟩ := owns_key.1 howns
    have hsame := h.subjects id
    rw [hr, hr₀] at hsame
    have hsame : r.subjectId = r₀.subjectId := Option.some.inj hsame
    rw [← hsame, howner] at hmem
    exact hsubject hmem
  | @completion id c hc howner =>
    obtain ⟨step, hid, huuid, hmem⟩ := owns_key.1 howns
    obtain ⟨r, hr, hreports⟩ := h.regular.mirrored.records _ _ hc
    have hnamed := (h.regular.wellTyped.named (α := CompletionRecord) hc).2
    have hritual : IsUuid c.ritualId := hreports.ritual ▸ (h.regular.mirrored.uuid _ r hr).1
    have hstep : c.step = step := Step.id_injective hritual huuid (hnamed.trans hid)
    have hsame : subject = step.subject := howner.symm.trans (congrArg Step.subject hstep)
    exact hsubject (hsame ▸ hmem)
  | @evidence id e he howner =>
    obtain ⟨task, owner, hid, huuid, hmem⟩ := owns_key.1 howns
    obtain ⟨r, j, hr, hproves⟩ := h.regular.mirrored.proofs _ _ he
    obtain ⟨task', htask', htaskId, -⟩ := hproves.task
    have hnamed := (h.regular.wellTyped.named (α := EvidenceRecord) he).2
    have htask : IsUuid e.taskId := htaskId ▸ (h.regular.mirrored.uuid _ r hr).2 _
      (List.mem_map_of_mem (List.mem_of_getElem? htask'))
    obtain ⟨-, hsame⟩ := Text.cut_left htask.noColon huuid.noColon (hnamed.trans hid)
    have hsame : subject = owner := howner.symm.trans hsame
    exact hsubject (hsame ▸ hmem)

/-- Writes in a footprint concern its people only. -/
theorem Reaches.isolates {ws : List (DocKey × Json)} (hstart : f.start.Regular)
    (h : f.Reaches (f.start.putAll ws)) (howns : ∀ w ∈ ws, f.Owns w.1) :
    f.start.Isolates f.people (f.start.putAll ws) where
  spares subject hsubject key hbelongs := by
    have hnot : ¬ f.Owns key :=
      hbelongs.elim ((reaches_start hstart).not_owns hsubject) (h.not_owns hsubject)
    exact Store.read?_putAll_of_notMem fun w hw heq => hnot (heq ▸ howns w hw)
  names key doc habsent hread := by
    by_cases hwritten : ∃ w ∈ ws, w.1 = key
    · obtain ⟨w, hw, rfl⟩ := hwritten
      obtain ⟨c, id, hkey, -⟩ := howns w hw
      rw [hkey] at habsent hread ⊢
      exact ⟨c, id, rfl, (h.added c id doc hread).resolve_left fun hpresent => hpresent habsent⟩
    · rw [Store.read?_putAll_of_notMem fun w hw heq => hwritten ⟨w, hw, heq⟩, habsent] at hread
      cases hread

/-- Footprints that share nothing: what is written in one of them tells the other nothing new. -/
theorem agrees_of_apart {ws : List (DocKey × Json)} (hstart : f'.start = f.start)
    (hapart : ∀ key, f.Owns key → ¬ f'.Owns key) (howns : ∀ w ∈ ws, f'.Owns w.1)
    (h : f'.Reaches (f.start.putAll ws)) : f.Agrees f.start (f.start.putAll ws) where
  same key hkey := Store.read?_putAll_of_notMem fun w hw heq =>
    hapart key hkey (heq ▸ howns w hw)
  absent _ hnone := h.absent (hstart ▸ hnone)
  stored _ _ hr := h.stored (hstart ▸ hr)

end Footprint

/-! ## Calls for people -/

/-- The subject of a scope. A mood's scope does not name it. -/
def Scope.subject? : Scope → Option String
  | .reward step | .completion step | .ritualCompletion step => some step.subject
  | .streak _ subject _ => some subject
  | .mood _ | .named _ => none

namespace Call

/-- Whether a call acts for people. -/
def acts : Call → Bool
  | apply _ | complete _ _ | execute _ _ _ _ | executeBatch _ _ _ _ _ | logMood _ _
  | reportStreak _ _ | enqueue _ _ _ _ => true
  | _ => false

/-- The people that a call acts for: the parties of a request, or a subject. -/
def people : Call → List String
  | apply r => r.senderId.toList ++ r.receiverId.toList
  | complete s _ => [s.subject]
  | execute _ _ subject _ | executeBatch _ subject _ _ _ | logMood subject _
  | reportStreak subject _ | enqueue subject _ _ _ => [subject]
  | _ => []

/-- Whether a call was given an id, as such or as the key of a position in a scope that it names. -/
def Gives : Call → String → Prop
  | apply r, id => r.key = some id
  | execute _ _ _ key, id | enqueue _ _ _ key, id => key = some id
  | executeBatch _ _ _ scope _, id => ∃ name, scope = some name ∧ ∃ p, id = (Scope.named name).key p
  | _, _ => False

/-- The ids under which a call may book, queue and log when it draws from a source. -/
inductive Employs (c : Call) (ids : Source String) : String → Prop
  | given {id : String} (h : c.Gives id) : Employs c ids id
  | drawn {n : Nat} (h : ids.drawn ≤ n) : Employs c ids (ids.value n)
  | derived {scope : Scope} (p : Nat) (hruns : c.Runs scope) (hderived : scope.IsDerived)
    (hdrawn : ∀ entry, scope = .mood entry → ∃ n, ids.drawn ≤ n ∧ entry = ids.value n) :
    Employs c ids (scope.key p)

/-- The footprint of a call. -/
def footprint (c : Call) (s : Setting) : Footprint := ⟨s.store, c.people, c.Employs s.ids⟩

/-- **A call that acts for people keeps to its footprint.** -/
theorem operation_minds {c : Call} (hc : c.acts = true) {s : Setting} (policy : RetryPolicy)
    (huuid : ∀ n, s.ids.drawn ≤ n → IsUuid (s.ids.value n)) :
    (c.operation policy).Minds (c.footprint s) (fun _ _ => True) s := by
  cases c with
  | apply r => exact Ledger.apply_minds (fun _ hx => hx) fun _ hid => .given hid
  | complete step evidence =>
    refine Completion.complete_minds List.mem_cons_self fun scope hscope hderived p =>
      .derived p hscope hderived ?_
    rintro entry rfl
    cases hscope
  | execute a ritual subject key =>
    exact Action.execute_minds List.mem_cons_self fun _ hid => .given hid
  | executeBatch ritual subject trigger scope actions =>
    refine .lift (Batch.run_minds List.mem_cons_self fun p id hid => ?_)
    rw [Batch.key, Option.map_map] at hid
    obtain ⟨name, hname, rfl⟩ := Option.map_eq_some_iff.1 hid
    exact .given ⟨name, hname, p, rfl⟩
  | logMood subject text =>
    refine Mood.log_minds List.mem_cons_self fun n hn p => .derived p ⟨_, rfl⟩ (huuid n hn) ?_
    rintro entry ⟨⟩
    exact ⟨n, hn, rfl⟩
  | reportStreak subject count =>
    refine Streak.report_minds List.mem_cons_self fun ritual hritual p =>
      .derived p ⟨ritual, rfl⟩ hritual ?_
    rintro entry ⟨⟩
  | enqueue subject message ritual id =>
    exact Notification.enqueue_minds List.mem_cons_self fun _ hid => .given hid
  | openAccount _ | readAccount _ | readBalance _ | applyTransaction _ | tribute _ _ _ _
  | findTransaction _ | history _ _ | create _ | findRitual _ | evaluate _ _ | findAssignment _
  | currentTask _ | replay _ | findCompletion _ | rehearse _ _ _ _ | askMood _ | replyMood _ _
  | pending _ | markRead _ => cases hc

/-- The scopes that a call runs are those of its people, or of a mood. -/
theorem subject_of_runs {c : Call} (hc : c.acts = true) {scope : Scope} (h : c.Runs scope) :
    (∃ entry, scope = .mood entry) ∨ ∃ x ∈ c.people, scope.subject? = some x := by
  cases c with
  | complete step evidence =>
    refine .inr ⟨step.subject, List.mem_cons_self, ?_⟩
    cases scope with
    | reward _ | completion _ | ritualCompletion _ =>
      cases h
      rfl
    | streak _ _ _ | mood _ | named _ => cases h
  | logMood subject text => exact .inl h
  | reportStreak subject count =>
    obtain ⟨ritual, rfl⟩ := h
    exact .inr ⟨subject, List.mem_cons_self, rfl⟩
  | _ => first | exact h.elim | cases hc

/-- What a call writes is the same wherever the call is told the same. -/
theorem exists_writes {c : Call} (hc : c.acts = true) {s : Setting} (policy : RetryPolicy)
    (hs : s.store.Regular) (halone : s.Undisturbed)
    (huuid : ∀ n, s.ids.drawn ≤ n → IsUuid (s.ids.value n)) :
    ∃ ws : List (DocKey × Json), (∀ w ∈ ws, (c.footprint s).Owns w.1) ∧
      (c.footprint s).Reaches (s.store.putAll ws) ∧
      ((c.operation policy).run s).2.store = s.store.putAll ws ∧
      ∀ u, (c.footprint s).Agrees s.store u → (c.operation policy).run (s.over u) =
        (((c.operation policy).run s).1, ((c.operation policy).run s).2.over (u.putAll ws)) := by
  have hosts : (c.footprint s).Hosts s :=
    ⟨halone, Footprint.reaches_start hs, fun n hn => .drawn hn⟩
  obtain ⟨-, ws, howns, hreaches, hsame⟩ := operation_minds hc policy huuid hosts
  exact ⟨ws, howns, hreaches, Program.store_run hosts hsame, hsame⟩

/-! ## Calls that share nothing -/

/-- Two calls have no person and no id in common: none that was given, is derived, or is drawn. -/
structure Apart (c : Call) (s : Setting) (c' : Call) (s' : Setting) : Prop where
  people : ∀ x ∈ c.people, x ∉ c'.people
  given : ∀ id, c.Gives id → ¬ c'.Gives id
  underived : ∀ id, c.Gives id ∨ c'.Gives id →
    ∀ (scope : Scope) p, scope.IsDerived → scope.key p ≠ id
  /-- Drawn ids are random identifiers, and not given. -/
  drawn : ∀ n, s.ids.drawn ≤ n → IsUuid (s.ids.value n) ∧ ¬ c'.Gives (s.ids.value n)
  drawn' : ∀ n, s'.ids.drawn ≤ n → IsUuid (s'.ids.value n) ∧ ¬ c.Gives (s'.ids.value n)
  /-- No id is drawn for both. -/
  fresh : ∀ n m, s.ids.drawn ≤ n → s'.ids.drawn ≤ m → s.ids.value n ≠ s'.ids.value m

variable {c c' : Call} {s s' : Setting}

theorem Apart.symm (h : Apart c s c' s') : Apart c' s' c s where
  people x hx hx' := h.people x hx' hx
  given id hid hid' := h.given id hid' hid
  underived id hid := h.underived id hid.symm
  drawn := h.drawn'
  drawn' := h.drawn
  fresh n m hn hm heq := h.fresh m n hm hn heq.symm

/-- A scope is not run by both. -/
theorem Apart.not_runs (h : Apart c s c' s') (hc : c.acts = true) (hc' : c'.acts = true)
    {scope : Scope} (hruns : c.Runs scope) (hruns' : c'.Runs scope)
    (hdrawn : ∀ entry, scope = .mood entry → ∃ n, s.ids.drawn ≤ n ∧ entry = s.ids.value n)
    (hdrawn' : ∀ entry, scope = .mood entry → ∃ n, s'.ids.drawn ≤ n ∧ entry = s'.ids.value n) :
    False := by
  rcases subject_of_runs hc hruns with ⟨entry, rfl⟩ | ⟨x, hx, hsubject⟩
  · obtain ⟨n, hn, rfl⟩ := hdrawn entry rfl
    obtain ⟨m, hm, heq⟩ := hdrawn' _ rfl
    exact h.fresh n m hn hm heq
  · rcases subject_of_runs hc' hruns' with ⟨entry, rfl⟩ | ⟨x', hx', hsubject'⟩
    · cases hsubject
    · cases hsubject.symm.trans hsubject'
      exact h.people x hx hx'

/-- No id is used by both. -/
theorem Apart.not_employs (h : Apart c s c' s') (hc : c.acts = true) (hc' : c'.acts = true)
    {id : String} (hid : c.Employs s.ids id) : ¬ c'.Employs s'.ids id := by
  intro hid'
  generalize hkey : id = id' at hid'
  cases hid with
  | given hgiven =>
    cases hid' with
    | given hgiven' => exact h.given _ hgiven (hkey ▸ hgiven')
    | drawn hn => exact (h.drawn' _ hn).2 (hkey ▸ hgiven)
    | derived p _ hderived _ => exact h.underived _ (.inl hgiven) _ p hderived hkey.symm
  | drawn hn =>
    cases hid' with
    | given hgiven' => exact (h.drawn _ hn).2 (hkey ▸ hgiven')
    | drawn hm => exact h.fresh _ _ hn hm hkey
    | derived p _ _ _ => exact Scope.key_ne_uuid (h.drawn _ hn).1 hkey.symm
  | derived p hruns hderived hdrawn =>
    cases hid' with
    | given hgiven' => exact h.underived _ (.inr hgiven') _ p hderived hkey
    | drawn hm => exact Scope.key_ne_uuid (h.drawn' _ hm).1 hkey
    | derived p' hruns' hderived' hdrawn' =>
      obtain ⟨rfl, -⟩ := Scope.key_injective hderived hderived' hkey
      exact h.not_runs hc hc' hruns hruns' hdrawn hdrawn'

/-- **The footprints of calls that share nothing do not meet.** -/
theorem Apart.not_owns (h : Apart c s c' s') (hc : c.acts = true) (hc' : c'.acts = true)
    (hstore : s'.store = s.store) (key : DocKey) (howns : (c.footprint s).Owns key) :
    ¬ (c'.footprint s').Owns key := by
  intro howns'
  obtain ⟨collection, id, rfl, hid⟩ := howns
  have hid' := Footprint.owns_key.1 howns'
  cases collection with
  | accounts | assignments => exact h.people _ hid hid'
  | transactions | notifications | moods => exact h.not_employs hc hc' hid hid'
  | activities => exact hid
  | rituals =>
    obtain ⟨r, hr, hmem⟩ := hid
    obtain ⟨r', hr', hmem'⟩ := hid'
    have hr' : s.store.get? Ritual (Ritual.key id) = some r' := hstore ▸ hr'
    cases hr.symm.trans hr'
    exact h.people _ hmem hmem'
  | completions =>
    obtain ⟨step, rfl, huuid, hmem⟩ := hid
    obtain ⟨step', hstep, huuid', hmem'⟩ := hid'
    obtain rfl := Step.id_injective huuid huuid' hstep
    exact h.people _ hmem hmem'
  | evidence =>
    obtain ⟨task, subject, rfl, huuid, hmem⟩ := hid
    obtain ⟨task', subject', htext, huuid', hmem'⟩ := hid'
    obtain ⟨-, rfl⟩ := Text.cut_left huuid.noColon huuid'.noColon htext
    exact h.people _ hmem hmem'

/-- After a call that shares nothing with it, a call answers and writes what it does without. -/
theorem Apart.run_after (h : Apart c s c' s') (hc : c.acts = true) (hc' : c'.acts = true)
    (hstore : s'.store = s.store) (policy : RetryPolicy) {ws ws' : List (DocKey × Json)}
    (howns : ∀ w ∈ ws, (c.footprint s).Owns w.1)
    (hreaches : (c.footprint s).Reaches (s.store.putAll ws))
    (hsame : ∀ u, (c'.footprint s').Agrees s'.store u → (c'.operation policy).run (s'.over u) =
      (((c'.operation policy).run s').1, ((c'.operation policy).run s').2.over (u.putAll ws'))) :
    (c'.operation policy).run (s'.over (s.store.putAll ws)) =
      (((c'.operation policy).run s').1,
        ((c'.operation policy).run s').2.over ((s.store.putAll ws).putAll ws')) := by
  have hmeet := h.not_owns hc hc' hstore
  have hagrees : (c'.footprint s').Agrees s'.store (s'.store.putAll ws) := by
    refine Footprint.agrees_of_apart hstore.symm (fun key hkey hkey' => hmeet key hkey' hkey)
      howns ?_
    change (c.footprint s).Reaches (s'.store.putAll ws)
    rwa [hstore]
  rw [← hstore]
  exact hsame _ hagrees

end Call

/-- **Calls for different people are independent.** In any store that the engine can reach, with
nobody else there, two calls of which each acts for people, and which have neither people nor ids in
common: each leaves what belongs to others as it is and adds nothing that names others; and each
gives the answer that it gives without the other, and in both orders all documents are the same in
the end. Only the new ones of the one stand before those of the other.

Where the second call draws on from where the first one has left off, one client makes both. -/
theorem apart_calls_commute (ttl : Int) (es : List Event) (policy : RetryPolicy) (c c' : Call)
    (s s' : Setting) (hreached : s.store = ((World.initial ttl).after es).store)
    (hstore : s'.store = s.store) (hacts : c.acts = true ∧ c'.acts = true)
    (halone : s.Undisturbed ∧ s'.Undisturbed) (hapart : c.Apart s c' s') :
    let one := (c.operation policy).run s
    let other := (c'.operation policy).run s'
    let otherAfter := (c'.operation policy).run (s'.over one.2.store)
    let oneAfter := (c.operation policy).run (s.over other.2.store)
    s.store.Isolates c.people one.2.store ∧ s.store.Isolates c'.people other.2.store ∧
      oneAfter.1 = one.1 ∧ otherAfter.1 = other.1 ∧
      (∀ key, otherAfter.2.store.read? key = oneAfter.2.store.read? key) ∧
      ∃ added added', otherAfter.2.store.keys = s.store.keys ++ added ++ added' ∧
        oneAfter.2.store.keys = s.store.keys ++ added' ++ added := by
  obtain ⟨hacts, hacts'⟩ := hacts
  have hs : s.store.Regular := by
    rw [hreached]
    exact World.regular_after ttl es
  have hs' : s'.store.Regular := hstore ▸ hs
  obtain ⟨ws, howns, hreaches, hone, hsame⟩ :=
    Call.exists_writes hacts policy hs halone.1 fun n hn => (hapart.drawn n hn).1
  obtain ⟨ws', howns', hreaches', hother, hsame'⟩ :=
    Call.exists_writes hacts' policy hs' halone.2 fun n hn => (hapart.drawn' n hn).1
  -- What the one writes, the other does not write.
  have hothers : ∀ w ∈ ws, ∀ w' ∈ ws', w.1 ≠ w'.1 := fun w hw w' hw' heq =>
    hapart.not_owns hacts hacts' hstore w.1 (howns w hw) (heq ▸ howns' w' hw')
  have hafter := hapart.run_after hacts hacts' hstore policy howns hreaches hsame'
  have hbefore := hapart.symm.run_after hacts' hacts hstore.symm policy howns' hreaches' hsame
  have hisolates : s.store.Isolates c.people (s.store.putAll ws) := hreaches.isolates hs howns
  have hisolates' : s'.store.Isolates c'.people (s'.store.putAll ws') :=
    hreaches'.isolates hs' howns'
  rw [hstore] at hother hbefore hisolates'
  intro one other otherAfter oneAfter
  have hafter : otherAfter = (other.1, other.2.over ((s.store.putAll ws).putAll ws')) := by
    rw [← hafter, ← hone]
  have hbefore : oneAfter = (one.1, one.2.over ((s.store.putAll ws').putAll ws)) := by
    rw [← hbefore, ← hother]
  rw [hafter, hbefore]
  exact ⟨hone ▸ hisolates, hother ▸ hisolates', rfl, rfl, Store.read?_putAll_comm hothers,
    s.store.added ws, s.store.added ws', Store.keys_putAll_putAll hothers,
    Store.keys_putAll_putAll fun w' hw' w hw => (hothers w hw w' hw').symm⟩

/-- Where ana completes the step of `walk`. -/
def anaSetting : Setting := ⟨walkStore, .empty 0, [], ⟨fun _ => ⟨1700000001, 0⟩, 0⟩,
  ⟨fun _ => "44444444-4444-4444-8444-444444444444", 0⟩⟩

/-- Where kim is rewarded. -/
def kimSetting : Setting := ⟨walkStore, .empty 0, [], ⟨fun _ => ⟨1700000002, 0⟩, 0⟩,
  ⟨fun _ => "55555555-5555-4555-8555-555555555555", 0⟩⟩

/-- The step of `walk` is taken by one subject, and another is rewarded under a drawn id. -/
theorem walk_and_reward_commute :
    let step := (Call.complete walk (.text "done")).operation ⟨1⟩
    let reward := (Call.apply (.plain .reward none (some "kim") 5)).operation ⟨1⟩
    let stepped := step.run anaSetting
    let rewarded := reward.run kimSetting
    let rewardedAfter := reward.run (kimSetting.over stepped.2.store)
    let steppedAfter := step.run (anaSetting.over rewarded.2.store)
    steppedAfter.1 = stepped.1 ∧ rewardedAfter.1 = rewarded.1 ∧
      (∀ key, rewardedAfter.2.store.read? key = steppedAfter.2.store.read? key) ∧
      ((Ledger.apply ⟨1⟩ (.plain .reward none (some "kim") 5)).run kimSetting).1 =
        .ok ⟨"55555555-5555-4555-8555-555555555555", false⟩ := by
  have huuid : IsUuid "44444444-4444-4444-8444-444444444444" := by decide
  have huuid' : IsUuid "55555555-5555-4555-8555-555555555555" := by decide
  have hnow : (⟨1700000001, 0⟩ : Instant).IsNameable := by decide
  have hnow' : (⟨1700000002, 0⟩ : Instant).IsNameable := by decide
  have hids : "44444444-4444-4444-8444-444444444444" ≠ "55555555-5555-4555-8555-555555555555" := by
    decide
  have hpeople : "ana" ≠ "kim" := by decide
  have hapart : (Call.complete walk (.text "done")).Apart anaSetting
      (.apply (.plain .reward none (some "kim") 5)) kimSetting := by
    constructor
    case people =>
      intro x hx hx'
      exact hpeople ((List.mem_singleton.1 hx).symm.trans (List.mem_singleton.1 hx'))
    case given =>
      intro id hgiven
      cases hgiven
    case underived =>
      rintro id (hgiven | hgiven)
      · cases hgiven
      · cases hgiven
    case drawn =>
      refine fun n _ => ⟨huuid, fun hgiven => ?_⟩
      cases hgiven
    case drawn' => exact fun n _ => ⟨huuid', fun hgiven => hgiven⟩
    case fresh => exact fun n m _ _ => hids
  obtain ⟨-, -, hstep, hreward, hsame, -⟩ := apart_calls_commute 0 walkBegun ⟨1⟩
    (.complete walk (.text "done")) (.apply (.plain .reward none (some "kim") 5)) anaSetting
    kimSetting rfl rfl ⟨rfl, rfl⟩ ⟨⟨rfl, fun _ => hnow⟩, ⟨rfl, fun _ => hnow'⟩⟩ hapart
  exact ⟨hstep, hreward, hsame, by decide +kernel⟩

end RitualLedger
