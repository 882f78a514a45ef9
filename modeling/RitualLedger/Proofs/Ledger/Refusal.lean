import RitualLedger.Proofs.Ledger.Settlement

/-!
# A refusal that comes too late

When the accounts do not bear a request twice, and two clients send it under the same key, the
duplicate can be refused although the payment is made. One client looks for the record, and does not
find it. Then the other one runs to its end, and pays. Then the first one reads the accounts.

The run is put together from the turns of single clients: a client that is served alone reads the
snapshot of the store (`World.after_extend`). What the late client decides on is a snapshot without
the record, with the accounts as they are after the payment (`Ledger.bearsTwice_of_decide`).

The main statement is `duplicates_pay_once`. A payment is made once whatever happens, and a refusal
that comes too late is the only thing that can go wrong.
-/

namespace RitualLedger

/-! ## The turns of one client -/

namespace World

variable {w : World} {i j : Nat} {now : Instant} {call : Call} {own : List String}

/-- A turn of a client at a time at which the store is not locked. No id is drawn. -/
def plainTurn (now : Instant) (i : Nat) : Event := .served i ⟨none, now, ""⟩

/-- A client that draws no id moves on in its turn. -/
theorem step_plainTurn {c : Client} (hc : w.clients[i]? = some c) (hdraws : c.rest.draws = false)
    (hnow : now.IsNameable) :
    (w.step (plainTurn now i)).clients[i]? = some (c.serve w.scene ⟨none, now, ""⟩).1 ∧
      (w.step (plainTurn now i)).store = (c.rest.serve w.scene ⟨none, now, ""⟩).2.store := by
  have hpossible : w.Possible (plainTurn now i) := by
    refine ⟨hnow, fun h => ?_⟩
    rw [draws, hc, Option.any_some, hdraws] at h
    cases h
  refine ⟨client_of_served hpossible hc, ?_⟩
  rw [step, if_pos hpossible, plainTurn, happen_served hc]
  rfl

variable {next : Instant → Program (Except EngineError call.Result)}

theorem step_now (hc : w.clients[i]? = some ⟨call, own, .now next⟩) (hnow : now.IsNameable) :
    (w.step (plainTurn now i)).clients[i]? = some ⟨call, own, next now⟩ ∧
      (w.step (plainTurn now i)).store = w.store :=
  step_plainTurn hc rfl hnow

theorem step_read {key : DocKey}
    {next : Option Versioned → Program (Except EngineError call.Result)}
    (hc : w.clients[i]? = some ⟨call, own, .read key next⟩) (hnow : now.IsNameable) :
    (w.step (plainTurn now i)).clients[i]? = some ⟨call, own, next (w.store.read? key)⟩ ∧
      (w.step (plainTurn now i)).store = w.store :=
  step_plainTurn hc rfl hnow

theorem step_commit {stamps : List Stamp} {ws : List Write} {t : Store}
    {next : Except StoreError Unit → Program (Except EngineError call.Result)}
    (hc : w.clients[i]? = some ⟨call, own, .commit stamps ws next⟩) (hnow : now.IsNameable)
    (hcommit : w.store.commit stamps ws = .ok t) :
    (w.step (plainTurn now i)).clients[i]? = some ⟨call, own, next (.ok ())⟩ ∧
      (w.step (plainTurn now i)).store = t := by
  have hserve : (Program.commit stamps ws next).serve w.scene ⟨none, now, ""⟩ =
      (next (.ok ()), { w.scene with store := t }) := by
    have hscene : w.scene.store.commit stamps ws = .ok t := hcommit
    simp only [Program.serve, Scene.commit, hscene]
  obtain ⟨hclient, hstore⟩ := step_plainTurn hc rfl hnow
  rw [Client.serve] at hclient
  simp only [hserve] at hclient hstore
  exact ⟨hclient, hstore⟩

/-- **A client that is served alone reads the snapshot of the store.** -/
theorem after_extend {f : Snapshot → Program (Except EngineError call.Result)}
    (hnow : now.IsNameable) (keys : List DocKey) (s : Snapshot)
    (hc : w.clients[i]? = some ⟨call, own, (s.extend keys).bind f⟩) :
    ∃ k, (w.after (List.replicate k (plainTurn now i))).clients[i]? =
        some ⟨call, own, f (s.extendFrom w.store keys)⟩ ∧
      (w.after (List.replicate k (plainTurn now i))).store = w.store := by
  induction keys generalizing w s with
  | nil => exact ⟨0, hc, rfl⟩
  | cons key rest ih =>
    rw [Snapshot.extend] at hc
    rw [Snapshot.extendFrom]
    split at hc
    · rename_i hcovers
      rw [if_pos hcovers]
      exact ih s hc
    · rename_i hcovers
      rw [if_neg hcovers]
      obtain ⟨hclient, hstore⟩ := step_read hc hnow
      obtain ⟨k, hclient', hstore'⟩ := ih _ hclient
      rw [hstore] at hclient' hstore'
      exact ⟨k + 1, hclient', hstore'⟩

/-- Only the client at a place has had turns. -/
def Turns (now : Instant) (i : Nat) (w v : World) : Prop :=
  ∃ k, v = w.after (List.replicate k (plainTurn now i))

namespace Turns

variable {u v : World}

theorem one (now : Instant) (i : Nat) (w : World) : Turns now i w (w.step (plainTurn now i)) :=
  ⟨1, rfl⟩

theorem trans (h : Turns now i u v) (h' : Turns now i v w) : Turns now i u w := by
  obtain ⟨k, rfl⟩ := h
  obtain ⟨k', rfl⟩ := h'
  exact ⟨k + k', by rw [List.replicate_add, after_append]⟩

/-- The other clients are where they were. -/
theorem others (h : Turns now i w v) (hij : j ≠ i) : v.clients[j]? = w.clients[j]? := by
  obtain ⟨k, rfl⟩ := h
  induction k with
  | zero => rfl
  | succ k ih =>
    rw [List.replicate_succ', after_concat]
    exact (client_of_other hij _).trans ih

theorem length (h : Turns now i w v) : v.clients.length = w.clients.length := by
  obtain ⟨k, rfl⟩ := h
  induction k with
  | zero => rfl
  | succ k ih =>
    rw [List.replicate_succ', after_concat]
    exact length_of_served.trans ih

end Turns

end World

/-! ## Snapshots that are read on -/

namespace Snapshot

variable {s : Snapshot} {store : Store} {key : DocKey}

theorem lookup_isSome_iff_covers : (s.docs.lookup key).isSome = true ↔ s.covers key = true := by
  rw [List.lookup_isSome_iff, covers, List.any_eq_true]
  exact exists_congr fun d => and_congr_right fun _ => by rw [BEq.comm]

theorem doc?_snoc_of_covers {d : DocKey × Option Versioned} (h : s.covers key = true) :
    doc? ⟨s.docs ++ [d]⟩ key = s.doc? key := by
  obtain ⟨doc, hdoc⟩ := Option.isSome_iff_exists.1 (lookup_isSome_iff_covers.2 h)
  rw [doc?, doc?, List.lookup_append, hdoc]
  rfl

theorem doc?_snoc_self {doc : Option Versioned} (h : s.covers key = false) :
    doc? ⟨s.docs ++ [(key, doc)]⟩ key = doc := by
  have hnone : s.docs.lookup key = none := by
    refine Option.not_isSome_iff_eq_none.1 fun hsome => ?_
    cases h.symm.trans (lookup_isSome_iff_covers.1 hsome)
  rw [doc?, List.lookup_append, hnone, Option.none_or, List.lookup_cons, beq_self_eq_true]
  rfl

/-- What was read before stays in a snapshot, and what is read on comes from the store. -/
theorem doc?_extendFrom (keys : List DocKey) (s : Snapshot) :
    (s.covers key = true → (extendFrom store s keys).doc? key = s.doc? key) ∧
      (s.covers key = false → key ∈ keys →
        (extendFrom store s keys).doc? key = store.read? key) := by
  induction keys generalizing s with
  | nil => exact ⟨fun _ => rfl, fun _ hkey => absurd hkey List.not_mem_nil⟩
  | cons k rest ih =>
    rw [extendFrom]
    split
    · rename_i hcovers
      refine ⟨(ih s).1, fun hnew hkey => (ih s).2 hnew ?_⟩
      refine (List.mem_cons.1 hkey).resolve_left ?_
      rintro rfl
      cases hnew.symm.trans hcovers
    · rename_i hcovers
      obtain ⟨hkept, hread⟩ := ih ⟨s.docs ++ [(k, store.read? k)]⟩
      have hmore : covers ⟨s.docs ++ [(k, store.read? k)]⟩ key =
          (s.covers key || k == key) := by
        simp [covers]
      refine ⟨fun hold => ?_, fun hnew hkey => ?_⟩
      · rw [hkept (by rw [hmore, hold, Bool.true_or]), doc?_snoc_of_covers hold]
      · by_cases hk : k = key
        · subst hk
          rw [hkept (by rw [hmore, beq_self_eq_true, Bool.or_true]), doc?_snoc_self hnew]
        · refine hread ?_ ((List.mem_cons.1 hkey).resolve_left (Ne.symm hk))
          rw [hmore, hnew, beq_false_of_ne hk, Bool.or_false]

end Snapshot

/-- An attempt that commits what it should goes on to do so. -/
theorem conclude_of_commits {α : Type} {keys : List DocKey}
    {decision : Snapshot → Except EngineError (Plan α)} {s t : Store} {plan : Plan α}
    {left made : Nat} (h : Commits keys decision s plan t) :
    conclude keys decision left made (Snapshot.atOnce s keys) =
      .commit (Snapshot.atOnce s keys).stamps plan.writes
        (settle keys decision left made plan.result) := by
  have hwrites : ¬ plan.writes.isEmpty = true := fun hnone => h.writes (List.isEmpty_iff.1 hnone)
  simp only [conclude, h.decided, if_neg hwrites]

/-! ## A duplicate that is late -/

namespace Ledger

variable {r : TransactionRequest} {id : String} {now time : Instant} {s t : Store}
  {snapshot : Snapshot}

/-- What was planned for a party was read, and could be changed. -/
theorem of_planParty_ok {α : Type} {party : Option String}
    {change : String → Account → Except EngineError Account} {plan plan' : Plan α}
    (h : planParty snapshot party change plan = .ok plan') : ∀ subject ∈ party,
      ∃ a a', partyAccount snapshot subject = .ok a ∧ change subject a = .ok a' := by
  rintro subject ⟨⟩
  obtain ⟨a, ha, h⟩ := ok_of_bind h
  obtain ⟨a', ha', -⟩ := ok_of_bind h
  exact ⟨a, a', ha, ha'⟩

/-- A party's account is the one of the store that it was read from. -/
theorem get?_of_partyAccount_doc {party : String} {a : Account} (ht : t.WellTyped)
    (hdoc : snapshot.doc? (accountKey party) = t.read? (accountKey party))
    (h : partyAccount snapshot party = .ok a) : t.get? Account (accountKey party) = some a := by
  have hget : snapshot.get (α := Account) (accountKey party) =
      .ok (t.get? Account (accountKey party)) := ht.get_snapshot hdoc
  rw [partyAccount, hget] at h
  cases haccount : t.get? Account (accountKey party) with
  | none =>
    rw [haccount] at h
    cases h
  | some a' =>
    rw [haccount] at h
    cases h
    rfl

/-- **Who misses the record decides as if to pay a second time.** -/
theorem bearsTwice_of_decide {plan : Plan Receipt} (hpaid : Paid r id s t) (ht : t.WellTyped)
    (hkind : ∀ subject ∈ r.senderId, r.kind ≠ .reward)
    (hhas : snapshot.has (transactionKey id) = false)
    (haccounts : ∀ subject ∈ r.senderId.toList ++ r.receiverId.toList,
      snapshot.doc? (accountKey subject) = t.read? (accountKey subject))
    (h : decide r id now snapshot = .ok plan) : BearsTwice s r := by
  obtain ⟨_, happlied⟩ := hpaid.applied
  simp only [decide, hhas, Bool.false_eq_true, if_false] at h
  obtain ⟨plan₁, hplan₁, h⟩ := ok_of_bind h
  obtain ⟨plan₂, hplan₂, -⟩ := ok_of_bind h
  constructor
  · intro subject hsubject a₀ ha₀
    obtain ⟨a, a', hread, hdebit⟩ := of_planParty_ok hplan₁ subject hsubject
    have hparty := List.mem_append_left r.receiverId.toList (Option.mem_toList.2 hsubject)
    have ha := get?_of_partyAccount_doc ht (haccounts subject hparty) hread
    obtain ⟨a₁, a₂, ha₁, ha₂, -, hbalance⟩ := happlied.sender subject hsubject
    cases ha₀.symm.trans ha₁
    cases ha.symm.trans ha₂
    have hcovered := (exists_debit_iff (hkind subject hsubject)).1 ⟨a', hdebit⟩
    omega
  · intro subject hsubject a₀ ha₀
    obtain ⟨a, a', hread, hcredit⟩ := of_planParty_ok hplan₂ subject hsubject
    have hparty := List.mem_append_right r.senderId.toList (Option.mem_toList.2 hsubject)
    have ha := get?_of_partyAccount_doc ht (haccounts subject hparty) hread
    obtain ⟨a₁, a₂, ha₁, ha₂, -, hbalance⟩ := happlied.receiver subject hsubject
    cases ha₀.symm.trans ha₁
    cases ha.symm.trans ha₂
    have hroom := exists_credit_iff.1 ⟨a', hcredit⟩
    omega

/-- The documents that a request is about, but for the record. -/
def accountKeys (r : TransactionRequest) : List DocKey :=
  (r.senderId.toList ++ r.receiverId.toList).map accountKey

/-- What is read behind a record that was not there. -/
def lateSnapshot (r : TransactionRequest) (id : String) (t : Store) : Snapshot :=
  Snapshot.extendFrom t ⟨[(transactionKey id, none)]⟩ (accountKeys r)

/-- A snapshot without the record, and with the accounts after the payment, is refused. -/
theorem decide_lateSnapshot (now : Instant) (hpaid : Paid r id s t) (hs : s.Regular)
    (hgrants : Grants s r) (hshort : ¬ BearsTwice s r) :
    ∃ e, decide r id now (lateSnapshot r id t) = .error e := by
  have hvalid := TransactionRequest.validate_eq_ok_iff.2 hgrants.form
  have hrecord : (lateSnapshot r id t).has (transactionKey id) = false := by
    have hcovers : Snapshot.covers ⟨[(transactionKey id, none)]⟩ (transactionKey id) = true :=
      Snapshot.covers_iff.2 (List.mem_singleton_self _)
    rw [Snapshot.has, lateSnapshot, (Snapshot.doc?_extendFrom _ _).1 hcovers, Snapshot.doc?,
      List.lookup_cons, beq_self_eq_true]
    rfl
  have haccounts : ∀ subject ∈ r.senderId.toList ++ r.receiverId.toList,
      (lateSnapshot r id t).doc? (accountKey subject) = t.read? (accountKey subject) := by
    intro subject hsubject
    refine (Snapshot.doc?_extendFrom _ _).2 ?_ (List.mem_map_of_mem hsubject)
    refine Bool.eq_false_iff.2 fun hcovers => ?_
    have hkey := List.mem_singleton.1 (Snapshot.covers_iff.1 hcovers)
    exact Collection.key_ne_of_ne (by decide) hkey
  cases hdecision : decide r id now (lateSnapshot r id t) with
  | error e => exact ⟨e, rfl⟩
  | ok plan =>
    exact absurd (bearsTwice_of_decide hpaid (hpaid.proceeds.regular hs).wellTyped
      (fun _ => kind_ne_reward hvalid) hrecord haccounts hdecision) hshort

/-- What is left of an attempt that has not found the record. -/
def lateProgram (r : TransactionRequest) (id : String) (now : Instant) (left made : Nat) :
    Program (Except EngineError Receipt) :=
  (Snapshot.extend ⟨[(transactionKey id, none)]⟩ (accountKeys r)).bind
    (conclude (keys r id) (decide r id now) left made)

/-- An attempt reads the record first. -/
theorem tries_keys {decision : Snapshot → Except EngineError (Plan Receipt)} (left made : Nat) :
    tries (keys r id) decision (left + 1) made = .read (transactionKey id) fun doc =>
      (Snapshot.extend ⟨[(transactionKey id, doc)]⟩ (accountKeys r)).bind
        (conclude (keys r id) decision left made) := rfl

/-- A granted request under a key asks for the time, and goes on to its attempts. -/
theorem program_apply_keyed {policy : RetryPolicy} (hgrants : Grants s r) (hkey : r.key = some id) :
    (apply policy r).program = .now fun now =>
      tries (keys r id) (decide r id now) (policy.limit - 1 + 1) 0 := by
  have hvalid := TransactionRequest.validate_eq_ok_iff.2 hgrants.form
  have hattempts := fun now => program_transact (keys r id) (decide r id now) policy
  simp only [← hattempts, apply, hvalid, hkey]
  rfl

/-- What a granted request commits, if nobody has been faster. -/
theorem exists_payment (hs : s.Regular) (hgrants : Grants s r) (hkey : r.key = some id)
    (hnow : Fits now) : ∃ plan t, Commits (keys r id) (decide r id now) s plan t ∧
      plan.result = ⟨id, false⟩ ∧ Paid r id s t := by
  have hvalid := TransactionRequest.validate_eq_ok_iff.2 hgrants.form
  have hnew := hgrants.unrecorded id hkey
  have hgranted : (∃ plan, decide r id now (Snapshot.atOnce s (keys r id)) = .ok plan) ↔
      Bears s r := exists_decide_iff hs.wellTyped hnew fun _ => kind_ne_reward hvalid
  obtain ⟨plan, hdecision⟩ := hgranted.2 hgrants.bears
  obtain ⟨parties, hplanned⟩ := planned_of_decide hs.wellTyped hvalid hnew hdecision
  obtain ⟨t, happly⟩ := hplanned.applies hvalid hnew
  have hwrites : plan.writes ≠ [] := hplanned.writes ▸ by simp
  have hcommits : Commits (keys r id) (decide r id now) s plan t := ⟨hdecision, hwrites, happly⟩
  obtain ⟨_, hmakes⟩ := booking_of_decide .supplied hs.wellTyped hvalid hnow trivial hcommits
  obtain ⟨-, hresult, hpaid⟩ := paid_of_commits hs hgrants hnow (.inl rfl) hcommits
    (hmakes.proceeds hs.wellTyped)
  exact ⟨plan, t, hcommits, hresult, hpaid⟩

variable {w : World} {i : Nat} {policy : RetryPolicy}

/-- **A duplicate that is served alone pays.** -/
theorem turns_of_payer (hs : w.store.Regular) (hgrants : Grants w.store r) (hkey : r.key = some id)
    (hnow : now.IsNameable)
    (hc : w.clients[i]? = some ⟨.apply r, [], (apply policy r).program⟩) :
    ∃ v, World.Turns now i w v ∧ Paid r id w.store v.store ∧
      v.clients[i]? = some ⟨.apply r, [], .finish (.ok ⟨id, false⟩)⟩ := by
  obtain ⟨plan, t, hcommits, hresult, hpaid⟩ := exists_payment hs hgrants hkey hnow
  -- It asks for the time, reads what it needs, and commits.
  rw [program_apply_keyed hgrants hkey] at hc
  obtain ⟨hclient, hstore⟩ := World.step_now hc hnow
  simp only [tries_succ, Snapshot.read] at hclient
  obtain ⟨k, hread, hsame⟩ := World.after_extend hnow _ _ hclient
  rw [hstore] at hread hsame
  have hcommitting := hread.trans (congrArg (fun p => some (Client.mk (.apply r) [] p))
    (conclude_of_commits hcommits))
  obtain ⟨hclient', hstore'⟩ := World.step_commit hcommitting hnow
    ((congrArg (fun s : Store => s.commit _ _) hsame).trans
      (Store.commit_atOnce.trans hcommits.applied))
  refine ⟨_, ((World.Turns.one now i w).trans ⟨k, rfl⟩).trans (.one now i _), ?_, ?_⟩
  · rw [hstore']
    exact hpaid
  · exact hclient'.trans (congrArg
      (fun receipt => some (Client.mk (.apply r) [] (.finish (.ok receipt)))) hresult)

/-- A duplicate that looks for the record before the payment goes on to the accounts. -/
theorem turns_of_late (hgrants : Grants w.store r) (hkey : r.key = some id)
    (hnow : now.IsNameable)
    (hc : w.clients[i]? = some ⟨.apply r, [], (apply policy r).program⟩) :
    ∃ v, World.Turns now i w v ∧ v.store = w.store ∧
      v.clients[i]? = some ⟨.apply r, [], lateProgram r id now (policy.limit - 1) 0⟩ := by
  rw [program_apply_keyed hgrants hkey] at hc
  obtain ⟨hclient, hstore⟩ := World.step_now hc hnow
  simp only [tries_keys] at hclient
  obtain ⟨hclient', hstore'⟩ := World.step_read hclient hnow
  rw [hstore, hgrants.unrecorded id hkey] at hclient'
  exact ⟨_, (World.Turns.one now i w).trans (.one now i _), hstore'.trans hstore, hclient'⟩

/-- **A duplicate that reads the accounts after the payment is refused**, when they do not bear the
request twice. -/
theorem turns_of_refused {left made : Nat} (hs : s.Regular) (hgrants : Grants s r)
    (hpaid : Paid r id s w.store) (hshort : ¬ BearsTwice s r) (hnow : now.IsNameable)
    (hc : w.clients[i]? = some ⟨.apply r, [], lateProgram r id time left made⟩) :
    ∃ v e, World.Turns now i w v ∧ v.clients[i]? = some ⟨.apply r, [], .finish (.error e)⟩ := by
  obtain ⟨e, hdecision⟩ := decide_lateSnapshot time hpaid hs hgrants hshort
  have hconclude : conclude (keys r id) (decide r id time) left made (lateSnapshot r id w.store) =
      .finish (.error e) := by
    simp only [conclude, hdecision]
  obtain ⟨k, hread, -⟩ := World.after_extend hnow _ _ hc
  exact ⟨_, e, ⟨k, rfl⟩,
    hread.trans (congrArg (fun p => some (Client.mk (.apply r) [] p)) hconclude)⟩

variable {n : Nat}

/-- Duplicates lead from one world to another. -/
def Leads (w : World) (r : TransactionRequest) (n : Nat) (u v : World) : Prop :=
  ∃ es, (∀ e ∈ es, IsDuplicate w r n e) ∧ v = u.after es

theorem Leads.trans {u v v' : World} (h : Leads w r n u v) (h' : Leads w r n v v') :
    Leads w r n u v' := by
  obtain ⟨es, hes, rfl⟩ := h
  obtain ⟨es', hes', rfl⟩ := h'
  exact ⟨es ++ es', List.forall_mem_append.2 ⟨hes, hes'⟩, (u.after_append es es').symm⟩

theorem leads_of_turns {u v : World} (hi : w.clients.length ≤ i) (h : World.Turns now i u v) :
    Leads w r n u v := by
  obtain ⟨k, rfl⟩ := h
  refine ⟨_, fun e he => ?_, rfl⟩
  rw [List.eq_of_mem_replicate he]
  exact ⟨hi, rfl⟩

/-- Two duplicates come in. -/
theorem exists_waiting (w : World) (r : TransactionRequest) (n : Nat) : ∃ v, Leads w r n w v ∧
    v.store = w.store ∧ v.clients.length = w.clients.length + 2 ∧
    ∀ i, w.clients.length ≤ i → i < v.clients.length →
      v.clients[i]? = some ⟨.apply r, [], (apply ⟨n⟩ r).program⟩ := by
  let comes : Event := .called ⟨n⟩ (.apply r)
  have hcomes : ∀ v : World, v.step comes =
      { v with clients := v.clients ++ [⟨.apply r, [], (apply ⟨n⟩ r).program⟩] } :=
    fun v => if_pos (Nat.two_pow_pos 63)
  refine ⟨(w.step comes).step comes, ⟨[comes, comes], ?_, rfl⟩, ?_, ?_, ?_⟩
  · intro e he
    rcases List.mem_pair.1 he with rfl | rfl
    all_goals exact ⟨le_refl n, rfl⟩
  · rw [hcomes, hcomes]
    rfl
  · simp [hcomes]
  · intro i hi hlength
    simp only [hcomes, List.length_append, List.length_singleton] at hlength ⊢
    rw [List.append_assoc, List.getElem?_append_right hi]
    rcases (show i = w.clients.length ∨ i = w.clients.length + 1 by omega) with rfl | rfl
    · simp
    · simp

/-- **A refusal that comes too late.** There is a race of two duplicates in which one of them pays,
and the other one is refused. -/
theorem exists_refused (hs : w.store.Regular) (hgrants : Grants w.store r) (hkey : r.key = some id)
    (hshort : ¬ BearsTwice w.store r) : ∃ race : List Event,
      (∀ e ∈ race, IsDuplicate w r n e) ∧
      (w.after race).clients.length = w.clients.length + 2 ∧
      (w.after race).AllAnswered w.clients.length ∧
      ∃ e, (w.after race).receipt? w.clients.length = some (.error e) := by
  obtain ⟨now, hnow⟩ : ∃ now : Instant, now.IsNameable := ⟨⟨0, 0⟩, by decide⟩
  obtain ⟨v₀, hleads, hstore, hlength₀, hwaiting⟩ := exists_waiting w r n
  obtain ⟨late, hlate⟩ : ∃ late, late = w.clients.length := ⟨_, rfl⟩
  have hne : late ≠ late + 1 := by omega
  rw [← hstore] at hs hgrants
  -- The late one looks for the record, and the other one pays.
  obtain ⟨v₁, hturns₁, hstore₁, hlate₁⟩ := turns_of_late hgrants hkey hnow
    (hwaiting late hlate.ge (by omega))
  rw [← hstore₁] at hs hgrants
  obtain ⟨v₂, hturns₂, hpaid, hpayer₂⟩ := turns_of_payer hs hgrants hkey hnow
    ((hturns₁.others hne.symm).trans (hwaiting (late + 1) (by omega) (by omega)))
  rw [hstore₁, hstore] at hs hgrants hpaid
  -- Then the late one reads the accounts.
  obtain ⟨v₃, e, hturns₃, hlate₃⟩ := turns_of_refused hs hgrants hpaid hshort hnow
    ((hturns₂.others hne).trans hlate₁)
  have hpayer₃ := (hturns₃.others hne.symm).trans hpayer₂
  have hlength : v₃.clients.length = w.clients.length + 2 := by
    rw [hturns₃.length, hturns₂.length, hturns₁.length, hlength₀]
  obtain ⟨race, hrace, rfl⟩ := ((hleads.trans (leads_of_turns hlate.ge hturns₁)).trans
    (leads_of_turns (by omega) hturns₂)).trans (leads_of_turns hlate.ge hturns₃)
  refine ⟨race, hrace, hlength, fun j hj hj' => ?_, e, ?_⟩
  · rcases (show j = late ∨ j = late + 1 by omega) with rfl | rfl
    · exact ⟨_, by rw [World.answer?, hlate₃]; rfl⟩
    · exact ⟨_, by rw [World.answer?, hpayer₃]; rfl⟩
  · rw [World.receipt?, ← hlate, hlate₃]
    rfl

end Ledger

/-! ## The main statement -/

open Ledger (Applied BearsTwice Grants IsDuplicate PaidBy)

/-- **Duplicates of a request pay once.** Take a world that the engine has reached, and a request
under a key that is granted there. Let some clients send it, each with at least as many attempts as
there are of them, and let nothing else happen. In whatever order their requests are served, it is
applied once or not at all. When all of them have their answers it is applied, and the one that has
paid is told so. This comes about if they are served again and again.

All others are told of the payment, in every race, if and only if there is only one client or the
accounts bear the request twice. Otherwise a client may be refused that has looked for the record
before the payment and reads the accounts after it. -/
theorem duplicates_pay_once (ttl : Int) (es : List Event) {w : World} {r : TransactionRequest}
    {id : String} {n : Nat} (hreached : w = (World.initial ttl).after es)
    (hgrants : Grants w.store r) (hkey : r.key = some id) :
    (∀ race : List Event, (∀ e ∈ race, IsDuplicate w r n e) →
      (w.after race).clients.length ≤ w.clients.length + n →
      (w.after race).store = w.store ∨ ∃ now, Applied r id now w.store (w.after race).store) ∧
    (∀ race : List Event, (∀ e ∈ race, IsDuplicate w r n e) →
      (w.after race).clients.length ≤ w.clients.length + n →
      w.clients.length < (w.after race).clients.length →
      (w.after race).AllAnswered w.clients.length →
      ∃ payer, PaidBy w r id (w.after race) payer) ∧
    (∀ (race : Nat → Event) (start : Nat), (∀ m, IsDuplicate w r n (race m)) →
      (∀ m ≥ start, ∀ policy call, race m ≠ .called policy call) →
      (w.afterFirst race start).clients.length ≤ w.clients.length + n →
      w.clients.length < (w.afterFirst race start).clients.length →
      (∀ i, w.clients.length ≤ i → i < (w.afterFirst race start).clients.length →
        w.KeepsServing race i) →
      ∃ m ≥ start, ∃ payer, PaidBy w r id (w.afterFirst race m) payer) ∧
    ((∀ (race : List Event) (payer : Nat), (∀ e ∈ race, IsDuplicate w r n e) →
      (w.after race).clients.length ≤ w.clients.length + n →
      PaidBy w r id (w.after race) payer →
      ∀ i, w.clients.length ≤ i → i < (w.after race).clients.length → i ≠ payer →
        (w.after race).receipt? i = some (.ok ⟨id, true⟩)) ↔
      n ≤ 1 ∨ BearsTwice w.store r) := by
  have hw : w.Sound := by
    rw [hreached]
    exact World.sound_after ttl es
  have hs : w.store.Regular := by
    rw [hreached]
    exact World.regular_after ttl es
  have hpaidBy : ∀ race : List Event, (∀ e ∈ race, IsDuplicate w r n e) →
      (w.after race).clients.length ≤ w.clients.length + n →
      w.clients.length < (w.after race).clients.length →
      (w.after race).AllAnswered w.clients.length →
      ∃ payer, PaidBy w r id (w.after race) payer := by
    intro race hrace hbound hduplicates hall
    obtain ⟨payer, h⟩ := Ledger.paymentAt_after hw hs hgrants hkey hrace hbound
    exact h.paidBy (hgrants.unrecorded id hkey) hduplicates hall
  refine ⟨?_, hpaidBy, ?_, ?_, ?_⟩
  · intro race hrace hbound
    obtain ⟨payer, h⟩ := Ledger.paymentAt_after hw hs hgrants hkey hrace hbound
    cases payer with
    | none => exact .inl (h.unpaid rfl)
    | some j => exact .inr (h.paid j rfl).2.2.applied
  · exact fun race start => Ledger.paidBy_in_the_end hw hs hgrants hkey
  · intro hreplayed
    by_contra hshort
    obtain ⟨hn, htwice⟩ := not_or.1 hshort
    obtain ⟨race, hrace, hlength, hall, e, hrefused⟩ :=
      Ledger.exists_refused (n := n) hs hgrants hkey htwice
    have hbound : (w.after race).clients.length ≤ w.clients.length + n := by omega
    obtain ⟨payer, hpaid⟩ := hpaidBy race hrace hbound (by omega) hall
    by_cases hpayer : w.clients.length = payer
    · cases hrefused.symm.trans (hpayer ▸ hpaid.receipt)
    · cases hrefused.symm.trans
        (hreplayed race payer hrace hbound hpaid _ le_rfl (by omega) hpayer)
  · exact fun henough race payer _ hbound hpaid i => hpaid.replayed hbound henough

/-! ## Two fines -/

/-- A penalty that is taken under a key, from an account with five tokens on it. -/
def fineOf (amount : UInt64) : TransactionRequest :=
  { TransactionRequest.plain .penalty (some "ana") none amount with key := some "fine" }

/-- The engine after the `prize`. -/
def prizeWorld : World := (World.initial 0).after (walkBegun ++ Ledger.prize)

/-- After the `prize` four clients have come in, Ana has five tokens, and the key is not in use. -/
theorem prizeWorld_start : prizeWorld.clients.length = 4 ∧
    prizeWorld.store.get? Account (Ledger.accountKey "ana") =
      some ⟨"ana", 5, ⟨1700000000, 0⟩⟩ ∧
    prizeWorld.store.read? (Ledger.transactionKey "fine") = none := by
  decide +kernel

/-- Whose turn it is in a race: the first client looks for the record, the second one runs to its
end, and then the first one goes on. -/
def lateTurns : List Nat := [4, 4, 5, 5, 5, 5, 4, 4, 4, 4]

/-- A race in which two clients send a request. -/
def lateRace (r : TransactionRequest) : List Event :=
  List.replicate 2 (.called ⟨2⟩ (.apply r)) ++
    lateTurns.map fun i => .served i ⟨none, ⟨1700000002, 0⟩, ""⟩

theorem isDuplicate_lateRace (r : TransactionRequest) :
    ∀ e ∈ lateRace r, IsDuplicate prizeWorld r 2 e := by
  obtain ⟨hfirst, -⟩ := prizeWorld_start
  have hturns : ∀ i ∈ lateTurns, 4 ≤ i := by decide
  intro e he
  rcases List.mem_append.1 he with he | he
  · rw [List.eq_of_mem_replicate he]
    exact ⟨le_rfl, rfl⟩
  · obtain ⟨i, hi, rfl⟩ := List.mem_map.1 he
    exact ⟨hfirst.trans_le (hturns i hi), rfl⟩

/-- A fine of up to five tokens is granted. -/
theorem grants_fineOf {amount : UInt64} (hpositive : 1 ≤ amount.toNat) (hsmall : amount.toNat ≤ 5) :
    Grants prizeWorld.store (fineOf amount) := by
  obtain ⟨-, haccount, hnew⟩ := prizeWorld_start
  have hnamed : "ana" ≠ "" := by decide
  refine ⟨⟨hpositive, hsmall.trans (by decide), hnamed⟩, ?_, ⟨?_, nofun⟩⟩
  · rintro key ⟨⟩
    exact hnew
  · rintro subject ⟨⟩
    exact ⟨_, haccount, Int.ofNat_le.2 hsmall⟩

/-- A fine of two tokens, sent twice, is paid once, and the late client is told of the payment. -/
theorem fine_paid_once_in_lateRace :
    (prizeWorld.after (lateRace (fineOf 2))).AllAnswered prizeWorld.clients.length ∧
    ∃ payer, PaidBy prizeWorld (fineOf 2) "fine" (prizeWorld.after (lateRace (fineOf 2))) payer ∧
      ∀ i, prizeWorld.clients.length ≤ i →
        i < (prizeWorld.after (lateRace (fineOf 2))).clients.length → i ≠ payer →
        (prizeWorld.after (lateRace (fineOf 2))).receipt? i = some (.ok ⟨"fine", true⟩) := by
  have hrun : (prizeWorld.after (lateRace (fineOf 2))).clients.length = 6 ∧
      (prizeWorld.after (lateRace (fineOf 2))).answer? 4 = some (.ok ()) ∧
      (prizeWorld.after (lateRace (fineOf 2))).answer? 5 = some (.ok ()) := by
    decide +kernel
  obtain ⟨hlast, hlate, hpayer⟩ := hrun
  obtain ⟨hfirst, haccount, -⟩ := prizeWorld_start
  have hall : (prizeWorld.after (lateRace (fineOf 2))).AllAnswered prizeWorld.clients.length := by
    intro i hi hlength
    rcases (show i = 4 ∨ i = 5 by omega) with rfl | rfl
    · exact ⟨_, hlate⟩
    · exact ⟨_, hpayer⟩
  have htwice : BearsTwice prizeWorld.store (fineOf 2) := by
    refine ⟨?_, nofun⟩
    rintro subject ⟨⟩ a ha
    cases ha.symm.trans haccount
    decide
  have hrace := isDuplicate_lateRace (fineOf 2)
  obtain ⟨-, hpaid, -, hreplayed⟩ := @duplicates_pay_once 0 (walkBegun ++ Ledger.prize) prizeWorld
    (fineOf 2) "fine" 2 rfl (grants_fineOf (by decide) (by decide)) rfl
  obtain ⟨payer, h⟩ := hpaid _ hrace (by omega) (by omega) hall
  exact ⟨hall, payer, h, hreplayed.2 (.inr htwice) _ payer hrace (by omega) h⟩

/-- A fine of three tokens is granted, and two clients send it. It is paid, but the late client is
told that the account does not cover it. -/
theorem fine_refused_in_lateRace :
    Grants prizeWorld.store (fineOf 3) ∧ (fineOf 3).key = some "fine" ∧
    (∀ e ∈ lateRace (fineOf 3), IsDuplicate prizeWorld (fineOf 3) 2 e) ∧
    prizeWorld.clients.length = 4 ∧
    (prizeWorld.after (lateRace (fineOf 3))).clients.length = 6 ∧
    (prizeWorld.after (lateRace (fineOf 3))).receipt? 4 =
      some (.error (.insufficientBalance "ana" 2 3)) ∧
    (prizeWorld.after (lateRace (fineOf 3))).receipt? 5 = some (.ok ⟨"fine", false⟩) ∧
    (prizeWorld.after (lateRace (fineOf 3))).store.read? (Ledger.transactionKey "fine") ≠ none := by
  refine ⟨grants_fineOf (by decide) (by decide), rfl, isDuplicate_lateRace _,
    prizeWorld_start.1, ?_⟩
  decide +kernel

end RitualLedger
