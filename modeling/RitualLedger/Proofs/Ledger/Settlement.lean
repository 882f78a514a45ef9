import RitualLedger.Proofs.Engine.Answers
import RitualLedger.Proofs.Ledger.Duplicates

/-!
# A payment is made once

Any number of clients send the same request under the same key, and nothing else happens: duplicates
come in, and each of their requests is served at some point, in any order. `PaymentAt` is the
invariant of such a run. It says who has paid, if anyone has. As long as nobody has, the store is as
it was at the start; and when someone has, no other duplicate writes anything.

So the payment is made exactly once, whatever the order, by the one duplicate that is told so
(`Ledger.PaymentAt.paidBy`). All others are answered from the record, if the accounts bear the
request twice (`Ledger.PaidBy.replayed`). And all have their answers in the end, if they are served
again and again (`Ledger.paidBy_in_the_end`).
-/

namespace RitualLedger

open Ledger (Applied BearsTwice Grants MissesPayment Paid SecondRefusal SeesPayment)

/-! ## Receipts -/

/-- What a client has been answered to a request for a transaction. -/
def Client.receipt? : Client → Option (Except EngineError Receipt)
  | ⟨.apply _, _, .finish answer⟩ => some answer
  | _ => none

/-- The receipt of the client at a place. -/
def World.receipt? (w : World) (i : Nat) : Option (Except EngineError Receipt) :=
  w.clients[i]?.bind (·.receipt?)

/-- No client goes away. -/
theorem World.length_le_step (w : World) (e : Event) :
    w.clients.length ≤ (w.step e).clients.length := by
  by_contra! hlt
  obtain ⟨c, hc, -⟩ := client_stays (List.getElem?_eq_getElem hlt) e
  exact absurd (List.getElem?_eq_some_iff.1 hc).1 (lt_irrefl _)

/-- What is to hold of the answer to a duplicate. -/
def DuplicateAnswer (r : TransactionRequest) (id : String) (s : Store) :
    (call : Call) → Except EngineError call.Result → Bool → Store → Prop
  | .apply _ => Operation.either (MissesPayment r id s) (SeesPayment r id s)
  | _ => fun _ _ _ => False

/-- A client has sent the request, and keeps to what duplicates do. -/
def Client.Pays (n : Nat) (r : TransactionRequest) (id : String) (s₀ : Store) (c : Client)
    (paid : Bool) (s : Store) : Prop :=
  c.call = .apply r ∧ c.rest.Keeps (.paying n r id s₀) (DuplicateAnswer r id s₀ c.call) paid s

namespace Client.Pays

variable {n : Nat} {r : TransactionRequest} {id : String} {s₀ s t : Store} {c : Client}
  {paid : Bool}

/-- A duplicate that has not paid goes on after another one has. -/
theorem overtaken (h : c.Pays n r id s₀ false s) (hn : 2 ≤ n) (hle : s ≤ t)
    (hpaid : Paid r id s₀ t) : c.Pays n r id s₀ false t := by
  obtain ⟨call, own, rest⟩ := c
  obtain ⟨rfl, hkeeps⟩ := h
  refine ⟨rfl, hkeeps.moved (.inr ⟨hn, hle, hpaid⟩) ?_⟩
  rintro (e | receipt) hanswer
  · exact ⟨rfl, hanswer.2.1, hpaid⟩
  · exact ⟨hanswer.1, hpaid⟩

/-- A duplicate that has its answer has its receipt, or was refused. -/
theorem receipt (h : c.Pays n r id s₀ paid s) {answer : Except EngineError Unit}
    (hanswer : c.answer? = some answer) : Paid r id s₀ s ∧
      (c.receipt? = some (.ok ⟨id, !paid⟩) ∨
        paid = false ∧ ∃ e, c.receipt? = some (.error e) ∧ SecondRefusal s₀ r e) := by
  obtain ⟨call, own, rest⟩ := c
  obtain ⟨rfl, hkeeps⟩ := h
  cases rest with
  | read | commit | append | query | openPrompt | takePrompt | now | freshId => cases hanswer
  | finish result =>
    cases result with
    | error e => exact ⟨hkeeps.2.2, .inr ⟨hkeeps.1, e, rfl, hkeeps.2.1⟩⟩
    | ok receipt =>
      obtain ⟨rfl, hpaid⟩ := hkeeps
      exact ⟨hpaid, .inl rfl⟩

end Client.Pays

/-! ## Payments under way -/

namespace Ledger

/-- The events of a race of duplicates, some in all, that begins in a world: a duplicate comes in,
with at least as many attempts, or one is served, and the store is not locked. -/
def IsDuplicate (w : World) (r : TransactionRequest) (n : Nat) : Event → Prop
  | .called policy call => n ≤ policy.maxAttempts ∧ call = .apply r
  | .served i chance => w.clients.length ≤ i ∧ chance.refusal = none

/-- How a payment stands in a race that has begun in a world, and who has made it, if anyone has. -/
structure PaymentAt (w : World) (r : TransactionRequest) (id : String) (n : Nat)
    (payer : Option Nat) (v : World) : Prop where
  pays : ∀ i c, w.clients.length ≤ i → v.clients[i]? = some c →
    c.Pays n r id w.store (Decidable.decide (payer = some i)) v.store
  unpaid : payer = none → v.store = w.store
  paid : ∀ i, payer = some i → w.clients.length ≤ i ∧ i < v.clients.length ∧
    Paid r id w.store v.store

variable {w v : World} {r : TransactionRequest} {id : String} {n : Nat} {payer : Option Nat}
  {i j : Nat} {c : Client} {chance : Chance}

theorem paymentAt_start (w : World) (r : TransactionRequest) (id : String) (n : Nat) :
    PaymentAt w r id n none w where
  pays i c hi hc := absurd (List.getElem?_eq_some_iff.1 hc).1 (Nat.not_lt.2 hi)
  unpaid _ := rfl
  paid _ h := by cases h

namespace PaymentAt

/-- Two duplicates are among those that there are. -/
theorem two_le (hbound : v.clients.length ≤ w.clients.length + n) (hi : w.clients.length ≤ i)
    (hj : w.clients.length ≤ j) (hi' : i < v.clients.length) (hj' : j < v.clients.length)
    (hij : i ≠ j) : 2 ≤ n := by
  omega

/-- A race moves the store as a duplicate relies on that is not the payer. -/
theorem moves (h : PaymentAt w r id n payer v)
    (hbound : payer ≠ none → 2 ≤ n) {paid : Bool} :
    (Contract.paying n r id w.store).moves paid w.store v.store := by
  cases payer with
  | none => exact .inl (h.unpaid rfl)
  | some j =>
    obtain ⟨-, -, hpaid⟩ := h.paid j rfl
    exact .inr ⟨hbound nofun, hpaid.proceeds.evolves.le, hpaid⟩

/-- Another duplicate comes in. -/
theorem called (h : PaymentAt w r id n payer v) (hs : w.store.Regular) (hgrants : Grants w.store r)
    (hkey : r.key = some id) {policy : RetryPolicy} {call : Call}
    (hduplicate : IsDuplicate w r n (.called policy call))
    (hbound : (v.step (.called policy call)).clients.length ≤ w.clients.length + n) :
    PaymentAt w r id n payer (v.step (.called policy call)) := by
  have hstore := v.store_called policy call
  have hstays := v.length_le_step (.called policy call)
  refine ⟨fun i c hi hc => ?_, fun hnone => hstore.trans (h.unpaid hnone), fun i hpayer => ?_⟩
  · rw [hstore]
    cases v.turn i (.called policy call) with
    | pause hclient => exact h.pays i c hi (hclient.symm.trans hc)
    | served _ _ he => cases he
    | entry policy' call' hnone hclient _ he =>
      cases he
      cases hc.symm.trans hclient
      obtain ⟨hattempts, rfl⟩ := hduplicate
      -- Whoever has paid was there before.
      have hothers : ∀ j, payer = some j → j ≠ i ∧ 2 ≤ n := by
        intro j hpayer
        obtain ⟨hj, hlength, -⟩ := h.paid j hpayer
        have hij : j ≠ i := by
          rintro rfl
          rw [List.getElem?_eq_getElem hlength] at hnone
          cases hnone
        exact ⟨hij, two_le hbound hj hi (hlength.trans_le hstays)
          (List.getElem?_eq_some_iff.1 hc).1 hij⟩
      have hphase : Decidable.decide (payer = some i) = false :=
        decide_eq_false fun hpayer => (hothers i hpayer).1 rfl
      rw [hphase]
      refine ⟨rfl, keeps_apply_paying hs hgrants hkey hattempts (h.moves fun hsome => ?_)⟩
      obtain ⟨j, hpayer⟩ := Option.ne_none_iff_exists'.1 hsome
      exact (hothers j hpayer).2
  · obtain ⟨hi, hlength, hpaid⟩ := h.paid i hpayer
    rw [hstore]
    exact ⟨hi, hlength.trans_le hstays, hpaid⟩

/-- A duplicate has had a turn and written nothing. -/
theorem idle (h : PaymentAt w r id n payer v)
    (hc : (v.step (.served j chance)).clients[j]? = some c)
    (hsame : (v.step (.served j chance)).store = v.store)
    (hpays : c.Pays n r id w.store (Decidable.decide (payer = some j)) v.store) :
    PaymentAt w r id n payer (v.step (.served j chance)) := by
  refine ⟨fun i c₀ hi hc₀ => ?_, fun hnone => hsame.trans (h.unpaid hnone), fun i hpayer => ?_⟩
  · rw [hsame]
    by_cases hij : i = j
    · subst hij
      cases hc.symm.trans hc₀
      exact hpays
    · rw [World.client_of_other hij] at hc₀
      exact h.pays i c₀ hi hc₀
  · rw [hsame, World.length_of_served]
    exact h.paid i hpayer

/-- A duplicate has had a turn and paid. Nobody else has paid before. -/
theorem settled (h : PaymentAt w r id n payer v) (hv : v.Sound)
    (hbound : v.clients.length ≤ w.clients.length + n) (hj : w.clients.length ≤ j)
    (hc : (v.step (.served j chance)).clients[j]? = some c) (hfirst : v.store = w.store)
    (hnew : w.store.read? (transactionKey id) = none)
    (hpaid : Paid r id w.store (v.step (.served j chance)).store)
    (hpays : c.Pays n r id w.store true (v.step (.served j chance)).store) :
    PaymentAt w r id n (some j) (v.step (.served j chance)) := by
  have hlength : j < v.clients.length := by
    rw [← World.length_of_served]
    exact (List.getElem?_eq_some_iff.1 hc).1
  have hnobody : payer = none := by
    refine Option.eq_none_iff_forall_ne_some.2 fun i hpayer => ?_
    obtain ⟨-, -, hbefore⟩ := h.paid i hpayer
    exact hbefore.recorded (hfirst ▸ hnew)
  refine ⟨fun i c₀ hi hc₀ => ?_, nofun, ?_⟩
  · by_cases hij : i = j
    · subst hij
      cases hc.symm.trans hc₀
      rw [decide_eq_true rfl]
      exact hpays
    · rw [World.client_of_other hij] at hc₀
      have hothers := h.pays i c₀ hi hc₀
      rw [hnobody, decide_eq_false nofun] at hothers
      rw [decide_eq_false fun heq => hij (Option.some.inj heq).symm]
      have hn := two_le hbound hi hj (List.getElem?_eq_some_iff.1 hc₀).1 hlength hij
      exact hothers.overtaken hn (hv.proceeds _).evolves.le hpaid
  · rintro i ⟨⟩
    rw [World.length_of_served]
    exact ⟨hj, hlength, hpaid⟩

/-- A duplicate is served. It may pay, if nobody else has. -/
theorem served (h : PaymentAt w r id n payer v) (hv : v.Sound)
    (hbound : v.clients.length ≤ w.clients.length + n)
    (hnew : w.store.read? (transactionKey id) = none)
    (hduplicate : IsDuplicate w r n (.served j chance)) :
    ∃ payer', PaymentAt w r id n payer' (v.step (.served j chance)) := by
  obtain ⟨hj, hrefusal⟩ := hduplicate
  cases hc : v.clients[j]? with
  | none =>
    rw [World.step_of_absent hc]
    exact ⟨payer, h⟩
  | some c =>
    obtain ⟨hcall, hkeeps⟩ := h.pays j c hj hc
    have hrefuses : ∀ chance', Event.served j chance = .served j chance' →
        ∀ err ∈ chance'.refusal, (Contract.paying n r id w.store).refuses err := by
      rintro _ ⟨⟩ err herr
      cases hrefusal.symm.trans herr
    obtain ⟨c', paid, hc', hcall', hkeeps', hgives⟩ := hv.keeps_step
      (DuplicateAnswer r id w.store) hc hkeeps (.served j chance) hrefuses (fun h => h)
      fun helsewhere => absurd rfl (helsewhere chance)
    have hpays : c'.Pays n r id w.store paid (v.step (.served j chance)).store :=
      ⟨hcall'.trans hcall, hkeeps'⟩
    rcases hgives with ⟨rfl, hsame | helsewhere⟩ | ⟨-, rfl, hfirst, hpaid⟩
    · rw [hsame] at hpays
      exact ⟨payer, h.idle hc' hsame hpays⟩
    · exact absurd rfl (helsewhere chance)
    · exact ⟨some j, h.settled hv hbound hj hc' hfirst hnew hpaid hpays⟩

end PaymentAt

/-- **In a race of duplicates someone has paid, or nothing has changed.** -/
theorem paymentAt_after (hw : w.Sound) (hs : w.store.Regular) (hgrants : Grants w.store r)
    (hkey : r.key = some id) {es : List Event} (hrace : ∀ e ∈ es, IsDuplicate w r n e)
    (hbound : (w.after es).clients.length ≤ w.clients.length + n) :
    ∃ payer, PaymentAt w r id n payer (w.after es) := by
  induction es using List.reverseRecOn with
  | nil => exact ⟨none, paymentAt_start w r id n⟩
  | append_singleton es e ih =>
    rw [World.after_concat] at hbound ⊢
    have hbefore := ((w.after es).length_le_step e).trans hbound
    obtain ⟨payer, h⟩ := ih (fun e he => hrace e (List.mem_append_left _ he)) hbefore
    have he := hrace e (List.mem_append_right _ List.mem_cons_self)
    cases e with
    | called policy call => exact ⟨payer, h.called hs hgrants hkey he hbound⟩
    | served j chance => exact h.served (hw.after es) hbefore (hgrants.unrecorded id hkey) he

/-! ## Payments that are made -/

/-- The duplicate at a place has paid, once, and was told so. Every other one was answered from the
record, or refused as a second payment would be. -/
structure PaidBy (w : World) (r : TransactionRequest) (id : String) (v : World) (payer : Nat) :
    Prop where
  duplicate : w.clients.length ≤ payer
  receipt : v.receipt? payer = some (.ok ⟨id, false⟩)
  applied : ∃ now, Applied r id now w.store v.store
  others : ∀ i, w.clients.length ≤ i → i < v.clients.length → i ≠ payer →
    v.receipt? i = some (.ok ⟨id, true⟩) ∨
      ∃ e, v.receipt? i = some (.error e) ∧ SecondRefusal w.store r e

namespace PaidBy

variable {payer : Nat}

theorem payer_lt (h : PaidBy w r id v payer) : payer < v.clients.length := by
  obtain ⟨c, hc, -⟩ := Option.bind_eq_some_iff.1 h.receipt
  exact (List.getElem?_eq_some_iff.1 hc).1

/-- When there is nobody else, or the accounts bear the request twice, nobody is refused. -/
theorem replayed (h : PaidBy w r id v payer) (hbound : v.clients.length ≤ w.clients.length + n)
    (henough : n ≤ 1 ∨ BearsTwice w.store r) (hi : w.clients.length ≤ i)
    (hlength : i < v.clients.length) (hne : i ≠ payer) :
    v.receipt? i = some (.ok ⟨id, true⟩) := by
  refine (h.others i hi hlength hne).resolve_right ?_
  rintro ⟨e, -, hrefusal⟩
  have hpayer := h.duplicate
  have hpayer' := h.payer_lt
  refine hrefusal.not_bearsTwice (henough.resolve_left ?_)
  omega

end PaidBy

/-- What a duplicate has been told that has its answer. -/
theorem PaymentAt.receipt (h : PaymentAt w r id n payer v) (hi : w.clients.length ≤ i)
    {answer : Except EngineError Unit} (hanswer : v.answer? i = some answer) :
    Paid r id w.store v.store ∧
      (v.receipt? i = some (.ok ⟨id, !Decidable.decide (payer = some i)⟩) ∨
        payer ≠ some i ∧ ∃ e, v.receipt? i = some (.error e) ∧ SecondRefusal w.store r e) := by
  obtain ⟨c, hc, hanswer⟩ := Option.bind_eq_some_iff.1 hanswer
  obtain ⟨hpaid, hreceipt⟩ := (h.pays i c hi hc).receipt hanswer
  rw [World.receipt?, hc]
  exact ⟨hpaid, hreceipt.imp_right fun h => ⟨of_decide_eq_false h.1, h.2⟩⟩

/-- **When all duplicates have their answers one of them has paid.** -/
theorem PaymentAt.paidBy (h : PaymentAt w r id n payer v)
    (hnew : w.store.read? (transactionKey id) = none)
    (hduplicates : w.clients.length < v.clients.length)
    (hall : v.AllAnswered w.clients.length) : ∃ payer, PaidBy w r id v payer := by
  obtain ⟨answer, hanswer⟩ := hall _ le_rfl hduplicates
  obtain ⟨hpaid, -⟩ := h.receipt le_rfl hanswer
  obtain ⟨j, rfl⟩ : ∃ j, payer = some j := by
    refine Option.ne_none_iff_exists'.1 fun hnone => ?_
    rw [h.unpaid hnone] at hpaid
    exact hpaid.recorded hnew
  obtain ⟨hj, hlength, -⟩ := h.paid j rfl
  obtain ⟨answer, hanswer⟩ := hall j hj hlength
  obtain ⟨-, hreceipt⟩ := h.receipt hj hanswer
  refine ⟨j, hj, ?_, hpaid.applied, ?_⟩
  · rcases hreceipt with hreceipt | ⟨hne, -⟩
    · rw [decide_eq_true rfl] at hreceipt
      exact hreceipt
    · exact absurd rfl hne
  · intro i hi hlength hij
    obtain ⟨answer, hanswer⟩ := hall i hi hlength
    obtain ⟨-, hreceipt | ⟨-, hrefused⟩⟩ := h.receipt hi hanswer
    · rw [decide_eq_false fun heq => hij (Option.some.inj heq).symm] at hreceipt
      exact .inl hreceipt
    · exact .inr hrefused

/-- **A payment is made in the end.** The duplicates have come in and are served again and again. -/
theorem paidBy_in_the_end (hw : w.Sound) (hs : w.store.Regular) (hgrants : Grants w.store r)
    (hkey : r.key = some id) {race : Nat → Event} {start : Nat}
    (hrace : ∀ m, IsDuplicate w r n (race m))
    (hcalls : ∀ m ≥ start, ∀ policy call, race m ≠ .called policy call)
    (hbound : (w.afterFirst race start).clients.length ≤ w.clients.length + n)
    (hduplicates : w.clients.length < (w.afterFirst race start).clients.length)
    (hserved : ∀ i, w.clients.length ≤ i → i < (w.afterFirst race start).clients.length →
      w.KeepsServing race i) : ∃ m ≥ start, ∃ payer, PaidBy w r id (w.afterFirst race m) payer := by
  obtain ⟨m, hm, hlength, hall⟩ := World.allAnswered hcalls hserved
  have hevents : ∀ e ∈ (List.range m).map race, IsDuplicate w r n e := by
    intro e he
    obtain ⟨k, -, rfl⟩ := List.mem_map.1 he
    exact hrace k
  obtain ⟨payer, h⟩ := paymentAt_after hw hs hgrants hkey hevents (hlength.trans_le hbound)
  exact ⟨m, hm, h.paidBy (hgrants.unrecorded id hkey) (hlength ▸ hduplicates) hall⟩

end Ledger

end RitualLedger
