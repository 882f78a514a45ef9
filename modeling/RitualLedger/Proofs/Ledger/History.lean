import RitualLedger.Proofs.Engine.Told

/-!
# Histories

The history of a subject is the ledger backwards: of the transactions that were freshly applied it
shows those of the subject, latest first, up to a limit (`history_is_reversed_ledger`).

What was freshly applied is told by the acts of a run, and by the answers to its calls. Later acts
only put entries in front of a history.
-/

namespace RitualLedger

/-- Whether a subject is a party to a transaction, as its sender or its receiver. -/
def Transaction.HasParty (x : Transaction) (subject : String) : Prop :=
  x.senderId = some subject ∨ x.receiverId = some subject

instance (x : Transaction) (subject : String) : Decidable (x.HasParty subject) :=
  inferInstanceAs (Decidable (_ ∨ _))

/-- The transactions that a run has freshly applied, in the order of their commits. -/
def World.applied (w : World) (es : List Event) : List Transaction :=
  Act.transactions (w.allActs es)

namespace Ledger

/-! ## What a history shows -/

/-- All transactions of a subject of those that were applied, the latest first. -/
def latestFirst (subject : String) (applied : List Transaction) : List Transaction :=
  (applied.filter fun x => x.HasParty subject).reverse

/-- How many entries a limit lets through; none is above the greatest signed word. -/
def allowance (limit : UInt64) : Nat := min limit.toNat Int64.maxValue.toInt.toNat

variable {s : Store} {subject : String} {limit : UInt64} {applied later : List Transaction}
  {x : Transaction}

theorem mem_latestFirst : x ∈ latestFirst subject applied ↔ x ∈ applied ∧ x.HasParty subject := by
  rw [latestFirst, List.mem_reverse, List.mem_filter, decide_eq_true_eq]

/-- What is applied later stands in front. -/
theorem latestFirst_append : latestFirst subject (applied ++ later) =
    latestFirst subject later ++ latestFirst subject applied := by
  rw [latestFirst, List.filter_append, List.reverse_append]
  rfl

/-- When each transaction was applied once, it is shown once to each of its parties. -/
theorem count_latestFirst (hnodup : applied.Nodup) (hx : x ∈ applied) :
    (latestFirst subject applied).count x = if x.HasParty subject then 1 else 0 := by
  have hshown : (latestFirst subject applied).Nodup := List.nodup_reverse.2 (hnodup.filter _)
  split
  · rename_i hparty
    exact List.count_eq_one_of_mem hshown (mem_latestFirst.2 ⟨hx, hparty⟩)
  · rename_i hparty
    exact List.count_eq_zero_of_not_mem fun hmem => hparty (mem_latestFirst.1 hmem).2

/-- No limit cuts off more than it says, while transactions can be counted by signed words. -/
theorem take_allowance (hfew : applied.length < 2 ^ 63) :
    (latestFirst subject applied).take (allowance limit) =
      (latestFirst subject applied).take limit.toNat := by
  have hlength : (latestFirst subject applied).length ≤ applied.length := by
    rw [latestFirst, List.length_reverse]
    exact List.length_filter_le _ _
  have hlargest : Int64.maxValue.toInt.toNat = 2 ^ 63 - 1 := by decide
  rw [allowance, hlargest]
  rcases Nat.le_total limit.toNat (2 ^ 63 - 1) with hle | hle
  · rw [Nat.min_eq_left hle]
  · rw [Nat.min_eq_right hle, List.take_of_length_le (by omega), List.take_of_length_le (by omega)]

/-! ## The query -/

theorem isAnswerable_historyQuery : (historyQuery subject limit).IsAnswerable := by
  refine ⟨fun f hf => ?_, fun f hf => ?_, ?_⟩
  · cases hf
    change ∀ field ∈ ["sender_id", "receiver_id"], Filter.IsPath field
    decide
  · cases hf
    change 4 < Expression.maxHeight
    decide
  · change 6 ≤ Statement.maxArguments
    decide

/-- The query asks for the transactions to which the subject is a party. -/
theorem accepts_historyQuery (x : Transaction) :
    (historyQuery subject limit).accepts (encode x) = Decidable.decide (x.HasParty subject) := by
  have hlabels : ∀ fs, encode x = .obj fs → ∀ f ∈ fs, '\x00' ∉ f.1.toList := by
    rintro _ ⟨⟩
    simp
  have hsender : (Filter.eq "sender_id" (.str subject)).holds (encode x) =
      Decidable.decide (x.senderId = some subject) :=
    Filter.holds_eq_str ⟨by decide, by simp⟩ hlabels rfl
  have hreceiver : (Filter.eq "receiver_id" (.str subject)).holds (encode x) =
      Decidable.decide (x.receiverId = some subject) :=
    Filter.holds_eq_str ⟨by decide, by simp⟩ hlabels rfl
  rw [Query.accepts, historyQuery, Option.all_some, Filter.holds, Filter.anyHolds, Filter.anyHolds,
    Filter.anyHolds, hsender, hreceiver, Bool.or_false]
  exact (Bool.decide_or _ _).symm

/-- What a history shows of a store. -/
theorem queried_history (hs : s.Regular) (subject : String) (limit : UInt64) :
    queried Transaction (historyQuery subject limit) s =
      .ok ((latestFirst subject (s.all Transaction)).take (allowance limit)) := by
  rw [queried_of_isAnswerable isAnswerable_historyQuery]
  exact Query.decodeAll_selected hs.wellTyped hs.distinctKeys rfl Transaction.id (fun _ _ h => h)
    accepts_historyQuery

end Ledger

/-! ## Runs -/

namespace World

variable {ttl : Int} {es : List Event} {i : Nat} {subject : String} {limit : UInt64}

theorem applied_append (w : World) (es es' : List Event) :
    w.applied (es ++ es') = w.applied es ++ (w.after es).applied es' := by
  rw [applied, allActs_append, Act.transactions_append]
  rfl

/-- The ledger holds what was applied. -/
theorem all_eq_applied (ttl : Int) (es : List Event) :
    ((initial ttl).after es).store.all Transaction = (initial ttl).applied es :=
  (told_after ttl es).transactions

/-- No id is applied twice. -/
theorem nodup_applied (ttl : Int) (es : List Event) :
    (((initial ttl).applied es).map (·.id)).Nodup := by
  rw [← all_eq_applied]
  exact (regular_after ttl es).nodup_transactions

/-- What a history shows at a moment of a run. -/
theorem queried_history_after (ttl : Int) (es : List Event) (subject : String) (limit : UInt64) :
    queried Transaction (Ledger.historyQuery subject limit) ((initial ttl).after es).store =
      .ok ((Ledger.latestFirst subject ((initial ttl).applied es)).take
        (Ledger.allowance limit)) := by
  rw [Ledger.queried_history (regular_after ttl es), all_eq_applied]

/-- A client that has asked for a history is told what was applied up to one moment. -/
theorem told_history {own : List String}
    {answer : Except EngineError (Call.history subject limit).Result}
    (hc : ((initial ttl).after es).clients[i]? =
      some ⟨.history subject limit, own, .finish answer⟩) :
    ∃ earlier later, es = earlier ++ later ∧ ((initial ttl).after earlier).clients[i]? ≠ none ∧
      answer = .ok ((Ledger.latestFirst subject ((initial ttl).applied earlier)).take
        (Ledger.allowance limit)) := by
  obtain ⟨next, hprogram, hnext⟩ :=
    program_queryDocuments (α := Transaction) (Ledger.historyQuery subject limit)
  have hasks : ∀ policy, ((Call.history subject limit).operation policy).program =
      .query (Ledger.historyQuery subject limit) next := fun _ => hprogram
  rcases answered_at_once hasks hnext hc with hwaiting | ⟨earlier, later, rfl, hpresent, hanswer⟩
  · cases hwaiting
  · refine ⟨earlier, later, rfl, hpresent, ?_⟩
    exact (Program.finish.inj hanswer).trans (queried_history_after ttl earlier subject limit)

end World

/-- **A history is the ledger backwards.** After any run, and at the moment at which a client of the
run was answered, the history of a subject consists of the transactions of the subject that were
freshly applied so far, the latest first, up to the limit. A limit above the greatest signed word
counts as that word, which makes no difference where there are no more transactions than such a word
can count. Each is shown once to each of its parties and to nobody else. Who is told of success was
applied what it is told of, and nothing for a replay; who has failed was applied nothing; and every
transaction was booked for a client whose call may do so. What comes later stands in front, and
leaves the order as it was. -/
theorem Ledger.history_is_reversed_ledger (ttl : Int) (es : List Event) :
    let start := World.initial ttl
    let w := start.after es
    (∀ subject limit setting, setting.store = w.store →
      (history subject limit).run setting =
        (.ok ((latestFirst subject (start.applied es)).take (allowance limit)), setting)) ∧
    (∀ (i : Nat) subject limit own
        (answer : Except EngineError (Call.history subject limit).Result),
      w.clients[i]? = some (Client.mk (.history subject limit) own (.finish answer)) →
      ∃ earlier later, es = earlier ++ later ∧ (start.after earlier).clients[i]? ≠ none ∧
        answer =
          .ok ((latestFirst subject (start.applied earlier)).take (allowance limit))) ∧
    ((start.applied es).length < 2 ^ 63 → ∀ subject limit,
      (latestFirst subject (start.applied es)).take (allowance limit) =
        (latestFirst subject (start.applied es)).take limit.toNat) ∧
    (∀ x ∈ start.applied es, ∀ subject,
      (latestFirst subject (start.applied es)).count x = if x.HasParty subject then 1 else 0) ∧
    (∀ x, x ∈ start.applied es ↔ ∃ i, .applied x ∈ start.actsOf es i) ∧
    (∀ i x, .applied x ∈ start.actsOf es i →
      ∃ c ch, w.clients[i]? = some c ∧ start.Did es i (.applied x) c ch) ∧
    (∀ (i : Nat) (c : Client) answer, w.clients[i]? = some c → c.rest = .finish (.ok answer) →
      c.call.Tells w.store answer (start.actsOf es i)) ∧
    (∀ i e, w.failure? i = some e → start.actsOf es i = []) ∧
    ∀ subject later, latestFirst subject (start.applied (es ++ later)) =
      latestFirst subject (w.applied later) ++ latestFirst subject (start.applied es) := by
  intro start w
  refine ⟨?now, fun i subject limit own answer => World.told_history,
    fun hfew _ _ => take_allowance hfew, ?once,
    fun x => Act.mem_transactions.trans World.mem_allActs,
    fun i x h => World.mem_acts (World.mem_actsOf.1 h),
    fun i c answer hc => World.tells_of_answer hc, fun i e => World.actsOf_of_failure?, ?later⟩
  case now =>
    intro subject limit setting hstore
    have hrun := run_queryDocuments (α := Transaction) (historyQuery subject limit) setting
    rw [hstore, World.queried_history_after] at hrun
    exact hrun
  case once => exact fun x hx subject => count_latestFirst (World.nodup_applied ttl es).of_map hx
  case later =>
    intro subject later
    rw [World.applied_append, latestFirst_append]

/-- In `contested` the gift came last, behind the reward that a condition has asked for; the reward
of the task is older than both. The completion that was too late is in no history. -/
theorem Ledger.gift_shown_first_in_contested :
    let start := World.initial 0
    let setting : Setting := .still (start.after contested).store ⟨1700000001, 0⟩
    (∃ found, (history "ana" 2).run setting = (.ok found, setting) ∧
      found.map (fun x => (x.id, x.amount)) =
        [("gift", 5), ((Scope.completion contestedStep).key 0, 2)] ∧
      found = (latestFirst "ana" (start.applied contested)).take 2) ∧
    (start.after contested).failure? 4 ≠ none ∧ start.actsOf contested 4 = [] := by
  intro start setting
  have hrun : (start.applied contested).length < 2 ^ 63 ∧
      ((latestFirst "ana" (start.applied contested)).take 2).map (fun x => (x.id, x.amount)) =
        [("gift", 5), ((Scope.completion contestedStep).key 0, 2)] ∧
      (start.after contested).failure? 4 ≠ none := by
    decide +kernel
  obtain ⟨hfew, hshown, hlate⟩ := hrun
  obtain ⟨e, hfailed⟩ := Option.ne_none_iff_exists'.1 hlate
  obtain ⟨hnow, -, hlimit, -, -, -, -, hnothing, -⟩ := history_is_reversed_ledger 0 contested
  have hread := hnow "ana" 2 setting (Setting.store_still _ _)
  rw [hlimit hfew] at hread
  exact ⟨⟨_, hread, hshown, rfl⟩, hlate, hnothing 4 e hfailed⟩

end RitualLedger
