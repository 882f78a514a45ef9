import RitualLedger.Proofs.Document.Exchanged
import RitualLedger.Proofs.Time.Reading

/-!
# What is read fits

A document may be written in many ways: its fields in any order or in none, words by other
spellings, times in other zones, parts left out. Whatever it is, the value that is read from it is
one that can be written faithfully (`LegibleDocument`). So a document that is read and written again
stays as it is from then on (`roundTrips`).

A reader of parts `Gives` values with a property. Of most parts nothing needs to be known.
-/

namespace RitualLedger

/-- A type whose documents are read as values that fit into one. -/
class LegibleDocument (α : Type) [Document α] [LawfulDocument α] : Prop where
  fits_of_read? : ∀ {format : Format} {j : Json} {x : α}, Document.read? format j = some x → Fits x

export LegibleDocument (fits_of_read?)

namespace Document

/-! ## Readers of parts -/

/-- All values that a reader of parts gives have a property. -/
def Gives {α : Type} (reader : PartReader α) (p : α → Prop) : Prop :=
  ∀ format parts x rest, reader format parts = some (x, rest) → p x

section

variable {α β : Type} {p : α → Prop} {q : β → Prop} {name : String}

theorem Gives.pure {x : α} (h : p x) : Gives (Pure.pure x) p := by
  rintro format parts _ _ ⟨⟩
  exact h

theorem Gives.bind {reader : PartReader α} {next : α → PartReader β} (h : Gives reader p)
    (hnext : ∀ x, p x → Gives (next x) q) : Gives (reader >>= next) q := by
  intro format parts y rest hy
  obtain ⟨⟨x, rest'⟩, hx, hy⟩ := Option.bind_eq_some_iff.1 hy
  exact hnext x (h _ _ _ _ hx) _ _ _ _ hy

/-- Nothing needs to be known of a part. -/
theorem Gives.skip {reader : PartReader α} {next : α → PartReader β}
    (hnext : ∀ x, Gives (next x) q) : Gives (reader >>= next) q :=
  have hany : Gives reader fun _ => True := fun _ _ _ _ _ => trivial
  hany.bind fun x _ => hnext x

/-- A record has a property that its reader gives. -/
theorem of_record {reader : PartReader α} {format : Format} {j : Json} {x : α}
    (h : Gives reader p) (hread : record reader format j = some x) : p x := by
  cases j with
  | obj fields =>
    obtain ⟨⟨_, rest⟩, hx, rfl⟩ := Option.map_eq_some_iff.1 hread
    exact h _ _ _ _ hx
  | arr items =>
    simp only [record] at hread
    split at hread
    · rename_i x' rest hx
      split at hread
      · cases hread
        exact h _ _ _ _ hx
      · cases hread
    · cases hread
  | null | bool _ | int _ | real _ | str _ => cases hread

variable [Document α] [LawfulDocument α] [LegibleDocument α]

theorem Gives.required : Gives (required name) (Fits (α := α)) := by
  intro format parts x rest hx
  rw [Document.required] at hx
  split at hx
  · obtain ⟨_, hread, hx⟩ := Option.map_eq_some_iff.1 hx
    cases hx
    exact fits_of_read? hread
  · cases hx

theorem Gives.defaulted {default : α} (h : Fits default) : Gives (defaulted name default) Fits := by
  intro format parts x rest hx
  rw [Document.defaulted] at hx
  split at hx
  · obtain ⟨_, hread, hx⟩ := Option.map_eq_some_iff.1 hx
    cases hx
    exact fits_of_read? hread
  · cases hx
    exact h
  · cases hx

omit [LawfulDocument α] [LegibleDocument α] in
theorem Gives.optional [LawfulDocument (Option α)] [LegibleDocument (Option α)]
    (h : Fits (none : Option α)) : Gives (optional name) (Fits (α := Option α)) := by
  intro format parts x rest hx
  rw [Document.optional] at hx
  split at hx
  · exact Gives.defaulted h _ _ _ _ hx
  · exact Gives.required _ _ _ _ hx

end

/-! ## Times, lists and options -/

instance : LegibleDocument Instant where
  fits_of_read? {format j x} h := by
    cases j with
    | str s => exact Instant.isNameable_of_read? h
    | null | bool _ | int _ | real _ | arr _ | obj _ => cases h

@[simp] theorem fits_nil {α : Type} [Document α] [LawfulDocument α] : Fits ([] : List α) := by
  intro x hx
  cases hx

theorem fits_of_readItems? {α : Type} [Document α] [LawfulDocument α] [LegibleDocument α]
    {format : Format} {items : List Json} {xs : List α} (h : readItems? format items = some xs) :
    Fits xs := by
  induction items generalizing xs with
  | nil =>
    cases h
    exact fits_nil
  | cons j rest ih =>
    obtain ⟨x, hx, h⟩ := Option.bind_eq_some_iff.1 h
    obtain ⟨xs, hxs, h⟩ := Option.bind_eq_some_iff.1 h
    cases h
    intro y hy
    rcases List.mem_cons.1 hy with rfl | hy
    · exact fits_of_read? hx
    · exact ih hxs y hy

instance {α : Type} [Document α] [LawfulDocument α] [LegibleDocument α] :
    LegibleDocument (List α) where
  fits_of_read? {format j xs} h := by
    cases j with
    | arr items => exact fits_of_readItems? h
    | null | bool _ | int _ | real _ | str _ | obj _ => cases h

/-- What is read as an option is none, or is read as such. -/
theorem of_read?_option {α : Type} [Document α] [LawfulDocument α] [LegibleDocument α]
    {format : Format} {j : Json} {x : Option α} (h : read? format j = some x) :
    ∀ y ∈ x, Fits y := by
  have hsome : ∀ {j : Json}, (read? format j).map some = some x → ∀ y ∈ x, Fits y := by
    rintro j h _ ⟨⟩
    obtain ⟨y, hy, heq⟩ := Option.map_eq_some_iff.1 h
    cases heq
    exact fits_of_read? hy
  cases j with
  | null =>
    cases h
    exact nofun
  | bool _ | int _ | real _ | str _ | arr _ | obj _ => exact hsome h

instance : LegibleDocument (Option Instant) := ⟨of_read?_option⟩

theorem fits_no_time : Fits (none : Option Instant) := by
  intro t ht
  cases ht

end Document

open Document (of_record fits_nil fits_no_time)

/-! ## Conditions -/

/-- No known spelling is read as something else. -/
theorem lookup_of_getD {α : Type} {spellings : List (String × α)} {other : String → α}
    {text s : String} (hother : ∀ {s s' : String}, other s = other s' → s = s')
    (hknown : ∀ pair ∈ spellings, pair.2 ≠ other s)
    (h : (spellings.lookup text).getD (other text) = other s) : spellings.lookup s = none := by
  cases hlookup : spellings.lookup text with
  | none =>
    rw [hlookup] at h
    exact hother h ▸ hlookup
  | some x =>
    rw [hlookup] at h
    exact absurd h (hknown _ (mem_of_lookup hlookup))

theorem Operator.lookup_of_ofText {text s : String} (h : ofText text = .unknown s) :
    spellings.lookup s = none :=
  lookup_of_getD Operator.unknown.inj (by simp [spellings]) h

theorem TriggerKind.lookup_of_ofText {text s : String} (h : ofText text = .other s) :
    spellings.lookup s = none :=
  lookup_of_getD TriggerKind.other.inj (by simp [spellings]) h

instance : LegibleDocument Operator where
  fits_of_read? {format j o} h := by
    cases j with
    | str text =>
      cases h
      exact fun s => Operator.lookup_of_ofText
    | null | bool _ | int _ | real _ | arr _ | obj _ => cases h

instance : LegibleDocument TriggerKind where
  fits_of_read? {format j k} h := by
    cases j with
    | str text =>
      cases h
      exact fun s => TriggerKind.lookup_of_ofText
    | null | bool _ | int _ | real _ | arr _ | obj _ => cases h

instance : LegibleDocument (Option TriggerKind) := ⟨Document.of_read?_option⟩

theorem TriggerKind.fits_none : Fits (none : Option TriggerKind) := by
  intro k hk
  cases hk

instance : LegibleDocument Action := ⟨fun _ => trivial⟩

instance : LegibleDocument Condition where
  fits_of_read? h := by
    refine of_record ?_ h
    refine .bind .required fun trigger htrigger => ?_
    refine .bind .required fun operator hoperator => ?_
    exact .skip fun comparand => .skip fun actions => .pure ⟨htrigger, hoperator⟩

/-! ## Rituals and definitions -/

instance : LegibleDocument Evidence := ⟨fun _ => trivial⟩

instance : LegibleDocument Task where
  fits_of_read? h := by
    refine of_record ?_ h
    refine .skip fun id => .skip fun order => .skip fun title => .skip fun description => ?_
    refine .skip fun evidenceKind => .skip fun tokenReward => .skip fun status => ?_
    exact .bind (.defaulted fits_no_time) fun completedAt hcompletedAt => .pure hcompletedAt

instance : LegibleDocument Ritual where
  fits_of_read? h := by
    refine of_record ?_ h
    refine .skip fun id => .skip fun ownerId => .skip fun subjectId => .skip fun title => ?_
    refine .skip fun description => .skip fun status => .skip fun currentTaskIndex => ?_
    refine .bind (.defaulted fits_nil) fun conditions hconditions => ?_
    refine .bind .required fun tasks htasks => ?_
    exact .bind .required fun createdAt hcreatedAt => .pure ⟨hconditions, htasks, hcreatedAt⟩

instance : LegibleDocument Assignment where
  fits_of_read? h := by
    refine of_record ?_ h
    refine .skip fun ritualId => .skip fun subjectId => .skip fun ownerId => ?_
    refine .skip fun currentTaskIndex => .skip fun status => .skip fun unlockedTasks => ?_
    refine .bind .required fun startedAt hstartedAt => ?_
    exact .bind .required fun lastUpdated hlastUpdated => .pure ⟨hstartedAt, hlastUpdated⟩

instance : LegibleDocument TaskDefinition := ⟨fun _ => trivial⟩

instance : LegibleDocument Definition where
  fits_of_read? h := by
    refine of_record ?_ h
    refine .skip fun ownerId => .skip fun subjectId => .skip fun title => ?_
    refine .skip fun description => .bind .required fun tasks htasks => ?_
    exact .bind (.defaulted fits_nil) fun conditions hconditions => .pure ⟨htasks, hconditions⟩

/-! ## The ledger and the queue of notifications -/

instance : LegibleDocument Account where
  fits_of_read? h := by
    refine of_record ?_ h
    refine .skip fun subjectId => .skip fun tokenBalance => ?_
    exact .bind .required fun createdAt hcreatedAt => .pure hcreatedAt

instance : LegibleDocument Transaction where
  fits_of_read? h := by
    refine of_record ?_ h
    refine .skip fun id => .skip fun kind => .skip fun senderId => .skip fun receiverId => ?_
    refine .skip fun amount => .skip fun description => .skip fun relatedEntityType => ?_
    refine .skip fun relatedEntityId => ?_
    exact .bind .required fun timestamp htimestamp => .pure htimestamp

instance : LegibleDocument Notification where
  fits_of_read? h := by
    refine of_record ?_ h
    refine .skip fun id => .skip fun subjectId => .skip fun message => ?_
    refine .skip fun relatedTo => .skip fun relatedId => ?_
    exact .bind .required fun createdAt hcreatedAt => .skip fun read => .pure hcreatedAt

/-! ## Records and outcomes -/

instance : LegibleDocument CompletionRecord where
  fits_of_read? h := by
    refine of_record ?_ h
    refine .skip fun ritualId => .skip fun subjectId => .skip fun taskIndex => ?_
    refine .skip fun taskId => .skip fun tokenReward => .skip fun nextTaskIndex => ?_
    refine .skip fun ritualCompleted => ?_
    exact .bind .required fun completedAt hcompletedAt => .pure hcompletedAt

instance : LegibleDocument EvidenceRecord where
  fits_of_read? h := by
    refine of_record ?_ h
    refine .skip fun taskId => .skip fun subjectId => .skip fun ritualId => ?_
    refine .skip fun evidence => ?_
    exact .bind .required fun submittedAt hsubmittedAt => .pure hsubmittedAt

instance : LegibleDocument ActionResult where
  fits_of_read? h := by
    refine of_record ?_ h
    refine .bind (.optional TriggerKind.fits_none) fun trigger htrigger => ?_
    exact .skip fun action => .skip fun status => .skip fun transactionId => .pure htrigger

instance : LegibleDocument (Option ActionResult) := ⟨Document.of_read?_option⟩

theorem ActionResult.fits_none : Fits (none : Option ActionResult) := by
  intro r hr
  cases hr

instance : LegibleDocument ActionLog where
  fits_of_read? h := by
    refine of_record ?_ h
    refine .bind .required fun executedAt hexecutedAt => ?_
    exact .bind .required fun results hresults => .pure ⟨hexecutedAt, hresults⟩

instance : LegibleDocument CompletionOutcome where
  fits_of_read? h := by
    refine of_record ?_ h
    refine .skip fun ritualId => .skip fun subjectId => .skip fun taskIndex => ?_
    refine .skip fun nextTaskIndex => .skip fun isComplete => ?_
    refine .bind (.optional ActionResult.fits_none) fun baseReward hbaseReward => ?_
    exact .bind .required fun actionsExecuted hactions => .pure ⟨hbaseReward, hactions⟩

instance : LegibleDocument Config := ⟨fun _ => trivial⟩

/-! ## Round trips -/

/-- Values are read from their documents as they were. And however a document was written: once it
is read, its value is written as a document that is read as the same value, and written the same
again. -/
def RoundTrips (α : Type) [Document α] [LawfulDocument α] : Prop :=
  (∀ x : α, Fits x → decode? (encode x) = some x) ∧
    ∀ (j : Json) (x : α), decode? j = some x →
      decode? (encode x) = some x ∧ ∀ y : α, decode? (encode x) = some y → encode y = encode x

theorem roundTrips {α : Type} [Document α] [LawfulDocument α] [LegibleDocument α] :
    RoundTrips α := by
  refine ⟨fun x => decode_encode, fun j x hread => ?_⟩
  have hagain : decode? (encode x) = some x := decode_encode (fits_of_read? hread)
  refine ⟨hagain, fun y hy => ?_⟩
  rw [Option.some.inj (hy.symm.trans hagain)]

/-- An action that is spelled in the other way is written in the usual one. -/
example : (decode? (.obj [("type", .str "notification"), ("message", .str "Well done")])).map
    (encode (α := Action)) = some (.obj [("message", .str "Well done"), ("type", .str "notify")]) :=
  rfl

end RitualLedger
