import RitualLedger.Completion.Basic
import RitualLedger.Ledger.Transaction
import RitualLedger.Notification
import RitualLedger.Proofs.Time.Text
import RitualLedger.Ritual.Catalog
import RitualLedger.Signal.Basic

/-!
# Faithful encodings

What the engine stores, it reads back: the document of a value is read as that value. Of most types
this holds of every value. It needs times that a date can name, and of an operator or a trigger that
is not known a spelling that is not one of a known one; `Fits` says so, part by part.

A record is read part by part. `Document.Yields` says that a reader of parts takes the fields of an
object as a value; it holds of a part whose field is there, and goes through sequences of parts.
-/

namespace RitualLedger

/-- What is looked up in a list of pairs is there. -/
theorem mem_of_lookup {κ α : Type} [BEq κ] [LawfulBEq κ] {pairs : List (κ × α)} {key : κ} {x : α}
    (h : pairs.lookup key = some x) : (key, x) ∈ pairs := by
  obtain ⟨before, behind, hpairs, -⟩ := List.lookup_eq_some_iff.1 h
  rw [hpairs]
  exact List.mem_append_right _ List.mem_cons_self

/-- A type whose documents read back, for the values that fit into one. -/
class LawfulDocument (α : Type) [Document α] where
  /-- Whether a document holds all of a value. -/
  Fits : α → Prop
  read?_encode : ∀ {x : α}, Fits x → Document.read? .json (encode x) = some x

export LawfulDocument (Fits)

theorem decode_encode {α : Type} [Document α] [LawfulDocument α] {x : α} (h : Fits x) :
    decode? (encode x) = some x :=
  LawfulDocument.read?_encode h

namespace Document

/-! ## Words, texts and times -/

instance : LawfulDocument Bool := ⟨fun _ => True, fun _ => rfl⟩

instance : LawfulDocument String := ⟨fun _ => True, fun _ => rfl⟩

instance : LawfulDocument UInt64 where
  Fits _ := True
  read?_encode {n} _ := by
    have hlt := n.toNat_lt
    change (if 0 ≤ (n.toNat : Int) ∧ (n.toNat : Int) < UInt64.size then
      some (UInt64.ofNat (n.toNat : Int).toNat) else none) = _
    rw [if_pos ⟨Int.natCast_nonneg _, Int.ofNat_lt.2 hlt⟩, Int.toNat_natCast, UInt64.ofNat_toNat]

instance : LawfulDocument Int64 where
  Fits _ := True
  read?_encode {n} _ := by
    have hlt := n.toInt_lt
    change (if Int64.minValue.toInt ≤ n.toInt ∧ n.toInt ≤ Int64.maxValue.toInt then
      some (Int64.ofInt n.toInt) else none) = _
    rw [Int64.toInt_maxValue, if_pos ⟨n.le_toInt, by omega⟩, Int64.ofInt_toInt]

instance : LawfulDocument Instant where
  Fits := Instant.IsNameable
  read?_encode {t} h := by
    change Instant.read? t.text = some t
    rw [Instant.read?_text h]

/-! ## Lists and options -/

section

variable {α : Type} [Document α] [LawfulDocument α]

theorem readItems?_encode {xs : List α} (h : ∀ x ∈ xs, Fits x) :
    readItems? .json (xs.map encode) = some xs := by
  induction xs with
  | nil => rfl
  | cons x rest ih =>
    have hx : read? .json (encode x) = some x := decode_encode (h x List.mem_cons_self)
    have hrest := ih fun y hy => h y (List.mem_cons_of_mem _ hy)
    simp [readItems?, hx, hrest]

instance : LawfulDocument (List α) where
  Fits xs := ∀ x ∈ xs, Fits x
  read?_encode h := readItems?_encode h

/-- A value that is there is read as such, unless its document is null. -/
theorem decode_encode_some {x : α} (h : Fits x) (hnull : encode x ≠ .null) :
    decode? (encode (some x)) = some (some x) := by
  have hx : read? .json (encode x) = some x := decode_encode h
  change read? .json (encode x : Json) = some (some x)
  cases hj : (encode x : Json) with
  | null => exact absurd hj hnull
  | bool _ | int _ | real _ | str _ | arr _ | obj _ =>
    rw [hj] at hx
    exact congrArg (Option.map some) hx

end

instance : LawfulDocument (Option String) where
  Fits _ := True
  read?_encode {x} _ := by
    cases x with
    | none => rfl
    | some s => exact decode_encode_some trivial (by simp [encode])

instance : LawfulDocument (Option Instant) where
  Fits x := ∀ t ∈ x, t.IsNameable
  read?_encode {x} h := by
    cases x with
    | none => rfl
    | some t => exact decode_encode_some (h t rfl) (by simp [encode])

/-! ## Records -/

/-- A reader of parts takes the fields of an object as a value. -/
def Yields {α : Type} (reader : PartReader α) (fields : Json.Fields) (x : α) : Prop :=
  reader .json (.named fields) = some (x, .named fields)

section

variable {α β : Type} {fields : Json.Fields} {name : String}

theorem Yields.pure (x : α) : Yields (Pure.pure x) fields x := rfl

theorem Yields.bind {reader : PartReader α} {next : α → PartReader β} {x : α} {y : β}
    (h : Yields reader fields x) (hnext : Yields (next x) fields y) :
    Yields (reader >>= next) fields y := by
  change (reader .json (.named fields)).bind _ = _
  rw [h]
  exact hnext

theorem Yields.map {reader : PartReader α} {f : α → β} {x : α} (h : Yields reader fields x) :
    Yields (f <$> reader) fields (f x) := by
  change (reader .json (.named fields)).bind _ = _
  rw [h]
  rfl

variable [Document α]

theorem Yields.required {j : Json} {x : α} (hfield : fields.filter (·.1 == name) = [(name, j)])
    (h : decode? j = some x) : Yields (required name) fields x := by
  have hread : read? .json j = some x := h
  simp [Yields, Document.required, Parts.take?, hfield, hread]

theorem Yields.defaulted {j : Json} {x default : α}
    (hfield : fields.filter (·.1 == name) = [(name, j)]) (h : decode? j = some x) :
    Yields (defaulted name default) fields x := by
  have hread : read? .json j = some x := h
  simp [Yields, Document.defaulted, Parts.take?, hfield, hread]

theorem Yields.optional {j : Json} {x : Option α}
    (hfield : fields.filter (·.1 == name) = [(name, j)]) (h : decode? j = some x) :
    Yields (optional name) fields x :=
  Yields.defaulted hfield h

omit [Document α] in
theorem record_obj {reader : PartReader α} {x : α} (h : Yields reader fields x) :
    record reader .json (.obj fields) = some x := by
  simp only [record]
  rw [h]
  rfl

omit [Document α] in
theorem tagged_obj {tag word : String} {readers : List (String × PartReader α)}
    {reader : PartReader α} {x : α} (htag : fields.filter (·.1 == tag) = [(tag, .str word)])
    (hword : readers.lookup word = some reader) (h : Yields reader fields x) :
    tagged tag readers .json (.obj fields) = some x := by
  simp only [tagged, Parts.take?, htag, hword, Option.bind_eq_bind, Option.bind_some]
  rw [h]
  rfl

end

end Document

open Document (Yields record_obj tagged_obj)

/-! ## The ledger and the queue of notifications -/

instance : LawfulDocument Account where
  Fits a := Fits a.createdAt
  read?_encode {x} h := by
    change Document.record _ .json (.obj _) = _
    refine record_obj ?_
    refine .bind (.required rfl rfl) ?_
    refine .bind (.required rfl (decode_encode trivial)) ?_
    refine .bind (.required rfl (decode_encode h)) ?_
    exact .pure _

instance : LawfulDocument TransactionKind where
  Fits _ := True
  read?_encode {k} _ := by cases k <;> rfl

instance : LawfulDocument Transaction where
  Fits t := Fits t.timestamp
  read?_encode {x} h := by
    change Document.record _ .json (.obj _) = _
    refine record_obj ?_
    refine .bind (.required rfl rfl) ?_
    refine .bind (.required rfl (decode_encode trivial)) ?_
    refine .bind (.optional rfl (decode_encode trivial)) ?_
    refine .bind (.optional rfl (decode_encode trivial)) ?_
    refine .bind (.required rfl (decode_encode trivial)) ?_
    refine .bind (.required rfl rfl) ?_
    refine .bind (.optional rfl (decode_encode trivial)) ?_
    refine .bind (.optional rfl (decode_encode trivial)) ?_
    refine .bind (.required rfl (decode_encode h)) ?_
    exact .pure _

instance : LawfulDocument Notification where
  Fits n := Fits n.createdAt
  read?_encode {x} h := by
    change Document.record _ .json (.obj _) = _
    refine record_obj ?_
    refine .bind (.required rfl rfl) ?_
    refine .bind (.required rfl rfl) ?_
    refine .bind (.required rfl rfl) ?_
    refine .bind (.required rfl rfl) ?_
    refine .bind (.required rfl rfl) ?_
    refine .bind (.required rfl (decode_encode h)) ?_
    refine .bind (.required rfl rfl) ?_
    exact .pure _

/-! ## Conditions -/

theorem Operator.ofText_text {o : Operator}
    (h : ∀ s, o = .unknown s → spellings.lookup s = none) : ofText o.text = o := by
  cases o with
  | unknown s => exact congrArg (Option.getD · (.unknown s)) (h s rfl)
  | eq | ne | gt | lt | ge | le => rfl

theorem TriggerKind.ofText_text {k : TriggerKind}
    (h : ∀ s, k = .other s → spellings.lookup s = none) : ofText k.text = k := by
  cases k with
  | other s => exact congrArg (Option.getD · (.other s)) (h s rfl)
  | completion | mood | streak | ritualCompletion => rfl

instance : LawfulDocument Operator where
  Fits o := ∀ s, o = .unknown s → Operator.spellings.lookup s = none
  read?_encode h := congrArg some (Operator.ofText_text h)

instance : LawfulDocument TriggerKind where
  Fits k := ∀ s, k = .other s → TriggerKind.spellings.lookup s = none
  read?_encode h := congrArg some (TriggerKind.ofText_text h)

instance : LawfulDocument Scalar where
  Fits _ := True
  read?_encode {x} _ := by
    cases x with
    | flag b => rfl
    | number n =>
      have h : Document.read? .json (encode n : Json) = some n := decode_encode trivial
      exact congrArg (Option.map Scalar.number) h
    | text s => rfl

instance : LawfulDocument Action where
  Fits _ := True
  read?_encode {a} _ := by
    cases a with
    | reward _ | penalty _ | unlockTask _ =>
      change Document.tagged _ _ .json (.obj _) = _
      refine tagged_obj rfl rfl ?_
      exact .map (.required rfl (decode_encode trivial))
    | notify _ =>
      change Document.tagged _ _ .json (.obj _) = _
      refine tagged_obj rfl rfl ?_
      exact .map (.required rfl rfl)

instance : LawfulDocument Condition where
  Fits c := Fits c.trigger ∧ Fits c.operator
  read?_encode {x} h := by
    change Document.record _ .json (.obj _) = _
    refine record_obj ?_
    refine .bind (.required rfl (decode_encode h.1)) ?_
    refine .bind (.required rfl (decode_encode h.2)) ?_
    refine .bind (.required rfl (decode_encode trivial)) ?_
    refine .bind (.defaulted rfl (decode_encode fun _ _ => trivial)) ?_
    exact .pure _

/-! ## Rituals and assignments -/

instance : LawfulDocument RitualStatus where
  Fits _ := True
  read?_encode {s} _ := by cases s <;> rfl

instance : LawfulDocument TaskStatus where
  Fits _ := True
  read?_encode {s} _ := by cases s <;> rfl

instance : LawfulDocument EvidenceKind where
  Fits _ := True
  read?_encode {k} _ := by cases k <;> rfl

instance : LawfulDocument Evidence where
  Fits _ := True
  read?_encode {e} _ := by
    cases e with
    | text _ | photo _ =>
      change Document.tagged _ _ .json (.obj _) = _
      refine tagged_obj rfl rfl ?_
      exact .map (.required rfl rfl)

instance : LawfulDocument Task where
  Fits t := Fits t.completedAt
  read?_encode {x} h := by
    change Document.record _ .json (.obj _) = _
    refine record_obj ?_
    refine .bind (.required rfl rfl) ?_
    refine .bind (.required rfl (decode_encode trivial)) ?_
    refine .bind (.required rfl rfl) ?_
    refine .bind (.defaulted rfl rfl) ?_
    refine .bind (.defaulted rfl (decode_encode trivial)) ?_
    refine .bind (.defaulted rfl (decode_encode trivial)) ?_
    refine .bind (.required rfl (decode_encode trivial)) ?_
    refine .bind (.defaulted rfl (decode_encode h)) ?_
    exact .pure _

instance : LawfulDocument Ritual where
  Fits r := Fits r.conditions ∧ Fits r.tasks ∧ Fits r.createdAt
  read?_encode {x} h := by
    change Document.record _ .json (.obj _) = _
    refine record_obj ?_
    refine .bind (.required rfl rfl) ?_
    refine .bind (.required rfl rfl) ?_
    refine .bind (.required rfl rfl) ?_
    refine .bind (.required rfl rfl) ?_
    refine .bind (.defaulted rfl rfl) ?_
    refine .bind (.required rfl (decode_encode trivial)) ?_
    refine .bind (.required rfl (decode_encode trivial)) ?_
    refine .bind (.defaulted rfl (decode_encode h.1)) ?_
    refine .bind (.required rfl (decode_encode h.2.1)) ?_
    refine .bind (.required rfl (decode_encode h.2.2)) ?_
    exact .pure _

namespace TaskSet

/-- An index that is larger than all of an increasing list goes to its end. -/
theorem insertInto_append {i : UInt64} {l : List UInt64} (h : ∀ j ∈ l, j < i) :
    insertInto i l = l ++ [i] := by
  induction l with
  | nil => rfl
  | cons j rest ih =>
    have hj : j < i := h j List.mem_cons_self
    have hnot : ¬i < j := fun hij => absurd (UInt64.lt_trans hij hj) (UInt64.lt_irrefl i)
    have hne : i ≠ j := fun hij => absurd (hij ▸ hj) (UInt64.lt_irrefl i)
    rw [insertInto, if_neg hnot, if_neg hne, ih fun k hk => h k (List.mem_cons_of_mem _ hk)]
    rfl

theorem foldl_insert_indices (s : TaskSet) (l : List UInt64)
    (h : (s.indices ++ l).Pairwise (· < ·)) : (l.foldl insert s).indices = s.indices ++ l := by
  induction l generalizing s with
  | nil => simp
  | cons i rest ih =>
    have hi : ∀ j ∈ s.indices, j < i := fun j hj =>
      (List.pairwise_append.1 h).2.2 j hj i List.mem_cons_self
    have hinsert : (s.insert i).indices = s.indices ++ [i] := insertInto_append hi
    rw [List.foldl_cons, ih (s.insert i), hinsert, List.append_assoc, List.singleton_append]
    rw [hinsert, List.append_assoc, List.singleton_append]
    exact h

/-- The members of a set, listed in their order, make up the set again. -/
theorem ofList_indices (s : TaskSet) : ofList s.indices = s :=
  TaskSet.ext (foldl_insert_indices empty s.indices s.increasing)

end TaskSet

instance : LawfulDocument TaskSet where
  Fits _ := True
  read?_encode {s} _ := by
    have h : Document.read? .json (encode s.indices : Json) = some s.indices :=
      decode_encode fun _ _ => trivial
    exact (congrArg (Option.map TaskSet.ofList) h).trans (congrArg some s.ofList_indices)

instance : LawfulDocument Assignment where
  Fits a := Fits a.startedAt ∧ Fits a.lastUpdated
  read?_encode {x} h := by
    change Document.record _ .json (.obj _) = _
    refine record_obj ?_
    refine .bind (.required rfl rfl) ?_
    refine .bind (.required rfl rfl) ?_
    refine .bind (.required rfl rfl) ?_
    refine .bind (.required rfl (decode_encode trivial)) ?_
    refine .bind (.required rfl (decode_encode trivial)) ?_
    refine .bind (.defaulted rfl (decode_encode trivial)) ?_
    refine .bind (.required rfl (decode_encode h.1)) ?_
    refine .bind (.required rfl (decode_encode h.2)) ?_
    exact .pure _

/-! ## Records of what happened -/

instance : LawfulDocument CompletionRecord where
  Fits c := Fits c.completedAt
  read?_encode {x} h := by
    change Document.record _ .json (.obj _) = _
    refine record_obj ?_
    refine .bind (.required rfl rfl) ?_
    refine .bind (.required rfl rfl) ?_
    refine .bind (.required rfl (decode_encode trivial)) ?_
    refine .bind (.required rfl rfl) ?_
    refine .bind (.required rfl (decode_encode trivial)) ?_
    refine .bind (.required rfl (decode_encode trivial)) ?_
    refine .bind (.required rfl rfl) ?_
    refine .bind (.required rfl (decode_encode h)) ?_
    exact .pure _

instance : LawfulDocument EvidenceRecord where
  Fits e := Fits e.submittedAt
  read?_encode {x} h := by
    change Document.record _ .json (.obj _) = _
    refine record_obj ?_
    refine .bind (.required rfl rfl) ?_
    refine .bind (.required rfl rfl) ?_
    refine .bind (.required rfl rfl) ?_
    refine .bind (.required rfl (decode_encode trivial)) ?_
    refine .bind (.required rfl (decode_encode h)) ?_
    exact .pure _

instance : LawfulDocument MoodEntry where
  Fits e := Fits e.createdAt
  read?_encode {x} h := by
    change Document.record _ .json (.obj _) = _
    refine record_obj ?_
    refine .bind (.required rfl rfl) ?_
    refine .bind (.required rfl rfl) ?_
    refine .bind (.required rfl (decode_encode h)) ?_
    exact .pure _

instance : LawfulDocument Activity where
  Fits a := Fits a.time
  read?_encode {x} h := by
    change Document.record _ .json (.obj _) = _
    refine record_obj ?_
    refine .bind (.required rfl rfl) ?_
    refine .bind (.required rfl rfl) ?_
    refine .bind (.required rfl rfl) ?_
    refine .bind (.required rfl rfl) ?_
    refine .bind (.required rfl (decode_encode h)) ?_
    exact .pure _

end RitualLedger
