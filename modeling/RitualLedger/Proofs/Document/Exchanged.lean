import RitualLedger.Completion.Basic
import RitualLedger.Config.Basic
import RitualLedger.Proofs.Document.Faithful

/-!
# Faithful encodings of what is exchanged

Some documents are not stored by the engine: the definitions that clients hand in, the outcomes that
they are answered, and the configuration. They read back as well.
-/

namespace RitualLedger

namespace Document

variable {α : Type} {fields : Json.Fields} {name : String}

/-- A part that is missing has its default. -/
theorem Yields.missing [Document α] {default : α} (hfield : fields.filter (·.1 == name) = []) :
    Yields (Document.defaulted name default) fields default := by
  simp [Yields, Document.defaulted, Parts.take?, hfield]

instance : LawfulDocument UInt32 where
  Fits _ := True
  read?_encode {n} _ := by
    have hlt := n.toNat_lt
    change (if 0 ≤ (n.toNat : Int) ∧ (n.toNat : Int) < UInt32.size then
      some (UInt32.ofNat (n.toNat : Int).toNat) else none) = _
    rw [if_pos ⟨Int.natCast_nonneg _, Int.ofNat_lt.2 hlt⟩, Int.toNat_natCast, UInt32.ofNat_toNat]

end Document

open Document (record_obj tagged_obj)

/-! ## Definitions -/

instance : LawfulDocument TaskDefinition where
  Fits _ := True
  read?_encode {x} _ := by
    change Document.record _ .json (.obj _) = _
    refine record_obj ?_
    refine .bind (.required rfl rfl) ?_
    refine .bind (.defaulted rfl rfl) ?_
    refine .bind (.defaulted rfl (decode_encode trivial)) ?_
    refine .bind (.defaulted rfl (decode_encode trivial)) ?_
    exact .pure _

instance : LawfulDocument Definition where
  Fits d := Fits d.tasks ∧ Fits d.conditions
  read?_encode {x} h := by
    change Document.record _ .json (.obj _) = _
    refine record_obj ?_
    refine .bind (.required rfl rfl) ?_
    refine .bind (.required rfl rfl) ?_
    refine .bind (.required rfl rfl) ?_
    refine .bind (.defaulted rfl rfl) ?_
    refine .bind (.required rfl (decode_encode h.1)) ?_
    refine .bind (.defaulted rfl (decode_encode h.2)) ?_
    exact .pure _

/-! ## Outcomes -/

instance : LawfulDocument ActionStatus where
  Fits _ := True
  read?_encode {x} _ := by
    cases x with
    | success => rfl
    | failed reason retriable =>
      change Document.tagged _ _ .json (.obj _) = _
      refine tagged_obj rfl rfl ?_
      refine .bind (.required rfl rfl) ?_
      refine .bind (.required rfl rfl) ?_
      exact .pure _
    | skipped reason =>
      change Document.tagged _ _ .json (.obj _) = _
      refine tagged_obj rfl rfl ?_
      exact .map (.required rfl rfl)

instance : LawfulDocument (Option TriggerKind) where
  Fits x := ∀ k ∈ x, Fits k
  read?_encode {x} h := by
    cases x with
    | none => rfl
    | some k => exact Document.decode_encode_some (h k rfl) (by simp [encode])

instance : LawfulDocument ActionResult where
  Fits r := Fits r.trigger
  read?_encode {x} h := by
    obtain ⟨trigger, action, status, transactionId⟩ := x
    change Document.record _ .json (.obj _) = _
    refine record_obj ?_
    cases transactionId with
    | none =>
      refine .bind (.optional rfl (decode_encode h)) ?_
      refine .bind (.required rfl (decode_encode trivial)) ?_
      refine .bind (.required rfl (decode_encode trivial)) ?_
      refine .bind (.missing rfl) ?_
      exact .pure _
    | some id =>
      refine .bind (.optional rfl (decode_encode h)) ?_
      refine .bind (.required rfl (decode_encode trivial)) ?_
      refine .bind (.required rfl (decode_encode trivial)) ?_
      refine .bind (.defaulted rfl rfl) ?_
      exact .pure _

instance : LawfulDocument (Option ActionResult) where
  Fits x := ∀ r ∈ x, Fits r
  read?_encode {x} h := by
    cases x with
    | none => rfl
    | some r => exact Document.decode_encode_some (h r rfl) (by simp [encode])

instance : LawfulDocument ActionLog where
  Fits l := Fits l.executedAt ∧ Fits l.results
  read?_encode {x} h := by
    change Document.record _ .json (.obj _) = _
    refine record_obj ?_
    refine .bind (.required rfl (decode_encode h.1)) ?_
    refine .bind (.required rfl (decode_encode h.2)) ?_
    exact .pure _

instance : LawfulDocument CompletionOutcome where
  Fits o := Fits o.baseReward ∧ Fits o.actionsExecuted
  read?_encode {x} h := by
    change Document.record _ .json (.obj _) = _
    refine record_obj ?_
    refine .bind (.required rfl rfl) ?_
    refine .bind (.required rfl rfl) ?_
    refine .bind (.required rfl (decode_encode trivial)) ?_
    refine .bind (.required rfl (decode_encode trivial)) ?_
    refine .bind (.required rfl rfl) ?_
    refine .bind (.optional rfl (decode_encode h.1)) ?_
    refine .bind (.required rfl (decode_encode h.2)) ?_
    exact .pure _

/-! ## The configuration -/

instance : LawfulDocument LedgerConfig where
  Fits _ := True
  read?_encode {x} _ := by
    change Document.record _ .json (.obj _) = _
    refine record_obj ?_
    refine .bind (.defaulted rfl (decode_encode trivial)) ?_
    refine .bind (.defaulted rfl (decode_encode trivial)) ?_
    refine .bind (.defaulted rfl (decode_encode trivial)) ?_
    exact .pure _

instance : LawfulDocument SessionConfig where
  Fits _ := True
  read?_encode {x} _ := by
    change Document.record _ .json (.obj _) = _
    refine record_obj ?_
    refine .bind (.defaulted rfl (decode_encode trivial)) ?_
    exact .pure _

instance : LawfulDocument StorageConfig where
  Fits _ := True
  read?_encode {x} _ := by
    change Document.record _ .json (.obj _) = _
    refine record_obj ?_
    refine .bind (.defaulted rfl rfl) ?_
    exact .pure _

instance : LawfulDocument Config where
  Fits _ := True
  read?_encode {x} _ := by
    change Document.record _ .json (.obj _) = _
    refine record_obj ?_
    refine .bind (.defaulted rfl (decode_encode trivial)) ?_
    refine .bind (.defaulted rfl (decode_encode trivial)) ?_
    refine .bind (.defaulted rfl (decode_encode trivial)) ?_
    exact .pure _

end RitualLedger
