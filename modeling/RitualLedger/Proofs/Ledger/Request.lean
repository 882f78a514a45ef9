import Mathlib.Algebra.Group.Nat.Defs
import RitualLedger.Ledger.Basic

/-!
# Valid requests

What `TransactionRequest.validate` promises: an amount that a balance can hold, and parties that fit
the kind. It accepts exactly the requests that are well formed
(`TransactionRequest.validate_eq_ok_iff`).
-/

namespace RitualLedger.TransactionRequest

/-! ## Well-formed requests -/

/-- Parties that fit a kind: they have names, and those of a tribute are different. -/
def PartiesFit : TransactionKind → Option String → Option String → Prop
  | .reward, none, some receiver => receiver ≠ ""
  | .penalty, some sender, none => sender ≠ ""
  | .tribute, some sender, some receiver => sender ≠ "" ∧ receiver ≠ "" ∧ sender ≠ receiver
  | _, _, _ => False

instance : (kind : TransactionKind) → (sender receiver : Option String) →
    Decidable (PartiesFit kind sender receiver)
  | .reward, none, some _ | .penalty, some _, none => inferInstanceAs (Decidable (_ ≠ _))
  | .tribute, some _, some _ => inferInstanceAs (Decidable (_ ∧ _))
  | .reward, none, none | .reward, some _, _ | .penalty, none, _ | .penalty, some _, some _
  | .tribute, none, _ | .tribute, some _, none => inferInstanceAs (Decidable False)

/-- A request that some balances could bear. -/
structure WellFormed (r : TransactionRequest) : Prop where
  positive : 1 ≤ r.amount.toNat
  small : r.amount.toNat ≤ 2 ^ 63 - 1
  parties : PartiesFit r.kind r.senderId r.receiverId

theorem PartiesFit.named {kind : TransactionKind} {sender receiver : Option String}
    (h : PartiesFit kind sender receiver) :
    ¬ (sender.isNone = true ∧ receiver.isNone = true) ∧
      ¬ (sender = some "" ∨ receiver = some "") := by
  cases kind <;> rcases sender with _ | sender <;> rcases receiver with _ | receiver <;>
    simp_all [PartiesFit]

/-- Of parties that have names, those that fit the kind are accepted. -/
theorem validateParties_eq_ok_iff {kind : TransactionKind} {sender receiver : Option String}
    (hnamed : ¬ (sender = some "" ∨ receiver = some "")) :
    validateParties kind sender receiver = .ok () ↔ PartiesFit kind sender receiver := by
  cases kind <;> rcases sender with _ | sender <;> rcases receiver with _ | receiver <;>
    simp_all [PartiesFit, validateParties, refuse]

/-- **What is accepted.** -/
theorem validate_eq_ok_iff {r : TransactionRequest} : r.validate = .ok () ↔ r.WellFormed := by
  have hmax : Int64.maxValue.toInt = 2 ^ 63 - 1 := by decide
  have hzero : r.amount = 0 ↔ r.amount.toNat = 0 := UInt64.toNat_inj.symm
  constructor
  · intro h
    rw [validate, hmax] at h
    split at h
    · cases h
    · split at h
      · cases h
      · split at h
        · cases h
        · split at h
          · cases h
          · rename_i hpositive hsmall _ hnamed
            refine ⟨?_, ?_, (validateParties_eq_ok_iff hnamed).1 h⟩
            · rw [hzero] at hpositive
              omega
            · omega
  · rintro ⟨hpositive, hsmall, hparties⟩
    obtain ⟨hsome, hnamed⟩ := hparties.named
    have hnonzero : ¬ r.amount = 0 := fun h => by
      rw [hzero] at h
      omega
    rw [validate, hmax, if_neg hnonzero, if_neg (by omega), if_neg hsome, if_neg hnamed]
    exact (validateParties_eq_ok_iff hnamed).2 hparties

/-! ## Shapes -/

/-- The kinds of valid requests, with their parties. -/
inductive Shape (r : TransactionRequest) : Prop
  | reward (receiver : String) (hkind : r.kind = .reward) (hsender : r.senderId = none)
      (hreceiver : r.receiverId = some receiver)
  | penalty (sender : String) (hkind : r.kind = .penalty) (hsender : r.senderId = some sender)
      (hreceiver : r.receiverId = none)
  | tribute (sender receiver : String) (hkind : r.kind = .tribute)
      (hsender : r.senderId = some sender) (hreceiver : r.receiverId = some receiver)
      (hne : sender ≠ receiver)

theorem PartiesFit.shape {r : TransactionRequest}
    (h : PartiesFit r.kind r.senderId r.receiverId) : r.Shape := by
  cases hkind : r.kind <;> cases hsender : r.senderId <;> cases hreceiver : r.receiverId <;>
    rw [hkind, hsender, hreceiver] at h
  case reward.none.some receiver => exact .reward receiver hkind hsender hreceiver
  case penalty.some.none sender => exact .penalty sender hkind hsender hreceiver
  case tribute.some.some sender receiver =>
    exact .tribute sender receiver hkind hsender hreceiver h.2.2
  all_goals exact h.elim

/-- What a valid request is like. -/
structure Valid (r : TransactionRequest) : Prop where
  positive : 0 < r.amount.toNat
  small : r.amount.toNat ≤ Int64.maxValue.toInt
  shape : r.Shape

theorem valid_of_validate {r : TransactionRequest} (h : r.validate = .ok ()) : r.Valid := by
  have hmax : Int64.maxValue.toInt = 2 ^ 63 - 1 := by decide
  obtain ⟨hpositive, hsmall, hparties⟩ := validate_eq_ok_iff.1 h
  exact ⟨hpositive, by omega, hparties.shape⟩

/-- The parties of a valid request are different subjects. -/
theorem parties_nodup {r : TransactionRequest} (h : r.validate = .ok ()) :
    (r.senderId.toList ++ r.receiverId.toList).Nodup := by
  cases (valid_of_validate h).shape with
  | reward receiver hkind hsender hreceiver => simp [hsender, hreceiver]
  | penalty sender hkind hsender hreceiver => simp [hsender, hreceiver]
  | tribute sender receiver hkind hsender hreceiver hne => simp [hsender, hreceiver, hne]

end RitualLedger.TransactionRequest
