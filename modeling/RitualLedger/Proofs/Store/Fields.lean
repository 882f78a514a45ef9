import Mathlib.Data.List.TakeDrop
import Mathlib.Data.List.TakeWhile
import RitualLedger.Json.Path
import RitualLedger.Store.Filter

/-!
# Fields of filters

The field of a filter is written as a path after a point. It need not be one, and a document that
has the part in front of the fault notices this. A path that is one can be followed in every
document, and a plain name leads to the field of that name (`Filter.part?_of_isPlainName`).
-/

namespace RitualLedger

/-! ## Names -/

namespace Json

theorem plainCodes_eq_iff {cs ds : List Char} (hcs : '\x00' ∉ cs) (hds : '\x00' ∉ ds) :
    plainCodes cs = plainCodes ds ↔ cs = ds := by
  have hcodes {cs : List Char} (hcs : '\x00' ∉ cs) : plainCodes cs = cs.map Char.toNat := by
    refine List.takeWhile_eq_self_iff.2 fun n hn => decide_eq_true ?_
    obtain ⟨c, hc, rfl⟩ := List.mem_map.1 hn
    intro hzero
    have hnul : c = '\x00' := Char.toNat_inj.1 hzero
    exact hcs (hnul ▸ hc)
  rw [hcodes hcs, hcodes hds]
  exact List.map_inj_right fun c d hcd => Char.toNat_inj.1 hcd

theorem find?_eq_lookup {fs : Fields} {name : String} (hname : '\x00' ∉ name.toList)
    (hlabels : ∀ f ∈ fs, '\x00' ∉ f.1.toList) :
    (fs.find? fun f => plainCodes f.1.toList = plainCodes name.toList).map (·.2) =
      fs.lookup name := by
  induction fs with
  | nil => rfl
  | cons f rest ih =>
    have hrest := ih fun f' hf' => hlabels f' (List.mem_cons_of_mem _ hf')
    have hcodes := plainCodes_eq_iff (hlabels f List.mem_cons_self) hname
    by_cases hsame : f.1 = name
    · rw [List.find?_cons_of_pos (by simp [hsame]), ← hsame, List.lookup_cons_self]
      rfl
    · rw [List.find?_cons_of_neg (by simpa [hcodes, String.toList_inj] using hsame), hrest,
        List.lookup_cons, beq_false_of_ne (Ne.symm hsame)]

end Json

/-! ## Paths -/

namespace Filter

/-- The path that a field is written as. -/
def path (field : String) : Json.Path := .ofArgument ("$." ++ field)

/-- What follows the point is a path. -/
def IsPath (field : String) : Prop := (path field).ending = .whole

instance (field : String) : Decidable (IsPath field) :=
  inferInstanceAs (Decidable (_ = _))

/-- The part of a body that a field leads to. What is no path leads nowhere. -/
def part? (body : Json) (field : String) : Option Json := ((path field).find body).toOption.join

/-- A path that is one can be followed in every body. -/
theorem exists_find_of_isPath {field : String} (h : IsPath field) (body : Json) :
    ∃ part, (path field).find body = .ok part := by
  rw [Json.Path.find, (h : (path field).ending = .whole)]
  exact Json.followFrom_whole _ _

/-! ## Plain names -/

/-- A name that leads to a field of its own, whatever the name. -/
structure IsPlainName (name : String) : Prop where
  nonempty : name ≠ ""
  plain : ∀ c ∈ name.toList, c ≠ '.' ∧ c ≠ '[' ∧ c ≠ '"' ∧ c ≠ '\x00'

theorem fieldName_of_isPlainName {name : String} (h : IsPlainName name) :
    Json.fieldName name.toList = some (Json.plainCodes name.toList, []) := by
  have hstop : ∀ c ∈ name.toList, (decide (c ≠ '.') && decide (c ≠ '[')) = true := fun c hc => by
    rw [decide_eq_true (h.plain c hc).1, decide_eq_true (h.plain c hc).2.1]
    rfl
  rw [Json.fieldName.eq_def]
  split
  · rename_i rest hquoted
    exact absurd rfl (h.plain '"' (hquoted ▸ List.mem_cons_self)).2.2.1
  · rw [List.span_eq_takeWhile_dropWhile, List.takeWhile_eq_self_iff.2 hstop,
      List.dropWhile_eq_nil_iff.2 hstop]
    refine if_neg fun hempty => h.nonempty ?_
    exact String.toList_eq_nil_iff.1 (List.isEmpty_iff.1 hempty)

theorem path_of_isPlainName {name : String} (h : IsPlainName name) :
    path name = ⟨[.named name], .whole⟩ := by
  have htext : ("$." ++ name).toList.takeWhile (· ≠ '\x00') = '$' :: '.' :: name.toList := by
    rw [String.toList_append]
    refine List.takeWhile_eq_self_iff.2 fun c hc => decide_eq_true ?_
    rcases List.mem_append.1 hc with hc | hc
    · have hplain : ∀ c ∈ ['$', '.'], c ≠ '\x00' :=
        List.forall_mem_cons.2 ⟨by decide, List.forall_mem_singleton.2 (by decide)⟩
      exact hplain c hc
    · exact (h.plain c hc).2.2.2
  rw [path, Json.Path.ofArgument, htext]
  change Json.Path.read (name.toList.length + 1) ('.' :: name.toList) = _
  rw [Json.Path.read, fieldName_of_isPlainName h]
  dsimp only
  rw [Json.Path.read]
  rfl

theorem isPath_of_isPlainName {name : String} (h : IsPlainName name) : IsPath name := by
  rw [IsPath, path_of_isPlainName h]

/-- **A plain name leads to the field of that name.** -/
theorem part?_of_isPlainName {name : String} {body : Json} (h : IsPlainName name)
    (hlabels : ∀ fs, body = .obj fs → ∀ f ∈ fs, '\x00' ∉ f.1.toList) :
    part? body name = body.get? name := by
  have hname : '\x00' ∉ name.toList := fun hc => (h.plain _ hc).2.2.2 rfl
  rw [part?, path_of_isPlainName h]
  cases body with
  | obj fs =>
    have hlookup := Json.find?_eq_lookup hname (hlabels fs rfl)
    change _ = fs.lookup name
    rw [← hlookup, Json.Path.find, Json.followFrom, Json.Step.named, Json.step?]
    generalize (fs.find? fun f => Json.plainCodes f.1.toList = Json.plainCodes name.toList).map
      (·.2) = found
    cases found with
    | none => rfl
    | some part => rfl
  | null | bool _ | int _ | real _ | str _ | arr _ => rfl

end Filter

end RitualLedger
