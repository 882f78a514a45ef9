import RitualLedger.Rule.Scope
import RitualLedger.Text.Uuid
import Mathlib.Data.List.Infix

/-!
# Keys that are never confused

The key of an action is a text in which colons part the scope and the position, and within the scope
the ritual, the subject and the rest. Subjects are free to contain colons themselves. Still a key
says for what it stands: numbers, words and random identifiers contain no colon, so whatever stands
behind the last colon, or before the first, can be cut off; what remains in the middle is the
subject. `Scope.key_injective` follows for scopes whose rituals and entries are random identifiers.
-/

namespace RitualLedger

/-! ## Texts parted by colons -/

namespace Text

/-- Whether a text contains no colon. -/
def NoColon (s : String) : Prop := ':' ∉ s.toList

/-- Whether a text is a random identifier. -/
def IsUuid (s : String) : Prop := isUuid s.toList = true

instance {s : String} : Decidable (IsUuid s) := inferInstanceAs (Decidable (_ = true))

theorem toList_number (n : Nat) : (toString n).toList = Nat.toDigits 10 n := by
  change (String.ofList (Nat.toDigits 10 n)).toList = _
  rw [String.toList_ofList]

theorem isDigit_of_mem_number {n : Nat} {c : Char} (h : c ∈ (toString n).toList) :
    c.isDigit = true := by
  rw [toList_number] at h
  exact Nat.isDigit_of_mem_toDigits (by decide) (by decide) h

theorem number_injective {n m : Nat} (h : toString n = toString m) : n = m := by
  have hdigits : Nat.toDigits 10 n = Nat.toDigits 10 m := by
    rw [← toList_number, ← toList_number, h]
  rw [← Nat.ofDigitChars_ten_toDigits (n := n), hdigits, Nat.ofDigitChars_ten_toDigits]

theorem noColon_number (n : Nat) : NoColon (toString n) := by
  intro h
  have hdigit := isDigit_of_mem_number h
  revert hdigit
  decide

/-- What stands at a place of an identifier is a dash or a digit. -/
theorem IsUuid.get {s : String} (h : IsUuid s) {i : Nat} (hi : i < s.toList.length) :
    if uuidDashes.contains i then s.toList[i] = '-' else isHexDigit s.toList[i] = true := by
  obtain ⟨-, hall⟩ := Bool.and_eq_true_iff.1 h
  have hmem : (s.toList[i], i) ∈ s.toList.zipIdx := List.mem_zipIdx_iff_getElem?.2 (by simp [hi])
  have hplace := List.all_eq_true.1 hall _ hmem
  simp only at hplace
  split
  · rename_i hdash
    rw [if_pos hdash] at hplace
    exact eq_of_beq hplace
  · rename_i hdigit
    rwa [if_neg hdigit] at hplace

theorem IsUuid.length {s : String} (h : IsUuid s) : s.toList.length = 36 := by
  obtain ⟨hlength, -⟩ := Bool.and_eq_true_iff.1 h
  exact eq_of_beq hlength

theorem IsUuid.noColon {s : String} (h : IsUuid s) : NoColon s := by
  intro hmem
  obtain ⟨i, hi, hcolon⟩ := List.getElem_of_mem hmem
  have hplace := h.get hi
  rw [hcolon] at hplace
  split at hplace
  · cases hplace
  · revert hplace
    decide

theorem IsUuid.ne_number {s : String} (h : IsUuid s) (n : Nat) : s ≠ toString n := by
  rintro rfl
  have hlength := h.length
  have hdash := h.get (i := 8) (by omega)
  have hlong : 8 < (toString n).toList.length := by omega
  have hdigit := isDigit_of_mem_number (List.getElem_mem hlong)
  rw [if_pos (by decide)] at hdash
  rw [hdash] at hdigit
  revert hdigit
  decide

/-- What stands before the first colon can be cut off. -/
theorem cut_left {a b c d : String} (ha : NoColon a) (hc : NoColon c)
    (h : a ++ ":" ++ b = c ++ ":" ++ d) : a = c ∧ b = d := by
  have hchars : a.toList ++ ':' :: b.toList = c.toList ++ ':' :: d.toList := by
    simpa using congrArg String.toList h
  have hcut : a.toList = c.toList ∧ b.toList = d.toList := by
    -- If one of the texts in front were longer, it would contain the colon of the other side.
    rw [List.append_eq_append_iff] at hchars
    rcases hchars with ⟨mid, hleft, hright⟩ | ⟨mid, hleft, hright⟩
    · cases mid with
      | nil =>
        rw [List.nil_append] at hright
        exact ⟨(hleft.trans (List.append_nil _)).symm, (List.cons.inj hright).2⟩
      | cons x rest =>
        have hx : x = ':' := (List.cons.inj hright).1.symm
        exact absurd (by rw [hleft, hx]; simp) hc
    · cases mid with
      | nil =>
        rw [List.nil_append] at hright
        exact ⟨hleft.trans (List.append_nil _), (List.cons.inj hright).2.symm⟩
      | cons x rest =>
        have hx : x = ':' := (List.cons.inj hright).1.symm
        exact absurd (by rw [hleft, hx]; simp) ha
  exact ⟨String.toList_inj.1 hcut.1, String.toList_inj.1 hcut.2⟩

/-- What stands behind the last colon can be cut off. -/
theorem cut_right {a b c d : String} (hb : NoColon b) (hd : NoColon d)
    (h : a ++ ":" ++ b = c ++ ":" ++ d) : a = c ∧ b = d := by
  have hchars : a.toList ++ ':' :: b.toList = c.toList ++ ':' :: d.toList := by
    simpa using congrArg String.toList h
  -- Read backwards, the last colon is the first one.
  have hback : String.ofList b.toList.reverse ++ ":" ++ String.ofList a.toList.reverse =
      String.ofList d.toList.reverse ++ ":" ++ String.ofList c.toList.reverse := by
    have hreverse := congrArg List.reverse hchars
    apply String.toList_inj.1
    simpa using hreverse
  obtain ⟨hright, hleft⟩ :=
    cut_left (by simpa [NoColon] using hb) (by simpa [NoColon] using hd) hback
  have hright := congrArg (fun s => s.toList.reverse) hright
  have hleft := congrArg (fun s => s.toList.reverse) hleft
  simp only [String.toList_ofList, List.reverse_reverse] at hleft hright
  exact ⟨String.toList_inj.1 hleft, String.toList_inj.1 hright⟩

/-- Whether a text begins with another. -/
def BeginsWith (text start : String) : Prop := start.toList <+: text.toList

instance {text start : String} : Decidable (BeginsWith text start) :=
  inferInstanceAs (Decidable (start.toList <+: text.toList))

theorem beginsWith_append (a b : String) : BeginsWith (a ++ b) a := by
  rw [BeginsWith, String.toList_append]
  exact List.prefix_append _ _

theorem BeginsWith.append {a start : String} (h : BeginsWith a start) (b : String) :
    BeginsWith (a ++ b) start := by
  rw [BeginsWith, String.toList_append]
  exact h.trans (List.prefix_append _ _)

end Text

open Text

/-! ## Steps and evidence -/

/-- An id tells its step, if it is known that the ritual contains no colon. -/
theorem Step.eq_of_id {s t : Step} (hs : NoColon s.ritual) (ht : NoColon t.ritual)
    (h : s.id = t.id) : s = t := by
  obtain ⟨hleft, hindex⟩ := cut_right (noColon_number _) (noColon_number _) h
  obtain ⟨hritual, hsubject⟩ := cut_left hs ht hleft
  have hindex : s.index = t.index := UInt64.toNat_inj.1 (number_injective hindex)
  cases s
  cases t
  cases hritual
  cases hsubject
  cases hindex
  rfl

theorem Step.id_injective {s t : Step} (hs : IsUuid s.ritual) (ht : IsUuid t.ritual)
    (h : s.id = t.id) : s = t := eq_of_id hs.noColon ht.noColon h

theorem evidenceKey_injective {task task' subject subject' : String} (h : IsUuid task)
    (h' : IsUuid task') (heq : evidenceKey task subject = evidenceKey task' subject') :
    task = task' ∧ subject = subject' :=
  cut_left h.noColon h'.noColon (DocKey.mk.inj heq).2

/-! ## Scopes -/

namespace Scope

/-- Whether the ritual, or the entry, of a scope is a random identifier. Named scopes are left out:
their names are up to clients. -/
def IsDerived : Scope → Prop
  | .reward step | .completion step | .ritualCompletion step => IsUuid step.ritual
  | .streak ritual _ _ => IsUuid ritual
  | .mood entry => IsUuid entry
  | .named _ => False

/-- The step that a scope is about. -/
def step? : Scope → Option Step
  | .reward step | .completion step | .ritualCompletion step => some step
  | .streak _ _ _ | .mood _ | .named _ => none

theorem isDerived_of_step? {scope : Scope} {step : Step} (hscope : scope.step? = some step)
    (huuid : IsUuid step.ritual) : scope.IsDerived := by
  cases scope with
  | reward _ | completion _ | ritualCompletion _ =>
    cases hscope
    exact huuid
  | streak _ _ _ | mood _ | named _ => cases hscope

/-- What stands before the last colon of a scope. -/
def front : Scope → String
  | .reward step | .completion step | .ritualCompletion step => step.id
  | .streak ritual subject _ => "streak" ++ ":" ++ (ritual ++ ":" ++ subject)
  | .mood _ => "mood"
  | .named name => name

/-- What stands behind the last colon of a scope. -/
def last : Scope → String
  | .reward _ => "reward"
  | .completion _ => "completion"
  | .ritualCompletion _ => "ritual_completion"
  | .streak _ _ count => toString count.toNat
  | .mood entry => entry
  | .named _ => ""

theorem text_eq {s : Scope} (h : s.IsDerived) : s.text = s.front ++ ":" ++ s.last := by
  cases s with
  | reward step | completion step | ritualCompletion step =>
    apply String.toList_inj.1
    simp [text, front, last]
  | streak ritual subject count =>
    change "streak:" ++ ritual ++ ":" ++ subject ++ ":" ++ toString count.toNat = _
    apply String.toList_inj.1
    simp [front, last]
  | mood entry =>
    apply String.toList_inj.1
    simp [text, front, last]
  | named name => cases h

theorem noColon_last {s : Scope} (h : s.IsDerived) : NoColon s.last := by
  cases s with
  | reward _ | completion _ | ritualCompletion _ =>
    simp only [last, NoColon]
    decide
  | streak _ _ count => exact noColon_number _
  | mood entry => exact IsUuid.noColon h
  | named name => cases h

/-- A word is not a number. -/
theorem word_ne_number {word : String} (h : word.toList.any (fun c => !c.isDigit) = true)
    (n : Nat) : word ≠ toString n := by
  rintro rfl
  obtain ⟨c, hc, hdigit⟩ := List.any_eq_true.1 h
  rw [isDigit_of_mem_number hc] at hdigit
  cases hdigit

/-- A short word is not a random identifier. -/
theorem word_ne_uuid {word uuid : String} (h : word.toList.length ≠ 36) (hu : IsUuid uuid) :
    word ≠ uuid := by
  rintro rfl
  exact h hu.length

/-- The scopes of a step end in words, other scopes in numbers or random identifiers. -/
theorem last_ne_last {s t : Scope} {step : Step} (hs : s.step? = some step) (ht : t.step? = none)
    (hderived : t.IsDerived) : s.last ≠ t.last := by
  have hword : s.last.toList.any (fun c => !c.isDigit) = true ∧ s.last.toList.length ≠ 36 := by
    cases s with
    | reward _ | completion _ | ritualCompletion _ =>
      simp only [last]
      decide
    | streak _ _ _ | mood _ | named _ => cases hs
  cases t with
  | reward _ | completion _ | ritualCompletion _ => cases ht
  | streak _ _ count => exact word_ne_number hword.1 _
  | mood entry => exact word_ne_uuid hword.2 hderived
  | named name => cases hderived

/-- The scopes of steps are told apart by what stands before and behind the last colon. -/
theorem eq_of_step? {s t : Scope} {a b : Step} (hs : s.step? = some a) (ht : t.step? = some b)
    (hderived : s.IsDerived) (hderived' : t.IsDerived) (hfront : s.front = t.front)
    (hlast : s.last = t.last) : s = t := by
  have huuid : ∀ {u : Scope} {c : Step}, u.step? = some c → u.IsDerived →
      IsUuid c.ritual ∧ u.front = c.id := by
    intro u c hu hderived
    cases u with
    | reward _ | completion _ | ritualCompletion _ =>
      cases hu
      exact ⟨hderived, rfl⟩
    | streak _ _ _ | mood _ | named _ => cases hu
  obtain ⟨ha, hfront_a⟩ := huuid hs hderived
  obtain ⟨hb, hfront_b⟩ := huuid ht hderived'
  have hstep : a = b := Step.id_injective ha hb (hfront_a.symm.trans (hfront.trans hfront_b))
  subst hstep
  cases s <;> cases t <;> simp_all [step?, last]

theorem text_injective {s t : Scope} (hs : s.IsDerived) (ht : t.IsDerived) (h : s.text = t.text) :
    s = t := by
  rw [text_eq hs, text_eq ht] at h
  obtain ⟨hfront, hlast⟩ := cut_right (noColon_last hs) (noColon_last ht) h
  cases hstep : s.step? with
  | some a =>
    cases hstep' : t.step? with
    | some b => exact eq_of_step? hstep hstep' hs ht hfront hlast
    | none => exact absurd hlast (last_ne_last hstep hstep' ht)
  | none =>
    cases hstep' : t.step? with
    | some b => exact absurd hlast.symm (last_ne_last hstep' hstep hs)
    | none =>
      -- Neither is about a step: both are signals, and an entry is no number.
      cases s with
      | reward _ | completion _ | ritualCompletion _ => cases hstep
      | named name => cases hs
      | streak ritual subject count =>
        cases t with
        | reward _ | completion _ | ritualCompletion _ => cases hstep'
        | named name => cases ht
        | mood entry => exact absurd hlast.symm (IsUuid.ne_number ht _)
        | streak ritual' subject' count' =>
          have hstreak : NoColon "streak" := by
            simp only [NoColon]
            decide
          obtain ⟨-, hrest⟩ := cut_left hstreak hstreak hfront
          obtain ⟨hritual, hsubject⟩ := cut_left (IsUuid.noColon hs) (IsUuid.noColon ht) hrest
          have hcount : count = count' := UInt32.toNat_inj.1 (number_injective hlast)
          rw [hritual, hsubject, hcount]
      | mood entry =>
        cases t with
        | reward _ | completion _ | ritualCompletion _ => cases hstep'
        | named name => cases ht
        | streak _ _ count => exact absurd hlast (IsUuid.ne_number hs _)
        | mood entry' =>
          have hentry : entry = entry' := hlast
          rw [hentry]

/-- **Keys are never confused.** A derived key belongs to one scope and one position. -/
theorem key_injective {s t : Scope} {p q : Nat} (hs : s.IsDerived) (ht : t.IsDerived)
    (h : s.key p = t.key q) : s = t ∧ p = q := by
  obtain ⟨htext, hposition⟩ := cut_right (noColon_number p) (noColon_number q) h
  exact ⟨text_injective hs ht htext, number_injective hposition⟩

/-- A derived key is not a random identifier. -/
theorem key_ne_uuid {s : Scope} {p : Nat} {id : String} (h : IsUuid id) : s.key p ≠ id := by
  rintro rfl
  refine h.noColon ?_
  simp [key]

/-! ## How keys begin -/

/-- What a derived text begins with. -/
def beginning : Scope → String
  | .reward step | .completion step | .ritualCompletion step => step.ritual
  | .streak _ _ _ => "streak:"
  | .mood _ => "mood:"
  | .named name => name

theorem text_beginsWith (s : Scope) : BeginsWith s.text s.beginning := by
  cases s with
  | reward step | completion step | ritualCompletion step =>
    simp only [text, beginning, Step.id]
    exact ((((beginsWith_append _ _).append _).append _).append _).append _
  | streak ritual subject count =>
    simp only [text, beginning]
    exact ((((beginsWith_append _ _).append _).append _).append _).append _
  | mood entry => exact beginsWith_append _ _
  | named name => exact List.prefix_refl _

theorem key_beginsWith (s : Scope) (p : Nat) : BeginsWith (s.key p) s.beginning :=
  ((text_beginsWith s).append _).append _

end Scope

/-! ## What keys tell -/

/-- **A derived key tells what it is derived from.** For rituals, entries and tasks that are random
identifiers, and for all subjects: the keys of two actions are equal just if their scopes are of one
kind with the same ritual or entry, subject, and index or count, and the positions are the same; the
identifiers of two completed steps just if the steps are the same; and the keys of two pieces of
evidence just if the tasks and the subjects are. -/
theorem derived_keys_tell_all :
    (∀ s t : Scope, ∀ p q : Nat, s.IsDerived → t.IsDerived →
      (s.key p = t.key q ↔ s = t ∧ p = q)) ∧
    (∀ s t : Step, IsUuid s.ritual → IsUuid t.ritual → (s.id = t.id ↔ s = t)) ∧
    ∀ task task' subject subject' : String, IsUuid task → IsUuid task' →
      (evidenceKey task subject = evidenceKey task' subject' ↔
        task = task' ∧ subject = subject') := by
  refine ⟨fun s t p q hs ht => ⟨Scope.key_injective hs ht, ?_⟩,
    fun s t hs ht => ⟨Step.id_injective hs ht, congrArg Step.id⟩,
    fun task task' subject subject' h h' => ⟨evidenceKey_injective h h', ?_⟩⟩
  · rintro ⟨rfl, rfl⟩
    rfl
  · rintro ⟨rfl, rfl⟩
    rfl

/-- Subjects whose names look like pieces of keys. -/
theorem lookalikes_told_apart :
    let ritual := "11111111-1111-4111-8111-111111111111"
    (Scope.reward ⟨ritual, "a:0:reward", 1⟩).key 0 ≠ (Scope.reward ⟨ritual, "a", 0⟩).key 1 ∧
    Step.id ⟨ritual, "a:0", 1⟩ ≠ Step.id ⟨ritual, "a", 0⟩ ∧
    evidenceKey ritual "a:b" ≠ evidenceKey ritual "b" := by
  intro ritual
  have hid : IsUuid ritual := by decide +kernel
  obtain ⟨hkeys, hsteps, hevidence⟩ := derived_keys_tell_all
  exact ⟨mt (hkeys (.reward ⟨ritual, "a:0:reward", 1⟩) (.reward ⟨ritual, "a", 0⟩) 0 1 hid hid).mp
      (by simp),
    mt (hsteps ⟨ritual, "a:0", 1⟩ ⟨ritual, "a", 0⟩ hid hid).mp (by simp),
    mt (hevidence ritual ritual "a:b" "b" hid hid).mp (by simp)⟩

end RitualLedger
