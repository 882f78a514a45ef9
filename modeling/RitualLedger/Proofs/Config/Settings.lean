import RitualLedger.Proofs.Config.Walk

/-!
# The laws of settings

A field of the configuration behaves as one place of a store does: what was set is shown, all other
fields stay, and what is shown can be set again without any change (`Config.settings_are_lenses`).
The laws rest on what one change does: the field keeps the value, and the others show what they did
(`Config.setLeaf_eq_ok_iff`). As the texts of the fields determine a configuration, this says it
all.
-/

namespace RitualLedger

namespace Config

variable {c later : Config} {name other value : String} {l : Leaf}

/-! ## What a field keeps -/

/-- The numbers of a field are below a bound; a text has none. -/
def Leaf.bound? : Leaf → Option Nat
  | .maxAttempts => some (2 ^ 32)
  | .databaseFile => none
  | _ => some (2 ^ 64)

/-- What a field shows after it was set to a value: a text as it is, and a number in its shortest
form. -/
def Leaf.Keeps (l : Leaf) (value shown : String) : Prop :=
  match l.bound? with
  | none => shown = value
  | some bound => ∃ n < bound, Text.Writes value n ∧ shown = toString n

theorem Leaf.Keeps.unique {text : String} (h : l.Keeps value text) {other : String}
    (hother : l.Keeps value other) : text = other := by
  rw [Keeps] at h hother
  cases hbound : l.bound? with
  | none =>
    rw [hbound] at h hother
    exact Eq.trans h (Eq.symm hother)
  | some bound =>
    rw [hbound] at h hother
    obtain ⟨n, -, hn, rfl⟩ := h
    obtain ⟨m, -, hm, rfl⟩ := hother
    rw [hn.unique hm]

/-- A field keeps what it shows. -/
theorem keeps_leafText (c : Config) (l : Leaf) : l.Keeps (c.leafText l) (c.leafText l) := by
  cases l with
  | databaseFile => rfl
  | maxAttempts => exact ⟨_, c.ledger.maxAttempts.toNat_lt, Text.writes_toString _, rfl⟩
  | backoffBaseMs => exact ⟨_, c.ledger.backoffBaseMs.toNat_lt, Text.writes_toString _, rfl⟩
  | backoffMaxMs => exact ⟨_, c.ledger.backoffMaxMs.toNat_lt, Text.writes_toString _, rfl⟩
  | ttlSecs => exact ⟨_, c.sessions.ttlSecs.toNat_lt, Text.writes_toString _, rfl⟩

/-- The texts of all fields determine a configuration. -/
theorem eq_of_leafText (h : ∀ l, later.leafText l = c.leafText l) : later = c := by
  have hword : ∀ {v w : UInt64}, toString v = toString w → v = w := fun h =>
    UInt64.toNat_inj.1 (Text.number_injective h)
  have hhalf : ∀ {v w : UInt32}, toString v = toString w → v = w := fun h =>
    UInt32.toNat_inj.1 (Text.number_injective h)
  obtain ⟨⟨_, _, _⟩, ⟨_⟩, ⟨_⟩⟩ := c
  obtain ⟨⟨_, _, _⟩, ⟨_⟩, ⟨_⟩⟩ := later
  congr
  · exact hhalf (h .maxAttempts)
  · exact hword (h .backoffBaseMs)
  · exact hword (h .backoffMaxMs)
  · exact hword (h .ttlSecs)
  · exact h .databaseFile

theorem keeps_of_setLeaf (h : c.setLeaf l value = .ok later) :
    l.Keeps value (later.leafText l) := by
  cases l with
  | databaseFile =>
    cases h
    rfl
  | maxAttempts =>
    obtain ⟨n, hread, h⟩ := ok_of_bind h
    cases h
    exact ⟨n.toNat, n.toNat_lt, readAttempts_eq_ok_iff.1 hread, rfl⟩
  | _ =>
    obtain ⟨n, hread, h⟩ := ok_of_bind h
    cases h
    exact ⟨n.toNat, n.toNat_lt, readNumber_eq_ok_iff.1 hread, rfl⟩

theorem leafText_of_setLeaf (h : c.setLeaf l value = .ok later) {k : Leaf} (hk : k ≠ l) :
    later.leafText k = c.leafText k := by
  cases l with
  | databaseFile =>
    cases h
    cases k <;> first | rfl | exact absurd rfl hk
  | _ =>
    obtain ⟨n, -, h⟩ := ok_of_bind h
    cases h
    cases k <;> first | rfl | exact absurd rfl hk

theorem exists_setLeaf {text : String} (h : l.Keeps value text) :
    ∃ later, c.setLeaf l value = .ok later := by
  cases l with
  | databaseFile => exact ⟨_, rfl⟩
  | maxAttempts =>
    obtain ⟨n, hn, hwrites, -⟩ := h
    have hword : (UInt32.ofNat n).toNat = n := UInt32.toNat_ofNat_of_lt hn
    rw [setLeaf, readAttempts_eq_ok_iff.2 (hword ▸ hwrites)]
    exact ⟨_, rfl⟩
  | _ =>
    obtain ⟨n, hn, hwrites, -⟩ := h
    have hword : (UInt64.ofNat n).toNat = n := UInt64.toNat_ofNat_of_lt hn
    rw [setLeaf, readNumber_eq_ok_iff.2 (hword ▸ hwrites)]
    exact ⟨_, rfl⟩

theorem setLeaf_eq_error {e : ConfigError} (h : c.setLeaf l value = .error e) :
    ∃ reason, e = .invalidValue l.name reason := by
  cases l with
  | databaseFile => cases h
  | maxAttempts =>
    rcases error_of_bind h with hread | ⟨n, -, h⟩
    · exact readAttempts_eq_error hread
    · cases h
  | _ =>
    rcases error_of_bind h with hread | ⟨n, -, h⟩
    · exact readNumber_eq_error hread
    · cases h

/-- **What a change of a field does**: the field keeps the value, and all others stay. -/
theorem setLeaf_eq_ok_iff : c.setLeaf l value = .ok later ↔
    l.Keeps value (later.leafText l) ∧ ∀ k ≠ l, later.leafText k = c.leafText k := by
  refine ⟨fun h => ⟨keeps_of_setLeaf h, fun k => leafText_of_setLeaf h⟩, ?_⟩
  rintro ⟨hkeeps, hothers⟩
  obtain ⟨found, hfound⟩ := exists_setLeaf (c := c) hkeeps
  have heq : found = later := by
    refine eq_of_leafText fun k => ?_
    by_cases hk : k = l
    · rw [hk, (keeps_of_setLeaf hfound).unique hkeeps]
    · rw [leafText_of_setLeaf hfound hk, hothers k hk]
  rw [hfound, heq]

/-- A field that is set to what it shows does not change. -/
theorem setLeaf_leafText (c : Config) (l : Leaf) : c.setLeaf l (c.leafText l) = .ok c :=
  setLeaf_eq_ok_iff.2 ⟨keeps_leafText c l, fun _ _ => rfl⟩

/-! ## The laws of settings -/

theorem set_name (c : Config) (l : Leaf) (value : String) :
    c.set l.name value = c.setLeaf l value := by
  have hname : Part.ofName? l.name = some (.leaf l) := ofName?_name (.leaf l)
  rw [set, hname]

theorem get_name (c : Config) (l : Leaf) : c.get l.name = some (c.leafText l) := by
  have hname : Part.ofName? l.name = some (.leaf l) := ofName?_name (.leaf l)
  rw [get, hname]

theorem Leaf.name_injective {k : Leaf} (h : k.name = l.name) : k = l := by
  revert h
  cases k <;> cases l <;> decide

/-- Only a field can be set. -/
theorem exists_leaf_of_set (h : c.set name value = .ok later) :
    ∃ l : Leaf, name = l.name ∧ c.setLeaf l value = .ok later := by
  cases hp : Part.ofName? name with
  | none =>
    rw [set, hp] at h
    cases h
  | some p =>
    rw [set, hp] at h
    rcases p with l | s
    · exact ⟨l, name_of_ofName? hp, h⟩
    · cases h

/-- A walk that ends without a way on arrives at a field. -/
theorem exists_leaf_of_at? {j : Json} (h : c.at? name = some j) (hj : j.IsLeaf) :
    ∃ l : Leaf, name = l.name ∧ j = c.leafJson l := by
  obtain ⟨p, rfl⟩ := exists_name_of_at? h
  rw [at?_name] at h
  obtain rfl := Option.some.inj h
  rcases p with l | s
  · exact ⟨l, rfl, rfl⟩
  · cases s <;> exact absurd hj id

theorem bound?_of_str {text : String} (h : c.leafJson l = .str text) : l.bound? = none := by
  cases l <;> first | rfl | cases h

theorem bound?_of_int {number : Int} (h : c.leafJson l = .int number) :
    l.bound? = some (if l = .maxAttempts then 2 ^ 32 else 2 ^ 64) := by
  cases l <;> first | rfl | cases h

/-- **A change succeeds for every text that is to replace a text, and for every number that is to
replace a number and is in range**, and never otherwise. -/
theorem set_succeeds_iff (c : Config) (name value : String) :
    (∃ later, c.set name value = .ok later) ↔
      (∃ text, c.at? name = some (.str text)) ∨
        ∃ number n, c.at? name = some (.int number) ∧ Text.Writes value n ∧ n < 2 ^ 64 ∧
          (name = "ledger.max_attempts" → n < 2 ^ 32) := by
  constructor
  · rintro ⟨later, h⟩
    obtain ⟨l, rfl, hset⟩ := exists_leaf_of_set h
    have hat : c.at? l.name = some (c.leafJson l) := at?_name c (.leaf l)
    have hkeeps := keeps_of_setLeaf hset
    cases l with
    | databaseFile => exact .inl ⟨_, hat⟩
    | maxAttempts =>
      obtain ⟨n, hn, hwrites, -⟩ := hkeeps
      exact .inr ⟨_, n, hat, hwrites, lt_trans hn (by decide), fun _ => hn⟩
    | _ =>
      obtain ⟨n, hn, hwrites, -⟩ := hkeeps
      exact .inr ⟨_, n, hat, hwrites, hn, fun h => absurd h (by decide)⟩
  · rintro (⟨text, hat⟩ | ⟨number, n, hat, hwrites, hn, hattempts⟩)
    · obtain ⟨l, rfl, hl⟩ := exists_leaf_of_at? hat trivial
      rw [set_name]
      have hkeeps : l.Keeps value value := by rw [Leaf.Keeps, bound?_of_str hl.symm]
      exact exists_setLeaf hkeeps
    · obtain ⟨l, rfl, hl⟩ := exists_leaf_of_at? hat trivial
      rw [set_name]
      have hkeeps : l.Keeps value (toString n) := by
        rw [Leaf.Keeps, bound?_of_int hl.symm]
        refine ⟨n, ?_, hwrites, rfl⟩
        split
        · next h => exact hattempts (h ▸ rfl)
        · exact hn
      exact exists_setLeaf hkeeps

/-- **A change is refused with the name of the setting**: as unknown if the name leads nowhere, and
for its value otherwise. -/
theorem of_set_eq_error {e : ConfigError} (h : c.set name value = .error e) :
    (c.at? name = none ∧ e = .unknownKey name) ∨
      (c.at? name ≠ none ∧ ∃ reason, e = .invalidValue name reason) := by
  cases hp : Part.ofName? name with
  | none =>
    rw [set, hp] at h
    exact .inl ⟨at?_eq_none hp, (Except.error.inj h).symm⟩
  | some p =>
    rw [set, hp] at h
    obtain rfl := name_of_ofName? hp
    have hat : c.at? p.name ≠ none := by
      rw [at?_name]
      exact Option.some_ne_none _
    refine .inr ⟨hat, ?_⟩
    rcases p with l | s
    · exact setLeaf_eq_error h
    · exact ⟨_, (Except.error.inj h).symm⟩

/-- A field that is set to what it shows does not change. -/
theorem set_get {j : Json} {text : String} (hat : c.at? name = some j) (hj : j.IsLeaf)
    (htext : c.get name = some text) : c.set name text = .ok c := by
  obtain ⟨l, rfl, -⟩ := exists_leaf_of_at? hat hj
  rw [get_name] at htext
  obtain rfl := Option.some.inj htext
  rw [set_name, setLeaf_leafText]

/-- A setting changes in place. A change that is refused leaves the configuration alone. -/
def setInPlace (c : Config) (name value : String) : Except ConfigError Unit × Config :=
  match c.set name value with
  | .ok later => (.ok (), later)
  | .error e => (.error e, c)

/-- **Settings are lenses.** Under every name, a change succeeds exactly if the path of the name
ends at a text, or at a number and the value is a number in its range. Then the text is shown as it
was given and a number in its shortest form, every other field shows what it did, and setting the
field to what it shows changes nothing. A change that is refused leaves the configuration as it was,
and says that the name is unknown exactly if its path leads nowhere. -/
theorem settings_are_lenses (c : Config) (name value : String) :
    ((∃ later, c.set name value = .ok later) ↔
      (∃ text, c.at? name = some (.str text)) ∨
        ∃ number n, c.at? name = some (.int number) ∧ Text.Writes value n ∧ n < 2 ^ 64 ∧
          (name = "ledger.max_attempts" → n < 2 ^ 32)) ∧
    (∀ later, c.set name value = .ok later → c.setInPlace name value = (.ok (), later) ∧
      (∀ text, c.at? name = some (.str text) → later.get name = some value) ∧
      (∀ number n, c.at? name = some (.int number) → Text.Writes value n →
        later.get name = some (toString n)) ∧
      (∀ other j, other ≠ name → c.at? other = some j → j.IsLeaf →
        later.get other = c.get other) ∧
      ∀ text, later.get name = some text → later.set name text = .ok later) ∧
    (∀ j text, c.at? name = some j → j.IsLeaf → c.get name = some text →
      c.set name text = .ok c) ∧
    ∀ e, c.set name value = .error e → c.setInPlace name value = (.error e, c) ∧
      (e = .unknownKey name ↔ c.at? name = none) ∧
      (c.at? name ≠ none → ∃ reason, e = .invalidValue name reason) := by
  refine ⟨set_succeeds_iff c name value, ?_, fun j text => set_get, ?_⟩
  · intro later h
    obtain ⟨l, rfl, hset⟩ := exists_leaf_of_set h
    have hat : c.at? l.name = some (c.leafJson l) := at?_name c (.leaf l)
    have hkeeps := keeps_of_setLeaf hset
    refine ⟨by rw [setInPlace, h], ?_, ?_, ?_, ?_⟩
    · intro text htext
      rw [Leaf.Keeps, bound?_of_str (Option.some.inj (hat.symm.trans htext))] at hkeeps
      rw [get_name, hkeeps]
    · intro number n hnumber hwrites
      rw [Leaf.Keeps, bound?_of_int (Option.some.inj (hat.symm.trans hnumber))] at hkeeps
      obtain ⟨m, -, hm, htext⟩ := hkeeps
      rw [get_name, htext, hm.unique hwrites]
    · intro other j hne hother hj
      obtain ⟨k, rfl, -⟩ := exists_leaf_of_at? hother hj
      rw [get_name, get_name, leafText_of_setLeaf hset fun hk => hne (hk ▸ rfl)]
    · intro text htext
      rw [get_name] at htext
      obtain rfl := Option.some.inj htext
      rw [set_name, setLeaf_leafText]
  · intro e h
    refine ⟨by rw [setInPlace, h], ?_⟩
    rcases of_set_eq_error h with ⟨hat, rfl⟩ | ⟨hat, reason, rfl⟩
    · exact ⟨iff_of_true rfl hat, fun hsome => absurd hat hsome⟩
    · exact ⟨iff_of_false nofun hat, fun _ => ⟨reason, rfl⟩⟩

/-- The default is set to seven attempts, written with a sign and zeros. More attempts than a half
word holds are refused, and so is a name that goes on behind a field. -/
theorem settings_are_lenses_at_default :
    ∃ later, default.set "ledger.max_attempts" "+007" = .ok later ∧
      later.get "ledger.max_attempts" = some "7" ∧
      later.get "storage.database_file" = some "ritualware.db" ∧
      later.set "ledger.max_attempts" "7" = .ok later ∧
      (∃ e reason, default.set "ledger.max_attempts" "4294967296" = .error e ∧
        e = .invalidValue "ledger.max_attempts" reason ∧
        default.setInPlace "ledger.max_attempts" "4294967296" = (.error e, default)) ∧
      ∃ e, default.set "ledger.max_attempts.least" "1" = .error e ∧
        e = .unknownKey "ledger.max_attempts.least" := by
  have hat : default.at? "ledger.max_attempts" = some (.int 16) := at?_name _ (.leaf .maxAttempts)
  have hfile : default.at? "storage.database_file" = some (.str "ritualware.db") :=
    at?_name _ (.leaf .databaseFile)
  have hwrites : Text.Writes "+007" 7 :=
    ⟨['0', '0', '7'], by decide, List.all_eq_true.1 (by decide), .inr (by decide), by decide⟩
  obtain ⟨hsucceeds, hlaws, -, -⟩ := settings_are_lenses default "ledger.max_attempts" "+007"
  obtain ⟨later, hlater⟩ := hsucceeds.2 (.inr ⟨_, 7, hat, hwrites, by decide, fun _ => by decide⟩)
  obtain ⟨-, -, hnumber, hothers, hagain⟩ := hlaws later hlater
  have hshown : later.get "ledger.max_attempts" = some "7" := hnumber _ _ hat hwrites
  refine ⟨later, hlater, hshown, hothers _ _ (by decide) hfile trivial, hagain _ hshown, ?_, ?_⟩
  · obtain ⟨-, -, -, hrefused⟩ := settings_are_lenses default "ledger.max_attempts" "4294967296"
    have herror : ∃ e, default.set "ledger.max_attempts" "4294967296" = .error e := ⟨_, rfl⟩
    obtain ⟨e, he⟩ := herror
    obtain ⟨hplace, -, hreason⟩ := hrefused e he
    obtain ⟨reason, hreason⟩ := hreason (by rw [hat]; exact Option.some_ne_none _)
    exact ⟨e, reason, he, hreason, hplace⟩
  · obtain ⟨-, -, -, hrefused⟩ := settings_are_lenses default "ledger.max_attempts.least" "1"
    have herror : ∃ e, default.set "ledger.max_attempts.least" "1" = .error e := ⟨_, rfl⟩
    obtain ⟨e, he⟩ := herror
    exact ⟨e, he, (hrefused e he).2.1.2 (by decide)⟩

end Config

end RitualLedger
