import RitualLedger.Proofs.Completion.Course
import RitualLedger.Proofs.Document.Legible
import RitualLedger.Proofs.Engine.Fluency

/-!
# Documents round trip

Everything that is stored or exchanged is read as it was written. In whatever way the calls of a run
overlap, what stands in a collection is then the one document of a value of the collection's type,
and the value names the id that it stands under (`Collection.Reads`). So no call fails because it
cannot read a document.
-/

namespace RitualLedger

/-! ## Stored documents -/

/-- A document is read as a value with a property, and is what the value is written as. -/
def Json.ReadsAs (α : Type) [Document α] (p : α → Prop) (j : Json) : Prop :=
  ∃ x : α, decode? j = some x ∧ encode x = j ∧ p x

/-- How a document is read that stands under an id of a collection. Its value names the id, but
entries of the logs of moods and activities carry none. -/
def Collection.Reads (id : String) (body : Json) : Collection → Prop
  | .accounts => body.ReadsAs Account fun a => a.subjectId = id
  | .rituals => body.ReadsAs Ritual fun r => r.id = id
  | .assignments => body.ReadsAs Assignment fun a => a.subjectId = id
  | .transactions => body.ReadsAs Transaction fun t => t.id = id
  | .evidence => body.ReadsAs EvidenceRecord fun e => e.taskId ++ ":" ++ e.subjectId = id
  | .completions => body.ReadsAs CompletionRecord fun c => c.step.id = id
  | .notifications => body.ReadsAs Notification fun n => n.id = id
  | .moods => body.ReadsAs MoodEntry fun _ => True
  | .activities => body.ReadsAs Activity fun _ => True

theorem Record.readsAs (α : Type) [Document α] [LawfulDocument α] [Record α] {id : String}
    {body : Json} (h : (Record.collection α).Holds id body) :
    body.ReadsAs α fun x => Record.Named x id := by
  rw [Record.holds] at h
  obtain ⟨x, hfits, hnamed, rfl⟩ := h
  exact ⟨x, decode_encode hfits, rfl, hnamed⟩

theorem Collection.Holds.reads {c : Collection} {id : String} {body : Json} (h : c.Holds id body) :
    c.Reads id body := by
  cases c with
  | accounts => exact Record.readsAs Account h
  | rituals => exact Record.readsAs Ritual h
  | assignments => exact Record.readsAs Assignment h
  | transactions => exact Record.readsAs Transaction h
  | evidence => exact Record.readsAs EvidenceRecord h
  | completions => exact Record.readsAs CompletionRecord h
  | notifications => exact Record.readsAs Notification h
  | moods => exact Record.readsAs MoodEntry h
  | activities => exact Record.readsAs Activity h

theorem Store.Regular.reads {s : Store} (hs : s.Regular) {c : Collection} {id : String}
    {body : Json} (h : (id, body) ∈ s.inCollection c.name) : c.Reads id body := by
  obtain ⟨version, hread⟩ := (mem_inCollection hs.distinctKeys).1 h
  exact Collection.Holds.reads (hs.wellTyped c id _ hread)

/-! ## All together -/

/-- **Documents round trip.** All values of the stored and exchanged types whose times can be named
and whose unknown words are not known ones are read as they were written, and what was read from any
document is written as one that stays as it is. In every run, whatever overlaps, all documents of
the collections are read at their types and name their keys, and no call fails because it cannot
read a document, unless the store had refused a commit with these words. -/
theorem documents_round_trip (ttl : Int) (es : List Event) :
    (RoundTrips Ritual ∧ RoundTrips Task ∧ RoundTrips Assignment ∧ RoundTrips Account ∧
      RoundTrips Transaction ∧ RoundTrips Notification ∧ RoundTrips CompletionRecord ∧
      RoundTrips EvidenceRecord ∧ RoundTrips Evidence ∧ RoundTrips CompletionOutcome ∧
      RoundTrips ActionResult ∧ RoundTrips ActionLog ∧ RoundTrips Action ∧ RoundTrips Condition ∧
      RoundTrips Definition ∧ RoundTrips TaskDefinition ∧ RoundTrips Config) ∧
    (∀ t : Instant, 0 ≤ (Date.ofDayNumber (t.seconds / Instant.secondsPerDay)).year →
      (Date.ofDayNumber (t.seconds / Instant.secondsPerDay)).year ≤ 9999 →
      t.nanos < 2 * Instant.nanosPerSecond →
      (Instant.nanosPerSecond ≤ t.nanos → t.seconds % 60 = 59) → Fits t) ∧
    (∀ (c : Collection) (id : String) (body : Json),
      (id, body) ∈ ((World.initial ttl).after es).store.inCollection c.name → c.Reads id body) ∧
    ∀ client ∈ ((World.initial ttl).after es).clients, ∀ reason : String,
      client.rest = .finish (.error (.store (.serialization reason))) →
      Event.HasRefused es (.serialization reason) := by
  refine ⟨⟨roundTrips, roundTrips, roundTrips, roundTrips, roundTrips, roundTrips, roundTrips,
    roundTrips, roundTrips, roundTrips, roundTrips, roundTrips, roundTrips, roundTrips, roundTrips,
    roundTrips, roundTrips⟩, fun t hfirst hlast => Instant.isNameable_of_year hfirst hlast, ?_, ?_⟩
  · intro c id body h
    exact (World.regular_after ttl es).reads h
  · intro client hclient reason hfailed
    exact (World.expected_failure hclient hfailed).refused_of_serialization

/-- An account with a time in another zone is read, and then written in another way that is read the
same. The ritual of `walkBegun` is read from its document. -/
theorem documents_round_trip_in_walk :
    let written : Json := .obj [("token_balance", .int 7),
      ("created_at", .str "2023-11-14 23:13:20+01:00"), ("subject_id", .str "ana")]
    let account : Account := ⟨"ana", 7, ⟨1700000000, 0⟩⟩
    decode? written = some account ∧ decode? (encode account) = some account ∧
      ∃ body, (walk.ritual, body) ∈ walkStore.inCollection Collection.rituals.name ∧
        body.ReadsAs Ritual fun r => r.id = walk.ritual := by
  intro written account
  obtain ⟨⟨-, -, -, haccount, -⟩, -, hstored, -⟩ := documents_round_trip 0 walkBegun
  have hread : decode? written = some account := by decide +kernel
  have hthere : walk.ritual ∈ (walkStore.inCollection Collection.rituals.name).map (·.1) := by
    decide +kernel
  obtain ⟨⟨id, body⟩, hmem, rfl⟩ := List.mem_map.1 hthere
  exact ⟨hread, (haccount.2 written account hread).1, body, hmem, hstored .rituals _ body hmem⟩

end RitualLedger
