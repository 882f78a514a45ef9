import RitualLedger.Time.Instant

/-!
# Sessions

Short-lived state of conversations, one entry per subject. An entry lives until a fixed time after
it was put, and is invisible from then on. Entries that have expired are dropped when something is
put, when they are asked for, and when the store is purged.

The time to live is a count of nanoseconds and may be negative. It is added to the time of the put;
a sum that no date can name counts as the last instant.
-/

namespace RitualLedger

/-- A value with the time from which it is invisible. -/
structure SessionEntry (α : Type) where
  subject : String
  value : α
  expiresAt : Instant

/-- Whether an entry is visible at a time. -/
def SessionEntry.isLive {α : Type} (e : SessionEntry α) (now : Instant) : Bool :=
  now.before e.expiresAt

/-- Entries, at most one per subject, with a common time to live. -/
structure Sessions (α : Type) where
  /-- Nanoseconds from a put to its expiry. -/
  ttl : Int
  entries : List (SessionEntry α)

namespace Sessions

variable {α : Type}

/-- The longest time to live, in nanoseconds. -/
def longestTtl : Int := Int64.maxValue.toInt * 1000000

/-- The time to live of a number of seconds; a longer one than the longest is the longest. -/
def ttlOfSeconds (seconds : UInt64) : Int := min (seconds.toNat * 1000000000) longestTtl

/-- No entries. -/
def empty (ttl : Int) : Sessions α := ⟨ttl, []⟩

/-- The entry of a subject. -/
def entry? (s : Sessions α) (subject : String) : Option (SessionEntry α) :=
  s.entries.find? fun e => e.subject == subject

/-- Drops the entry of a subject. -/
def remove (s : Sessions α) (subject : String) : Sessions α :=
  { s with entries := s.entries.filter fun e => e.subject != subject }

/-- Drops the entries that have expired. -/
def sweep (s : Sessions α) (now : Instant) : Sessions α :=
  { s with entries := s.entries.filter fun e => e.isLive now }

/-- When something that is put now expires. -/
def expiry (s : Sessions α) (now : Instant) : Instant := (now.plus? s.ttl).getD Instant.latest

/-- Puts a value for a subject in place of an older one, and drops all that have expired. -/
def put (s : Sessions α) (now : Instant) (subject : String) (value : α) : Sessions α :=
  let swept := (s.sweep now).remove subject
  { swept with entries := swept.entries ++ [⟨subject, value, s.expiry now⟩] }

/-- The live value of a subject. -/
def get (s : Sessions α) (now : Instant) (subject : String) : Option α × Sessions α :=
  match s.entry? subject with
  | none => (none, s)
  | some e => if e.isLive now then (some e.value, s) else (none, s.remove subject)

/-- The live value of a subject, which is dropped. -/
def take (s : Sessions α) (now : Instant) (subject : String) : Option α × Sessions α :=
  match s.entry? subject with
  | none => (none, s)
  | some e => (if e.isLive now then some e.value else none, s.remove subject)

/-- Drops the entries that have expired, and counts them. -/
def purge (s : Sessions α) (now : Instant) : Nat × Sessions α :=
  (s.entries.length - (s.sweep now).entries.length, s.sweep now)

end Sessions

end RitualLedger
