import CacheLab.RequestLog

/-!
# CacheLab.RequestLog.Stream — one log after another

A `LogStream` goes through several logs and answers one entry at a time. A log
is opened when the one before has no more entries. `LogStream.toList` is the view
of a stream: the entries that are still to come.
-/

namespace CacheLab

/-- A position in a sequence of logs. -/
structure LogStream where
  /-- What opening each of the logs that are not open yet gives. -/
  pending : List (Except OsError ByteArray)
  /-- The entries to come of the log that is open, if one is. -/
  current : Option (List Entry) := none

namespace LogStream

/-- The entries that are still to come. -/
def toList (s : LogStream) : List Entry :=
  s.current.getD [] ++ s.pending.flatMap RequestLog.opened

/-- Opens logs up to the first that has an entry, and answers this entry. A log
that cannot be opened is an entry too, and is not open after it. -/
def advance : List (Except OsError ByteArray) → Option Entry × LogStream
  | [] => (none, { pending := [] })
  | log :: pending =>
    match log, RequestLog.opened log with
    | _, [] => advance pending
    | .ok _, entry :: entries => (some entry, { pending, current := some entries })
    | .error _, entry :: _ => (some entry, { pending })

/-- The next entry. -/
def next (s : LogStream) : Option Entry × LogStream :=
  match s.current with
  | some (entry :: entries) => (some entry, { s with current := some entries })
  | _ => advance s.pending

/-- The stream as a structure of its fields. -/
def describe (s : LogStream) : String :=
  s!"RequestIterator \x7b remaining_files: {s.pending.length}, open: {s.current.isSome} \x7d"

theorem toList_advance (pending : List (Except OsError ByteArray)) :
    pending.flatMap RequestLog.opened =
      (advance pending).1.toList ++ (advance pending).2.toList := by
  induction pending with
  | nil => rfl
  | cons log pending ih =>
    rcases log with error | content
    · cases error <;> simp_all [advance, RequestLog.opened, toList]
    · cases h : RequestLog.opened (.ok content) with
      | nil => simp_all [advance]
      | cons entry entries => simp [advance, h, toList]

/-- The next entry is the first of those to come. -/
theorem toList_next (s : LogStream) : s.toList = s.next.1.toList ++ s.next.2.toList := by
  rcases s with ⟨pending, _ | _ | ⟨entry, entries⟩⟩
  · exact toList_advance pending
  · exact toList_advance pending
  · simp [next, toList]

end LogStream

end CacheLab
