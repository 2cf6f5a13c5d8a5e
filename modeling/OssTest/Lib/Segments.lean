import Mathlib.Data.List.Basic

/-!
# A log kept in segments

An append-only log that is written into one segment after another: the sealed
segments, oldest first, and the one being written, if the log is open.  What an
entry is does not matter.

* `start` seals what is being written and begins an empty segment, `push` adds an
  entry to it, `close` seals it.
* `entries_start`, `entries_push`, `entries_close` — cutting the log into
  segments never changes what it says: the entries are those of one growing list.
-/

/-- A log in segments. -/
structure SegLog (α : Type*) where
  /-- The segments that are finished, oldest first. -/
  sealed : List (List α)
  /-- The segment being written. -/
  current : Option (List α)

namespace SegLog

variable {α : Type*}

/-- The log before anything was written. -/
def empty : SegLog α := ⟨[], none⟩

/-- All segments, oldest first. -/
def segments (g : SegLog α) : List (List α) := g.sealed ++ g.current.toList

/-- What the log says, segments joined. -/
def entries (g : SegLog α) : List α := g.segments.flatten

/-- Seal what is being written and begin a new segment. -/
def start (g : SegLog α) : SegLog α := ⟨g.segments, some []⟩

/-- Add an entry to the segment being written. -/
def push (x : α) (g : SegLog α) : SegLog α :=
  match g.current with
  | none => g
  | some xs => { g with current := some (xs ++ [x]) }

/-- Seal what is being written. -/
def close (g : SegLog α) : SegLog α := ⟨g.segments, none⟩

@[simp] theorem segments_empty : (empty : SegLog α).segments = [] := rfl

@[simp] theorem segments_start (g : SegLog α) : g.start.segments = g.segments ++ [[]] := rfl

@[simp] theorem segments_close (g : SegLog α) : g.close.segments = g.segments := by
  simp [close, segments]

theorem segments_of_open {g : SegLog α} {xs : List α} (h : g.current = some xs) :
    g.segments = g.sealed ++ [xs] := by
  simp [segments, h]

theorem push_of_closed {g : SegLog α} (h : g.current = none) (x : α) : g.push x = g := by
  simp [push, h]

theorem segments_push {g : SegLog α} {xs : List α} (h : g.current = some xs) (x : α) :
    (g.push x).segments = g.sealed ++ [xs ++ [x]] := by
  simp [push, h, segments]

@[simp] theorem length_segments_push (g : SegLog α) (x : α) :
    (g.push x).segments.length = g.segments.length := by
  cases h : g.current with
  | none => rw [push_of_closed h]
  | some xs => simp [segments_push h, segments_of_open h]

@[simp] theorem entries_start (g : SegLog α) : g.start.entries = g.entries := by
  simp [entries]

@[simp] theorem entries_close (g : SegLog α) : g.close.entries = g.entries := by
  simp [entries]

/-- **An entry pushed on an open log comes last.** -/
theorem entries_push {g : SegLog α} (h : g.current.isSome) (x : α) :
    (g.push x).entries = g.entries ++ [x] := by
  obtain ⟨xs, hxs⟩ := Option.isSome_iff_exists.1 h
  simp [entries, segments_push hxs, segments_of_open hxs]

@[simp] theorem current_isSome_push (g : SegLog α) (x : α) :
    (g.push x).current.isSome = g.current.isSome := by
  cases h : g.current with
  | none => simp [push_of_closed h, h]
  | some xs => simp [push, h]

end SegLog
