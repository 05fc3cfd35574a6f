import Mathlib.Data.List.Basic

/-!
# Segmented logs

A log kept in segments: entries go to the current segment, and `roll` closes it
and starts an empty one. Neither operation loses, doubles or moves an entry
(`entries_append`, `entries_roll`), and no entry is split over two segments: the
segments are lists of whole entries.
-/

namespace Segments

variable {α : Type u}

structure Log (α : Type u) where
  closed : List (List α)
  current : List α

namespace Log

def empty : Log α := ⟨[], []⟩

def append (l : Log α) (x : α) : Log α := { l with current := l.current ++ [x] }

def roll (l : Log α) : Log α := ⟨l.closed ++ [l.current], []⟩

/-- The segments, in the order they were started. -/
def segments (l : Log α) : List (List α) := l.closed ++ [l.current]

def entries (l : Log α) : List α := l.segments.flatten

@[simp] theorem entries_empty : (empty : Log α).entries = [] := rfl

theorem entries_append (l : Log α) (x : α) : (l.append x).entries = l.entries ++ [x] := by
  simp [entries, segments, append]

theorem entries_roll (l : Log α) : l.roll.entries = l.entries := by
  simp [entries, segments, roll]

end Log

/-- Segments of images are images of segments. -/
theorem exists_segments {f : α → β} {segments : List (List β)} {entries : List α}
    (h : segments.flatten = entries.map f) :
    ∃ originals : List (List α), originals.flatten = entries ∧
      segments = originals.map (List.map f) := by
  induction segments generalizing entries with
  | nil =>
    have hnil : entries = [] := by simpa using h.symm
    exact ⟨[], hnil.symm, rfl⟩
  | cons segment segments ih =>
    rw [List.flatten_cons, eq_comm, List.map_eq_append_iff] at h
    rcases h with ⟨first, rest, hentries, hfirst, hrest⟩
    rcases ih hrest.symm with ⟨originals, hflatten, hsegments⟩
    exact ⟨first :: originals, by rw [List.flatten_cons, hflatten, hentries],
      by rw [List.map_cons, hfirst, hsegments]⟩

end Segments
