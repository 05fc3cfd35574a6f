import EchoServer.Lib.Segments
import EchoServer.LogFile

/-!
# Rolling loses nothing

With every `fopen` and `fwrite` succeeding, the files of a `LogFile` are the
segments of a log of records: an append goes to the current segment, and a roll
that is not refused starts a new one (`Rolled.step`). The clock may step back;
a roll is then refused, and the current file may grow beyond `rollsize_`.

* `rolling_loses_nothing`: every run of a `LogFile`.
-/

namespace EchoServer

namespace LogFile

open Runs Segments

/-- `file_` is not null, the records lie in the opened files in the order of the
appends, each whole in one file, and no two files were opened in one second. -/
structure Partitioned (s : LogFile) : Prop where
  file : ∃ stream : Stream, s.WritesTo stream stream.content.length
  contents : ∃ l : Log (List Byte),
    l.entries = s.records ∧ s.contents = l.segments.map List.flatten
  opened : s.opened.Pairwise (fun a b => a.openedAt < b.openedAt)

/-- The files one after the other hold all that has been appended. -/
theorem Partitioned.flatten_contents {s : LogFile} (h : s.Partitioned) :
    s.contents.flatten = s.records.flatten := by
  rcases h.contents with ⟨l, hrecords, hcontents⟩
  rw [hcontents, ← hrecords, Log.entries, List.flatten_flatten]

/-- A step that opens a file moves `lastRoll_` forward. -/
def RollsForward (s : LogFile) (e : Label) : Prop :=
  s.opened.length < (s.step e).opened.length → s.lastRoll < (s.step e).lastRoll

/-- After an append the file is within `rollsize_`, or the roll has been refused: the
clock that `rollFile` read was not past the `lastRoll_` it found. -/
def BoundsFile (s : LogFile) (e : Label) : Prop :=
  match e with
  | .append data ws now rollNow _ =>
    (s.step e).writtenBytes ≤ s.rollsize ∨
      (s.appended data ws).Attempts now ∧ rollNow ≤ s.lastRoll
  | .flush => True

/-- The files are the segments of `l`. -/
structure Rolled (s : LogFile) (l : Log (List Byte)) : Prop where
  writesTo : s.WritesTo ⟨s.lastRoll, l.current.flatten⟩ l.current.flatten.length
  closed : s.closed.map Stream.content = l.closed.map List.flatten
  records : l.entries = s.records
  opened : s.opened.Pairwise (fun a b => a.openedAt < b.openedAt)

namespace Rolled

variable {s : LogFile} {l : Log (List Byte)}

theorem partitioned (h : s.Rolled l) : s.Partitioned where
  file := ⟨_, h.writesTo⟩
  contents := by
    refine ⟨l, h.records, ?_⟩
    rw [LogFile.contents, h.writesTo.opened, List.map_append, h.closed, Log.segments,
      List.map_append]
    rfl
  opened := h.opened

section
variable {data : List Byte} {ws : List Fwrite} {now rollNow : Int}

/-- The roll is not attempted, or refused. -/
theorem kept (h : s.Rolled l) (hws : ∀ w ∈ ws, data.length ≤ w.taken) (fopen : Bool)
    (hkept : (s.appended data ws).Attempts now → rollNow ≤ s.lastRoll) :
    (s.step (.append data ws now rollNow fopen)).Rolled (l.append data) ∧
      (s.step (.append data ws now rollNow fopen)).writtenBytes = (s.appended data ws).writtenBytes ∧
      (s.step (.append data ws now rollNow fopen)).lastRoll = s.lastRoll ∧
      (s.step (.append data ws now rollNow fopen)).opened.length = s.opened.length := by
  have hto := h.writesTo.writesTo_appended hws
  have heq := h.writesTo.appended hws
  rw [h.writesTo.step_append]
  have hlast := h.writesTo.lastRoll_appended data ws
  rcases hto.finish_kept fopen (hlast ▸ hkept) with ⟨lastFlush, hfinish⟩
  rw [hfinish]
  have hopened := h.opened
  rw [h.writesTo.opened] at hopened
  refine ⟨⟨⟨?_, hto.fault⟩, ?_, ?_, ?_⟩, rfl, ?_, ?_⟩
  · -- the record has been added to the current segment
    rw [heq]
    simp [Log.append]
  · rw [heq]
    exact h.closed
  · rw [heq, Log.entries_append, h.records]
  · rw [heq]
    simpa [LogFile.opened, current, List.pairwise_append] using hopened
  · rw [heq]
  · rw [heq]
    simp [LogFile.opened, current, h.writesTo.file]

theorem rolled (h : s.Rolled l) (hws : ∀ w ∈ ws, data.length ≤ w.taken)
    (hattempts : (s.appended data ws).Attempts now) (hlater : s.lastRoll < rollNow) :
    (s.step (.append data ws now rollNow true)).Rolled (l.append data).roll ∧
      (s.step (.append data ws now rollNow true)).writtenBytes = 0 ∧
      (s.step (.append data ws now rollNow true)).lastRoll = rollNow := by
  have hto := h.writesTo.writesTo_appended hws
  have heq := h.writesTo.appended hws
  rw [h.writesTo.step_append]
  have hlast := h.writesTo.lastRoll_appended data ws
  rcases hto.finish_rolled hattempts (hlast ▸ hlater) with ⟨count, lastFlush, _, hfinish⟩
  rw [hfinish]
  have hopened := h.opened
  rw [h.writesTo.opened, List.pairwise_append] at hopened
  rcases hopened with ⟨hclosed, _, hbefore⟩
  refine ⟨⟨⟨rfl, ?_⟩, ?_, ?_, ?_⟩, rfl, rfl⟩
  · exact hto.fault
  · rw [heq]
    simp [Log.roll, Log.append, h.closed]
  · rw [heq, Log.entries_roll, Log.entries_append, h.records]
  · rw [heq]
    -- the old files, the one just closed, the new one
    simp only [LogFile.opened, current, Option.bind_some, Option.toList_some, List.append_assoc,
      List.cons_append, List.nil_append, List.pairwise_append, List.pairwise_cons, List.mem_cons,
      List.not_mem_nil, or_false, forall_eq_or_imp, forall_eq]
    refine ⟨hclosed, ⟨hlater, ?_⟩, ?_⟩
    · simp
    · intro a ha
      have hold : a.openedAt < s.lastRoll := hbefore a ha _ (List.mem_singleton_self _)
      exact ⟨hold, Int.lt_trans hold hlater⟩

end

/-- What an append leaves, whether it rolls or not. -/
theorem step_append (h : s.Rolled l) {data : List Byte} {ws : List Fwrite} {now rollNow : Int}
    (hws : ∀ w ∈ ws, data.length ≤ w.taken) :
    (∃ l', (s.step (.append data ws now rollNow true)).Rolled l') ∧
      RollsForward s (.append data ws now rollNow true) ∧
      BoundsFile s (.append data ws now rollNow true) := by
  rcases (s.appended data ws).rolls_or_kept now s.lastRoll rollNow with
    ⟨hattempts, hlater⟩ | hkept
  · rcases h.rolled hws hattempts hlater with ⟨hrolled, hzero, hlast⟩
    refine ⟨⟨_, hrolled⟩, ?_, Or.inl ?_⟩
    · intro _
      rw [hlast]
      exact hlater
    · rw [hzero]
      exact Nat.zero_le _
  · rcases h.kept hws true hkept with ⟨hrolled, hwritten, hlast, hsame⟩
    refine ⟨⟨_, hrolled⟩, ?_, ?_⟩
    · intro hopens
      omega
    · by_cases hsize : (s.appended data ws).writtenBytes ≤ s.rollsize
      · exact Or.inl (hwritten ▸ hsize)
      · -- too large, so a roll has been attempted
        have hattempts : (s.appended data ws).Attempts now := by
          rw [h.writesTo.appended hws] at hsize ⊢
          exact Or.inl (Nat.not_le.mp hsize)
        exact Or.inr ⟨hattempts, hkept hattempts⟩

theorem step (h : s.Rolled l) {e : Label} (htakes : e.TakesAll) (hfopen : e.FopenSucceeds) :
    (∃ l', (s.step e).Rolled l') ∧ RollsForward s e ∧ BoundsFile s e := by
  cases e with
  | append data ws now rollNow fopen =>
    obtain rfl : fopen = true := hfopen
    exact h.step_append htakes
  | flush =>
    have hsame := h.writesTo.step_flush
    refine ⟨⟨l, ?_⟩, ?_, trivial⟩
    · rw [hsame]
      exact h
    · intro hopens
      rw [hsame] at hopens
      omega

end Rolled

theorem rolled_new (rollsize : Nat) (flushInterval checkEveryN : Int) {now : Int}
    (hnow : 0 < now) : (new rollsize flushInterval checkEveryN now true).Rolled Log.empty := by
  rw [new_eq rollsize flushInterval checkEveryN hnow]
  refine ⟨⟨rfl, rfl⟩, rfl, rfl, ?_⟩
  simp [opened, current]

/-- Whatever the clock reads: `file_` is never null, the records lie whole and in order
in the files, no two files are opened in one second, and a file outgrows `rollsize_`
only where its roll is refused. -/
theorem rolling_loses_nothing (rollsize : Nat) (flushInterval checkEveryN : Int) {now : Int}
    (hnow : 0 < now) (es : List Label) (hes : ∀ e ∈ es, e.TakesAll ∧ e.FopenSucceeds) :
    Always step (new rollsize flushInterval checkEveryN now true) Partitioned es ∧
      EachStep step (new rollsize flushInterval checkEveryN now true) RollsForward es ∧
      EachStep step (new rollsize flushInterval checkEveryN now true) BoundsFile es := by
  have hgood : EachStep step (new rollsize flushInterval checkEveryN now true)
      (fun _ e => e.TakesAll ∧ e.FopenSucceeds) es :=
    fun pre e hpre => hes e (hpre.subset (by simp))
  have hinv : Always step (new rollsize flushInterval checkEveryN now true)
      (fun s => ∃ l, s.Rolled l) es := by
    refine always_of_eachStep ⟨_, rolled_new rollsize flushInterval checkEveryN hnow⟩ ?_ hgood
    rintro s e ⟨l, h⟩ ⟨htakes, hfopen⟩
    exact (h.step htakes hfopen).1
  have hsteps : ∀ pre e, pre ++ [e] <+: es →
      RollsForward (run step (new rollsize flushInterval checkEveryN now true) pre) e ∧
        BoundsFile (run step (new rollsize flushInterval checkEveryN now true) pre) e := by
    intro pre e hpre
    rcases hinv pre ((List.prefix_append pre [e]).trans hpre) with ⟨l, h⟩
    rcases hgood pre e hpre with ⟨htakes, hfopen⟩
    exact (h.step htakes hfopen).2
  refine ⟨hinv.mono fun s ⟨l, h⟩ => h.partitioned, ?_, ?_⟩
  · intro pre e hpre
    exact (hsteps pre e hpre).1
  · intro pre e hpre
    exact (hsteps pre e hpre).2

/-- A refused roll, then one that goes through, then a clock that steps back. -/
def sampleRolls : List Label :=
  [.append [1, 2, 3] [] 100 100 true, .append [4] [⟨1, false⟩] 101 102 true, .flush,
    .append [5, 6, 7] [⟨3, false⟩] 90 91 true]

theorem rolling_loses_nothing_sample :
    Always step (new 2 3 1024 100 true) Partitioned sampleRolls ∧
      EachStep step (new 2 3 1024 100 true) RollsForward sampleRolls ∧
      EachStep step (new 2 3 1024 100 true) BoundsFile sampleRolls :=
  rolling_loses_nothing 2 3 1024 (by decide) sampleRolls
    (by simp [sampleRolls, Label.TakesAll, Label.FopenSucceeds])

example : (run step (new 2 3 1024 100 true) sampleRolls).contents = [[1, 2, 3, 4], [5, 6, 7]] := by
  decide

end LogFile

end EchoServer
