import Mathlib.Algebra.Group.Int.Defs
import Mathlib.Algebra.Group.Nat.Defs
import EchoServer.Buffer
import EchoServer.Lib.Runs

/-!
# LogFile

The file the log is written to, and the rolling to a new one: when the file has
outgrown `rollsize_`, or when `checkEveryN_` appends have gone by and the day is
over. The clock is read once in `appendInLock` and once more in `rollFile`; both
readings, the answers of `fwrite` and the outcome of `fopen` come with the call.

* `FileUtil.writeLoop`: the loop of `FileUtil::append`;
* `step`: one call of `append` or `flush`. A stdio function called with a null
  stream, or a call through a null `file_`, ends the program;
* `WritesTo.finish_kept`, `WritesTo.finish_rolled`, `finish_failed`: the three
  ways an append can end.
-/

namespace EchoServer

open Runs

/-- `KRollPerSeconds_`. -/
def rollPerSeconds : Int := 24 * 60 * 60

/-- The beginning of the UTC day of `now`: `now / KRollPerSeconds_ * KRollPerSeconds_`. -/
def startOfDay (now : Int) : Int := now.tdiv rollPerSeconds * rollPerSeconds

/-- What one `fwrite_unlocked` takes, and whether `ferror` reports an error then. -/
structure Fwrite where
  taken : Nat
  error : Bool
deriving DecidableEq, Repr

/-- A stdio stream: when it was opened, and what it was given. -/
structure Stream where
  openedAt : Int
  content : List Byte
deriving DecidableEq, Repr

structure FileUtil where
  /-- `file_`, `none` for the null pointer. -/
  file : Option Stream
  writtenBytes : Nat
deriving DecidableEq, Repr

namespace FileUtil

/-- The loop of `append`: what the stream gets, and what `writtenBytes_` grows
by. A `fwrite` without an answer takes everything. -/
def writeLoop : List Fwrite → List Byte → List Byte × Nat
  | _, [] => ([], 0)
  | [], data => (data, data.length)
  | w :: ws, data =>
    -- an error ends the loop before `written` has been counted up
    if w.taken < data.length ∧ w.error = true then (data.take w.taken, 0)
    else (data.take w.taken ++ (writeLoop ws (data.drop w.taken)).1,
      (data.take w.taken).length + (writeLoop ws (data.drop w.taken)).2)

end FileUtil

/-- What ends the program. -/
inductive Fault where
  /-- A stdio function is given a null stream. -/
  | nullStream
  /-- `file_` of the `LogFile` is null where it is used. -/
  | nullFile
deriving DecidableEq, Repr

structure LogFile where
  rollsize : Nat
  flushInterval : Int
  checkEveryN : Int
  count : Int
  startOfPeriod : Int
  lastRoll : Int
  lastFlush : Int
  file : Option FileUtil
  /-- The files `~FileUtil` has closed. -/
  closed : List Stream
  /-- The records handed to `append`. -/
  records : List (List Byte)
  fault : Option Fault
deriving DecidableEq, Repr

namespace LogFile

/-! ## State -/

/-- The stream of the current file. -/
def current (s : LogFile) : Option Stream := s.file.bind FileUtil.file

/-- The files opened so far, in that order. -/
def opened (s : LogFile) : List Stream := s.closed ++ s.current.toList

def writtenBytes (s : LogFile) : Nat := (s.file.map FileUtil.writtenBytes).getD 0

/-- What the log's files contain, in the order they were opened. -/
def contents (s : LogFile) : List (List Byte) := s.opened.map Stream.content

/-! ## Operations -/

/-- `file_->append(data, len)`. -/
def write (s : LogFile) (data : List Byte) (ws : List Fwrite) : LogFile :=
  match s.file with
  | none => { s with fault := some .nullFile }
  | some ⟨some stream, n⟩ =>
    { s with
      file := some
        ⟨some { stream with content := stream.content ++ (FileUtil.writeLoop ws data).1 },
          n + (FileUtil.writeLoop ws data).2⟩ }
  | some ⟨none, _⟩ => if data = [] then s else { s with fault := some .nullStream }

/-- `file_->flush()`. -/
def flush (s : LogFile) : LogFile :=
  match s.file with
  | none => { s with fault := some .nullFile }
  | some ⟨some _, _⟩ => s
  | some ⟨none, _⟩ => { s with fault := some .nullStream }

/-- `file_.reset(new FileUtil(filename))`: the new file is opened before the old
one is closed, and `setbuffer` does not look at what `fopen` returned. -/
def resetFile (s : LogFile) (now : Int) (fopen : Bool) : LogFile :=
  if fopen then { s with closed := s.opened, file := some ⟨some ⟨now, []⟩, 0⟩ }
  else { s with fault := some .nullStream }

/-- `rollFile`, with the clock it reads. -/
def rollFile (s : LogFile) (now : Int) (fopen : Bool) : LogFile :=
  if s.lastRoll < now then
    { s with
      lastFlush := now
      lastRoll := now
      startOfPeriod := startOfDay now }.resetFile now fopen
  else s

/-- The constructor. -/
def new (rollsize : Nat) (flushInterval checkEveryN now : Int) (fopen : Bool) : LogFile :=
  LogFile.rollFile
    { rollsize := rollsize
      flushInterval := flushInterval
      checkEveryN := checkEveryN
      count := 0
      startOfPeriod := 0
      lastRoll := 0
      lastFlush := 0
      file := none
      closed := []
      records := []
      fault := none } now fopen

/-- `appendInLock` up to `++count_`, an `int`. -/
def appended (s : LogFile) (data : List Byte) (ws : List Fwrite) : LogFile :=
  { s.write data ws with
    records := s.records ++ [data]
    count := (s.count + 1).bmod (2 ^ 32) }

/-- The two branches of `appendInLock`, and `rollFile` in them. -/
def checkRoll (s : LogFile) (now rollNow : Int) (fopen : Bool) : LogFile :=
  if s.rollsize < s.writtenBytes then s.rollFile rollNow fopen
  else if s.checkEveryN ≤ s.count then
    if startOfDay now ≠ s.startOfPeriod then { s with count := 0 }.rollFile rollNow fopen
    else { s with count := 0 }
  else s

/-- The end of `appendInLock`. -/
def checkFlush (s : LogFile) (now : Int) : LogFile :=
  if s.flushInterval < now - s.lastFlush then { s with lastFlush := now }.flush else s

/-- Nothing is executed after a fault. -/
def next (s : LogFile) (op : LogFile → LogFile) : LogFile :=
  if s.fault = none then op s else s

def append (s : LogFile) (data : List Byte) (ws : List Fwrite) (now rollNow : Int)
    (fopen : Bool) : LogFile :=
  ((s.appended data ws).next (·.checkRoll now rollNow fopen)).next (·.checkFlush now)

inductive Label where
  /-- `now` and `rollNow` are what `time` returns in `appendInLock` and in
  `rollFile`. -/
  | append (data : List Byte) (ws : List Fwrite) (now rollNow : Int) (fopen : Bool)
  | flush
deriving DecidableEq, Repr

def step (s : LogFile) : Label → LogFile
  | .append data ws now rollNow fopen => s.next (·.append data ws now rollNow fopen)
  | .flush => s.next flush

/-- The roll attempt of an append, after `++count_`: `rollFile` is called. -/
def Attempts (s : LogFile) (now : Int) : Prop :=
  s.rollsize < s.writtenBytes ∨ s.checkEveryN ≤ s.count ∧ startOfDay now ≠ s.startOfPeriod

instance (s : LogFile) (now : Int) : Decidable (s.Attempts now) := by
  unfold Attempts
  infer_instance

/-- The roll of an append goes through, or there is none: it has not been
attempted, or the second has not changed since the last one. -/
theorem rolls_or_kept (s : LogFile) (now lastRoll rollNow : Int) :
    s.Attempts now ∧ lastRoll < rollNow ∨ (s.Attempts now → rollNow ≤ lastRoll) := by
  by_cases hrolls : s.Attempts now ∧ lastRoll < rollNow
  · exact Or.inl hrolls
  · right
    intro hattempts
    by_contra hlater
    exact hrolls ⟨hattempts, Int.not_le.mp hlater⟩

/-! ## Where the calls into stdio succeed -/

/-- Every `fwrite` of the label takes all it is given. -/
def Label.TakesAll : Label → Prop
  | .append data ws _ _ _ => ∀ w ∈ ws, data.length ≤ w.taken
  | .flush => True

/-- Where the label calls `fopen`, it succeeds. -/
def Label.FopenSucceeds : Label → Prop
  | .append _ _ _ _ fopen => fopen = true
  | .flush => True

theorem writeLoop_of_takesAll {data : List Byte} {ws : List Fwrite}
    (h : ∀ w ∈ ws, data.length ≤ w.taken) :
    FileUtil.writeLoop ws data = (data, data.length) := by
  cases data with
  | nil => simp [FileUtil.writeLoop]
  | cons b data =>
    cases ws with
    | nil => simp [FileUtil.writeLoop]
    | cons w ws =>
      have hall := h w (List.mem_cons_self ..)
      have htake : (b :: data).take w.taken = b :: data := List.take_of_length_le hall
      have hdrop : (b :: data).drop w.taken = [] := List.drop_of_length_le hall
      have hshort : ¬ (w.taken < (b :: data).length ∧ w.error = true) :=
        fun h => absurd hall (Nat.not_le.mpr h.1)
      rw [FileUtil.writeLoop, if_neg hshort, htake, hdrop]
      · simp [FileUtil.writeLoop]
      · simp

/-- The log writes to `stream`, to which `n` bytes have been written. -/
structure WritesTo (s : LogFile) (stream : Stream) (n : Nat) : Prop where
  file : s.file = some ⟨some stream, n⟩
  fault : s.fault = none

section
variable {s : LogFile} {stream : Stream} {n : Nat}

theorem WritesTo.opened (h : s.WritesTo stream n) : s.opened = s.closed ++ [stream] := by
  simp [LogFile.opened, current, h.file]

theorem WritesTo.congr (h : s.WritesTo stream n) {t : LogFile} (hfile : t.file = s.file)
    (hfault : t.fault = s.fault) : t.WritesTo stream n :=
  ⟨hfile.trans h.file, hfault.trans h.fault⟩

theorem WritesTo.writtenBytes (h : s.WritesTo stream n) : s.writtenBytes = n := by
  simp [LogFile.writtenBytes, h.file]

theorem WritesTo.appended_eq (h : s.WritesTo stream n) (data : List Byte) (ws : List Fwrite) :
    s.appended data ws = { s with
      file := some
        ⟨some { stream with content := stream.content ++ (FileUtil.writeLoop ws data).1 },
          n + (FileUtil.writeLoop ws data).2⟩
      records := s.records ++ [data]
      count := (s.count + 1).bmod (2 ^ 32) } := by
  simp only [LogFile.appended, write, h.file]

theorem WritesTo.lastRoll_appended (h : s.WritesTo stream n) (data : List Byte)
    (ws : List Fwrite) : (s.appended data ws).lastRoll = s.lastRoll := by
  rw [h.appended_eq]

theorem WritesTo.after_write (h : s.WritesTo stream n) (data : List Byte) (ws : List Fwrite) :
    (s.appended data ws).WritesTo
      { stream with content := stream.content ++ (FileUtil.writeLoop ws data).1 }
      (n + (FileUtil.writeLoop ws data).2) := by
  rw [h.appended_eq]
  exact ⟨rfl, h.fault⟩

theorem WritesTo.appended (h : s.WritesTo stream n) {data : List Byte} {ws : List Fwrite}
    (hws : ∀ w ∈ ws, data.length ≤ w.taken) :
    s.appended data ws = { s with
      file := some ⟨some { stream with content := stream.content ++ data }, n + data.length⟩
      records := s.records ++ [data]
      count := (s.count + 1).bmod (2 ^ 32) } := by
  rw [h.appended_eq, writeLoop_of_takesAll hws]

theorem WritesTo.writesTo_appended (h : s.WritesTo stream n) {data : List Byte} {ws : List Fwrite}
    (hws : ∀ w ∈ ws, data.length ≤ w.taken) :
    (s.appended data ws).WritesTo { stream with content := stream.content ++ data }
      (n + data.length) := by
  rw [h.appended hws]
  exact ⟨rfl, h.fault⟩

theorem WritesTo.flush (h : s.WritesTo stream n) : s.flush = s := by
  simp [LogFile.flush, h.file]

/-- `count_` where no file is opened. -/
def keptCount (s : LogFile) : Int :=
  if s.rollsize < s.writtenBytes then s.count else if s.checkEveryN ≤ s.count then 0 else s.count

/-- No attempt, or the second has not changed since the last roll. -/
theorem checkRoll_kept {now rollNow : Int} (fopen : Bool)
    (h : s.Attempts now → rollNow ≤ s.lastRoll) :
    s.checkRoll now rollNow fopen = { s with count := s.keptCount } := by
  unfold checkRoll keptCount
  by_cases hsize : s.rollsize < s.writtenBytes
  · rw [if_pos hsize, if_pos hsize, rollFile, if_neg (Int.not_lt.mpr (h (Or.inl hsize)))]
  · rw [if_neg hsize, if_neg hsize]
    by_cases hcount : s.checkEveryN ≤ s.count
    · rw [if_pos hcount, if_pos hcount]
      by_cases hday : startOfDay now ≠ s.startOfPeriod
      · have hrefused : rollNow ≤ s.lastRoll := h (Or.inr ⟨hcount, hday⟩)
        rw [if_pos hday, rollFile, if_neg (Int.not_lt.mpr hrefused)]
      · rw [if_neg hday]
    · rw [if_neg hcount, if_neg hcount]

theorem checkRoll_rolls {now rollNow : Int} (fopen : Bool) (h : s.Attempts now)
    (hlater : s.lastRoll < rollNow) :
    ∃ count : Int, (count = 0 ∨ count = s.count) ∧ s.checkRoll now rollNow fopen =
      { s with
        count := count
        lastFlush := rollNow
        lastRoll := rollNow
        startOfPeriod := startOfDay rollNow }.resetFile rollNow fopen := by
  unfold checkRoll
  by_cases hsize : s.rollsize < s.writtenBytes
  · refine ⟨s.count, Or.inr rfl, ?_⟩
    rw [if_pos hsize, rollFile, if_pos hlater]
  · rcases h with hsize' | ⟨hcount, hday⟩
    · exact absurd hsize' hsize
    · refine ⟨0, Or.inl rfl, ?_⟩
      rw [if_neg hsize, if_pos hcount, if_pos hday, rollFile, if_pos hlater]

theorem WritesTo.checkFlush (h : s.WritesTo stream n) (now : Int) :
    ∃ lastFlush : Int, s.checkFlush now = { s with lastFlush := lastFlush } := by
  unfold LogFile.checkFlush
  split
  · have hset : { s with lastFlush := now }.WritesTo stream n := ⟨h.file, h.fault⟩
    exact ⟨now, hset.flush⟩
  · exact ⟨s.lastFlush, rfl⟩

theorem next_of_none {s : LogFile} (h : s.fault = none) (op : LogFile → LogFile) :
    s.next op = op s := by
  rw [next, if_pos h]

theorem next_of_fault {s : LogFile} {e : Fault} (h : s.fault = some e) (op : LogFile → LogFile) :
    s.next op = s := by
  rw [next, if_neg (by simp [h])]

/-! ## What an append does -/

/-- What is left of `append` after `++count_`. -/
def finish (s : LogFile) (now rollNow : Int) (fopen : Bool) : LogFile :=
  (s.checkRoll now rollNow fopen).next (·.checkFlush now)

section
variable {now rollNow : Int}

theorem WritesTo.finish_kept (h : s.WritesTo stream n) (fopen : Bool)
    (hkept : s.Attempts now → rollNow ≤ s.lastRoll) :
    ∃ lastFlush : Int, s.finish now rollNow fopen =
      { s with count := s.keptCount, lastFlush := lastFlush } := by
  have hto : { s with count := s.keptCount }.WritesTo stream n := ⟨h.file, h.fault⟩
  rcases hto.checkFlush now with ⟨lastFlush, hflush⟩
  refine ⟨lastFlush, ?_⟩
  rw [finish, checkRoll_kept fopen hkept, next_of_none hto.fault, hflush]

theorem WritesTo.finish_rolled (h : s.WritesTo stream n) (hattempts : s.Attempts now)
    (hlater : s.lastRoll < rollNow) :
    ∃ count lastFlush : Int, (count = 0 ∨ count = s.count) ∧ s.finish now rollNow true =
      { s with
        count := count
        lastFlush := lastFlush
        lastRoll := rollNow
        startOfPeriod := startOfDay rollNow
        closed := s.closed ++ [stream]
        file := some ⟨some ⟨rollNow, []⟩, 0⟩ } := by
  rcases checkRoll_rolls true hattempts hlater with ⟨count, hcount, hroll⟩
  rw [resetFile, if_pos rfl] at hroll
  have hto : (s.checkRoll now rollNow true).WritesTo ⟨rollNow, []⟩ 0 := by
    rw [hroll]
    exact ⟨rfl, h.fault⟩
  rcases hto.checkFlush now with ⟨lastFlush, hflush⟩
  refine ⟨count, lastFlush, hcount, ?_⟩
  rw [finish, next_of_none hto.fault, hflush, hroll, ← h.opened]
  rfl

/-- `setbuffer` is called with the null pointer that `fopen` has returned. -/
theorem finish_failed (hattempts : s.Attempts now) (hlater : s.lastRoll < rollNow) :
    (s.finish now rollNow false).fault = some .nullStream := by
  rcases checkRoll_rolls false hattempts hlater with ⟨count, _, hroll⟩
  have hfault : (s.checkRoll now rollNow false).fault = some .nullStream := by
    rw [hroll]
    rfl
  rw [finish, next_of_fault hfault, hfault]

theorem WritesTo.step_append (h : s.WritesTo stream n) (data : List Byte) (ws : List Fwrite)
    (now rollNow : Int) (fopen : Bool) :
    s.step (.append data ws now rollNow fopen) = (s.appended data ws).finish now rollNow fopen := by
  rw [step, next_of_none h.fault, append, next_of_none (h.after_write data ws).fault, finish]

end

theorem WritesTo.step_flush (h : s.WritesTo stream n) : s.step .flush = s := by
  rw [step, next_of_none h.fault, h.flush]

end

theorem new_eq (rollsize : Nat) (flushInterval checkEveryN : Int) {now : Int} (hnow : 0 < now) :
    new rollsize flushInterval checkEveryN now true =
      { rollsize := rollsize
        flushInterval := flushInterval
        checkEveryN := checkEveryN
        count := 0
        startOfPeriod := startOfDay now
        lastRoll := now
        lastFlush := now
        file := some ⟨some ⟨now, []⟩, 0⟩
        closed := []
        records := []
        fault := none } := by
  rw [new, rollFile, if_pos hnow, resetFile, if_pos rfl]
  rfl

end LogFile

end EchoServer
