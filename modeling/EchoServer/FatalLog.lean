import EchoServer.LogFlush
import EchoServer.Logger

/-!
# FATAL

`main` makes `g_output` append to `AsyncLogging` and leaves `g_flush` as it is: it
flushes `stdout`. So `~Logger` of a FATAL record goes on to `abort()` while the
record may still be in the buffers of `AsyncLogging`.

* `Program`: the logging threads and the logging system;
* `fatal_iff_drained`: the evidence an `abort()` leaves.
-/

namespace EchoServer

open Runs LogStream

/-- A `LOG_` statement: what the `Logger` is constructed with, and what is
inserted into its stream. -/
structure LogStatement where
  localtime : Int → Tm
  now : Timestamp
  basename : SourceFile
  line : IntType.int.Value
  level : LogLevel
  insertions : List Insertion

namespace Logger

theorem content_isPrefix_insert {s : LogStream} (h : s.InBounds) (i : Insertion) :
    s.content <+: (s.insert i).content := by
  rcases h.atomic (.insert i) with hwhole | hnothing
  · rw [hwhole]
    exact List.prefix_append _ _
  · rw [hnothing]

theorem content_isPrefix_insertAll {l : Logger} (h : l.stream.InBounds) (is : List Insertion) :
    l.stream.content <+: (l.insertAll is).stream.content := by
  induction is generalizing l with
  | nil => exact List.prefix_refl _
  | cons i is ih =>
    have hrest := ih (l := { l with stream := l.stream.insert i }) (insert_inBounds h i)
    exact (content_isPrefix_insert h i).trans hrest

theorem finish_inBounds {l : Logger} (h : l.stream.InBounds) : l.finish.stream.InBounds := by
  have hsuffix := insert_inBounds (insert_inBounds (insert_inBounds h (.cString (ascii " - ".toList)))
    (.general (.all l.basename.data))) (.cString (ascii ":".toList))
  exact insert_inBounds (insert_inBounds hsuffix (.integer l.line)) (.char (UInt8.ofNat '\n'.toNat))

theorem content_isPrefix_output {l : Logger} (h : l.stream.InBounds) :
    l.stream.content <+: l.output := by
  rcases output_eq h with ⟨p₁, p₂, p₃, p₄, p₅, houtput, _⟩
  rw [houtput]
  exact List.prefix_append _ _

end Logger

namespace LogStatement

def logger (c : LogStatement) : Logger :=
  (Logger.new c.localtime c.now c.basename c.line c.level).insertAll c.insertions

theorem stream_inBounds (c : LogStatement) : c.logger.stream.InBounds :=
  Logger.insertAll_inBounds (Logger.stream_new_inBounds c.localtime c.now c.basename c.line c.level)
    c.insertions

theorem output_ne_nil (c : LogStatement) : c.logger.output ≠ [] := by
  have hnew := Logger.stream_new_inBounds c.localtime c.now c.basename c.line c.level
  have hlength := Logger.length_new c.localtime c.now c.basename c.line c.level
  have hinserted := (Logger.content_isPrefix_insertAll hnew c.insertions).length_le
  have houtput := (Logger.content_isPrefix_output c.stream_inBounds).length_le
  apply List.ne_nil_of_length_pos
  change _ ≤ c.logger.stream.content.length at hinserted
  omega

theorem length_output_lt (c : LogStatement) : c.logger.output.length < largeBufferSize := by
  have hbounds := Logger.finish_inBounds c.stream_inBounds
  have hlength : c.logger.output.length = c.logger.finish.stream.buffer.length :=
    FixedBuffer.length_content _
  rw [hlength]
  exact Nat.lt_trans hbounds.wf.length (by decide)

/-- What `~Logger` hands to `g_output`. -/
def record (c : LogStatement) : AsyncLogging.Record where
  bytes := c.logger.output
  short := c.length_output_lt

theorem bytes_record (c : LogStatement) : c.record.bytes = c.logger.output := by
  simp only [record]

end LogStatement

/-- Where a thread is in `~Logger`. -/
inductive Destructor where
  | idle
  /-- In `g_output`, record number `record` has been put down. -/
  | output (record : Nat) (level : LogLevel)
  /-- Before `g_flush()`. -/
  | flush (record : Nat)
  /-- Before `abort()`. -/
  | abort (record : Nat)
deriving DecidableEq, Repr

/-- The number of the record it is about. -/
def Destructor.record : Destructor → Option Nat
  | .idle => none
  | .output record _ => some record
  | .flush record => some record
  | .abort record => some record

structure Program where
  system : LogSystem
  loggers : Nat → Destructor
  /-- The records whose `~Logger` has completed. -/
  completed : List Nat
  aborted : Bool
  /-- The steps of `system`. -/
  history : List LogSystem.Label

namespace Program

/-! ## Steps -/

inductive Label where
  /-- `impl_.finish()`, and `g_output` as far as the lock in `append`. -/
  | output (tid : Nat) (c : LogStatement)
  | outputReturn (tid : Nat)
  /-- `g_flush()`. -/
  | flush (tid : Nat)
  | abort (tid : Nat)
  /-- A step of the logging system that is not part of `append`. -/
  | log (l : LogSystem.Label)

/-- The step belongs to `append`. -/
def inAppend : AsyncLogging.Label → Bool
  | .append _ _ => true
  | .appendReturn _ => true
  | _ => false

/-- For the steps that ask nothing. -/
def unasked : FileAnswers := ⟨[], 0, 0, true⟩

def setLogger (s : Program) (tid : Nat) (d : Destructor) : Program :=
  { s with loggers := fun t => if t = tid then d else s.loggers t }

def advance (s : Program) (l : LogSystem.Label) : Program :=
  { s with system := s.system.step l, history := s.history ++ [l] }

/-- `mutex_` is free, and `AsyncLogging` is not destroyed. -/
def CanAppend (s : Program) (tid : Nat) : Prop :=
  s.system.logging.thread.holdsMutex = false ∧ s.system.logging.callers tid = none ∧
    s.system.logging.owner ≠ .gone

instance (s : Program) (tid : Nat) : Decidable (s.CanAppend tid) := by
  unfold CanAppend
  infer_instance

/-- The program has come to an end. -/
def finished (s : Program) : Bool := s.aborted || s.system.ended

def step (s : Program) (e : Label) : Program :=
  if s.finished = true then s
  else
    match e with
    | .output tid c =>
      if s.loggers tid = .idle ∧ s.CanAppend tid then
        (s.advance (.append tid c.record, unasked)).setLogger tid
          (.output s.system.logging.records.length c.level)
      else s
    | .outputReturn tid =>
      match s.loggers tid with
      | .output record level =>
        let returned := s.advance (.appendReturn tid, unasked)
        if level = .FATAL then returned.setLogger tid (.flush record)
        else { returned with completed := s.completed ++ [record] }.setLogger tid .idle
      | _ => s
    | .flush tid =>
      match s.loggers tid with
      -- `defaultFlush`: `stdout` is flushed, which is not the log
      | .flush record => s.setLogger tid (.abort record)
      | _ => s
    | .abort tid =>
      match s.loggers tid with
      | .abort _ => { s with aborted := true }
      | _ => s
    | .log l => if inAppend l.1 = true then s else s.advance l

/-- `log.start()` in `main`. -/
def started : List LogSystem.Label := [(.start, unasked), (.startThread, unasked)]

/-- `RollSize`. -/
def rollSize : Nat := 1 * 1024 * 1024

/-- `main` after `log.start()`. -/
def start : Program where
  system := run LogSystem.step (.new rollSize) started
  loggers := fun _ => .idle
  completed := []
  aborted := false
  history := started

/-! ## The evidence -/

/-- `~Logger` of record number `i` reaches `abort()`. -/
def Aborts (s : Program) (e : Label) (i : Nat) : Prop :=
  s.finished = false ∧ ∃ tid, e = .abort tid ∧ s.loggers tid = .abort i

/-- The record and those whose `~Logger` has completed are in the file, and flushed. -/
def LeavesEvidence (s : Program) (e : Label) : Prop :=
  ∀ i, Aborts s e i → ∀ j, j = i ∨ j ∈ s.completed →
    s.system.logging.upTo j <+: s.system.flushed

/-- For each of these records the logging thread has, after its `append`, swapped the
buffers, got past the one it is in, and come to a flush. -/
def FindsDrained (s : Program) (e : Label) : Prop :=
  ∀ i, Aborts s e i → ∀ j, j = i ∨ j ∈ s.completed →
    LogSystem.stage rollSize j s.history = .drained

/-! ## The records of a run -/

/-- `system` has made its steps, no record is empty, and the numbers are numbers of
records. -/
structure Inv (s : Program) : Prop where
  system : s.system = run LogSystem.step (.new rollSize) s.history
  notEmpty : ∀ r ∈ s.system.logging.records, r.bytes ≠ []
  loggers : ∀ tid i, (s.loggers tid).record = some i → i < s.system.logging.records.length
  completed : ∀ j ∈ s.completed, j < s.system.logging.records.length

theorem start_inv : start.Inv where
  system := rfl
  notEmpty := fun _ hr => absurd hr (List.not_mem_nil)
  loggers := fun _ _ hnone => nomatch hnone
  completed := fun _ hj => absurd hj (List.not_mem_nil)

theorem ended_of_not_finished {s : Program} (h : s.finished = false) : s.system.ended = false := by
  simp only [finished, Bool.or_eq_false_iff] at h
  exact h.2

theorem Inv.setLogger {s : Program} (h : s.Inv) {tid : Nat} {d : Destructor}
    (hd : ∀ i, d.record = some i → i < s.system.logging.records.length) :
    (s.setLogger tid d).Inv where
  system := h.system
  notEmpty := h.notEmpty
  loggers := by
    intro tid' i hrecord
    by_cases htid : tid' = tid
    · exact hd i (by simpa [Program.setLogger, htid] using hrecord)
    · exact h.loggers tid' i (by simpa [Program.setLogger, htid] using hrecord)
  completed := h.completed

/-- A step of the logging system, with what it puts down. -/
theorem Inv.advance {s : Program} (h : s.Inv) {l : LogSystem.Label}
    (hne : ∀ r ∈ (s.system.step l).logging.records, r.bytes ≠ []) : (s.advance l).Inv := by
  have hlonger := (s.system.records_step l).length_le
  constructor
  · show s.system.step l = run LogSystem.step (.new rollSize) (s.history ++ [l])
    rw [run_concat, ← h.system]
  · exact hne
  · intro tid i hrecord
    exact Nat.lt_of_lt_of_le (h.loggers tid i hrecord) hlonger
  · intro j hj
    exact Nat.lt_of_lt_of_le (h.completed j hj) hlonger

theorem records_output {s : Program} (hfinished : s.finished = false) {tid : Nat}
    (hcan : s.CanAppend tid) (r : AsyncLogging.Record) : (s.system.step (.append tid r, unasked)).logging.records =
      s.system.logging.records ++ [r] := by
  have hstep := AsyncLogging.step_append hcan r
  rw [LogSystem.logging_step (ended_of_not_finished hfinished), hstep]
  rfl

theorem Inv.output {s : Program} (h : s.Inv) (hfinished : s.finished = false) {tid : Nat}
    (hcan : s.CanAppend tid) (c : LogStatement) :
    ((s.advance (.append tid c.record, unasked)).setLogger tid
      (.output s.system.logging.records.length c.level)).Inv := by
  have hrecords := records_output hfinished hcan c.record
  have hadvanced : (s.advance (.append tid c.record, unasked)).Inv := by
    apply h.advance
    intro r hr
    rw [hrecords] at hr
    rcases List.mem_append.mp hr with hold | hnew
    · exact h.notEmpty r hold
    · rw [List.mem_singleton.mp hnew, c.bytes_record]
      exact c.output_ne_nil
  apply hadvanced.setLogger
  intro i hi
  rw [← Option.some_inj.mp hi]
  show _ < (s.system.step (.append tid c.record, unasked)).logging.records.length
  rw [hrecords, List.length_append]
  exact Nat.lt_succ_self _

theorem records_of_not_append {s : Program} (hfinished : s.finished = false) {l : LogSystem.Label}
    (hl : ∀ tid r, l.1 ≠ .append tid r) :
    (s.system.step l).logging.records = s.system.logging.records := by
  rw [LogSystem.logging_step (ended_of_not_finished hfinished)]
  exact AsyncLogging.records_of_not_append hl

theorem Inv.quiet {s : Program} (h : s.Inv) (hfinished : s.finished = false) {l : LogSystem.Label}
    (hl : ∀ tid r, l.1 ≠ .append tid r) : (s.advance l).Inv := by
  apply h.advance
  rw [records_of_not_append hfinished hl]
  exact h.notEmpty

/-- `g_output` returns, and `~Logger` goes on or is left. -/
theorem Inv.outputReturn {s : Program} (h : s.Inv) {tid record : Nat} {level : LogLevel}
    (hlogger : s.loggers tid = .output record level) :
    (if level = .FATAL then s.setLogger tid (.flush record)
      else { s with completed := s.completed ++ [record] }.setLogger tid .idle).Inv := by
  have hrecord := h.loggers tid record (by rw [hlogger]; rfl)
  split
  · apply h.setLogger
    intro i hi
    rw [← Option.some_inj.mp hi]
    exact hrecord
  · have hcompleted : ({ s with completed := s.completed ++ [record] } : Program).Inv := by
      refine { h with completed := ?_ }
      intro j hj
      rcases List.mem_append.mp hj with hold | hnew
      · exact h.completed j hold
      · rw [List.mem_singleton.mp hnew]
        exact hrecord
    exact hcompleted.setLogger fun _ hnone => nomatch hnone

theorem Inv.step {s : Program} (h : s.Inv) (e : Label) : (s.step e).Inv := by
  unfold Program.step
  split
  · exact h
  rename_i hfinished
  rw [Bool.not_eq_true] at hfinished
  cases e with
  | output tid c =>
    dsimp only
    split
    · rename_i hcan
      exact h.output hfinished hcan.2 c
    · exact h
  | outputReturn tid =>
    dsimp only
    split
    · rename_i record level hlogger
      have hreturned := h.quiet hfinished (l := (.appendReturn tid, unasked)) (by simp)
      exact hreturned.outputReturn hlogger
    · exact h
  | flush tid =>
    dsimp only
    split
    · rename_i record hlogger
      apply h.setLogger
      intro i hi
      exact h.loggers tid i (by rw [hlogger]; exact hi)
    · exact h
  | abort tid =>
    dsimp only
    split
    · exact { h with }
    · exact h
  | log l =>
    dsimp only
    split
    · exact h
    · rename_i hlog
      apply h.quiet hfinished
      intro tid r heq
      simp [heq, inAppend] at hlog

/-- An `abort()` finds a record flushed exactly when its buffer is drained. -/
theorem Inv.evidence_iff {s : Program} (h : s.Inv) (e : Label) :
    s.LeavesEvidence e ↔ s.FindsDrained e := by
  have hflushed : ∀ j, j < s.system.logging.records.length →
      (s.system.logging.upTo j <+: s.system.flushed ↔
        LogSystem.stage rollSize j s.history = .drained) := by
    intro j hj
    have hne := h.notEmpty
    rw [h.system] at hne hj ⊢
    exact LogSystem.flushed_iff_drained hne hj
  have hnumber : ∀ i, Aborts s e i → ∀ j, j = i ∨ j ∈ s.completed →
      j < s.system.logging.records.length := by
    rintro i ⟨_, tid, _, hlogger⟩ j (rfl | hj)
    · exact h.loggers tid j (by rw [hlogger]; rfl)
    · exact h.completed j hj
  constructor
  · intro hleaves i hi j hj
    exact (hflushed j (hnumber i hi j hj)).mp (hleaves i hi j hj)
  · intro hdrained i hi j hj
    exact (hflushed j (hnumber i hi j hj)).mpr (hdrained i hi j hj)

/-- Whatever the threads log and however they interleave with the logging thread:
every `abort()` leaves the evidence if and only if every `abort()` comes after the
logging thread has, for each of these records, swapped the buffers after its `append`,
got past the buffer it is in, and come to a flush. -/
theorem fatal_iff_drained (es : List Label) :
    EachStep step start LeavesEvidence es ↔ EachStep step start FindsDrained es := by
  have hinv : ∀ pre, (run step start pre).Inv := by
    intro pre
    exact run_invariant Inv (fun _ e h => h.step e) start_inv pre
  constructor
  · intro h pre e hpre
    exact ((hinv pre).evidence_iff e).mp (h pre e hpre)
  · intro h pre e hpre
    exact ((hinv pre).evidence_iff e).mpr (h pre e hpre)

/-- A FATAL record of one thread. -/
def fatalStatement : LogStatement where
  localtime := localtimeAt 0
  now := Timestamp.oneSecond
  basename := ⟨ascii "EventLoop.cc".toList, by decide⟩
  line := ⟨90, by decide, by decide⟩
  level := .FATAL
  insertions := [.string (ascii "out of memory".toList)]

/-- `~Logger` runs before the logging thread has entered its loop. -/
def unseen : List Label := [.output 1 fatalStatement, .outputReturn 1, .flush 1, .abort 1]

/-- The record is in `currentBuffer_`, and the file is not even open. -/
theorem fatal_record_lost : ¬ EachStep step start LeavesEvidence unseen ∧
    (run step start unseen).aborted = true ∧ (run step start unseen).system.flushed = [] := by
  have haborted : (run step start unseen).aborted = true := rfl
  have hflushed : (run step start unseen).system.flushed = [] := rfl
  refine ⟨?_, haborted, hflushed⟩
  intro h
  have hevidence := h (unseen.take 3) (.abort 1) (List.prefix_refl _) 0 ⟨rfl, 1, rfl, rfl⟩ 0
    (Or.inl rfl)
  have hlost : fatalStatement.record.bytes ++ [] = [] := List.prefix_nil.mp hevidence
  rw [List.append_nil, LogStatement.bytes_record] at hlost
  exact fatalStatement.output_ne_nil hlost

end Program

end EchoServer
