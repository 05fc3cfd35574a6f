import EchoServer.LogDelay
import EchoServer.LogFile

/-!
# What has been flushed

`threadFunc` gives the buffers to its `LogFile` and flushes it at the end of an
iteration. The `LogFile` flushes by itself too, from time to time and when a roll
closes the old file. Until then a record may be in `currentBuffer_`, in
`buffers_`, in `buffersToWrite` or in the buffer of the stream.

* `LogFile.flushes`: which calls of the `LogFile` flush;
* `LogSystem`: `AsyncLogging` and the `LogFile` of its thread;
* `EndsIn`: how many buffers are before the one in which a record ends, and what the
  steps do to it;
* `Stage`: how far the steps of the logging thread have brought the buffer of a record;
* `flushed_iff_drained`: the record is flushed exactly when its buffer is drained.
-/

namespace EchoServer

open Runs

/-- The call flushes what the file has been given: `flush` is called, or
`rollFile` has the old file closed. -/
def LogFile.flushes (s : LogFile) : LogFile.Label → Bool
  | .append data ws now rollNow fopen =>
    let rolled := (s.appended data ws).checkRoll now rollNow fopen
    decide (s.lastRoll < rolled.lastRoll) || decide (rolled.flushInterval < now - rolled.lastFlush)
  | .flush => true

/-- What the C library answers, where a step asks it. -/
structure FileAnswers where
  fwrites : List Fwrite
  now : Int
  rollNow : Int
  fopen : Bool
deriving DecidableEq, Repr

structure LogSystem where
  rollSize : Nat
  logging : AsyncLogging
  /-- `output`, a local of `threadFunc`. -/
  output : Option LogFile
  /-- What `output` had been given when it was flushed last. -/
  flushed : List Byte

namespace AsyncLogging

theorem step_append {s : AsyncLogging} {tid : Nat}
    (h : s.thread.holdsMutex = false ∧ s.callers tid = none ∧ s.owner ≠ .gone) (r : Record) :
    s.step (.append tid r) =
      { s.put r.bytes with records := s.records ++ [r] }.setCaller tid (some s.records.length) :=
  if_pos h

theorem step_write {s : AsyncLogging} {buffer : LargeBuffer} {rest : List BufferPtr}
    (h : s.thread = .writing (some buffer :: rest)) :
    s.step .write = { s with written := s.written ++ buffer.content, thread := .writing rest } := by
  simp only [step, h]

/-- Only the loop over `buffersToWrite` gives anything to `LogFile::append`. -/
theorem written_step (s : AsyncLogging) (e : Label) : (s.step e).written = s.written ∨
    e = .write ∧ ∃ buffer rest, s.thread = .writing (some buffer :: rest) := by
  rcases s.step_cases e with hstutter | hstep
  · left
    rw [hstutter]
  generalize s.step e = s' at hstep
  cases hstep with
  | append tid r => exact Or.inl (s.put_apart r.bytes).written
  | swap hthread => exact Or.inl s.swap_apart.written
  | recycle hthread => exact Or.inl s.recycle_apart.written
  | write buffer rest hthread => exact Or.inr ⟨rfl, buffer, rest, hthread⟩
  | _ => exact Or.inl rfl

theorem records_of_not_append {s : AsyncLogging} {e : Label} (h : ∀ tid r, e ≠ .append tid r) :
    (s.step e).records = s.records := by
  rcases s.step_cases e with hstutter | hstep
  · rw [hstutter]
  generalize s.step e = s' at hstep
  cases hstep with
  | append tid r => exact absurd rfl (h tid r)
  | swap hthread => exact s.swap_apart.records
  | recycle hthread => exact s.recycle_apart.records
  | _ => rfl

theorem written_isPrefix_step (s : AsyncLogging) (e : Label) :
    s.written <+: (s.step e).written := by
  rcases s.written_step e with hsame | ⟨rfl, buffer, rest, hthread⟩
  · rw [hsame]
  · rw [step_write hthread]
    exact List.prefix_append _ _

/-! ## The buffer of a record -/

/-- The thread takes the buffers. -/
def swaps (s : AsyncLogging) (e : Label) : Bool :=
  match e, s.thread with
  | .swap, .swapping => true
  | _, _ => false

theorem swaps_eq_true {s : AsyncLogging} {e : Label} (h : s.swaps e = true) :
    e = .swap ∧ s.thread = .swapping := by
  unfold swaps at h
  split at h
  · rename_i hthread
    exact ⟨rfl, hthread⟩
  · cases h

theorem written_of_not_writes {s : AsyncLogging} {e : Label} (h : s.writes e = false) :
    (s.step e).written = s.written := by
  refine (s.written_step e).resolve_right ?_
  rintro ⟨rfl, buffer, rest, hthread⟩
  simp [writes, hthread] at h

/-- The buffers on their way to `LogFile::append`, the next one first. -/
def line (s : AsyncLogging) : List BufferPtr := s.thread.rest ++ (s.buffers ++ [s.currentBuffer])

theorem contents_line (s : AsyncLogging) : contents s.line = s.unwritten := contents_append _ _

/-- Outside the loop over `buffersToWrite`. -/
theorem line_of_rest {s : AsyncLogging} (h : s.thread.rest = []) :
    s.line = s.buffers ++ [s.currentBuffer] := by
  rw [line, h, List.nil_append]

/-- Buffers have come to the end, and the last one has been filled further. -/
structure Grows (ps qs : List BufferPtr) : Prop where
  length : ps.length ≤ qs.length
  before : ∀ n < ps.length, qs.take n = ps.take n
  filled : ∀ n < ps.length, contents (ps.take (n + 1)) <+: contents (qs.take (n + 1))

theorem Grows.append (ps qs : List BufferPtr) : Grows ps (ps ++ qs) where
  length := by simp
  before := fun n hn => List.take_append_of_le_length (Nat.le_of_lt hn)
  filled := by
    intro n hn
    rw [List.take_append_of_le_length hn]

theorem Grows.refl (ps : List BufferPtr) : Grows ps ps := by
  simpa using Grows.append ps []

theorem Grows.fill (ps : List BufferPtr) {p q : BufferPtr} (h : content p <+: content q) :
    Grows (ps ++ [p]) (ps ++ [q]) := by
  constructor
  · simp
  · intro n hn
    have hn' : n ≤ ps.length := by simpa using Nat.le_of_lt_succ (by simpa using hn)
    rw [List.take_append_of_le_length hn', List.take_append_of_le_length hn']
  · intro n hn
    rcases Nat.lt_or_ge n ps.length with hlt | hge
    · rw [List.take_append_of_le_length hlt, List.take_append_of_le_length hlt]
    · rw [List.take_of_length_le (by simpa using hge), List.take_of_length_le (by simpa using hge)]
      simpa using h

theorem grows_put {s : AsyncLogging} (h : s.Inv) (r : Record) :
    Grows s.line (s.put r.bytes).line := by
  rw [line, line, (s.put_apart r.bytes).thread]
  rcases h.put_cases r with ⟨hbuffers, hcontent⟩ | ⟨hbuffers, _⟩
  · rw [hbuffers, ← List.append_assoc, ← List.append_assoc]
    apply Grows.fill
    rw [hcontent]
    exact List.prefix_append _ _
  · rw [hbuffers, ← List.append_assoc s.thread.rest (s.buffers ++ [s.currentBuffer])]
    exact Grows.append _ _

/-- Only `LogFile::append` takes a buffer from the line. -/
theorem line_step {s : AsyncLogging} (h : s.Steady) {e : Label} (hwrites : s.writes e = false) :
    Grows s.line (s.step e).line := by
  refine covers.elim (P := fun s' => Grows s.line s'.line) (Grows.refl _) ?_
  intro s' hstep
  cases hstep with
  | append tid r => exact grows_put h.inv r
  | appendReturn | start | stop | dtor | dtorStop | dtorEnd | writeNull => exact Grows.refl _
  | startThread howner =>
    rw [line_of_rest (by rw [h.owned.unstarted (Or.inr howner)]; rfl)]
    exact Grows.refl _
  | enter hthread | testRunning hthread | testStopped hthread | lockEmpty hthread
  | lockFull hthread | wake hthread | writeEnd hthread | flush hthread | finish hthread =>
    rw [line_of_rest (by rw [hthread]; rfl)]
    exact Grows.refl _
  | swap hthread =>
    -- all buffers are taken, and a new one begins the next line
    have hlocals := h.inv.locals
    rw [hthread] at hlocals
    rw [line_of_rest (by rw [hthread]; rfl), swap_eq hlocals.2.2]
    exact Grows.append _ _
  | write buffer rest hthread => simp [writes, hthread] at hwrites
  | recycle hthread =>
    have hlocals := h.inv.locals
    rw [hthread] at hlocals
    rcases recycle_spec hlocals h.inv.newEmpty1 h.inv.newEmpty2 with ⟨p, q, hrecycle, _⟩
    rw [line_of_rest (by rw [hthread]; rfl), hrecycle]
    exact Grows.refl _

/-- The swap begins a round over `buffersToWrite`, and a buffer leaves it when
`LogFile::append` is given it. -/
theorem rest_step {s : AsyncLogging} (h : s.Steady) {e : Label} (hswaps : s.swaps e = false)
    (hwrites : s.writes e = false) : (s.step e).thread.rest = s.thread.rest := by
  refine covers.elim (P := fun s' => s'.thread.rest = s.thread.rest) rfl ?_
  intro s' hstep
  cases hstep with
  | append tid r =>
    show (s.put r.bytes).thread.rest = _
    rw [(s.put_apart r.bytes).thread]
  | appendReturn | start | stop | dtor | dtorStop | dtorEnd | writeNull => rfl
  | startThread howner =>
    rw [h.owned.unstarted (Or.inr howner)]
    rfl
  | swap hthread => simp [swaps, hthread] at hswaps
  | write buffer rest hthread => simp [writes, hthread] at hwrites
  | enter hthread | testRunning hthread | testStopped hthread | lockEmpty hthread
  | lockFull hthread | wake hthread | writeEnd hthread | recycle hthread | flush hthread
  | finish hthread =>
    rw [hthread]
    rfl

/-- The first `k` bytes of the records end in a buffer of the line, with `n` buffers
before it. -/
structure EndsIn (s : AsyncLogging) (n k : Nat) : Prop where
  lt : n < s.line.length
  before : s.written.length + (contents (s.line.take n)).length < k
  inside : k ≤ s.written.length + (contents (s.line.take (n + 1))).length

theorem EndsIn.written_lt {s : AsyncLogging} {n k : Nat} (h : s.EndsIn n k) :
    s.written.length < k :=
  Nat.lt_of_le_of_lt (Nat.le_add_right _ _) h.before

theorem EndsIn.kept {s : AsyncLogging} {n k : Nat} (h : s.EndsIn n k) (hs : s.Steady) {e : Label}
    (hwrites : s.writes e = false) : (s.step e).EndsIn n k := by
  have hgrows := line_step hs hwrites
  constructor
  · exact Nat.lt_of_lt_of_le h.lt hgrows.length
  · rw [written_of_not_writes hwrites, hgrows.before n h.lt]
    exact h.before
  · rw [written_of_not_writes hwrites]
    exact h.inside.trans (Nat.add_le_add_left (hgrows.filled n h.lt).length_le _)

section
variable {s : AsyncLogging} {e : Label}

/-- What `writes` does to the line. -/
theorem line_writes (hwrites : s.writes e = true) :
    ∃ buffer, s.line = some buffer :: (s.step e).line ∧
      (s.step e).written = s.written ++ buffer.content := by
  rcases writes_eq_true hwrites with ⟨rfl, buffer, rest, hthread⟩
  refine ⟨buffer, ?_, ?_⟩
  · rw [step_write hthread]
    simp [line, hthread, ThreadFunc.rest]
  · rw [step_write hthread]

/-- One buffer less is before it. -/
theorem EndsIn.next {n k : Nat} (h : s.EndsIn (n + 1) k) (hwrites : s.writes e = true) :
    (s.step e).EndsIn n k := by
  rcases line_writes hwrites with ⟨buffer, hline, hwritten⟩
  rcases h with ⟨hlt, hbefore, hinside⟩
  rw [hline] at hlt hbefore hinside
  rw [List.take_succ_cons, contents_cons, List.length_append] at hbefore hinside
  constructor
  · simpa using hlt
  · rw [hwritten, List.length_append]
    simpa [content, Nat.add_assoc] using hbefore
  · rw [hwritten, List.length_append]
    simpa [content, Nat.add_assoc] using hinside

/-- The buffer itself is written. -/
theorem EndsIn.written {k : Nat} (h : s.EndsIn 0 k) (hwrites : s.writes e = true) :
    k ≤ (s.step e).written.length := by
  rcases line_writes hwrites with ⟨buffer, hline, hwritten⟩
  have hinside := h.inside
  rw [hline] at hinside
  rw [hwritten, List.length_append]
  simpa [content] using hinside

/-- A record that has just been put down ends in `currentBuffer_`. -/
theorem endsIn_puts (hs : s.Steady) (hputs : s.puts e = true)
    (hconserved : (s.step e).written ++ (s.step e).unwritten = bytesOf (s.step e).records)
    (hne : ∀ r ∈ (s.step e).records, r.bytes ≠ []) :
    s.records.length < (s.step e).records.length ∧ (s.step e).thread.rest = [] ∧
      (s.step e).EndsIn (s.step e).buffers.length
        ((s.step e).upTo s.records.length).length := by
  cases e with
  | append tid r =>
    obtain ⟨hfree, hcaller, howner⟩ : s.thread.holdsMutex = false ∧ s.callers tid = none ∧
        s.owner ≠ .gone := by simpa [puts] using hputs
    have hstep := step_append ⟨hfree, hcaller, howner⟩ r
    have hrecords : (s.step (.append tid r)).records = s.records ++ [r] := by
      rw [hstep]
      rfl
    have hrest : (s.step (.append tid r)).thread.rest = [] := by
      rw [hstep]
      show (s.put r.bytes).thread.rest = []
      rw [(s.put_apart r.bytes).thread]
      exact ThreadFunc.rest_of_free hfree
    have hline := line_of_rest hrest
    have hupTo : (s.step (.append tid r)).upTo s.records.length =
        (s.step (.append tid r)).written ++ contents (s.step (.append tid r)).line := by
      rw [contents_line, hconserved, upTo, hrecords, List.take_of_length_le (by simp)]
    have hcurrent : 0 < (content (s.step (.append tid r)).currentBuffer).length := by
      have hr : r.bytes ≠ [] := hne r (by simp [hrecords])
      rw [hstep]
      show 0 < (content (s.put r.bytes).currentBuffer).length
      rcases hs.inv.put_cases r with ⟨_, hcontent⟩ | ⟨_, hcontent⟩
      · rw [hcontent, List.length_append]
        have hpos := List.length_pos_iff.mpr hr
        omega
      · rw [hcontent]
        exact List.length_pos_iff.mpr hr
    refine ⟨by simp [hrecords], hrest, ?_, ?_, ?_⟩
    · simp [hline]
    · rw [hupTo, hline, List.take_left, contents_append]
      simpa using hcurrent
    · rw [hupTo, hline, List.take_of_length_le (by simp), List.length_append]
  | _ => simp [puts] at hputs

theorem records_of_not_puts {j : Nat} (hnew : s.records.length ≤ j)
    (hputs : ¬ (s.records.length = j ∧ s.puts e = true)) : (s.step e).records.length ≤ j := by
  by_cases happend : ∃ tid r, e = .append tid r
  · obtain ⟨tid, r, rfl⟩ := happend
    by_cases henabled : s.thread.holdsMutex = false ∧ s.callers tid = none ∧ s.owner ≠ .gone
    · have hne : s.records.length ≠ j := fun hlength =>
        hputs ⟨hlength, by simp [puts, henabled]⟩
      rw [step_append henabled]
      show (s.records ++ [r]).length ≤ j
      rw [List.length_append]
      exact Nat.lt_of_le_of_ne hnew hne
    · have hstutter : s.step (.append tid r) = s := if_neg henabled
      rw [hstutter]
      exact hnew
  · rw [records_of_not_append fun tid r he => happend ⟨tid, r, he⟩]
    exact hnew

end

end AsyncLogging

namespace LogSystem

open AsyncLogging (upTo bytesOf)

def new (rollSize : Nat) : LogSystem where
  rollSize := rollSize
  logging := .new
  output := none
  flushed := []

/-- A step of any thread, with the answers it gets. -/
abbrev Label := AsyncLogging.Label × FileAnswers

/-- The program has ended with a fault in the `LogFile`. -/
def ended (s : LogSystem) : Bool := s.output.any fun output => output.fault.isSome

/-- What `threadFunc` calls in its `LogFile`. -/
def call (s : LogSystem) (l : Label) : Option LogFile.Label :=
  match l.1, s.logging.thread with
  | .write, .writing (some buffer :: _) =>
    some (.append buffer.content l.2.fwrites l.2.now l.2.rollNow l.2.fopen)
  | .flush, .flushing => some .flush
  | .finish, .finalFlush => some .flush
  | _, _ => none

/-- `output` after the step: constructed when the thread enters, with the default
arguments, and called in the loop. -/
def outputStep (s : LogSystem) (l : Label) : Option LogFile :=
  match l.1, s.logging.thread with
  | .enter, .entering => some (.new s.rollSize 3 1024 l.2.now l.2.fopen)
  | _, _ =>
    match s.call l with
    | some call => s.output.map (·.step call)
    | none => s.output

/-- The step flushes `output`. -/
def flushes (s : LogSystem) (l : Label) : Bool :=
  match s.output, s.call l with
  | some output, some call => output.flushes call && (output.step call).fault.isNone
  | _, _ => false

def step (s : LogSystem) (l : Label) : LogSystem :=
  if s.ended = true then s
  else
    { s with
      logging := s.logging.step l.1
      output := s.outputStep l
      -- a buffer is given to `output` before it can roll or flush
      flushed := if s.flushes l then (s.logging.step l.1).written else s.flushed }

theorem step_of_ended {s : LogSystem} (h : s.ended = true) (l : Label) : s.step l = s := if_pos h

theorem logging_step {s : LogSystem} (h : s.ended = false) (l : Label) :
    (s.step l).logging = s.logging.step l.1 := by
  simp [step, h]

theorem flushed_step {s : LogSystem} (h : s.ended = false) (l : Label) :
    (s.step l).flushed = if s.flushes l then (s.logging.step l.1).written else s.flushed := by
  simp [step, h]

/-- `AsyncLogging` makes a run of its own. -/
theorem logging_run (rollSize : Nat) (ls : List Label) : ∃ es : List AsyncLogging.Label,
    (run step (new rollSize) ls).logging = run AsyncLogging.step .new es := by
  induction ls using List.reverseRecOn with
  | nil => exact ⟨[], rfl⟩
  | append_singleton ls l ih =>
    rcases ih with ⟨es, hes⟩
    cases hended : (run step (new rollSize) ls).ended with
    | true =>
      refine ⟨es, ?_⟩
      rw [run_concat, step_of_ended hended]
      exact hes
    | false =>
      refine ⟨es ++ [l.1], ?_⟩
      rw [run_concat, run_concat, logging_step hended, hes]

theorem conserved_run (rollSize : Nat) (ls : List Label) :
    (run step (new rollSize) ls).logging.written ++ (run step (new rollSize) ls).logging.unwritten =
      bytesOf (run step (new rollSize) ls).logging.records := by
  rcases logging_run rollSize ls with ⟨es, hes⟩
  rw [hes]
  exact AsyncLogging.run_conserved es

theorem records_step (s : LogSystem) (l : Label) :
    s.logging.records <+: (s.step l).logging.records := by
  cases hended : s.ended with
  | true =>
    rw [step_of_ended hended]
  | false =>
    rw [logging_step hended]
    exact s.logging.records_step l.1

theorem records_run (s : LogSystem) (ls : List Label) :
    s.logging.records <+: (run step s ls).logging.records := by
  induction ls generalizing s with
  | nil => exact List.prefix_refl _
  | cons l ls ih => exact (s.records_step l).trans (ih (s.step l))

/-! ## A record on its way to the disk -/

/-- How far the steps have brought the buffer in which a record ends. -/
inductive Stage where
  /-- The record has not been put down. -/
  | absent
  /-- In `buffers_` or `currentBuffer_`, `before` buffers are before it. -/
  | waiting (before : Nat)
  /-- In `buffersToWrite`, the loop has `before` buffers to write before it. -/
  | taken (before : Nat)
  /-- The loop has got past it. -/
  | handed
  /-- A flush has come in the call it was given to, or later. -/
  | drained
deriving DecidableEq, Repr

/-- What a step does for record number `j`. -/
def Stage.next (j : Nat) (s : LogSystem) (l : Label) : Stage → Stage
  | .absent =>
    if s.logging.records.length = j ∧ s.logging.puts l.1 = true
    then .waiting (s.logging.step l.1).buffers.length else .absent
  | .waiting before => if s.logging.swaps l.1 = true then .taken before else .waiting before
  | .taken 0 =>
    if s.logging.writes l.1 = true then (if s.flushes l = true then .drained else .handed)
    else .taken 0
  | .taken (before + 1) =>
    if s.logging.writes l.1 = true then .taken before else .taken (before + 1)
  | .handed => if s.flushes l = true then .drained else .handed
  | .drained => .drained

def track (j : Nat) (p : LogSystem × Stage) (l : Label) : LogSystem × Stage :=
  if p.1.ended = true then p else (p.1.step l, p.2.next j p.1 l)

/-- The stage of record number `j` after these steps. -/
def stage (rollSize j : Nat) (ls : List Label) : Stage :=
  (run (track j) (new rollSize, .absent) ls).2

theorem track_fst (j : Nat) (p : LogSystem × Stage) (l : Label) :
    (track j p l).1 = p.1.step l := by
  unfold track
  split
  · rename_i hended
    rw [step_of_ended hended]
  · rfl

theorem run_track_fst (rollSize j : Nat) (ls : List Label) :
    (run (track j) (new rollSize, .absent) ls).1 = run step (new rollSize) ls := by
  induction ls using List.reverseRecOn with
  | nil => rfl
  | append_singleton ls l ih => rw [run_concat, run_concat, track_fst, ih]

theorem stage_concat (rollSize j : Nat) (ls : List Label) (l : Label) :
    stage rollSize j (ls ++ [l]) = if (run step (new rollSize) ls).ended = true
      then stage rollSize j ls
      else (stage rollSize j ls).next j (run step (new rollSize) ls) l := by
  have hfst := run_track_fst rollSize j ls
  rw [stage, run_concat, track, hfst]
  split
  · rfl
  · rfl

/-- Where the bytes of the record are, at each stage. -/
def Stage.Stands (j : Nat) (s : LogSystem) : Stage → Prop
  | .absent => s.logging.records.length ≤ j
  | .waiting before => j < s.logging.records.length ∧ s.logging.thread.rest = [] ∧
      s.logging.EndsIn before (s.logging.upTo j).length
  | .taken before => j < s.logging.records.length ∧ before < s.logging.thread.rest.length ∧
      s.logging.EndsIn before (s.logging.upTo j).length
  | .handed => j < s.logging.records.length ∧
      (s.logging.upTo j).length ≤ s.logging.written.length ∧
      s.flushed.length < (s.logging.upTo j).length
  | .drained => j < s.logging.records.length ∧ (s.logging.upTo j).length ≤ s.flushed.length

section
variable {s : LogSystem} {l : Label} {j : Nat}

theorem lt_step (hended : s.ended = false) (hj : j < s.logging.records.length) :
    j < (s.step l).logging.records.length ∧
      (s.step l).logging.upTo j = s.logging.upTo j := by
  rw [logging_step hended]
  exact ⟨Nat.lt_of_lt_of_le hj (s.logging.records_step l.1).length_le,
    AsyncLogging.upTo_step hj l.1⟩

theorem stands_puts (hended : s.ended = false) (hs : s.logging.Steady)
    (hconserved : (s.step l).logging.written ++ (s.step l).logging.unwritten =
      bytesOf (s.step l).logging.records)
    (hne : ∀ r ∈ (s.step l).logging.records, r.bytes ≠ [])
    (h : Stage.absent.Stands j s) : (Stage.absent.next j s l).Stands j (s.step l) := by
  simp only [Stage.next]
  split
  · rename_i hputs
    rw [logging_step hended] at hconserved hne
    obtain ⟨rfl, hputs⟩ := hputs
    have hends := AsyncLogging.endsIn_puts hs hputs hconserved hne
    simpa only [Stage.Stands, logging_step hended] using hends
  · rename_i hputs
    show (s.step l).logging.records.length ≤ j
    rw [logging_step hended]
    exact AsyncLogging.records_of_not_puts h hputs

theorem stands_swaps (hended : s.ended = false) (hs : s.logging.Steady) {before : Nat}
    (h : (Stage.waiting before).Stands j s) :
    ((Stage.waiting before).next j s l).Stands j (s.step l) := by
  rcases h with ⟨hj, hrest, hends⟩
  rcases lt_step (l := l) hended hj with ⟨hj', hupTo⟩
  -- there is nothing to write before the swap
  have hwrites : s.logging.writes l.1 = false := by
    by_contra hwrites
    rcases AsyncLogging.writes_eq_true (by simpa using hwrites) with ⟨_, buffer, rest, hthread⟩
    simp [hthread, AsyncLogging.ThreadFunc.rest] at hrest
  have hends' := hends.kept hs hwrites
  simp only [Stage.next]
  split
  · rename_i hswaps
    refine ⟨hj', ?_, ?_⟩
    · rcases AsyncLogging.swaps_eq_true hswaps with ⟨hl, hthread⟩
      have hlocals := hs.inv.locals
      rw [hthread] at hlocals
      have hlt := hends.lt
      rw [AsyncLogging.line_of_rest hrest] at hlt
      rw [logging_step hended, hl]
      simp only [AsyncLogging.step, hthread, AsyncLogging.ThreadFunc.rest]
      rw [AsyncLogging.swap_eq hlocals.2.2]
      exact hlt
    · rw [hupTo, logging_step hended]
      exact hends'
  · rename_i hswaps
    refine ⟨hj', ?_, ?_⟩
    · rw [logging_step hended, AsyncLogging.rest_step hs (by simpa using hswaps) hwrites]
      exact hrest
    · rw [hupTo, logging_step hended]
      exact hends'

theorem rest_writes (hwrites : s.logging.writes l.1 = true) :
    s.logging.thread.rest.length = (s.logging.step l.1).thread.rest.length + 1 := by
  rcases AsyncLogging.writes_eq_true hwrites with ⟨hl, buffer, rest, hthread⟩
  rw [hl, AsyncLogging.step_write hthread, hthread]
  rfl

/-- In the loop over `buffersToWrite`. -/
theorem stands_writes (hended : s.ended = false) (hs : s.logging.Steady)
    (hflushed : s.flushed <+: s.logging.written) {before : Nat}
    (h : (Stage.taken before).Stands j s) :
    ((Stage.taken before).next j s l).Stands j (s.step l) := by
  rcases h with ⟨hj, hrest, hends⟩
  rcases lt_step (l := l) hended hj with ⟨hj', hupTo⟩
  cases hwrites : s.logging.writes l.1 with
  | false =>
    have hswaps : s.logging.swaps l.1 = false := by
      by_contra hswaps
      have hthread := (AsyncLogging.swaps_eq_true (by simpa using hswaps)).2
      simp [hthread, AsyncLogging.ThreadFunc.rest] at hrest
    have hnext : (Stage.taken before).next j s l = .taken before := by
      cases before with
      | zero => simp [Stage.next, hwrites]
      | succ before => simp [Stage.next, hwrites]
    rw [hnext]
    refine ⟨hj', ?_, ?_⟩
    · rw [logging_step hended, AsyncLogging.rest_step hs hswaps hwrites]
      exact hrest
    · rw [hupTo, logging_step hended]
      exact hends.kept hs hwrites
  | true =>
    cases before with
    | succ before =>
      have hnext : (Stage.taken (before + 1)).next j s l = .taken before := by
        simp [Stage.next, hwrites]
      have hlength := rest_writes hwrites
      rw [hnext]
      refine ⟨hj', ?_, ?_⟩
      · rw [logging_step hended]
        omega
      · rw [hupTo, logging_step hended]
        exact hends.next hwrites
    | zero =>
      have hwritten := hends.written hwrites
      have hbefore := hends.written_lt
      have hle := hflushed.length_le
      have hflushed' := flushed_step hended l
      simp only [Stage.next, if_pos hwrites]
      split
      · rename_i hflushes
        refine ⟨hj', ?_⟩
        rw [hflushed', if_pos hflushes, hupTo]
        exact hwritten
      · rename_i hflushes
        refine ⟨hj', ?_, ?_⟩
        · rw [hupTo, logging_step hended]
          exact hwritten
        · rw [hflushed', if_neg hflushes, hupTo]
          omega

theorem stands_flushes (hended : s.ended = false) (h : Stage.handed.Stands j s) :
    (Stage.handed.next j s l).Stands j (s.step l) := by
  rcases h with ⟨hj, hwritten, hflushed⟩
  rcases lt_step (l := l) hended hj with ⟨hj', hupTo⟩
  have hflushed' := flushed_step hended l
  have hwritten' : (s.logging.upTo j).length ≤ (s.logging.step l.1).written.length :=
    hwritten.trans (s.logging.written_isPrefix_step l.1).length_le
  simp only [Stage.next]
  split
  · rename_i hflushes
    refine ⟨hj', ?_⟩
    rw [hflushed', if_pos hflushes, hupTo]
    exact hwritten'
  · rename_i hflushes
    refine ⟨hj', ?_, ?_⟩
    · rw [hupTo, logging_step hended]
      exact hwritten'
    · rw [hflushed', if_neg hflushes, hupTo]
      exact hflushed

theorem stands_drained (hended : s.ended = false) (hflushed : s.flushed <+: s.logging.written)
    (h : Stage.drained.Stands j s) : Stage.drained.Stands j (s.step l) := by
  rcases h with ⟨hj, hle⟩
  rcases lt_step (l := l) hended hj with ⟨hj', hupTo⟩
  refine ⟨hj', ?_⟩
  rw [hupTo, flushed_step hended]
  split
  · exact hle.trans (hflushed.trans (s.logging.written_isPrefix_step l.1)).length_le
  · exact hle

end

/-- What is flushed has been written. -/
theorem flushed_isPrefix_written (rollSize : Nat) (ls : List Label) :
    (run step (new rollSize) ls).flushed <+: (run step (new rollSize) ls).logging.written := by
  induction ls using List.reverseRecOn with
  | nil => exact List.prefix_refl _
  | append_singleton ls l ih =>
    rw [run_concat]
    cases hended : (run step (new rollSize) ls).ended with
    | true =>
      rw [step_of_ended hended]
      exact ih
    | false =>
      rw [flushed_step hended, logging_step hended]
      split
      · exact List.prefix_refl _
      · exact ih.trans (AsyncLogging.written_isPrefix_step _ l.1)

theorem steady_run (rollSize : Nat) (ls : List Label) :
    (run step (new rollSize) ls).logging.Steady := by
  rcases logging_run rollSize ls with ⟨es, hes⟩
  rw [hes]
  exact AsyncLogging.run_steady es

/-- Over a run whose records are not empty, the stage says where the bytes are. -/
theorem stage_stands {rollSize j : Nat} {ls : List Label}
    (hne : ∀ r ∈ (run step (new rollSize) ls).logging.records, r.bytes ≠ []) :
    (stage rollSize j ls).Stands j (run step (new rollSize) ls) := by
  induction ls using List.reverseRecOn with
  | nil => exact Nat.zero_le j
  | append_singleton ls l ih =>
    have hconserved := conserved_run rollSize (ls ++ [l])
    rw [run_concat] at hne hconserved ⊢
    have hold := (records_step (run step (new rollSize) ls) l).subset
    have hbefore := ih fun r hr => hne r (hold hr)
    have hsteady := steady_run rollSize ls
    have hflushed := flushed_isPrefix_written rollSize ls
    rw [stage_concat]
    split
    · rename_i hended
      rw [step_of_ended hended]
      exact hbefore
    · rename_i hended
      rw [Bool.not_eq_true] at hended
      cases hstage : stage rollSize j ls with
      | absent =>
        rw [hstage] at hbefore
        exact stands_puts hended hsteady hconserved hne hbefore
      | waiting before =>
        rw [hstage] at hbefore
        exact stands_swaps hended hsteady hbefore
      | taken before =>
        rw [hstage] at hbefore
        exact stands_writes hended hsteady hflushed hbefore
      | handed =>
        rw [hstage] at hbefore
        exact stands_flushes hended hbefore
      | drained =>
        rw [hstage] at hbefore
        exact stands_drained hended hflushed hbefore

/-- A record that is not empty is flushed exactly when the logging thread has swapped
the buffers after its `append`, got past the buffer in which it ends, and come to a
flush. -/
theorem flushed_iff_drained {rollSize j : Nat} {ls : List Label}
    (hne : ∀ r ∈ (run step (new rollSize) ls).logging.records, r.bytes ≠ [])
    (hj : j < (run step (new rollSize) ls).logging.records.length) :
    (run step (new rollSize) ls).logging.upTo j <+: (run step (new rollSize) ls).flushed ↔
      stage rollSize j ls = .drained := by
  have hstands := stage_stands (j := j) hne
  have hflushed := flushed_isPrefix_written rollSize ls
  have hwritten : (run step (new rollSize) ls).logging.written <+:
      bytesOf (run step (new rollSize) ls).logging.records :=
    ⟨_, conserved_run rollSize ls⟩
  constructor
  · intro hprefix
    have hle := hprefix.length_le
    have hle' := hflushed.length_le
    cases hstage : stage rollSize j ls with
    | drained => rfl
    | absent =>
      rw [hstage] at hstands
      exact absurd hj (Nat.not_lt.mpr hstands)
    | waiting before =>
      rw [hstage] at hstands
      have hlt := hstands.2.2.written_lt
      omega
    | taken before =>
      rw [hstage] at hstands
      have hlt := hstands.2.2.written_lt
      omega
    | handed =>
      rw [hstage] at hstands
      have hlt := hstands.2.2
      omega
  · intro hstage
    rw [hstage] at hstands
    exact List.prefix_of_prefix_length_le (AsyncLogging.upTo_isPrefix _ j)
      (hflushed.trans hwritten) hstands.2

end LogSystem

end EchoServer
