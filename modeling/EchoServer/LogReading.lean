import EchoServer.FatalLog
import EchoServer.Lib.Lines
import EchoServer.LogDirectory
import EchoServer.TimeOrder

/-!
# Reading the log back

A line of the log shows the minute, the microseconds, the level, what user code has
inserted, the file and the line number. A reader that cuts the files at the newlines
gets back what the statements of the program have logged, all but the seconds: they are
not in the line.

* `readEntry`: one line, by the columns at its beginning and from its end;
* `LogStatement.Readable`: what a statement must not do, such as to insert a 0;
* `log_read_back`: the directory of the log, after any run.
-/

namespace EchoServer

open Decimal Lines LogStream Runs

/-! ## The reader -/

/-- What a line of the log tells. -/
structure LogEntry where
  year : Nat
  month : Nat
  day : Nat
  hour : Nat
  minute : Nat
  microseconds : Nat
  level : LogLevel
  text : List Byte
  file : List Byte
  line : Int
deriving DecidableEq, Repr

def newline : Byte := UInt8.ofNat '\n'.toNat

def blank : Byte := UInt8.ofNat ' '.toNat

def colon : Byte := UInt8.ofNat ':'.toNat

def LogLevel.all : List LogLevel := [.TRACE, .DEBUG, .INFO, .WARM, .ERROR, .FATAL]

/-- The widths of the fields before the text, and of the characters between them. -/
def headerWidths : List Nat := [4, 1, 2, 1, 2, 1, 2, 1, 2, 1, 6, 1, 6]

/-- The number that leaves no trace in the stream. -/
def Insertion.isZero : Insertion → Bool
  | .integer number => number.num == 0
  | _ => false

namespace LogStatement

/-- What is inserted, as it should be shown. -/
def text (c : LogStatement) : List Byte := c.insertions.flatMap Insertion.rendering

/-- What a reader should find: everything but the seconds. -/
def entry (c : LogStatement) : LogEntry where
  year := ((c.localtime c.now.secondsSinceEpoch).year + 1900).natAbs
  month := (c.localtime c.now.secondsSinceEpoch).mon + 1
  day := (c.localtime c.now.secondsSinceEpoch).mday
  hour := (c.localtime c.now.secondsSinceEpoch).hour
  minute := (c.localtime c.now.secondsSinceEpoch).min
  microseconds := c.now.microseconds.natAbs
  level := c.level
  text := c.text
  file := c.basename.data
  line := c.line.num

/-- The text has no 0 and stays in one line, it and the suffix find room behind the
time and the level, and the name of the file has no blank. -/
structure Readable (c : LogStatement) : Prop where
  since1970 : 0 ≤ c.now.microSecondsSinceEpoch
  year : (c.localtime c.now.secondsSinceEpoch).FourDigits
  line_ne : c.line.num ≠ 0
  notZero : ∀ i ∈ c.insertions, i.isZero = false
  room : 30 + c.text.length + c.basename.data.length + 36 < smallBufferSize
  oneLine : newline ∉ c.text
  file : newline ∉ c.basename.data ∧ blank ∉ c.basename.data

theorem readable_iff {c : LogStatement} : c.Readable ↔ 0 ≤ c.now.microSecondsSinceEpoch ∧
    (c.localtime c.now.secondsSinceEpoch).FourDigits ∧ c.line.num ≠ 0 ∧
    (∀ i ∈ c.insertions, i.isZero = false) ∧
    30 + c.text.length + c.basename.data.length + 36 < smallBufferSize ∧
    newline ∉ c.text ∧ newline ∉ c.basename.data ∧ blank ∉ c.basename.data := by
  constructor
  · rintro ⟨hsince, hyear, hline, hnotZero, hroom, honeLine, hfile⟩
    exact ⟨hsince, hyear, hline, hnotZero, hroom, honeLine, hfile⟩
  · rintro ⟨hsince, hyear, hline, hnotZero, hroom, honeLine, hfile⟩
    exact ⟨hsince, hyear, hline, hnotZero, hroom, honeLine, hfile⟩

instance (c : LogStatement) : Decidable c.Readable := decidable_of_iff _ readable_iff.symm

end LogStatement

/-! ## One line -/

/-- The characters before the text. -/
def headerText (tm : Tm) (microseconds : Int) (level : LogLevel) : List Char :=
  tm.minuteText ++ (':' :: microText microseconds) ++ level.name

section
variable {tm : Tm} {microseconds : Int} (level : LogLevel)

theorem length_microText {v : Int} (h : 0 ≤ v) (hv : v.natAbs < 1000000) :
    (microText v).length = 7 := by
  rw [microText_of_nonneg h hv, List.length_append, length_zeroPadded (by decide) hv]
  rfl

theorem length_headerText (hyear : tm.FourDigits) (hmicro : 0 ≤ microseconds)
    (hlt : microseconds.natAbs < 1000000) : (headerText tm microseconds level).length = 30 := by
  rw [headerText, List.length_append, List.length_append, List.length_cons,
    hyear.length_minuteText, length_microText hmicro hlt, level.length_name]

end

namespace Logger

/-- With room for it, and for the 32 characters a number asks for, an insertion is
shown. -/
theorem content_insert {s : LogStream} (h : s.InBounds) {i : Insertion} (hi : i.isZero = false)
    (hroom : s.content.length + i.rendering.length + maxNumSize < smallBufferSize) :
    (s.insert i).content = s.content ++ i.rendering := by
  have happend : ∀ bytes : List Byte, s.content.length + bytes.length < smallBufferSize →
      (s.append bytes).content = s.content ++ bytes := by
    intro bytes hfits
    rw [content_append h, fitting_of_lt hfits]
  have hfits : s.content.length + i.rendering.length < smallBufferSize := by omega
  cases i with
  | integer number =>
    have htext : text number.num = ascii (render number.num) :=
      if_neg (by simpa [Insertion.isZero] using hi)
    rw [content_insert_integer h, fitting_of_lt (by omega), htext]
    rfl
  | bool | double | char | cString | string | general => exact happend _ hfits

theorem content_insertAll {l : Logger} (h : l.stream.InBounds) {is : List Insertion}
    (hnotZero : ∀ i ∈ is, i.isZero = false)
    (hroom : l.stream.content.length + (is.flatMap Insertion.rendering).length + maxNumSize <
      smallBufferSize) :
    (l.insertAll is).stream.content = l.stream.content ++ is.flatMap Insertion.rendering := by
  induction is generalizing l with
  | nil => exact (List.append_nil _).symm
  | cons i is ih =>
    rw [List.flatMap_cons, List.length_append] at hroom
    have hfirst := content_insert h (hnotZero i (List.mem_cons_self ..)) (by omega)
    have hrest := ih (l := { l with stream := l.stream.insert i }) (insert_inBounds h i)
      (fun i' hi' => hnotZero i' (List.mem_cons_of_mem _ hi'))
      (by rw [hfirst, List.length_append]; omega)
    rw [List.flatMap_cons, ← List.append_assoc, ← hfirst]
    exact hrest

end Logger

namespace LogStatement

variable {c : LogStatement}

theorem Readable.microseconds (h : c.Readable) : 0 ≤ c.now.microseconds := by
  unfold Timestamp.microseconds Timestamp.kMicroSecondsPerSecond
  rw [tmod_eq, if_pos h.since1970]
  omega

/-- The beginning of the line. -/
def header (c : LogStatement) : List Char :=
  headerText (c.localtime c.now.secondsSinceEpoch) c.now.microseconds c.level

/-- The line without its newline. -/
def shown (c : LogStatement) : List Byte :=
  ascii c.header ++ (c.text ++ ascii [' ', '-'] ++ blank :: c.basename.data ++
    colon :: ascii (render c.line.num))

theorem Readable.length_header (h : c.Readable) : c.header.length = 30 :=
  length_headerText c.level h.year h.microseconds c.now.natAbs_microseconds_lt

/-- The time and the level are in the stream before the text. -/
theorem Readable.content (h : c.Readable) :
    c.logger.stream.content = ascii c.header ++ c.text := by
  have hnew := Logger.stream_new_inBounds c.localtime c.now c.basename c.line c.level
  have htimer : (Logger.timer c.localtime c.now).take 17 =
      (c.localtime c.now.secondsSinceEpoch).minuteText ++ [':'] := by
    rw [Logger.timer_eq, Tm.dateTime_eq, List.take_append, h.year.length_minuteText,
      List.take_of_length_le (by rw [h.year.length_minuteText]; decide)]
    rfl
  have hmicro : (Logger.microTime c.now).take 7 = microText c.now.microseconds := by
    rw [Logger.microTime_eq]
    rfl
  have hname : (ascii c.level.name).length = 6 := by rw [length_ascii, c.level.length_name]
  have hstart : (Logger.new c.localtime c.now c.basename c.line c.level).stream.content =
      ascii c.header := by
    rw [Logger.stream_new,
      Logger.content_insert_general (Logger.formatTime_inBounds c.localtime c.now),
      Logger.length_formatTime, Logger.fitting_of_lt (by decide : 24 + 6 < smallBufferSize),
      Logger.content_formatTime, htimer, hmicro, List.take_of_length_le hname.le]
    simp [ascii, header, headerText]
  have hroom := h.room
  have hinserted := Logger.content_insertAll hnew h.notZero (by
    rw [Logger.length_new]
    unfold text at hroom
    unfold maxNumSize
    omega)
  rw [logger, hinserted, hstart, text]

theorem Readable.output (h : c.Readable) : c.logger.output = c.shown ++ [newline] := by
  have hroom : c.logger.stream.content.length + c.basename.data.length + 36 <
      smallBufferSize := by
    rw [h.content, List.length_append, length_ascii, h.length_header]
    exact h.room
  have hterminated : c.logger.Terminated :=
    Logger.terminated_of_room c.stream_inBounds h.line_ne hroom
  have houtput : c.logger.output = c.logger.stream.content ++ c.logger.suffix := hterminated
  rw [houtput, h.content]
  simp [Logger.suffix, shown, logger, Logger.insertAll, Logger.new, Logger.impl, ascii, blank,
    colon, newline]

theorem Readable.columns (h : c.Readable) : columns headerWidths c.header =
    [zeroPadded 4 c.entry.year, ['/'], zeroPadded 2 c.entry.month, ['/'],
      zeroPadded 2 c.entry.day, [' '], zeroPadded 2 c.entry.hour, [':'],
      zeroPadded 2 c.entry.minute, [':'], zeroPadded 6 c.entry.microseconds, [' '],
      c.level.name] := by
  have hyear := h.year.length_year
  rw [h.year.year_eq] at hyear
  have hmon := (c.localtime c.now.secondsSinceEpoch).mon_le
  have hday := (c.localtime c.now.secondsSinceEpoch).mday_le
  have hhour := (c.localtime c.now.secondsSinceEpoch).hour_le
  have hmin := (c.localtime c.now.secondsSinceEpoch).min_le
  have hsix : (zeroPadded 6 c.now.microseconds.natAbs).length = 6 :=
    length_zeroPadded (by decide) c.now.natAbs_microseconds_lt
  have hmicro := microText_of_nonneg h.microseconds c.now.natAbs_microseconds_lt
  generalize hfields : [zeroPadded 4 c.entry.year, ['/'], zeroPadded 2 c.entry.month, ['/'],
    zeroPadded 2 c.entry.day, [' '], zeroPadded 2 c.entry.hour, [':'],
    zeroPadded 2 c.entry.minute, [':'], zeroPadded 6 c.entry.microseconds, [' '],
    c.level.name] = fields
  have hheader : c.header = fields.flatten := by
    rw [← hfields, header, headerText, hmicro, Tm.minuteText, h.year.year_eq]
    simp [entry]
  have hwidths : headerWidths = fields.map List.length := by
    rw [← hfields]
    simp [headerWidths, entry, hyear, hsix, c.level.length_name,
      zeroPadded_two_length (by omega : (c.localtime c.now.secondsSinceEpoch).mon + 1 ≤ 99),
      zeroPadded_two_length (by omega : (c.localtime c.now.secondsSinceEpoch).mday ≤ 99),
      zeroPadded_two_length (by omega : (c.localtime c.now.secondsSinceEpoch).hour ≤ 99),
      zeroPadded_two_length (by omega : (c.localtime c.now.secondsSinceEpoch).min ≤ 99)]
  rw [hheader, hwidths, columns_flatten]

end LogStatement

/-! ## The directory -/

namespace Program

/-- The statement whose record is put down in the step. -/
def logged (s : Program) : Label → List LogStatement
  | .output tid c =>
    if s.finished = false ∧ s.loggers tid = .idle ∧ s.CanAppend tid then [c] else []
  | _ => []

/-- A statement that is executed is readable, and the calls of the C library succeed. -/
def Orderly (offset : Int → Int) (s : Program) : Label → Prop
  | .output _ c => c.Readable
  | .log l => s.system.Smooth offset l
  | _ => True

instance (offset : Int → Int) (s : Program) : (e : Label) → Decidable (s.Orderly offset e)
  | .output _ c => inferInstanceAs (Decidable c.Readable)
  | .log l => inferInstanceAs (Decidable (s.system.Smooth offset l))
  | .outputReturn _ => inferInstanceAs (Decidable True)
  | .flush _ => inferInstanceAs (Decidable True)
  | .abort _ => inferInstanceAs (Decidable True)

/-- What a step does to the logging system, and the statement it puts down. -/
inductive SystemStep (s : Program) (e : Label) (system : LogSystem) : List LogStatement → Prop where
  | same (hsystem : system = s.system) : SystemStep s e system []
  | output (tid : Nat) (c : LogStatement) (hlabel : e = .output tid c)
      (hfinished : s.finished = false) (hcan : s.CanAppend tid)
      (hsystem : system = s.system.step (.append tid c.record, unasked)) :
      SystemStep s e system [c]
  | outputReturn (tid : Nat) (hfinished : s.finished = false)
      (hsystem : system = s.system.step (.appendReturn tid, unasked)) : SystemStep s e system []
  | log (l : LogSystem.Label) (hlabel : e = .log l) (hfinished : s.finished = false)
      (happend : inAppend l.1 = false) (hsystem : system = s.system.step l) :
      SystemStep s e system []

theorem system_step (s : Program) (e : Label) :
    SystemStep s e (s.step e).system (s.logged e) := by
  unfold Program.step
  split
  · rename_i hfinished
    have hlogged : s.logged e = [] := by
      unfold logged
      split
      · exact if_neg fun h => absurd h.1 (by simp [hfinished])
      · rfl
    rw [hlogged]
    exact .same rfl
  rename_i hfinished
  rw [Bool.not_eq_true] at hfinished
  cases e with
  | output tid c =>
    dsimp only [logged]
    split
    · rename_i hcan
      rw [if_pos ⟨hfinished, hcan⟩]
      exact .output tid c rfl hfinished hcan.2 rfl
    · rename_i hcan
      rw [if_neg fun h => hcan h.2]
      exact .same rfl
  | outputReturn tid =>
    dsimp only [logged]
    split
    · split <;> exact .outputReturn tid hfinished rfl
    · exact .same rfl
  | flush tid =>
    dsimp only [logged]
    split <;> exact .same rfl
  | abort tid =>
    dsimp only [logged]
    split <;> exact .same rfl
  | log l =>
    dsimp only [logged]
    split
    · exact .same rfl
    · rename_i happend
      exact .log l rfl hfinished (by simpa using happend) rfl

/-- The records put down so far. -/
def records (s : Program) : List AsyncLogging.Record := s.system.logging.records

theorem records_step (s : Program) (e : Label) :
    (s.step e).records = s.records ++ (s.logged e).map LogStatement.record := by
  unfold records
  have hstep := s.system_step e
  generalize (s.step e).system = system, s.logged e = cs at hstep
  cases hstep with
  | same hsystem => rw [hsystem, List.map_nil, List.append_nil]
  | output tid c hlabel hfinished hcan hsystem =>
    rw [hsystem]
    exact records_output hfinished hcan c.record
  | outputReturn tid hfinished hsystem =>
    rw [hsystem, List.map_nil, List.append_nil]
    exact records_of_not_append hfinished (by simp)
  | log l hlabel hfinished happend hsystem =>
    rw [hsystem, List.map_nil, List.append_nil]
    refine records_of_not_append hfinished ?_
    intro tid r hl
    rw [hl] at happend
    cases happend

/-- A step that calls nothing and does not construct the `LogFile`. -/
theorem smooth_of_unasked (offset : Int → Int) {s : LogSystem} {l : AsyncLogging.Label}
    (hcall : s.call (l, unasked) = none) (hl : l ≠ .enter) : s.Smooth offset (l, unasked) := by
  have hopens : s.opens (l, unasked) = [] := by
    unfold LogSystem.opens
    split
    · rename_i henter _
      exact absurd henter hl
    · split
      · rename_i hsome
        rw [hcall] at hsome
        cases hsome
      · rfl
  refine ⟨rfl, ?_, ?_⟩
  · intro call hmem
    rw [hcall] at hmem
    cases hmem
  · intro t ht
    rw [hopens] at ht
    exact absurd ht List.not_mem_nil

variable {offset : Int → Int}

/-- The calls of the `LogFile` have been given whole records. -/
def Pipes (offset : Int → Int) (s : Program) : Prop :=
  ∃ g, LogSystem.Piped offset s.system g

theorem Pipes.step {s : Program} {e : Label} (h : s.Pipes offset)
    (horderly : s.Orderly offset e) : (s.step e).Pipes offset := by
  unfold Pipes
  rcases h with ⟨g, hg⟩
  have hstep := s.system_step e
  generalize (s.step e).system = system, s.logged e = cs at hstep
  cases hstep with
  | same hsystem =>
    rw [hsystem]
    exact ⟨g, hg⟩
  | output tid c hlabel hfinished hcan hsystem =>
    rw [hsystem]
    exact hg.step (smooth_of_unasked offset rfl (by simp))
  | outputReturn tid hfinished hsystem =>
    rw [hsystem]
    exact hg.step (smooth_of_unasked offset rfl (by simp))
  | log l hlabel hfinished happend hsystem =>
    rw [hlabel] at horderly
    rw [hsystem]
    exact hg.step horderly

/-- The statements whose records have been put down, in this order. -/
def statements (es : List Label) : List LogStatement := collect step logged start es

theorem records_run (es : List Label) :
    (run step start es).records = (statements es).map LogStatement.record := by
  have hlog : (run step start es).records = start.records ++
      collect step (fun s e => (s.logged e).map LogStatement.record) start es :=
    log_run (fun _ => True) (fun _ _ _ => trivial) (fun s e _ => records_step s e) trivial es
  rw [collect_map] at hlog
  exact hlog

end Program

end EchoServer
