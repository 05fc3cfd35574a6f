import EchoServer.LogStream
import EchoServer.Timestamp

/-!
# Logger

A log record: the constructor puts the time and the level into the stream, user
code inserts into it, and the destructor adds `" - file:line\n"` and hands the
stream's content to `g_output`. Each insertion that does not fit is dropped, and
the five of `finish` are no exception.

* `content_formatTime`: the first 24 characters of a record;
* `output_eq`: what each insertion of `finish` leaves;
* `suffix_iff_room`: the records that end as they should.
-/

namespace EchoServer

open Decimal LogStream

/-- `LogLevel`; `LEVEL_COUNT` is no level. -/
inductive LogLevel where
  | TRACE
  | DEBUG
  | INFO
  | WARM
  | ERROR
  | FATAL
deriving DecidableEq, Repr

/-- `getLevelName`. -/
def LogLevel.name : LogLevel → List Char
  | .TRACE => "TRACE ".toList
  | .DEBUG => "DEBUG ".toList
  | .INFO => "INFO  ".toList
  | .WARM => "WARM  ".toList
  | .ERROR => "ERROR ".toList
  | .FATAL => "FATAL ".toList

theorem LogLevel.length_name (level : LogLevel) : level.name.length = 6 := by
  cases level <;> rfl

/-- The name of a file without its directories; `len_` is an `int`. -/
structure SourceFile where
  data : List Byte
  short : data.length < 2 ^ 31

/-- The constructor: what follows the last `/` of the path. -/
def SourceFile.new (fileName : List Byte) (short : fileName.length < 2 ^ 31) : SourceFile where
  data := (fileName.reverse.takeWhile (· ≠ UInt8.ofNat '/'.toNat)).reverse
  short := by
    rw [List.length_reverse]
    refine Nat.lt_of_le_of_lt (List.takeWhile_prefix _).length_le ?_
    rw [List.length_reverse]
    exact short

/-- The whole of an array. -/
def GeneralTemplate.all (data : List Byte) : GeneralTemplate := ⟨data, data.length, Nat.le_refl _⟩

namespace Logger

/-! ## The time -/

/-- `t_timer`. -/
def timer (localtime : Int → Tm) (now : Timestamp) : List Char :=
  snprintf 64 (localtime now.secondsSinceEpoch).dateTime

/-- `microTime`. -/
def microTime (now : Timestamp) : List Char := snprintf 32 (percent0 6 now.microseconds ++ [' '])

theorem timer_eq (localtime : Int → Tm) (now : Timestamp) :
    timer localtime now = (localtime now.secondsSinceEpoch).dateTime :=
  Tm.snprintf_dateTime (by decide) _

theorem microTime_eq (now : Timestamp) : microTime now = percent0 6 now.microseconds ++ [' '] := by
  have hsix := length_percent0_six now.natAbs_microseconds_lt
  apply List.take_of_length_le
  rw [List.length_append, List.length_singleton]
  omega

theorem le_length_timer (localtime : Int → Tm) (now : Timestamp) :
    17 ≤ (ascii (timer localtime now)).length := by
  have hyear := (localtime now.secondsSinceEpoch).length_year
  rw [length_ascii, timer_eq, Tm.length_dateTime]
  omega

theorem le_length_microTime (now : Timestamp) : 7 ≤ (ascii (microTime now)).length := by
  rw [length_ascii, microTime_eq, List.length_append, List.length_singleton]
  unfold percent0 zeroPadded
  split
  · rw [List.length_cons, List.length_leftpad]
    omega
  · rw [List.length_leftpad]
    omega

/-- `formatTime`; the two lengths are constants of the source. -/
def formatTime (s : LogStream) (localtime : Int → Tm) (now : Timestamp) : LogStream :=
  (s.insert (.general ⟨ascii (timer localtime now), 17, le_length_timer localtime now⟩)).insert
    (.general ⟨ascii (microTime now), 7, le_length_microTime now⟩)

end Logger

structure Logger where
  stream : LogStream
  level : LogLevel
  line : IntType.int.Value
  basename : SourceFile

namespace Logger

/-- `Impl::Impl`; `errnoMsg` is what `getErrnoMsg` finds. -/
def impl (localtime : Int → Tm) (now : Timestamp) (level : LogLevel)
    (savedErrno : IntType.int.Value) (errnoMsg : List Byte) (basename : SourceFile)
    (line : IntType.int.Value) : Logger :=
  let stream := (formatTime .new localtime now).insert
    (.general ⟨ascii level.name, 6, by rw [length_ascii, level.length_name]⟩)
  { stream :=
      if savedErrno.num ≠ 0 then
        (((stream.insert (.cString errnoMsg)).insert (.cString (ascii " (errno=".toList))).insert
          (.integer savedErrno)).insert (.cString (ascii ") ".toList))
      else stream
    level := level
    line := line
    basename := basename }

/-- The constructor: `savedErrno` is 0. -/
def new (localtime : Int → Tm) (now : Timestamp) (basename : SourceFile)
    (line : IntType.int.Value) (level : LogLevel) : Logger :=
  impl localtime now level ⟨0, by decide, by decide⟩ [] basename line

/-- User code inserts into the stream. -/
def insertAll (l : Logger) (is : List Insertion) : Logger :=
  { l with stream := is.foldl LogStream.insert l.stream }

/-- `finish`. -/
def finish (l : Logger) : Logger :=
  { l with
    stream := ((((l.stream.insert (.cString (ascii " - ".toList))).insert
      (.general (.all l.basename.data))).insert (.cString (ascii ":".toList))).insert
      (.integer l.line)).insert (.char (UInt8.ofNat '\n'.toNat)) }

/-- What `~Logger` passes to `g_output`. -/
def output (l : Logger) : List Byte := l.finish.stream.content

/-! ## What fits -/

/-- `piece` where `n` bytes are in the buffer already and `need` more must fit. -/
def fitting (n need : Nat) (piece : List Byte) : List Byte :=
  if n + need < smallBufferSize then piece else []

theorem fitting_of_lt {n need : Nat} (h : n + need < smallBufferSize) (piece : List Byte) :
    fitting n need piece = piece := if_pos h

theorem length_fitting_le (n need : Nat) (piece : List Byte) :
    (fitting n need piece).length ≤ piece.length := by
  unfold fitting
  split
  · exact Nat.le_refl _
  · exact Nat.zero_le _

theorem fitting_of_full {n need : Nat} (h : smallBufferSize ≤ n + need) (piece : List Byte) :
    fitting n need piece = [] := if_neg (Nat.not_lt.mpr h)

theorem lt_of_fitting {n need : Nat} {piece : List Byte} (h : 0 < (fitting n need piece).length) :
    n + need < smallBufferSize := by
  by_contra hnot
  rw [fitting, if_neg hnot] at h
  exact absurd h (by simp)

theorem content_append {s : LogStream} (h : s.InBounds) (bytes : List Byte) :
    (s.append bytes).content = s.content ++ fitting s.content.length bytes.length bytes := by
  have hlength : s.content.length = s.buffer.length := FixedBuffer.length_content s.buffer
  have hvalid := h.wf.valid_iff smallBufferSize_lt bytes.length
  rw [hlength]
  by_cases hfits : s.buffer.length + bytes.length < smallBufferSize
  · rw [fitting_of_lt hfits]
    exact FixedBuffer.content_append h.wf (hvalid.mpr hfits)
  · have hsame : s.buffer.append bytes = s.buffer := if_neg (fun hv => hfits (hvalid.mp hv))
    rw [fitting, if_neg hfits, List.append_nil, content, LogStream.append, hsame]
    rfl

theorem content_insert_general {s : LogStream} (h : s.InBounds) (g : GeneralTemplate) :
    (s.insert (.general g)).content =
      s.content ++ fitting s.content.length g.len (g.data.take g.len) := by
  have hlen : (g.data.take g.len).length = g.len := by
    rw [List.length_take]
    exact Nat.min_eq_left g.len_le
  have happend := content_append h (g.data.take g.len)
  rwa [hlen] at happend

theorem content_insert_char {s : LogStream} (h : s.InBounds) (c : Byte) :
    (s.insert (.char c)).content = s.content ++ fitting s.content.length 1 [c] :=
  content_append h [c]

theorem content_insert_cString {s : LogStream} (h : s.InBounds) {str : List Byte}
    (hstr : str.takeWhile (· ≠ 0) = str) :
    (s.insert (.cString str)).content =
      s.content ++ fitting s.content.length str.length str := by
  have hinsert : s.insert (.cString str) = s.append str := by
    show s.append (str.takeWhile (· ≠ 0)) = _
    rw [hstr]
  rw [hinsert]
  exact content_append h str

/-- A number needs room for 32 characters, however few it has. -/
theorem content_insert_integer {s : LogStream} (h : s.InBounds) {t : IntType} (num : t.Value) :
    (s.insert (.integer num)).content =
      s.content ++ fitting s.content.length maxNumSize (text num.num) := by
  have hlength : s.content.length = s.buffer.length := FixedBuffer.length_content s.buffer
  have hvalid := h.wf.valid_iff smallBufferSize_lt maxNumSize
  show (s.formatInteger num).content = _
  rw [hlength]
  by_cases hfits : s.buffer.length + maxNumSize < smallBufferSize
  · rw [fitting_of_lt hfits]
    exact content_formatInteger h.wf (hvalid.mpr hfits) num
  · have hsame : s.formatInteger num = s :=
      formatInteger_of_not_valid (fun hv => hfits (hvalid.mp hv)) num
    rw [fitting, if_neg hfits, List.append_nil, hsame]

theorem insert_inBounds {s : LogStream} (h : s.InBounds) (i : Insertion) :
    (s.insert i).InBounds := h.step (.insert i)

/-! ## The beginning of a record -/

theorem formatTime_inBounds (localtime : Int → Tm) (now : Timestamp) :
    (formatTime .new localtime now).InBounds :=
  insert_inBounds (insert_inBounds new_inBounds _) _

/-- Both parts of the time fit into an empty stream. -/
theorem content_formatTime (localtime : Int → Tm) (now : Timestamp) :
    (formatTime .new localtime now).content =
      ascii ((timer localtime now).take 17) ++ ascii ((microTime now).take 7) := by
  have htimer := le_length_timer localtime now
  have hnil : LogStream.new.content = [] := rfl
  have hlength : ((ascii (timer localtime now)).take 17).length = 17 := by
    rw [List.length_take]
    omega
  unfold formatTime
  rw [content_insert_general (insert_inBounds new_inBounds _),
    content_insert_general new_inBounds, hnil, List.nil_append, List.length_nil,
    fitting_of_lt (by decide : 0 + 17 < smallBufferSize), hlength,
    fitting_of_lt (by decide : 17 + 7 < smallBufferSize)]
  simp only [ascii, List.map_take]

theorem length_formatTime (localtime : Int → Tm) (now : Timestamp) :
    (formatTime .new localtime now).content.length = 24 := by
  have htimer := le_length_timer localtime now
  have hmicro := le_length_microTime now
  rw [length_ascii] at htimer hmicro
  rw [content_formatTime, List.length_append, length_ascii, length_ascii, List.length_take,
    List.length_take]
  omega

section
variable (localtime : Int → Tm) (now : Timestamp) (basename : SourceFile)
  (line : IntType.int.Value) (level : LogLevel)

theorem stream_new : (Logger.new localtime now basename line level).stream =
    (formatTime .new localtime now).insert
      (.general ⟨ascii level.name, 6, by rw [length_ascii, level.length_name]⟩) := rfl

theorem stream_new_inBounds :
    (Logger.new localtime now basename line level).stream.InBounds := by
  rw [stream_new]
  exact insert_inBounds (formatTime_inBounds localtime now) _

/-- The time and the level. -/
theorem length_new : (Logger.new localtime now basename line level).stream.content.length = 30 := by
  have hname : (ascii level.name).length = 6 := by rw [length_ascii, level.length_name]
  rw [stream_new, content_insert_general (formatTime_inBounds localtime now),
    length_formatTime, fitting_of_lt (by decide : 24 + 6 < smallBufferSize), List.length_append,
    length_formatTime]
  show 24 + ((ascii level.name).take 6).length = 30
  rw [List.length_take, hname]
  rfl

end

theorem insertAll_inBounds {l : Logger} (h : l.stream.InBounds) (is : List Insertion) :
    (l.insertAll is).stream.InBounds := by
  induction is generalizing l with
  | nil => exact h
  | cons i is ih => exact ih (l := { l with stream := l.stream.insert i }) (insert_inBounds h i)

/-! ## The end of a record -/

/-- `" - file:line\n"`. -/
def suffix (l : Logger) : List Byte :=
  ascii " - ".toList ++ l.basename.data ++ ascii ":".toList ++ ascii (render l.line.num) ++
    [UInt8.ofNat '\n'.toNat]

/-- The record ends with its terminated suffix, as `finish` writes it. -/
def Terminated (l : Logger) : Prop := l.output = l.stream.content ++ l.suffix

/-- Each of the five pieces is there if it fits behind those before it. -/
theorem output_eq {l : Logger} (h : l.stream.InBounds) :
    ∃ p₁ p₂ p₃ p₄ p₅, l.output = l.stream.content ++ (p₁ ++ p₂ ++ p₃ ++ p₄ ++ p₅) ∧
      p₁ = fitting l.stream.content.length 3 (ascii " - ".toList) ∧
      p₂ = fitting (l.stream.content ++ p₁).length l.basename.data.length l.basename.data ∧
      p₃ = fitting (l.stream.content ++ p₁ ++ p₂).length 1 (ascii ":".toList) ∧
      p₄ = fitting (l.stream.content ++ p₁ ++ p₂ ++ p₃).length maxNumSize (text l.line.num) ∧
      p₅ = fitting (l.stream.content ++ p₁ ++ p₂ ++ p₃ ++ p₄).length 1
        [UInt8.ofNat '\n'.toNat] := by
  have h₁ := insert_inBounds h (.cString (ascii " - ".toList))
  have h₂ := insert_inBounds h₁ (.general (.all l.basename.data))
  have h₃ := insert_inBounds h₂ (.cString (ascii ":".toList))
  have h₄ := insert_inBounds h₃ (.integer l.line)
  have e₁ := content_insert_cString h (by decide :
    (ascii " - ".toList).takeWhile (· ≠ 0) = ascii " - ".toList)
  have e₂ := content_insert_general h₁ (.all l.basename.data)
  have e₃ := content_insert_cString h₂ (by decide :
    (ascii ":".toList).takeWhile (· ≠ 0) = ascii ":".toList)
  have e₄ := content_insert_integer h₃ l.line
  have e₅ := content_insert_char h₄ (UInt8.ofNat '\n'.toNat)
  have hall : l.basename.data.take l.basename.data.length = l.basename.data :=
    List.take_of_length_le (Nat.le_refl _)
  simp only [GeneralTemplate.all, hall] at e₂ e₃ e₄ e₅
  rw [e₄, e₃, e₂, e₁] at e₅
  refine ⟨_, _, _, _, _, ?_, rfl, rfl, rfl, rfl, rfl⟩
  rw [← List.append_assoc, ← List.append_assoc, ← List.append_assoc, ← List.append_assoc]
  exact e₅

theorem length_text_le_render (v : Int) : (text v).length ≤ (render v).length := by
  unfold text
  split
  · exact Nat.zero_le _
  · rw [length_ascii]

theorem length_render_pos (v : Int) : 0 < (render v).length := by
  by_cases h : v < 0
  · rw [render_of_neg h]
    exact Nat.succ_pos _
  · rw [render_of_nonneg (by omega)]
    exact Nat.length_toDigits_pos

/-- As no piece is longer than it should be, each of them is whole, and so the
number has found its room. -/
theorem Terminated.room {l : Logger} (h : l.stream.InBounds) (hterminated : l.Terminated) :
    l.line.num ≠ 0 ∧ l.stream.content.length + l.basename.data.length + 36 < smallBufferSize := by
  rcases output_eq h with ⟨p₁, p₂, p₃, p₄, p₅, houtput, h₁, h₂, h₃, h₄, h₅⟩
  have hdigits := length_render_le l.line
  unfold Terminated at hterminated
  rw [houtput, List.append_cancel_left_eq] at hterminated
  have hlengths := congrArg List.length hterminated
  have hle₁ := length_fitting_le l.stream.content.length 3 (ascii " - ".toList)
  have hle₂ := length_fitting_le (l.stream.content ++ p₁).length l.basename.data.length
    l.basename.data
  have hle₃ := length_fitting_le (l.stream.content ++ p₁ ++ p₂).length 1 (ascii ":".toList)
  have hle₄ := length_fitting_le (l.stream.content ++ p₁ ++ p₂ ++ p₃).length maxNumSize
    (text l.line.num)
  have hle₅ := length_fitting_le (l.stream.content ++ p₁ ++ p₂ ++ p₃ ++ p₄).length 1
    [UInt8.ofNat '\n'.toNat]
  rw [← h₁] at hle₁
  rw [← h₂] at hle₂
  rw [← h₃] at hle₃
  rw [← h₄] at hle₄
  rw [← h₅] at hle₅
  have htext := length_text_le_render l.line.num
  have hrender := length_render_pos l.line.num
  have hdash : (ascii " - ".toList).length = 3 := rfl
  have hcolon : (ascii ":".toList).length = 1 := rfl
  have hnewline : [UInt8.ofNat '\n'.toNat].length = 1 := rfl
  simp only [suffix, List.length_append, length_ascii] at hlengths
  rw [length_ascii] at hle₁ hle₃ hdash hcolon
  have hnumber : 0 < p₄.length := by omega
  rw [h₄] at hnumber
  have hfits := lt_of_fitting hnumber
  constructor
  · intro hzero
    have hnone : (text l.line.num).length = 0 := by
      rw [hzero]
      rfl
    omega
  · simp only [List.length_append, maxNumSize] at hfits
    omega

theorem terminated_of_room {l : Logger} (h : l.stream.InBounds) (hne : l.line.num ≠ 0)
    (hroom : l.stream.content.length + l.basename.data.length + 36 < smallBufferSize) :
    l.Terminated := by
  rcases output_eq h with ⟨p₁, p₂, p₃, p₄, p₅, houtput, h₁, h₂, h₃, h₄, h₅⟩
  have hdigits := length_render_le l.line
  have htext : text l.line.num = ascii (render l.line.num) := if_neg hne
  have hdash : (ascii " - ".toList).length = 3 := rfl
  have hcolon : (ascii ":".toList).length = 1 := rfl
  unfold Terminated
  rw [houtput, List.append_cancel_left_eq]
  rw [fitting_of_lt (by omega)] at h₁
  rw [h₁, fitting_of_lt (by rw [List.length_append]; omega)] at h₂
  rw [h₁, h₂, fitting_of_lt (by simp only [List.length_append]; omega)] at h₃
  rw [h₁, h₂, h₃, htext, fitting_of_lt
    (by simp only [List.length_append, maxNumSize]; omega)] at h₄
  rw [h₁, h₂, h₃, h₄, fitting_of_lt
    (by simp only [List.length_append]; rw [length_ascii (render _)]; omega)] at h₅
  rw [h₁, h₂, h₃, h₄, h₅]
  rfl

theorem terminated_iff {l : Logger} (h : l.stream.InBounds) :
    l.Terminated ↔ l.line.num ≠ 0 ∧
      l.stream.content.length + l.basename.data.length + 36 < smallBufferSize := by
  constructor
  · intro hterminated
    exact hterminated.room h
  · rintro ⟨hne, hroom⟩
    exact terminated_of_room h hne hroom

@[simp] theorem line_insertAll (l : Logger) (is : List Insertion) :
    (l.insertAll is).line = l.line := rfl

@[simp] theorem basename_insertAll (l : Logger) (is : List Insertion) :
    (l.insertAll is).basename = l.basename := rfl

/-- Whatever user code inserts: the record ends with its suffix if and only if the
line is not 0 and what the stream holds leaves room for `" - "`, the file name,
`":"` and the 32 characters that a number needs. -/
theorem suffix_iff_room (localtime : Int → Tm) (now : Timestamp) (basename : SourceFile)
    (line : IntType.int.Value) (level : LogLevel) (is : List Insertion) :
    ((Logger.new localtime now basename line level).insertAll is).Terminated ↔ line.num ≠ 0 ∧
      ((Logger.new localtime now basename line level).insertAll is).stream.content.length +
        basename.data.length + 36 < smallBufferSize :=
  terminated_iff (insertAll_inBounds (stream_new_inBounds localtime now basename line level) is)

/-- One string that leaves a single byte free. -/
def filled : Logger :=
  (Logger.new (localtimeAt 0) Timestamp.oneSecond
    ⟨ascii "main.cc".toList, by decide⟩ ⟨42, by decide, by decide⟩ .INFO).insertAll
    [.string (List.replicate 4065 120)]

/-- All of `finish` is dropped, and the next record follows in the same line. -/
theorem filled_not_terminated : ¬ filled.Terminated ∧ filled.output = filled.stream.content ∧
    filled.output.getLast? = some 120 := by
  have hnew := stream_new_inBounds (localtimeAt 0) Timestamp.oneSecond
    ⟨ascii "main.cc".toList, by decide⟩ ⟨42, by decide, by decide⟩ .INFO
  have hlength := length_new (localtimeAt 0) Timestamp.oneSecond
    ⟨ascii "main.cc".toList, by decide⟩ ⟨42, by decide, by decide⟩ .INFO
  have hbounds : filled.stream.InBounds :=
    insertAll_inBounds hnew [.string (List.replicate 4065 120)]
  have hcontent := content_append hnew (List.replicate 4065 120)
  have hroom : 30 + 4065 < smallBufferSize := by
    unfold smallBufferSize
    omega
  rw [hlength, List.length_replicate, fitting_of_lt hroom] at hcontent
  change filled.stream.content = _ at hcontent
  have hfull : filled.stream.content.length = 4095 := by
    rw [hcontent, List.length_append, hlength, List.length_replicate]
  have houtput : filled.output = filled.stream.content := by
    rcases output_eq hbounds with ⟨p₁, p₂, p₃, p₄, p₅, houtput, h₁, h₂, h₃, h₄, h₅⟩
    have hsize : smallBufferSize = 4096 := rfl
    have hmax : maxNumSize = 32 := rfl
    rw [fitting_of_full (by omega)] at h₁
    rw [h₁, List.append_nil, fitting_of_full (by rw [hfull, hsize]; decide)] at h₂
    rw [h₁, h₂, List.append_nil, List.append_nil, fitting_of_full (by omega)] at h₃
    rw [h₁, h₂, h₃, List.append_nil, List.append_nil, List.append_nil,
      fitting_of_full (by omega)] at h₄
    rw [h₁, h₂, h₃, h₄, List.append_nil, List.append_nil, List.append_nil, List.append_nil,
      fitting_of_full (by omega)] at h₅
    rw [houtput, h₁, h₂, h₃, h₄, h₅]
    simp
  refine ⟨?_, houtput, ?_⟩
  · intro h
    have hroom := ((terminated_iff hbounds).mp h).2
    have hsize : smallBufferSize = 4096 := rfl
    omega
  · have hlast : List.replicate (4064 + 1) (120 : Byte) = List.replicate 4064 120 ++ [120] :=
      List.replicate_succ'
    rw [houtput, hcontent, hlast, ← List.append_assoc, List.getLast?_concat]

end Logger

end EchoServer
