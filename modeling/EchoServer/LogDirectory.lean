import Mathlib.Data.Char
import Mathlib.Data.List.Lex
import EchoServer.Lib.Directory
import EchoServer.LogFlush
import EchoServer.Rolling
import EchoServer.RollNames
import EchoServer.WholeRecords

/-!
# The directory of the log

The files of a log lie in one directory, under the names `getLogFileName` gives
them. A roll within a second of local time that has a file already writes on at
the end of that file, for `fopen` is called in mode `"ae"`. What `fwrite` has taken
may stay in the buffer of the stream until the next flush.

* `getLogFileName_le`: in years of four digits the names are ordered as the local
  seconds are;
* `streamed`, `directory`: what the streams have been given, and the files, which lack
  what the last stream holds back;
* `Archived`: the streams, in the order of their names, have been given the records,
  each whole to one of them; what is missing at the end of the files is held back or
  in the buffers of `AsyncLogging`;
* `archive_in_order`: every run in which local time does not step back between
  two rolls.
-/

namespace EchoServer

open Runs Decimal

/-! ## The order of the names -/

theorem zeroPadded_two_append {w a b : Nat} (hw : 0 < w) (hb : b < 100) :
    zeroPadded (w + 2) (100 * a + b) = zeroPadded w a ++ zeroPadded 2 b := by
  have hdiv : (100 * a + b) / 10 / 10 = a := by omega
  have htens : (100 * a + b) / 10 % 10 = b / 10 := by omega
  have hones : (100 * a + b) % 10 = b % 10 := by omega
  rw [zeroPadded_succ (w + 1) _ (Nat.succ_pos w), zeroPadded_succ w _ hw, hdiv, htens, hones,
    zeroPadded_succ 1 b Nat.one_pos, zeroPadded_one (by omega), List.append_assoc]

/-- A number of four digits needs no zeros. -/
theorem render_four_digits {v : Int} (hlow : 1000 ≤ v) (hhigh : v ≤ 9999) :
    render v = zeroPadded 4 v.natAbs := by
  have hlength : ¬ (Nat.toDigits 10 v.natAbs).length ≤ 3 := by
    rw [Nat.length_toDigits_le_iff (by decide) (by decide)]
    omega
  have hnone : 4 - (Nat.toDigits 10 v.natAbs).length = 0 := by omega
  rw [render_of_nonneg (by omega), zeroPadded, List.leftpad, hnone]
  rfl

/-- Second `t` of local time is in a year of four digits. -/
def FourDigitYear (t : Int) : Prop :=
  1000 ≤ (Calendar.fields t).date.year ∧ (Calendar.fields t).date.year ≤ 9999

instance (t : Int) : Decidable (FourDigitYear t) := by
  unfold FourDigitYear
  infer_instance

/-- `%Y%m%d` as a number. -/
def dateNumber (d : Calendar.Date) : Nat := 100 * (100 * d.year.natAbs + (d.month + 1)) + d.day

/-- `%H%M%S` as a number. -/
def timeNumber (tm : Calendar.Fields) : Nat := 100 * (100 * tm.hour + tm.min) + tm.sec

theorem strftime_eq {t : Int} (h : FourDigitYear t) : strftime (Calendar.fields t) =
    '.' :: (zeroPadded 8 (dateNumber (Calendar.fields t).date) ++
      '-' :: zeroPadded 6 (timeNumber (Calendar.fields t))) := by
  have hmonth : (Calendar.fields t).date.month ≤ 11 := Calendar.month_le _
  have hday : (Calendar.fields t).date.day ≤ 31 := Calendar.day_le _
  have hmin := Calendar.min_le t
  have hsec := Calendar.sec_le t
  rw [dateNumber, timeNumber, zeroPadded_two_append (by decide) (by omega),
    zeroPadded_two_append (by decide) (by omega), zeroPadded_two_append (by decide) (by omega),
    zeroPadded_two_append (by decide) (by omega), strftime, render_four_digits h.1 h.2]
  simp

/-- A later day has the greater number. -/
theorem dateNumber_lt {s t : Int} (hs : FourDigitYear s) (ht : FourDigitYear t)
    (h : s / 86400 < t / 86400) :
    dateNumber (Calendar.fields s).date < dateNumber (Calendar.fields t).date := by
  have hmonth : (Calendar.fields s).date.month ≤ 11 := Calendar.month_le _
  have hmonth' : (Calendar.fields t).date.month ≤ 11 := Calendar.month_le _
  have hday : (Calendar.fields s).date.day ≤ 31 := Calendar.day_le _
  have hday' : (Calendar.fields t).date.day ≤ 31 := Calendar.day_le _
  have hdate : (Calendar.fields s).date.year < (Calendar.fields t).date.year ∨
      (Calendar.fields s).date.year = (Calendar.fields t).date.year ∧
        ((Calendar.fields s).date.month < (Calendar.fields t).date.month ∨
          (Calendar.fields s).date.month = (Calendar.fields t).date.month ∧
            (Calendar.fields s).date.day < (Calendar.fields t).date.day) := Calendar.date_lt h
  rcases hs with ⟨hlow, hhigh⟩
  rcases ht with ⟨hlow', hhigh'⟩
  unfold dateNumber
  omega

theorem dateNumber_bound {t : Int} (h : FourDigitYear t) :
    dateNumber (Calendar.fields t).date < 10 ^ 8 := by
  have hmonth : (Calendar.fields t).date.month ≤ 11 := Calendar.month_le _
  have hday : (Calendar.fields t).date.day ≤ 31 := Calendar.day_le _
  rcases h with ⟨hlow, hhigh⟩
  unfold dateNumber
  omega

theorem timeNumber_bound (t : Int) : timeNumber (Calendar.fields t) < 10 ^ 6 := by
  have hhour := Calendar.hour_le t
  have hmin := Calendar.min_le t
  have hsec := Calendar.sec_le t
  unfold timeNumber
  omega

/-- On one day a later second has the greater number. -/
theorem timeNumber_lt {s t : Int} (hday : s / 86400 = t / 86400) (h : s < t) :
    timeNumber (Calendar.fields s) < timeNumber (Calendar.fields t) := by
  show 100 * (100 * (Calendar.secondOfDay s / 3600) + Calendar.secondOfDay s % 3600 / 60) +
      Calendar.secondOfDay s % 60 <
    100 * (100 * (Calendar.secondOfDay t / 3600) + Calendar.secondOfDay t % 3600 / 60) +
      Calendar.secondOfDay t % 60
  unfold Calendar.secondOfDay
  omega

theorem strftime_lt {s t : Int} (hs : FourDigitYear s) (ht : FourDigitYear t) (h : s < t) :
    strftime (Calendar.fields s) < strftime (Calendar.fields t) := by
  have hlength : (zeroPadded 8 (dateNumber (Calendar.fields s).date)).length =
      (zeroPadded 8 (dateNumber (Calendar.fields t).date)).length := by
    rw [length_zeroPadded (by decide) (dateNumber_bound hs),
      length_zeroPadded (by decide) (dateNumber_bound ht)]
  rw [strftime_eq hs, strftime_eq ht, cons_lt_cons, append_lt_append_iff hlength, cons_lt_cons,
    zeroPadded_lt_iff (by decide) (dateNumber_bound hs) (dateNumber_bound ht),
    zeroPadded_lt_iff (by decide) (timeNumber_bound s) (timeNumber_bound t)]
  by_cases hday : s / 86400 = t / 86400
  · right
    have hdate : (Calendar.fields s).date = (Calendar.fields t).date := by
      show Calendar.date _ = Calendar.date _
      rw [hday]
    rw [hdate]
    exact ⟨rfl, timeNumber_lt hday h⟩
  · exact Or.inl (dateNumber_lt hs ht (by omega))

theorem length_strftime {t : Int} (h : FourDigitYear t) :
    (strftime (Calendar.fields t)).length = 16 := by
  rw [strftime_eq h, List.length_cons, List.length_append, List.length_cons,
    length_zeroPadded (by decide) (dateNumber_bound h),
    length_zeroPadded (by decide) (timeNumber_bound t)]

/-- Names are ordered as the local seconds. -/
theorem getLogFileName_le {offset : Int → Int} (basename : List Char) {s t : Int}
    (hs : FourDigitYear (s + offset s)) (ht : FourDigitYear (t + offset t))
    (h : s + offset s ≤ t + offset t) :
    getLogFileName offset basename s ≤ getLogFileName offset basename t := by
  rcases Int.lt_or_eq_of_le h with hlt | heq
  · have hlength : (strftime (Calendar.fields (s + offset s))).length =
        (strftime (Calendar.fields (t + offset t))).length := by
      rw [length_strftime hs, length_strftime ht]
    apply le_of_lt
    unfold getLogFileName
    rw [List.append_assoc, List.append_assoc, append_lt_append_iff rfl]
    right
    refine ⟨rfl, ?_⟩
    rw [append_lt_append_iff hlength]
    exact Or.inl (strftime_lt hs ht hlt)
  · rw [(getLogFileName_inj offset basename s t).mpr heq]

/-! ## The files of one log -/

namespace LogFile

/-- What has been written, and under which names. -/
def writes (offset : Int → Int) (basename : List Char) (s : LogFile) :
    List (List Char × List Byte) :=
  s.opened.map fun stream => (getLogFileName offset basename stream.openedAt, stream.content)

/-- Local time has not stepped back from one file to a later one. -/
structure LocalForward (offset : Int → Int) (seconds : List Int) : Prop where
  ordered : seconds.Pairwise fun a b => a + offset a ≤ b + offset b
  years : ∀ t ∈ seconds, FourDigitYear (t + offset t)

theorem LocalForward.names {offset : Int → Int} {seconds : List Int}
    (h : LocalForward offset seconds) (basename : List Char) :
    (seconds.map (getLogFileName offset basename)).Pairwise (· ≤ ·) := by
  rw [List.pairwise_map]
  refine h.ordered.imp_of_mem ?_
  intro a b ha hb hle
  exact getLogFileName_le basename (h.years a ha) (h.years b hb) hle

theorem LocalForward.append {offset : Int → Int} {seconds later : List Int}
    (h : LocalForward offset seconds) (hlater : later.length ≤ 1)
    (hclock : ∀ t ∈ later, FourDigitYear (t + offset t) ∧
      ∀ before ∈ seconds, before + offset before ≤ t + offset t) :
    LocalForward offset (seconds ++ later) := by
  constructor
  · rw [List.pairwise_append]
    refine ⟨h.ordered, ?_, fun before hbefore t ht => (hclock t ht).2 before hbefore⟩
    rcases later with _ | ⟨t, _ | ⟨u, later⟩⟩
    · exact List.Pairwise.nil
    · exact List.pairwise_singleton _ _
    · simp at hlater
  · intro t ht
    rcases List.mem_append.mp ht with hold | hnew
    · exact h.years t hold
    · exact (hclock t hnew).1

/-- The records of the calls lie in the files whole. -/
theorem Rolled.exists_writes {s : LogFile} {l : Segments.Log (List Byte)} (h : s.Rolled l)
    {groups : List (List AsyncLogging.Record)}
    (hgroups : s.records = groups.map AsyncLogging.bytesOf)
    (offset : Int → Int) (basename : List Char) :
    ∃ pieces : List (List Char × List AsyncLogging.Record),
      s.writes offset basename = pieces.map (Prod.map id AsyncLogging.bytesOf) ∧
      pieces.map Prod.fst = s.openedSeconds.map (getLogFileName offset basename) ∧
      pieces.flatMap Prod.snd = groups.flatten := by
  have hentries : l.segments.flatten = groups.map AsyncLogging.bytesOf := by
    rw [← hgroups, ← h.records]
    rfl
  rcases Segments.exists_segments hentries with ⟨segments, hflatten, hsegments⟩
  have hcontents : s.opened.map Stream.content =
      (segments.map List.flatten).map AsyncLogging.bytesOf := by
    have hfiles : s.opened.map Stream.content = l.segments.map List.flatten := by
      rw [h.writesTo.opened, List.map_append, h.closed, Segments.Log.segments, List.map_append]
      rfl
    rw [hfiles, hsegments, List.map_map, List.map_map]
    apply List.map_congr_left
    intro segment _
    exact (AsyncLogging.bytesOf_flatten segment).symm
  rcases Directory.exists_writes (fun stream : Stream =>
    getLogFileName offset basename stream.openedAt) hcontents with
    ⟨pieces, hwrites, hnames, hpieces⟩
  refine ⟨pieces, hwrites, ?_, ?_⟩
  · rw [hnames, openedSeconds, List.map_map]
    rfl
  · rw [List.flatMap_def, hpieces, ← List.flatten_flatten, hflatten]

/-- A call adds to the records what it has been given. -/
theorem Rolled.records_step {s : LogFile} {l : Segments.Log (List Byte)} (h : s.Rolled l)
    {data : List Byte} {ws : List Fwrite} {now rollNow : Int}
    (hws : ∀ w ∈ ws, data.length ≤ w.taken) :
    (s.step (.append data ws now rollNow true)).records = s.records ++ [data] := by
  rcases (s.appended data ws).rolls_or_kept now s.lastRoll rollNow with
    ⟨hattempts, hlater⟩ | hkept
  · rw [← (h.rolled hws hattempts hlater).1.records, Segments.Log.entries_roll,
      Segments.Log.entries_append, h.records]
  · rw [← (h.kept hws true hkept).1.records, Segments.Log.entries_append, h.records]

theorem length_opens_le (s : LogFile) (e : Label) : (s.opens e).length ≤ 1 := by
  cases e with
  | append data ws now rollNow fopen =>
    rw [opens]
    split
    · exact Nat.le_refl 1
    · exact Nat.zero_le 1
  | flush => exact Nat.zero_le 1

end LogFile

/-! ## The background thread and its file -/

namespace AsyncLogging

theorem written_step_given (s : AsyncLogging) (e : Label) :
    (s.step e).written = s.written ++ (s.given e).flatten := by
  by_cases hwrite : e = .write ∧ ∃ buffer rest, s.thread = .writing (some buffer :: rest)
  · rcases hwrite with ⟨rfl, buffer, rest, hthread⟩
    simp [given, step, hthread]
  · rw [(s.written_step e).resolve_right hwrite, given_of_not_write hwrite, List.flatten_nil,
      List.append_nil]

/-- `threadFunc` has been entered, and its `LogFile` constructed. -/
def ThreadFunc.entered : ThreadFunc → Bool
  | .notStarted => false
  | .entering => false
  | _ => true

theorem entered_step {s : AsyncLogging} (h : s.Owned) (e : Label) :
    (s.step e).thread.entered = true ↔
      s.thread.entered = true ∨ e = .enter ∧ s.thread = .entering := by
  by_cases henter : e = .enter ∧ s.thread = .entering
  · rcases henter with ⟨rfl, hthread⟩
    simp [step, hthread, ThreadFunc.entered]
  · rw [or_iff_left henter]
    rcases s.step_cases e with hstutter | hstep
    · rw [hstutter]
    generalize s.step e = s' at hstep
    cases hstep with
    | enter hthread => exact absurd ⟨rfl, hthread⟩ henter
    | append tid r hmutex hcaller howner =>
      have hthread : ((({ s.put r.bytes with records := s.records ++ [r] } : AsyncLogging).setCaller
          tid (some s.records.length)).thread) = s.thread := (s.put_apart r.bytes).thread
      rw [hthread]
    | startThread howner =>
      have hthread := h.unstarted (Or.inr howner)
      simp [hthread, ThreadFunc.entered]
    | appendReturn | start | stop | dtor | dtorStop | dtorEnd | writeNull => exact Iff.rfl
    | testRunning hthread | testStopped hthread | lockEmpty hthread | lockFull hthread
    | wake hthread | swap hthread | writeEnd hthread | write _ _ hthread | recycle hthread
    | flush hthread | finish hthread => simp [hthread, ThreadFunc.entered]

end AsyncLogging

namespace LogSystem

open AsyncLogging (Groups Record bytesOf)

/-- What is called in `output`, and what is given to it. -/
theorem call_cases (s : LogSystem) (l : Label) :
    (∃ data, s.logging.given l.1 = [data] ∧
      s.call l = some (.append data l.2.fwrites l.2.now l.2.rollNow l.2.fopen)) ∨
    s.logging.given l.1 = [] ∧ (s.call l = none ∨ s.call l = some .flush) := by
  unfold AsyncLogging.given call
  split
  · rename_i buffer rest hlabel hthread
    left
    exact ⟨buffer.content, rfl, by simp [hlabel, hthread]⟩
  · rename_i hnone
    right
    refine ⟨rfl, ?_⟩
    split
    · rename_i buffer rest hlabel hthread
      exact absurd hthread (hnone buffer rest hlabel)
    · exact Or.inr rfl
    · exact Or.inr rfl
    · exact Or.inl rfl

theorem outputStep_enter {s : LogSystem} {l : Label} (h : l.1 = .enter)
    (hthread : s.logging.thread = .entering) :
    s.outputStep l = some (.new s.rollSize 3 1024 l.2.now l.2.fopen) := by
  simp [outputStep, h, hthread]

theorem outputStep_of_not_enter {s : LogSystem} {l : Label}
    (h : ¬ (l.1 = .enter ∧ s.logging.thread = .entering)) :
    s.outputStep l = (s.call l).elim s.output fun call => s.output.map (·.step call) := by
  unfold outputStep
  split
  · rename_i henter hthread
    exact absurd ⟨henter, hthread⟩ h
  · cases s.call l <;> rfl

/-- Nothing is given before the thread is entered. -/
theorem entered_of_given {s : LogSystem} {l : Label} {data : List Byte}
    (h : s.logging.given l.1 = [data]) : s.logging.thread.entered = true := by
  unfold AsyncLogging.given at h
  split at h
  · rename_i buffer rest hlabel hthread
    rw [hthread]
    rfl
  · simp at h

/-- What has been written, and under which names. -/
def writes (offset : Int → Int) (basename : List Char) (s : LogSystem) :
    List (List Char × List Byte) :=
  (s.output.map fun output => output.writes offset basename).getD []

/-- What the streams have been given, by the names of their files. -/
def streamed (offset : Int → Int) (basename : List Char) (s : LogSystem) :
    List (List Char × List Byte) :=
  Directory.ofWrites (s.writes offset basename)

/-- The files in the directory, which was empty at first: the stream of the last one
holds the last `held` bytes back. -/
def directory (offset : Int → Int) (basename : List Char) (held : Nat) (s : LogSystem) :
    List (List Char × List Byte) :=
  Directory.ofWrites (Directory.cutLast held (s.writes offset basename))

/-- What the stream of the current file may hold back: as much as `buffer_` of
`FileUtil` takes, and nothing that has been flushed. The other streams are closed. -/
structure MayHold (s : LogSystem) (held : Nat) : Prop where
  buffer : held ≤ 64 * 1024
  given : held ≤ ((s.output.bind LogFile.current).map fun stream => stream.content.length).getD 0
  unflushed : s.flushed.length + held ≤ s.logging.written.length

/-- The seconds at which the files have been opened. -/
def openedSeconds (s : LogSystem) : List Int := (s.output.map LogFile.openedSeconds).getD []

/-- The second at which the step opens a file, if it does. -/
def opens (s : LogSystem) (l : Label) : List Int :=
  match l.1, s.logging.thread with
  | .enter, .entering => [l.2.now]
  | _, _ =>
    match s.output, s.call l with
    | some output, some call => output.opens call
    | _, _ => []

/-- Every `fopen` and `fwrite` of the step succeeds, and a file it opens has a name
that is not before those of the others. -/
structure Smooth (offset : Int → Int) (s : LogSystem) (l : Label) : Prop where
  fopen : l.2.fopen = true
  takesAll : ∀ call ∈ s.call l, call.TakesAll
  clock : ∀ t ∈ s.opens l, 0 < t ∧ FourDigitYear (t + offset t) ∧
    ∀ before ∈ s.openedSeconds, before + offset before ≤ t + offset t

instance : DecidablePred LogFile.Label.TakesAll
  | .append data ws _ _ _ => inferInstanceAs (Decidable (∀ w ∈ ws, data.length ≤ w.taken))
  | .flush => inferInstanceAs (Decidable True)

theorem smooth_iff {offset : Int → Int} {s : LogSystem} {l : Label} :
    Smooth offset s l ↔ l.2.fopen = true ∧ (∀ call ∈ (s.call l).toList, call.TakesAll) ∧
      ∀ t ∈ s.opens l, 0 < t ∧ FourDigitYear (t + offset t) ∧
        ∀ before ∈ s.openedSeconds, before + offset before ≤ t + offset t := by
  simp only [Option.mem_toList]
  constructor
  · rintro ⟨hfopen, htakesAll, hclock⟩
    exact ⟨hfopen, htakesAll, hclock⟩
  · rintro ⟨hfopen, htakesAll, hclock⟩
    exact ⟨hfopen, htakesAll, hclock⟩

instance (offset : Int → Int) (s : LogSystem) (l : Label) : Decidable (Smooth offset s l) :=
  decidable_of_iff _ smooth_iff.symm

/-- The streams, in the order of their names, have been given the records, each whole
to one of them. So the files, read in this order, hold the bytes of the records, what
has been flushed and more; those that are missing at the end are held back by the last
stream or in the buffers of `AsyncLogging`. -/
structure Archived (offset : Int → Int) (basename : List Char) (s : LogSystem) : Prop where
  running : s.ended = false
  streams : ∃ files : List (List Char × List Record),
    Directory.listing (s.streamed offset basename) = files.map (Prod.map id bytesOf) ∧
      ∃ pending : List Record, files.flatMap Prod.snd ++ pending = s.logging.records ∧
        s.logging.unwritten = bytesOf pending
  files : ∀ held, s.MayHold held →
    s.flushed <+: Directory.reading (s.directory offset basename held) ∧
    ∃ missing : List Byte, missing.length = held ∧
      Directory.reading (s.directory offset basename held) ++ missing ++ s.logging.unwritten =
        bytesOf s.logging.records

/-- The calls of `output` were given the groups that have been written. -/
structure Takes (offset : Int → Int) (output : LogFile) (groups : List (List Record)) : Prop where
  rolled : ∃ l, output.Rolled l
  records : output.records = groups.map bytesOf
  forward : LogFile.LocalForward offset output.openedSeconds

structure Piped (offset : Int → Int) (s : LogSystem) (g : Groups) : Prop where
  inv : s.logging.Inv
  owned : s.logging.Owned
  holds : s.logging.Holds g
  written : s.logging.written = bytesOf g.written.flatten
  flushed : s.flushed <+: s.logging.written
  entered : s.logging.thread.entered = s.output.isSome
  idle : s.output = none → g.written = []
  takes : ∀ output ∈ s.output, Takes offset output g.written

variable {offset : Int → Int} {s : LogSystem} {g : Groups}

theorem new_piped (offset : Int → Int) (rollSize : Nat) :
    Piped offset (new rollSize) Groups.empty where
  inv := AsyncLogging.new_inv
  owned := AsyncLogging.new_owned
  holds := AsyncLogging.new_holds
  written := rfl
  flushed := List.prefix_refl _
  entered := rfl
  idle := fun _ => rfl
  takes := by simp [new]

theorem Piped.running (h : Piped offset s g) : s.ended = false := by
  rcases houtput : s.output with _ | output
  · simp [ended, houtput]
  · rcases (h.takes output houtput).rolled with ⟨l, hrolled⟩
    simp [ended, houtput, hrolled.writesTo.fault]

theorem takes_new (offset : Int → Int) (rollSize : Nat) {now : Int} (hnow : 0 < now)
    (hyear : FourDigitYear (now + offset now)) :
    Takes offset (.new rollSize 3 1024 now true) [] := by
  have hseconds : (LogFile.new rollSize 3 1024 now true).openedSeconds = [now] := by
    rw [LogFile.new_eq rollSize 3 1024 hnow]
    rfl
  refine ⟨⟨_, LogFile.rolled_new rollSize 3 1024 hnow⟩, ?_, ?_⟩
  · rw [LogFile.new_eq rollSize 3 1024 hnow]
    rfl
  · rw [hseconds]
    refine ⟨List.pairwise_singleton _ _, ?_⟩
    intro t ht
    rw [List.mem_singleton.mp ht]
    exact hyear

/-- One call of `output`. -/
theorem Takes.step {output : LogFile} {groups : List (List Record)} (h : Takes offset output groups)
    {call : LogFile.Label} (htakes : call.TakesAll) (hfopen : call.FopenSucceeds)
    (hclock : ∀ t ∈ output.opens call, FourDigitYear (t + offset t) ∧
      ∀ before ∈ output.openedSeconds, before + offset before ≤ t + offset t) :
    (∃ l, (output.step call).Rolled l) ∧
      LogFile.LocalForward offset (output.step call).openedSeconds := by
  rcases h.rolled with ⟨l, hrolled⟩
  refine ⟨(hrolled.step htakes hfopen).1, ?_⟩
  rw [(hrolled.writesTo.openedSeconds_step call).1]
  exact h.forward.append (output.length_opens_le call) hclock

/-- The groups of a step have been written. -/
theorem Piped.written_step (h : Piped offset s g) {l : Label} {g' : Groups}
    {groups : List (List Record)} (hwritten : g'.written = g.written ++ groups)
    (hgiven : s.logging.given l.1 = groups.map bytesOf) :
    (s.logging.step l.1).written = bytesOf g'.written.flatten := by
  rw [AsyncLogging.written_step_given, h.written, hgiven, hwritten, List.flatten_append,
    AsyncLogging.bytesOf_append, AsyncLogging.bytesOf_flatten groups]

/-- The `AsyncLogging` makes its step, and `output` is what it is then. -/
theorem Piped.assemble (h : Piped offset s g) {l : Label} {g' : Groups}
    (hholds : (s.logging.step l.1).Holds g')
    (hwritten : (s.logging.step l.1).written = bytesOf g'.written.flatten)
    (hentered : (s.logging.step l.1).thread.entered = (s.outputStep l).isSome)
    (hidle : s.outputStep l = none → g'.written = [])
    (htakes : ∀ output ∈ s.outputStep l, Takes offset output g'.written) :
    Piped offset (s.step l) g' := by
  have hstep : s.step l = { s with
      logging := s.logging.step l.1
      output := s.outputStep l
      flushed := if s.flushes l then (s.logging.step l.1).written else s.flushed } :=
    if_neg (by simp [h.running])
  have hflushed : (if s.flushes l then (s.logging.step l.1).written else s.flushed) <+:
      (s.logging.step l.1).written := by
    split
    · exact List.prefix_refl _
    · exact h.flushed.trans (s.logging.written_isPrefix_step l.1)
  rw [hstep]
  exact ⟨h.inv.step l.1, h.owned.step l.1, hholds, hwritten, hflushed, hentered, hidle, htakes⟩

/-- The thread is entered: the first file is opened. -/
theorem Piped.enter (h : Piped offset s g) {l : Label} (hsmooth : Smooth offset s l)
    (henter : l.1 = .enter) (hthread : s.logging.thread = .entering) :
    ∃ g', Piped offset (s.step l) g' := by
  have hnone : s.output = none := by
    have hentered := h.entered
    rw [hthread] at hentered
    simpa [AsyncLogging.ThreadFunc.entered] using hentered
  have hnow := hsmooth.clock l.2.now (by simp [opens, henter, hthread])
  rcases h.holds.step h.inv h.owned l.1 with ⟨g', hholds, groups, hwritten, hgiven⟩
  have hgroups : groups = [] := by
    rw [henter] at hgiven
    simpa [AsyncLogging.given] using hgiven.symm
  have hempty : g'.written = [] := by
    rw [hwritten, hgroups, h.idle hnone]
    rfl
  have houtput : s.outputStep l = some (.new s.rollSize 3 1024 l.2.now true) := by
    rw [outputStep_enter henter hthread, hsmooth.fopen]
  have hall := h.written_step hwritten hgiven
  refine ⟨g', h.assemble hholds hall ?_ ?_ ?_⟩
  · rw [houtput]
    exact (AsyncLogging.entered_step h.owned l.1).mpr (Or.inr ⟨henter, hthread⟩)
  · intro _
    exact hempty
  · intro output hmem
    rw [houtput, Option.mem_some_iff] at hmem
    rw [← hmem, hempty]
    exact takes_new offset s.rollSize hnow.1 hnow.2.1

/-- A buffer is handed over: its group goes to the current file. -/
theorem Piped.append (h : Piped offset s g) {l : Label} (hsmooth : Smooth offset s l)
    (henter : ¬ (l.1 = .enter ∧ s.logging.thread = .entering)) {data : List Byte}
    (hgiven : s.logging.given l.1 = [data])
    (hcall : s.call l = some (.append data l.2.fwrites l.2.now l.2.rollNow l.2.fopen)) :
    ∃ g', Piped offset (s.step l) g' := by
  rcases h.holds.step h.inv h.owned l.1 with ⟨g', hholds, groups, hwritten, hgroups⟩
  have hentered := entered_of_given hgiven
  rcases houtput : s.output with _ | output
  · have hnone := h.entered
    rw [houtput, hentered] at hnone
    simp at hnone
  have htakes := h.takes output houtput
  have hstep : s.outputStep l =
      some (output.step (.append data l.2.fwrites l.2.now l.2.rollNow l.2.fopen)) := by
    rw [outputStep_of_not_enter henter, hcall, houtput]
    rfl
  have hwrites : ∀ w ∈ l.2.fwrites, data.length ≤ w.taken := hsmooth.takesAll _ hcall
  rcases htakes.rolled with ⟨log, hrolled⟩
  have hrecords : (output.step (.append data l.2.fwrites l.2.now l.2.rollNow l.2.fopen)).records =
      g'.written.map bytesOf := by
    rw [hsmooth.fopen, hrolled.records_step hwrites, htakes.records, hwritten, List.map_append,
      ← hgroups, hgiven]
  have hopens : s.opens l =
      output.opens (.append data l.2.fwrites l.2.now l.2.rollNow l.2.fopen) := by
    unfold opens
    split
    · rename_i he hthread
      exact absurd ⟨he, hthread⟩ henter
    · simp only [houtput, hcall]
  have hclock := hsmooth.clock
  rw [hopens, openedSeconds, houtput] at hclock
  rcases htakes.step (hsmooth.takesAll _ hcall) hsmooth.fopen (fun t ht => (hclock t ht).2) with
    ⟨hrolls, hforward⟩
  have hall := h.written_step hwritten hgroups
  refine ⟨g', h.assemble hholds hall ?_ ?_ ?_⟩
  · rw [hstep]
    exact (AsyncLogging.entered_step h.owned l.1).mpr (Or.inl hentered)
  · intro hnone
    rw [hstep] at hnone
    cases hnone
  · intro output' hmem
    rw [hstep, Option.mem_some_iff] at hmem
    rw [← hmem]
    exact ⟨hrolls, hrecords, hforward⟩

/-- A step that gives nothing leaves the files as they are. -/
theorem Piped.keep (h : Piped offset s g) {l : Label}
    (henter : ¬ (l.1 = .enter ∧ s.logging.thread = .entering))
    (hgiven : s.logging.given l.1 = []) (hcall : s.call l = none ∨ s.call l = some .flush) :
    ∃ g', Piped offset (s.step l) g' := by
  rcases h.holds.step h.inv h.owned l.1 with ⟨g', hholds, groups, hwritten, hgroups⟩
  have hsame : g'.written = g.written := by
    have hnone : groups = [] := by
      rw [hgiven] at hgroups
      simpa using hgroups.symm
    rw [hwritten, hnone, List.append_nil]
  have hstep : s.outputStep l = s.output := by
    rw [outputStep_of_not_enter henter]
    rcases hcall with hcall | hcall
    · rw [hcall]
      rfl
    · rw [hcall]
      rcases houtput : s.output with _ | output
      · rfl
      · rcases (h.takes output houtput).rolled with ⟨log, hrolled⟩
        show some (output.step .flush) = some output
        rw [hrolled.writesTo.step_flush]
  have hall := h.written_step hwritten hgroups
  refine ⟨g', h.assemble hholds hall ?_ ?_ ?_⟩
  · rw [hstep, ← h.entered, Bool.eq_iff_iff, AsyncLogging.entered_step h.owned l.1,
      or_iff_left henter]
  · rw [hstep, hsame]
    exact h.idle
  · rw [hstep, hsame]
    exact h.takes

theorem Piped.step (h : Piped offset s g) {l : Label} (hsmooth : Smooth offset s l) :
    ∃ g', Piped offset (s.step l) g' := by
  by_cases henter : l.1 = .enter ∧ s.logging.thread = .entering
  · exact h.enter hsmooth henter.1 henter.2
  · rcases s.call_cases l with ⟨data, hgiven, hcall⟩ | ⟨hgiven, hcall⟩
    · exact h.append hsmooth henter hgiven hcall
    · exact h.keep henter hgiven hcall

/-- The writes, in the order in which they were made, are those of the records. -/
theorem Piped.exists_pieces (h : Piped offset s g) (basename : List Char) :
    ∃ pieces : List (List Char × List Record),
      s.writes offset basename = pieces.map (Prod.map id bytesOf) ∧
      Directory.Forward pieces ∧ pieces.flatMap Prod.snd = g.written.flatten := by
  rcases houtput : s.output with _ | output
  · -- there is no file yet
    refine ⟨[], by simp [writes, houtput], List.Pairwise.nil, ?_⟩
    rw [h.idle houtput]
    rfl
  · have htakes := h.takes output houtput
    rcases htakes.rolled with ⟨log, hrolled⟩
    rcases hrolled.exists_writes htakes.records offset basename with
      ⟨pieces, hwrites, hnames, hpieces⟩
    refine ⟨pieces, ?_, ?_, hpieces⟩
    · rw [writes, houtput, Option.map_some, Option.getD_some, hwrites]
    · have hsorted := htakes.forward.names basename
      rw [← hnames, List.pairwise_map] at hsorted
      exact hsorted

/-- The last write is to the current stream. -/
theorem Piped.lastLength_writes (h : Piped offset s g) (basename : List Char) :
    Directory.lastLength (s.writes offset basename) =
      ((s.output.bind LogFile.current).map fun stream => stream.content.length).getD 0 := by
  rcases houtput : s.output with _ | output
  · simp [writes, houtput, Directory.lastLength]
  · rcases (h.takes output houtput).rolled with ⟨log, hrolled⟩
    simp [writes, houtput, Directory.lastLength, LogFile.writes, hrolled.writesTo.opened,
      LogFile.current, hrolled.writesTo.file]

/-- The streams and the files are read in the order of their names. -/
theorem Piped.archived (h : Piped offset s g) (basename : List Char) :
    Archived offset basename s := by
  have hrecords : g.written.flatten ++ g.pending = s.logging.records := h.holds.records
  rcases h.exists_pieces basename with ⟨pieces, hwrites, hforward, hpieces⟩
  constructor
  · exact h.running
  · refine ⟨Directory.listing (Directory.ofWrites pieces), ?_, g.pending, ?_, h.holds.unwritten⟩
    · rw [streamed, hwrites, Directory.map_listing,
        Directory.map_ofWrites AsyncLogging.bytesOf_append]
    · have hreading := Directory.reading_ofWrites hforward
      rw [Directory.reading] at hreading
      rw [hreading, hpieces]
      exact hrecords
  · intro held hheld
    have hforward' : Directory.Forward (s.writes offset basename) := by
      rw [hwrites]
      exact List.pairwise_map.mpr hforward
    have hlast : held ≤ Directory.lastLength (s.writes offset basename) := by
      rw [h.lastLength_writes]
      exact hheld.given
    have hall : (s.writes offset basename).flatMap Prod.snd = s.logging.written := by
      rw [hwrites, h.written, ← hpieces, AsyncLogging.bytesOf, List.flatMap_map,
        List.flatMap_assoc]
      rfl
    rcases Directory.reading_cutLast hforward' hlast with ⟨missing, hlength, hreading⟩
    rw [hall] at hreading
    constructor
    · -- no more is missing than has come after the last flush
      refine List.prefix_of_prefix_length_le h.flushed ⟨missing, hreading⟩ ?_
      have hunflushed := hheld.unflushed
      rw [← hreading, List.length_append, hlength] at hunflushed
      exact Nat.le_of_add_le_add_right hunflushed
    · refine ⟨missing, hlength, ?_⟩
      rw [directory, hreading, h.written, h.holds.unwritten, ← AsyncLogging.bytesOf_append,
        hrecords]

/-- In every run in which the calls of the C library succeed and local time does not
step back from one file to a later one, the directory at every moment holds the
records in order, as far as they have been written and the last stream has not held
them back. -/
theorem archive_in_order (offset : Int → Int) (basename : List Char) (rollSize : Nat)
    (ls : List Label) (h : EachStep step (new rollSize) (Smooth offset) ls) :
    Always step (new rollSize) (Archived offset basename) ls := by
  have hpiped : Always step (new rollSize) (fun s => ∃ g, Piped offset s g) ls := by
    refine always_of_eachStep ⟨_, new_piped offset rollSize⟩ ?_ h
    rintro s l ⟨g, hg⟩ hsmooth
    exact hg.step hsmooth
  refine hpiped.mono ?_
  rintro s ⟨g, hg⟩
  exact hg.archived basename

def answersAt (now : Int) : FileAnswers := ⟨[], now, now, true⟩

def singleByte (b : Byte) : Record := ⟨[b], Nat.lt_of_lt_of_le (Nat.lt_succ_self 1) (by decide)⟩

/-- Two records, a roll between them, and a third record that is not yet written. -/
def rolledOnce : List Label :=
  [(.start, answersAt 100), (.startThread, answersAt 100), (.enter, answersAt 100),
    (.append 1 (singleByte 7), answersAt 100), (.test, answersAt 100), (.lock, answersAt 100),
    (.wake, answersAt 100), (.swap, answersAt 100), (.write, answersAt 103),
    (.write, answersAt 103), (.recycle, answersAt 103), (.flush, answersAt 103),
    (.appendReturn 1, answersAt 103), (.append 1 (singleByte 8), answersAt 103),
    (.test, answersAt 103), (.lock, answersAt 103), (.wake, answersAt 103),
    (.swap, answersAt 103), (.write, answersAt 103), (.write, answersAt 103),
    (.recycle, answersAt 103), (.flush, answersAt 103), (.append 2 (singleByte 9), answersAt 103)]

theorem archive_in_order_rolled :
    Always step (new 0) (Archived (fun _ => 28800) "main".toList) rolledOnce :=
  archive_in_order (fun _ => 28800) "main".toList 0 rolledOnce (by decide +kernel)

end LogSystem

end EchoServer
