import Mathlib.Data.List.Nodup
import EchoServer.LogFile
import EchoServer.Lib.Calendar
import EchoServer.Lib.Decimal

/-!
# The names of rolled files

`rollFile` rolls only when the UTC second is later than that of the last roll, and
names the new file by the local time of that second. Local time need not advance
with UTC: where the offset of the zone falls, one hour of names comes twice.
`fopen` in mode `"ae"` then opens the old file again, with `writtenBytes_` at 0.

* `getLogFileName_inj`: names are equal when the local seconds are;
* `names_distinct_iff`: the runs in which every roll starts a fresh file.
-/

namespace EchoServer

open Runs Decimal

/-- `".%Y%m%d-%H%M%S"`. -/
def strftime (tm : Calendar.Fields) : List Char :=
  ('.' :: render tm.date.year) ++ zeroPadded 2 (tm.date.month + 1) ++ zeroPadded 2 tm.date.day ++
    ('-' :: zeroPadded 2 tm.hour) ++ zeroPadded 2 tm.min ++ zeroPadded 2 tm.sec

/-- `getLogFileName`, for a zone that is `offset t` seconds ahead of UTC at second `t`. -/
def getLogFileName (offset : Int → Int) (basename : List Char) (now : Int) : List Char :=
  basename ++ strftime (Calendar.fields (now + offset now)) ++ ".log".toList

theorem append_zeroPadded_inj {a b : List Char} {m n : Nat} (hm : m ≤ 99) (hn : n ≤ 99)
    (h : a ++ zeroPadded 2 m = b ++ zeroPadded 2 n) : a = b ∧ m = n := by
  have hm' : m < 10 ^ 2 := by omega
  have hn' : n < 10 ^ 2 := by omega
  have hlength : (zeroPadded 2 m).length = (zeroPadded 2 n).length := by
    rw [length_zeroPadded (by decide) hm', length_zeroPadded (by decide) hn']
  rcases List.append_inj' h hlength with ⟨hfirst, hlast⟩
  exact ⟨hfirst, zeroPadded_injective (by decide) hm' hn' hlast⟩

theorem strftime_fields_injective {s t : Int}
    (h : strftime (Calendar.fields s) = strftime (Calendar.fields t)) : s = t := by
  have hmonth : (Calendar.fields s).date.month ≤ 11 := Calendar.month_le _
  have hmonth' : (Calendar.fields t).date.month ≤ 11 := Calendar.month_le _
  have hday : (Calendar.fields s).date.day ≤ 31 := Calendar.day_le _
  have hday' : (Calendar.fields t).date.day ≤ 31 := Calendar.day_le _
  have hhour := Calendar.hour_le s
  have hhour' := Calendar.hour_le t
  have hmin := Calendar.min_le s
  have hmin' := Calendar.min_le t
  have hsec := Calendar.sec_le s
  have hsec' := Calendar.sec_le t
  rcases append_zeroPadded_inj (by omega) (by omega) h with ⟨h, eqsec⟩
  rcases append_zeroPadded_inj (by omega) (by omega) h with ⟨h, eqmin⟩
  have hlength : ('-' :: zeroPadded 2 (Calendar.fields s).hour).length =
      ('-' :: zeroPadded 2 (Calendar.fields t).hour).length := by
    rw [List.length_cons, List.length_cons, length_zeroPadded (by decide) (by omega),
      length_zeroPadded (by decide) (by omega)]
  rcases List.append_inj' h hlength with ⟨h, eqdash⟩
  have eqhour := zeroPadded_injective (by decide) (by omega) (by omega) (List.cons.inj eqdash).2
  rcases append_zeroPadded_inj (by omega) (by omega) h with ⟨h, eqday⟩
  rcases append_zeroPadded_inj (by omega) (by omega) h with ⟨h, eqmonth⟩
  have eqyear := render_injective (List.cons.inj h).2
  have eqdate : (Calendar.fields s).date = (Calendar.fields t).date := by
    have eqmonth' : (Calendar.fields s).date.month = (Calendar.fields t).date.month := by omega
    rw [Calendar.Date.mk.injEq]
    exact ⟨eqyear, eqmonth', eqday⟩
  apply Calendar.fields_injective
  rw [Calendar.Fields.mk.injEq]
  exact ⟨eqdate, eqhour, eqmin, eqsec⟩

/-- Two names are equal when the readings of the local clock are. -/
theorem getLogFileName_inj (offset : Int → Int) (basename : List Char) (s t : Int) :
    getLogFileName offset basename s = getLogFileName offset basename t ↔
      s + offset s = t + offset t := by
  unfold getLogFileName
  constructor
  · intro h
    exact strftime_fields_injective (List.append_cancel_left (List.append_cancel_right h))
  · intro h
    rw [h]

namespace LogFile

/-- The seconds at which the files have been opened. -/
def openedSeconds (s : LogFile) : List Int := s.opened.map Stream.openedAt

/-- The second at which the call opens a file, if it does. -/
def opens (s : LogFile) : Label → List Int
  | .append data ws now rollNow fopen =>
    if (s.appended data ws).fault = none ∧ (s.appended data ws).Attempts now ∧
        s.lastRoll < rollNow ∧ fopen = true then [rollNow]
    else []
  | .flush => []

/-- All files have different names. -/
def NamesDistinct (offset : Int → Int) (basename : List Char) (s : LogFile) : Prop :=
  (s.openedSeconds.map (getLogFileName offset basename)).Nodup

/-- Where the call opens a file, local time is not what it was when one of the
files was opened. -/
def NewLocalTime (offset : Int → Int) (s : LogFile) (e : Label) : Prop :=
  ∀ second ∈ s.opens e, ∀ before ∈ s.openedSeconds,
    before + offset before ≠ second + offset second

/-- The log writes to a file, or it has none and has never had one, or it has
come to its end. -/
def Settled (s : LogFile) : Prop :=
  s.fault = none → (∃ stream n, s.WritesTo stream n) ∨ s.file = none ∧ s.openedSeconds = []

theorem WritesTo.openedSeconds {s : LogFile} {stream : Stream} {n : Nat}
    (h : s.WritesTo stream n) :
    s.openedSeconds = s.closed.map Stream.openedAt ++ [stream.openedAt] := by
  rw [LogFile.openedSeconds, h.opened, List.map_append]
  rfl

theorem WritesTo.settled {s : LogFile} {stream : Stream} {n : Nat} (h : s.WritesTo stream n) :
    s.Settled := by
  intro _
  exact Or.inl ⟨stream, n, h⟩

section
variable {s : LogFile} {stream : Stream} {n : Nat} {data : List Byte} {ws : List Fwrite}
  {now rollNow : Int}

theorem WritesTo.openedSeconds_rolled (h : s.WritesTo stream n)
    (hattempts : (s.appended data ws).Attempts now) (hlater : s.lastRoll < rollNow) :
    (s.step (.append data ws now rollNow true)).openedSeconds = s.openedSeconds ++ [rollNow] ∧
      (s.step (.append data ws now rollNow true)).Settled := by
  have hto := h.after_write data ws
  have hlast := h.lastRoll_appended data ws
  rcases hto.finish_rolled hattempts (hlast ▸ hlater) with ⟨count, lastFlush, _, hfinish⟩
  have hto' : ((s.appended data ws).finish now rollNow true).WritesTo ⟨rollNow, []⟩ 0 := by
    rw [hfinish]
    exact ⟨rfl, hto.fault⟩
  rw [h.step_append]
  refine ⟨?_, hto'.settled⟩
  rw [hto'.openedSeconds, h.openedSeconds, hfinish, h.appended_eq]
  simp

/-- The null stream is used before the old file could be closed. -/
theorem WritesTo.openedSeconds_failed (h : s.WritesTo stream n)
    (hattempts : (s.appended data ws).Attempts now) (hlater : s.lastRoll < rollNow) :
    (s.step (.append data ws now rollNow false)).openedSeconds = s.openedSeconds ∧
      (s.step (.append data ws now rollNow false)).Settled := by
  have hlast := h.lastRoll_appended data ws
  have hfault := finish_failed hattempts (hlast ▸ hlater)
  rcases checkRoll_rolls false hattempts (hlast ▸ hlater) with ⟨count, _, hroll⟩
  have hreset : ((s.appended data ws).checkRoll now rollNow false).fault = some .nullStream := by
    rw [hroll]
    rfl
  rw [h.step_append]
  constructor
  · rw [h.openedSeconds, finish, next_of_fault hreset, hroll, h.appended_eq]
    simp [LogFile.openedSeconds, LogFile.opened, current, resetFile]
  · intro hnone
    rw [hfault] at hnone
    cases hnone

theorem WritesTo.openedSeconds_kept (h : s.WritesTo stream n) (fopen : Bool)
    (hkept : (s.appended data ws).Attempts now → rollNow ≤ s.lastRoll) :
    (s.step (.append data ws now rollNow fopen)).openedSeconds = s.openedSeconds ∧
      (s.step (.append data ws now rollNow fopen)).Settled := by
  have hto := h.after_write data ws
  have hlast := h.lastRoll_appended data ws
  rcases hto.finish_kept fopen (hlast ▸ hkept) with ⟨lastFlush, hfinish⟩
  have hfile : ((s.appended data ws).finish now rollNow fopen).file = (s.appended data ws).file := by
    rw [hfinish]
  have hfault : ((s.appended data ws).finish now rollNow fopen).fault =
      (s.appended data ws).fault := by
    rw [hfinish]
  have hto' := hto.congr hfile hfault
  rw [h.step_append]
  refine ⟨?_, hto'.settled⟩
  rw [hto'.openedSeconds, h.openedSeconds, hfinish, h.appended_eq]

end

/-- The step lemma: what a call adds to the files. -/
theorem WritesTo.openedSeconds_step {s : LogFile} {stream : Stream} {n : Nat}
    (h : s.WritesTo stream n) (e : Label) :
    (s.step e).openedSeconds = s.openedSeconds ++ s.opens e ∧ (s.step e).Settled := by
  cases e with
  | append data ws now rollNow fopen =>
    rcases (s.appended data ws).rolls_or_kept now s.lastRoll rollNow with
      ⟨hattempts, hlater⟩ | hkept
    · cases fopen with
      | true =>
        have hopens : s.opens (.append data ws now rollNow true) = [rollNow] :=
          if_pos ⟨(h.after_write data ws).fault, hattempts, hlater, rfl⟩
        rw [hopens]
        exact h.openedSeconds_rolled hattempts hlater
      | false =>
        have hopens : s.opens (.append data ws now rollNow false) = [] :=
          if_neg fun hall => absurd hall.2.2.2 (by decide)
        rw [hopens, List.append_nil]
        exact h.openedSeconds_failed hattempts hlater
    · have hopens : s.opens (.append data ws now rollNow fopen) = [] :=
        if_neg fun hall => absurd hall.2.2.1 (Int.not_lt.mpr (hkept hall.2.1))
      rw [hopens, List.append_nil]
      exact h.openedSeconds_kept fopen hkept
  | flush =>
    rw [h.step_flush]
    exact ⟨(List.append_nil _).symm, h.settled⟩

/-- A fault is never cleared. -/
theorem appended_fault {s : LogFile} {e : Fault} (h : s.fault = some e) (data : List Byte)
    (ws : List Fwrite) : (s.appended data ws).fault ≠ none := by
  unfold appended write
  split
  · simp
  · simp [h]
  · split
    · simp [h]
    · simp

theorem opens_of_fault {s : LogFile} {e : Fault} (h : s.fault = some e) (l : Label) :
    s.opens l = [] := by
  cases l with
  | append data ws now rollNow fopen => exact if_neg fun hall => appended_fault h data ws hall.1
  | flush => rfl

theorem step_of_fault {s : LogFile} {e : Fault} (h : s.fault = some e) (l : Label) :
    s.step l = s := by
  cases l with
  | append data ws now rollNow fopen =>
    rw [step]
    exact next_of_fault h _
  | flush =>
    rw [step]
    exact next_of_fault h _

/-- Without a file the first call is the last. -/
theorem step_of_no_file {s : LogFile} (h : s.file = none) (hfault : s.fault = none) (l : Label) :
    (s.step l).openedSeconds = s.openedSeconds ∧ s.opens l = [] ∧ (s.step l).fault ≠ none := by
  cases l with
  | append data ws now rollNow fopen =>
    have hwrite : s.appended data ws = { s with
        fault := some .nullFile
        records := s.records ++ [data]
        count := (s.count + 1).bmod (2 ^ 32) } := by
      simp only [appended, write, h]
    have hnull : (s.appended data ws).fault = some .nullFile := by rw [hwrite]
    have hstep : s.step (.append data ws now rollNow fopen) = s.appended data ws := by
      rw [step, next_of_none hfault, append, next_of_fault hnull, next_of_fault hnull]
    rw [hstep]
    refine ⟨?_, ?_, ?_⟩
    · rw [hwrite]
      rfl
    · exact if_neg fun hall => absurd (hnull.symm.trans hall.1) (by simp)
    · rw [hnull]
      simp
  | flush =>
    have hstep : s.step .flush = { s with fault := some .nullFile } := by
      rw [step, next_of_none hfault]
      simp only [flush, h]
    rw [hstep]
    exact ⟨rfl, rfl, by simp⟩

theorem Settled.openedSeconds_step {s : LogFile} (h : s.Settled) (e : Label) :
    (s.step e).openedSeconds = s.openedSeconds ++ s.opens e ∧ (s.step e).Settled := by
  rcases hfault : s.fault with _ | fault
  · rcases h hfault with ⟨stream, n, hto⟩ | ⟨hfile, _⟩
    · exact hto.openedSeconds_step e
    · rcases step_of_no_file hfile hfault e with ⟨hsame, hnone, hended⟩
      rw [hsame, hnone, List.append_nil]
      exact ⟨rfl, fun h => absurd h hended⟩
  · rw [step_of_fault hfault, opens_of_fault hfault, List.append_nil]
    exact ⟨rfl, h⟩

theorem new_settled (rollsize : Nat) (flushInterval checkEveryN now : Int) (fopen : Bool) :
    (new rollsize flushInterval checkEveryN now fopen).Settled := by
  intro hfault
  by_cases hnow : 0 < now
  · cases fopen with
    | true =>
      rw [new_eq rollsize flushInterval checkEveryN hnow]
      exact Or.inl ⟨_, _, rfl, rfl⟩
    | false =>
      rw [new, rollFile, if_pos hnow] at hfault
      simp [resetFile] at hfault
  · right
    rw [new, rollFile, if_neg hnow]
    exact ⟨rfl, rfl⟩

theorem new_namesDistinct (offset : Int → Int) (basename : List Char) (rollsize : Nat)
    (flushInterval checkEveryN now : Int) (fopen : Bool) :
    (new rollsize flushInterval checkEveryN now fopen).NamesDistinct offset basename := by
  have hshort : (new rollsize flushInterval checkEveryN now fopen).openedSeconds.length ≤ 1 := by
    unfold new rollFile resetFile
    split
    · split
      · simp [openedSeconds, opened, current]
      · simp [openedSeconds, opened, current]
    · simp [openedSeconds, opened, current]
  unfold NamesDistinct
  generalize (new rollsize flushInterval checkEveryN now fopen).openedSeconds = seconds at hshort
  cases seconds with
  | nil => exact List.nodup_nil
  | cons second rest =>
    have hnil : rest = [] := by simpa using hshort
    rw [hnil]
    exact List.nodup_singleton _

/-- One call keeps the names different if it opens no file or one at a new local time. -/
theorem namesDistinct_step_iff {offset : Int → Int} {basename : List Char} {s : LogFile}
    (h : s.Settled) (hdistinct : s.NamesDistinct offset basename) (e : Label) :
    (s.step e).NamesDistinct offset basename ↔ s.NewLocalTime offset e := by
  unfold NamesDistinct NewLocalTime at *
  rw [(h.openedSeconds_step e).1, List.map_append, List.nodup_append]
  have hopens : s.opens e = [] ∨ ∃ second, s.opens e = [second] := by
    cases e with
    | append data ws now rollNow fopen =>
      rw [opens]
      split
      · exact Or.inr ⟨rollNow, rfl⟩
      · exact Or.inl rfl
    | flush => exact Or.inl rfl
  rcases hopens with hnone | ⟨second, hone⟩
  · rw [hnone]
    constructor
    · intro _ second hmem
      exact absurd hmem List.not_mem_nil
    · intro _
      refine ⟨hdistinct, List.nodup_nil, ?_⟩
      intro a _ b hb
      exact absurd hb List.not_mem_nil
  · rw [hone]
    constructor
    · rintro ⟨_, _, hapart⟩ second' hmem before hbefore heq
      obtain rfl := List.mem_singleton.mp hmem
      refine hapart (getLogFileName offset basename before)
        (List.mem_map.mpr ⟨before, hbefore, rfl⟩) _ (List.mem_singleton.mpr rfl) ?_
      exact (getLogFileName_inj offset basename before second').mpr heq
    · intro hnew
      refine ⟨hdistinct, List.nodup_singleton _, ?_⟩
      intro a ha b hb heq
      rcases List.mem_map.mp ha with ⟨before, hbefore, rfl⟩
      rw [List.mem_singleton.mp hb] at heq
      exact hnew second (List.mem_singleton.mpr rfl) before hbefore
        ((getLogFileName_inj offset basename before second).mp heq)

/-- For every zone and every run: no two files have one name if and only if every
roll that goes through is made at a second whose local time is not that of an
earlier one, so if the offset of the zone has not fallen, since any of the
earlier rolls, by just the time that has passed. -/
theorem names_distinct_iff (offset : Int → Int) (basename : List Char) (rollsize : Nat)
    (flushInterval checkEveryN now : Int) (fopen : Bool) (es : List Label) :
    Always step (new rollsize flushInterval checkEveryN now fopen)
        (NamesDistinct offset basename) es ↔
      EachStep step (new rollsize flushInterval checkEveryN now fopen) (NewLocalTime offset) es := by
  apply always_iff_eachStep Settled
  · exact new_settled rollsize flushInterval checkEveryN now fopen
  · intro s e h _
    exact (h.openedSeconds_step e).2
  · exact new_namesDistinct offset basename rollsize flushInterval checkEveryN now fopen
  · intro s e h hdistinct
    exact namesDistinct_step_iff h hdistinct e

/-- The offset of a zone that goes from summer time, two hours ahead, to one hour
ahead on 27 October 2024 at 01:00 UTC. -/
def summerTimeEnds (t : Int) : Int := if t < 1729990800 then 7200 else 3600

/-- Two rolls at half past two, before and after the change. -/
def twiceHalfPastTwo : List Label :=
  [.append [1] [] 1729989000 1729989000 true, .append [2] [] 1729992600 1729992600 true]

theorem rolls_reopen_a_file :
    ¬ Always step (new 0 3 1024 1729980000 true)
      (NamesDistinct summerTimeEnds "logs/main".toList) twiceHalfPastTwo ∧
    (run step (new 0 3 1024 1729980000 true) twiceHalfPastTwo).openedSeconds =
      [1729980000, 1729989000, 1729992600] := by
  have hseconds : (run step (new 0 3 1024 1729980000 true) twiceHalfPastTwo).openedSeconds =
      [1729980000, 1729989000, 1729992600] := by decide
  refine ⟨?_, hseconds⟩
  intro h
  have hnodup : (List.map _ _).Nodup := h.last
  rw [hseconds] at hnodup
  have hsame : getLogFileName summerTimeEnds "logs/main".toList 1729989000 =
      getLogFileName summerTimeEnds "logs/main".toList 1729992600 :=
    (getLogFileName_inj _ _ _ _).mpr (by decide)
  have hlast := (List.nodup_cons.mp (List.nodup_cons.mp hnodup).2).1
  rw [hsame] at hlast
  exact hlast (List.mem_cons_self ..)

end LogFile

end EchoServer
