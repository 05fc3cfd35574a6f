import Mathlib.Algebra.Group.Int.Defs
import Mathlib.Algebra.Group.Nat.Defs
import EchoServer.Lib.Calendar
import EchoServer.Lib.Decimal

/-!
# Timestamp

Microseconds since the epoch, and the texts made of them. `localtime` takes
seconds. `toFormattedString` divides before it calls it, `toString` does not.

* `dateTime_injective`: the text of a `tm` determines its fields;
* `renderings_agree_iff`: the two functions agree where `localtime` does not tell
  a number of microseconds from as many seconds.
-/

namespace EchoServer

open Decimal

/-- `struct tm`, with the ranges of its fields. -/
@[ext]
structure Tm where
  /-- `tm_year`, from 1900. -/
  year : Int
  /-- `tm_mon`, from 0. -/
  mon : Nat
  mday : Nat
  hour : Nat
  min : Nat
  sec : Nat
  le_year : -2 ^ 31 ≤ year
  year_lt : year + 1900 < 2 ^ 31
  mon_le : mon ≤ 11
  mday_pos : 1 ≤ mday
  mday_le : mday ≤ 31
  hour_le : hour ≤ 23
  min_le : min ≤ 59
  /-- 60 for a leap second. -/
  sec_le : sec ≤ 60

/-- `snprintf` into a buffer of `size` characters, from what it prints. -/
def snprintf (size : Nat) (text : List Char) : List Char := text.take (size - 1)

/-- `"%4d/%02d/%02d %02d:%02d:%02d"`. -/
def Tm.dateTime (tm : Tm) : List Char :=
  percent 4 (tm.year + 1900) ++ ('/' :: zeroPadded 2 (tm.mon + 1)) ++
    ('/' :: zeroPadded 2 tm.mday) ++ (' ' :: zeroPadded 2 tm.hour) ++
    (':' :: zeroPadded 2 tm.min) ++ (':' :: zeroPadded 2 tm.sec)

/-- `localtime` where local time is `offset` seconds ahead of UTC. A year that
`tm_year` cannot hold is replaced by the nearest that it can. -/
def localtimeAt (offset secs : Int) : Tm where
  year := max (-2 ^ 31) (min ((Calendar.fields (secs + offset)).date.year - 1900) (2 ^ 31 - 1901))
  mon := (Calendar.fields (secs + offset)).date.month
  mday := (Calendar.fields (secs + offset)).date.day
  hour := (Calendar.fields (secs + offset)).hour
  min := (Calendar.fields (secs + offset)).min
  sec := (Calendar.fields (secs + offset)).sec
  le_year := by omega
  year_lt := by omega
  mon_le := Calendar.month_le _
  mday_pos := Calendar.day_pos _
  mday_le := Calendar.day_le _
  hour_le := Calendar.hour_le _
  min_le := Calendar.min_le _
  sec_le := Nat.le_succ_of_le (Calendar.sec_le _)

/-- `int64_t`. -/
structure Timestamp where
  microSecondsSinceEpoch : Int
  le_micro : -2 ^ 63 ≤ microSecondsSinceEpoch
  micro_lt : microSecondsSinceEpoch < 2 ^ 63

namespace Timestamp

def kMicroSecondsPerSecond : Int := 1000 * 1000

/-- The remainder, an `int`. -/
def microseconds (t : Timestamp) : Int := t.microSecondsSinceEpoch.tmod kMicroSecondsPerSecond

def secondsSinceEpoch (t : Timestamp) : Int :=
  t.microSecondsSinceEpoch.tdiv kMicroSecondsPerSecond

section
variable (localtime : Int → Tm)

def toString (t : Timestamp) : List Char :=
  -- the microseconds go to `localtime` as they are
  snprintf 128 (localtime t.microSecondsSinceEpoch).dateTime

def toFormattedString (t : Timestamp) (showMicroseconds : Bool) : List Char :=
  if showMicroseconds then
    snprintf 64 ((localtime t.secondsSinceEpoch).dateTime ++ '.' :: percent0 6 t.microseconds)
  else snprintf 64 (localtime t.secondsSinceEpoch).dateTime

end

end Timestamp

/-! ## The text of a `tm` -/

theorem zeroPadded_two_length {n : Nat} (h : n ≤ 99) : (zeroPadded 2 n).length = 2 :=
  length_zeroPadded (by decide) (by omega)

theorem zeroPadded_two_inj {m n : Nat} (hm : m ≤ 99) (hn : n ≤ 99)
    (h : zeroPadded 2 m = zeroPadded 2 n) : m = n :=
  zeroPadded_injective (by decide) (by omega) (by omega) h

/-- A two-digit field at the end of a text, and the text before it. -/
theorem field_inj {a b : List Char} {c : Char} {m n : Nat} (hm : m ≤ 99) (hn : n ≤ 99)
    (h : a ++ (c :: zeroPadded 2 m) = b ++ (c :: zeroPadded 2 n)) : a = b ∧ m = n := by
  have hlength : (c :: zeroPadded 2 m).length = (c :: zeroPadded 2 n).length := by
    rw [List.length_cons, List.length_cons, zeroPadded_two_length hm, zeroPadded_two_length hn]
  rcases List.append_inj' h hlength with ⟨hfirst, hlast⟩
  exact ⟨hfirst, zeroPadded_two_inj hm hn (List.cons.inj hlast).2⟩

namespace Tm

theorem dateTime_injective {tm tm' : Tm} (h : tm.dateTime = tm'.dateTime) : tm = tm' := by
  have hsec := tm.sec_le
  have hsec' := tm'.sec_le
  have hmin := tm.min_le
  have hmin' := tm'.min_le
  have hhour := tm.hour_le
  have hhour' := tm'.hour_le
  have hday := tm.mday_le
  have hday' := tm'.mday_le
  have hmon := tm.mon_le
  have hmon' := tm'.mon_le
  rcases field_inj (by omega) (by omega) h with ⟨h, eqsec⟩
  rcases field_inj (by omega) (by omega) h with ⟨h, eqmin⟩
  rcases field_inj (by omega) (by omega) h with ⟨h, eqhour⟩
  rcases field_inj (by omega) (by omega) h with ⟨h, eqday⟩
  rcases field_inj (by omega) (by omega) h with ⟨h, eqmon⟩
  have eqyear := percent_injective h
  ext
  · omega
  · omega
  · exact eqday
  · exact eqhour
  · exact eqmin
  · exact eqsec

theorem length_dateTime (tm : Tm) :
    tm.dateTime.length = (percent 4 (tm.year + 1900)).length + 15 := by
  have hsec := tm.sec_le
  have hmin := tm.min_le
  have hhour := tm.hour_le
  have hday := tm.mday_le
  have hmon := tm.mon_le
  simp only [dateTime, List.length_append, List.length_cons]
  rw [zeroPadded_two_length (by omega), zeroPadded_two_length (by omega),
    zeroPadded_two_length (by omega), zeroPadded_two_length (by omega),
    zeroPadded_two_length (by omega)]

/-- The year takes from four to eleven characters. -/
theorem length_year (tm : Tm) : 4 ≤ (percent 4 (tm.year + 1900)).length ∧
    (percent 4 (tm.year + 1900)).length ≤ 11 := by
  have hlow := tm.le_year
  have hhigh := tm.year_lt
  have hdigits : (Nat.toDigits 10 (tm.year + 1900).natAbs).length ≤ 10 := by
    rw [Nat.length_toDigits_le_iff (by decide) (by decide)]
    omega
  have hrender : (render (tm.year + 1900)).length ≤ 11 := by
    by_cases hneg : tm.year + 1900 < 0
    · rw [render_of_neg hneg, List.length_cons]
      omega
    · rw [render_of_nonneg (by omega)]
      omega
  rw [length_percent]
  omega

theorem snprintf_dateTime {size : Nat} (h : 27 ≤ size) (tm : Tm) :
    snprintf size tm.dateTime = tm.dateTime := by
  have hyear := tm.length_year
  have hlength := tm.length_dateTime
  exact List.take_of_length_le (by omega)

end Tm

theorem length_percent0_six {v : Int} (h : v.natAbs < 1000000) : (percent0 6 v).length ≤ 7 := by
  unfold percent0
  split
  · have hdigits : (Nat.toDigits 10 v.natAbs).length ≤ 6 :=
      (Nat.length_toDigits_le_iff (by decide) (by decide)).mpr h
    simp only [List.length_cons, zeroPadded, List.length_leftpad]
    omega
  · rw [length_zeroPadded (by decide) h]
    omega

namespace Timestamp

theorem natAbs_microseconds_lt (t : Timestamp) : t.microseconds.natAbs < 1000000 := by
  unfold microseconds kMicroSecondsPerSecond
  rw [tmod_eq]
  omega

/-! ## The two functions -/

/-- All three texts name the second the timestamp falls into. -/
structure Agree (localtime : Int → Tm) (t : Timestamp) : Prop where
  same : t.toString localtime = t.toFormattedString localtime false
  micro : t.toFormattedString localtime true =
    t.toString localtime ++ '.' :: percent0 6 (t.microSecondsSinceEpoch % 1000000)
  named : t.toString localtime = (localtime (t.microSecondsSinceEpoch / 1000000)).dateTime

/-- `toString` shows the second whose number is the microseconds. -/
theorem toString_eq (localtime : Int → Tm) (t : Timestamp) :
    t.toString localtime = (localtime t.microSecondsSinceEpoch).dateTime :=
  Tm.snprintf_dateTime (by decide) _

theorem Agree.seconds {localtime : Int → Tm} {t : Timestamp} (h : t.Agree localtime) :
    localtime t.microSecondsSinceEpoch = localtime (t.microSecondsSinceEpoch / 1000000) := by
  have hnamed := h.named
  rw [toString_eq] at hnamed
  exact Tm.dateTime_injective hnamed

/-- The renderings agree on exactly the times at which `localtime` cannot tell
the number of microseconds from the number of seconds. -/
theorem renderings_agree_iff (localtime : Int → Tm) (t : Timestamp)
    (h : 0 ≤ t.microSecondsSinceEpoch) :
    t.Agree localtime ↔ localtime t.microSecondsSinceEpoch =
      localtime (t.microSecondsSinceEpoch / 1000000) := by
  constructor
  · exact Agree.seconds
  · intro heq
    have hseconds : t.secondsSinceEpoch = t.microSecondsSinceEpoch / 1000000 := by
      unfold secondsSinceEpoch kMicroSecondsPerSecond
      rw [tdiv_eq, if_pos h]
      rfl
    have hmicro : t.microseconds = t.microSecondsSinceEpoch % 1000000 := by
      unfold microseconds kMicroSecondsPerSecond
      rw [tmod_eq, if_pos h]
      rfl
    have hstring := t.toString_eq localtime
    have hformatted : t.toFormattedString localtime false =
        (localtime (t.microSecondsSinceEpoch / 1000000)).dateTime := by
      rw [← hseconds]
      exact Tm.snprintf_dateTime (by decide) _
    have hformattedMicro : t.toFormattedString localtime true =
        (localtime (t.microSecondsSinceEpoch / 1000000)).dateTime ++
          '.' :: percent0 6 (t.microSecondsSinceEpoch % 1000000) := by
      rw [← hseconds, ← hmicro]
      have hyear := (localtime t.secondsSinceEpoch).length_year
      have hlength := (localtime t.secondsSinceEpoch).length_dateTime
      have hsix := length_percent0_six t.natAbs_microseconds_lt
      apply List.take_of_length_le
      simp only [List.length_append, List.length_cons]
      omega
    constructor
    · rw [hstring, hformatted, heq]
    · rw [hformattedMicro, hstring, heq]
    · rw [hstring, heq]

/-- One second after the epoch. -/
def oneSecond : Timestamp := ⟨1000000, by decide, by decide⟩

theorem renderings_agree_iff_oneSecond :
    oneSecond.Agree (localtimeAt 0) ↔ localtimeAt 0 1000000 = localtimeAt 0 (1000000 / 1000000) :=
  renderings_agree_iff (localtimeAt 0) oneSecond (by decide)

/-- `toString` shows the twelfth of January. -/
theorem oneSecond_disagrees : ¬ oneSecond.Agree (localtimeAt 0) ∧
    oneSecond.toString (localtimeAt 0) = (localtimeAt 0 1000000).dateTime ∧
    (localtimeAt 0 1000000).mday = 12 ∧ (localtimeAt 0 1).mday = 1 := by
  refine ⟨?_, toString_eq _ _, by decide +kernel, by decide +kernel⟩
  intro h
  have hday := congrArg Tm.mday h.seconds
  exact absurd hday (by decide +kernel)

end Timestamp

end EchoServer
