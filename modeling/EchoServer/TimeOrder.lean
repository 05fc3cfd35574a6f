import Mathlib.Tactic.Tauto
import EchoServer.Logger

/-!
# The order of log times

A record begins with 17 of the 19 characters of `"%4d/%02d/%02d %02d:%02d:%02d"`
and with 7 characters of `"%06d "`. The seconds are not among them, so records of
the same minute are ordered by their microseconds alone; and before 1970 these
are negative.

* `minuteText_lt`: earlier minutes have smaller texts;
* `microText_lt_iff`: how the last seven characters are ordered;
* `time_prefix_lt_iff`: which records of an earlier time have a smaller prefix.
-/

namespace EchoServer

open Decimal LogStream

/-! ## Fields of a text -/

section
variable {a b : List Char} {c : Char} {m n : Nat}

theorem field_length (h : a.length = b.length) (hm : m ≤ 99) (hn : n ≤ 99) :
    (a ++ (c :: zeroPadded 2 m)).length = (b ++ (c :: zeroPadded 2 n)).length := by
  simp only [List.length_append, List.length_cons, zeroPadded_two_length hm,
    zeroPadded_two_length hn, h]

theorem field_eq_iff (hm : m ≤ 99) (hn : n ≤ 99) :
    a ++ (c :: zeroPadded 2 m) = b ++ (c :: zeroPadded 2 n) ↔ a = b ∧ m = n := by
  constructor
  · exact field_inj hm hn
  · rintro ⟨rfl, rfl⟩
    rfl

theorem field_lt_iff (h : a.length = b.length) (hm : m ≤ 99) (hn : n ≤ 99) :
    a ++ (c :: zeroPadded 2 m) < b ++ (c :: zeroPadded 2 n) ↔ a < b ∨ a = b ∧ m < n := by
  rw [append_lt_append_iff h, cons_lt_cons,
    zeroPadded_lt_iff (by decide) (by omega) (by omega)]

end

/-! ## The minute -/

namespace Tm

/-- The year has four digits. -/
def FourDigits (tm : Tm) : Prop := 1000 ≤ tm.year + 1900 ∧ tm.year + 1900 ≤ 9999

instance (tm : Tm) : Decidable tm.FourDigits := by
  unfold FourDigits
  infer_instance

/-- `dateTime` up to the minutes. -/
def minuteText (tm : Tm) : List Char :=
  percent 4 (tm.year + 1900) ++ ('/' :: zeroPadded 2 (tm.mon + 1)) ++
    ('/' :: zeroPadded 2 tm.mday) ++ (' ' :: zeroPadded 2 tm.hour) ++
    (':' :: zeroPadded 2 tm.min)

theorem dateTime_eq (tm : Tm) : tm.dateTime = tm.minuteText ++ (':' :: zeroPadded 2 tm.sec) := rfl

theorem FourDigits.year_eq {tm : Tm} (h : tm.FourDigits) :
    percent 4 (tm.year + 1900) = zeroPadded 4 (tm.year + 1900).natAbs := by
  rcases h with ⟨hlow, hhigh⟩
  have hfour : (Nat.toDigits 10 (tm.year + 1900).natAbs).length = 4 := by
    have hle : (Nat.toDigits 10 (tm.year + 1900).natAbs).length ≤ 4 := by
      rw [Nat.length_toDigits_le_iff (by decide) (by decide)]
      omega
    have hgt : ¬ (Nat.toDigits 10 (tm.year + 1900).natAbs).length ≤ 3 := by
      rw [Nat.length_toDigits_le_iff (by decide) (by decide)]
      omega
    omega
  have hnone : ∀ c, (Nat.toDigits 10 (tm.year + 1900).natAbs).leftpad 4 c =
      Nat.toDigits 10 (tm.year + 1900).natAbs := by
    intro c
    rw [List.leftpad, hfour]
    rfl
  rw [percent, render_of_nonneg (by omega), hnone, zeroPadded, hnone]

theorem FourDigits.length_year {tm : Tm} (h : tm.FourDigits) :
    (percent 4 (tm.year + 1900)).length = 4 := by
  rw [h.year_eq]
  rcases h with ⟨hlow, hhigh⟩
  exact length_zeroPadded (by decide) (by omega)

theorem FourDigits.length_minuteText {tm : Tm} (h : tm.FourDigits) :
    tm.minuteText.length = 16 := by
  have hall := tm.length_dateTime
  have hsec := tm.sec_le
  rw [h.length_year, dateTime_eq, List.length_append, List.length_cons,
    zeroPadded_two_length (by omega)] at hall
  omega

/-- The texts are compared field by field. -/
theorem minuteText_lt_iff {tm tm' : Tm} (h : tm.FourDigits) (h' : tm'.FourDigits) :
    tm.minuteText < tm'.minuteText ↔ tm.year < tm'.year ∨ tm.year = tm'.year ∧
      (tm.mon < tm'.mon ∨ tm.mon = tm'.mon ∧ (tm.mday < tm'.mday ∨ tm.mday = tm'.mday ∧
        (tm.hour < tm'.hour ∨ tm.hour = tm'.hour ∧ tm.min < tm'.min))) := by
  have hmin := tm.min_le
  have hmin' := tm'.min_le
  have hhour := tm.hour_le
  have hhour' := tm'.hour_le
  have hday := tm.mday_le
  have hday' := tm'.mday_le
  have hmon := tm.mon_le
  have hmon' := tm'.mon_le
  have hyears : percent 4 (tm.year + 1900) < percent 4 (tm'.year + 1900) ↔
      tm.year < tm'.year := by
    rw [h.year_eq, h'.year_eq]
    rcases h with ⟨hlow, hhigh⟩
    rcases h' with ⟨hlow', hhigh'⟩
    rw [zeroPadded_lt_iff (by decide) (by omega) (by omega)]
    omega
  have hyear : percent 4 (tm.year + 1900) = percent 4 (tm'.year + 1900) ↔ tm.year = tm'.year := by
    constructor
    · intro heq
      have := percent_injective heq
      omega
    · intro heq
      rw [heq]
  have hlength : (percent 4 (tm.year + 1900)).length = (percent 4 (tm'.year + 1900)).length := by
    rw [h.length_year, h'.length_year]
  have hlength₁ := field_length (c := '/') hlength (by omega : tm.mon + 1 ≤ 99)
    (by omega : tm'.mon + 1 ≤ 99)
  have hlength₂ := field_length (c := '/') hlength₁ (by omega : tm.mday ≤ 99)
    (by omega : tm'.mday ≤ 99)
  have hlength₃ := field_length (c := ' ') hlength₂ (by omega : tm.hour ≤ 99)
    (by omega : tm'.hour ≤ 99)
  unfold minuteText
  rw [field_lt_iff hlength₃ (by omega) (by omega), field_lt_iff hlength₂ (by omega) (by omega),
    field_lt_iff hlength₁ (by omega) (by omega), field_lt_iff hlength (by omega) (by omega)]
  simp only [field_eq_iff (by omega : tm.hour ≤ 99) (by omega : tm'.hour ≤ 99),
    field_eq_iff (by omega : tm.mday ≤ 99) (by omega : tm'.mday ≤ 99),
    field_eq_iff (by omega : tm.mon + 1 ≤ 99) (by omega : tm'.mon + 1 ≤ 99), hyears, hyear]
  omega

end Tm

/-- The field `localtimeAt` reports for the year, where it has four digits. -/
theorem year_localtimeAt {offset secs : Int} (h : (localtimeAt offset secs).FourDigits) :
    (Calendar.fields (secs + offset)).date.year = (localtimeAt offset secs).year + 1900 := by
  rcases h with ⟨hlow, hhigh⟩
  have hyear : (localtimeAt offset secs).year = max (-2 ^ 31)
      (min ((Calendar.fields (secs + offset)).date.year - 1900) (2 ^ 31 - 1901)) := rfl
  omega

/-- An earlier minute of local time has the smaller text. -/
theorem minuteText_lt {offset s t : Int} (hs : (localtimeAt offset s).FourDigits)
    (ht : (localtimeAt offset t).FourDigits) (h : (s + offset) / 60 < (t + offset) / 60) :
    (localtimeAt offset s).minuteText < (localtimeAt offset t).minuteText := by
  have hyear := year_localtimeAt hs
  have hyear' := year_localtimeAt ht
  rw [Tm.minuteText_lt_iff hs ht]
  show _ ∨ _ ∧ ((Calendar.fields (s + offset)).date.month <
      (Calendar.fields (t + offset)).date.month ∨ (Calendar.fields (s + offset)).date.month =
      (Calendar.fields (t + offset)).date.month ∧ ((Calendar.fields (s + offset)).date.day <
      (Calendar.fields (t + offset)).date.day ∨ (Calendar.fields (s + offset)).date.day =
      (Calendar.fields (t + offset)).date.day ∧ ((Calendar.fields (s + offset)).hour <
      (Calendar.fields (t + offset)).hour ∨ (Calendar.fields (s + offset)).hour =
      (Calendar.fields (t + offset)).hour ∧ (Calendar.fields (s + offset)).min <
      (Calendar.fields (t + offset)).min)))
  rcases Calendar.minute_lt h with hday | ⟨hday, htime⟩
  · -- a later day has a later date
    have hdate : (Calendar.fields (s + offset)).date.year <
        (Calendar.fields (t + offset)).date.year ∨ (Calendar.fields (s + offset)).date.year =
        (Calendar.fields (t + offset)).date.year ∧ ((Calendar.fields (s + offset)).date.month <
        (Calendar.fields (t + offset)).date.month ∨ (Calendar.fields (s + offset)).date.month =
        (Calendar.fields (t + offset)).date.month ∧ (Calendar.fields (s + offset)).date.day <
        (Calendar.fields (t + offset)).date.day) := Calendar.date_lt hday
    omega
  · have hdate : (Calendar.fields (s + offset)).date = (Calendar.fields (t + offset)).date := by
      show Calendar.date _ = Calendar.date _
      rw [hday]
    rw [hdate] at hyear ⊢
    omega

/-- In one minute of local time the text does not change. -/
theorem minuteText_eq {offset s t : Int} (h : (s + offset) / 60 = (t + offset) / 60) :
    (localtimeAt offset s).minuteText = (localtimeAt offset t).minuteText := by
  rcases Calendar.minute_eq h with ⟨hdate, hhour, hmin⟩
  simp only [Tm.minuteText, localtimeAt, hdate, hhour, hmin]

/-! ## The microseconds -/

/-- The part of `microTime` that is copied. -/
def microText (v : Int) : List Char := (percent0 6 v ++ [' ']).take 7

/-- The five digits that follow a sign. -/
def fiveDigits (n : Nat) : Nat := if n < 100000 then n else n / 10

/-- The character after them: a blank, or the sixth digit. -/
def lastRank (n : Nat) : Nat := if n < 100000 then 0 else n % 10 + 1

/-- Where the microseconds stand in the order of the texts. Below 0 a longer
number comes after the shorter one it begins with. -/
def microKey (v : Int) : Int :=
  if 0 ≤ v then v else 11 * fiveDigits v.natAbs + lastRank v.natAbs - 1100000

theorem fiveDigits_lt {n : Nat} (h : n < 1000000) : fiveDigits n < 100000 := by
  unfold fiveDigits
  split
  · assumption
  · omega

theorem lastRank_le (n : Nat) : lastRank n ≤ 10 := by
  unfold lastRank
  split
  · exact Nat.zero_le _
  · omega

/-- The character of a rank. -/
def rankChar : Nat → Char
  | 0 => ' '
  | d + 1 => d.digitChar

theorem rankChar_lt_iff : ∀ m ≤ 10, ∀ n ≤ 10, (rankChar m < rankChar n ↔ m < n) := by
  decide

theorem microText_of_nonneg {v : Int} (h : 0 ≤ v) (hv : v.natAbs < 1000000) :
    microText v = zeroPadded 6 v.natAbs ++ [' '] := by
  have hlength : (zeroPadded 6 v.natAbs).length = 6 := length_zeroPadded (by decide) hv
  have hnot : ¬ v < 0 := by omega
  rw [microText, percent0, if_neg hnot, List.take_of_length_le]
  rw [List.length_append, hlength]
  decide

theorem microText_of_neg {v : Int} (h : v < 0) (hv : v.natAbs < 1000000) :
    microText v = '-' :: (zeroPadded 5 (fiveDigits v.natAbs) ++ [rankChar (lastRank v.natAbs)]) := by
  rw [microText, percent0, if_pos h, List.cons_append, List.take_succ_cons]
  congr 1
  by_cases hsmall : v.natAbs < 100000
  · have hlength : (zeroPadded 5 v.natAbs).length = 5 := length_zeroPadded (by decide) hsmall
    rw [fiveDigits, if_pos hsmall, lastRank, if_pos hsmall, List.take_of_length_le]
    · rfl
    · rw [List.length_append, hlength]
      decide
  · -- six digits, and the blank is not copied
    have hdiv : v.natAbs / 10 < 100000 := by omega
    have hlength : (zeroPadded 5 (v.natAbs / 10)).length = 5 :=
      length_zeroPadded (by decide) hdiv
    have hwide : zeroPadded 5 v.natAbs =
        zeroPadded 5 (v.natAbs / 10) ++ [(v.natAbs % 10).digitChar] := by
      have hsix : 5 < (Nat.toDigits 10 v.natAbs).length := by
        rw [← Nat.not_le, Nat.length_toDigits_le_iff (by decide) (by decide)]
        omega
      rw [← zeroPadded_succ 5 v.natAbs (by decide)]
      simp only [zeroPadded, List.leftpad]
      congr 2
      omega
    rw [fiveDigits, if_neg hsmall, lastRank, if_neg hsmall, hwide, List.append_assoc]
    rw [List.take_append, hlength, List.take_of_length_le (by rw [hlength]; decide)]
    rfl

theorem sign_lt_digit : ∀ n < 10, '-' < n.digitChar ∧ ¬ n.digitChar < '-' := by
  decide

/-- The first digit of a zero-padded number. -/
theorem zeroPadded_six_cons {n : Nat} (h : n < 1000000) :
    ∃ d < 10, ∃ rest, zeroPadded 6 n = d.digitChar :: rest := by
  refine ⟨n / 100000, by omega, ?_⟩
  rw [zeroPadded_succ 5 n (by decide), zeroPadded_succ 4 _ (by decide),
    zeroPadded_succ 3 _ (by decide), zeroPadded_succ 2 _ (by decide),
    zeroPadded_succ 1 _ (by decide), zeroPadded_one (by omega)]
  have hdiv : n / 10 / 10 / 10 / 10 / 10 = n / 100000 := by omega
  rw [hdiv]
  exact ⟨_, rfl⟩

/-- A sign comes before the digits. -/
theorem microText_sign {v u : Int} (hv : v.natAbs < 1000000) (hu : u.natAbs < 1000000)
    (hneg : v < 0) (hnonneg : 0 ≤ u) :
    microText v < microText u ∧ ¬ microText u < microText v := by
  rcases zeroPadded_six_cons hu with ⟨d, hd, rest, hrest⟩
  rcases sign_lt_digit d hd with ⟨hlt, hnot⟩
  rw [microText_of_neg hneg hv, microText_of_nonneg hnonneg hu, hrest, List.cons_append,
    List.cons_lt_cons_iff, List.cons_lt_cons_iff]
  constructor
  · exact Or.inl hlt
  · rintro (hlt' | ⟨heq, _⟩)
    · exact hnot hlt'
    · rw [heq] at hlt
      exact Char.lt_irrefl _ hlt

theorem microKey_of_neg {v : Int} (h : v < 0) (hv : v.natAbs < 1000000) : microKey v < 0 := by
  have hdigits := fiveDigits_lt hv
  have hrank := lastRank_le v.natAbs
  rw [microKey, if_neg (by omega)]
  omega

/-- The order of the last seven characters. -/
theorem microText_lt_iff {v u : Int} (hv : v.natAbs < 1000000) (hu : u.natAbs < 1000000) :
    microText v < microText u ↔ microKey v < microKey u := by
  by_cases hnonneg : 0 ≤ v
  · by_cases hnonneg' : 0 ≤ u
    · have hlength : (zeroPadded 6 v.natAbs).length = (zeroPadded 6 u.natAbs).length := by
        rw [length_zeroPadded (by decide) hv, length_zeroPadded (by decide) hu]
      rw [microText_of_nonneg hnonneg hv, microText_of_nonneg hnonneg' hu,
        append_lt_append_iff hlength, zeroPadded_lt_iff (by decide) hv hu, microKey,
        if_pos hnonneg, microKey, if_pos hnonneg', cons_lt_cons]
      simp only [List.not_lt_nil, and_false, or_false]
      omega
    · have hsign := (microText_sign hu hv (by omega) hnonneg).2
      have hkey := microKey_of_neg (by omega) hu
      rw [microKey, if_pos hnonneg]
      constructor
      · intro hlt
        exact absurd hlt hsign
      · intro hlt
        omega
  · by_cases hnonneg' : 0 ≤ u
    · have hsign := (microText_sign hv hu (by omega) hnonneg').1
      have hkey := microKey_of_neg (by omega) hv
      have hkey' : microKey u = u := if_pos hnonneg'
      constructor
      · intro _
        omega
      · intro _
        exact hsign
    · -- two signs, five digits and a character each
      have hdigits := fiveDigits_lt hv
      have hdigits' := fiveDigits_lt hu
      have hrank := lastRank_le v.natAbs
      have hrank' := lastRank_le u.natAbs
      have hlength : (zeroPadded 5 (fiveDigits v.natAbs)).length =
          (zeroPadded 5 (fiveDigits u.natAbs)).length := by
        rw [length_zeroPadded (by decide) hdigits, length_zeroPadded (by decide) hdigits']
      have heq : zeroPadded 5 (fiveDigits v.natAbs) = zeroPadded 5 (fiveDigits u.natAbs) ↔
          fiveDigits v.natAbs = fiveDigits u.natAbs := by
        constructor
        · exact zeroPadded_injective (by decide) hdigits hdigits'
        · intro h
          rw [h]
      rw [microText_of_neg (by omega) hv, microText_of_neg (by omega) hu, cons_lt_cons,
        append_lt_append_iff hlength, zeroPadded_lt_iff (by decide) hdigits hdigits', heq,
        List.cons_lt_cons_iff, rankChar_lt_iff _ hrank _ hrank', microKey, if_neg hnonneg,
        microKey, if_neg hnonneg']
      simp only [List.not_lt_nil, and_false, or_false]
      omega

/-! ## The prefix -/

/-- The characters that `formatTime` puts at the start of a record. -/
def timePrefix (localtime : Int → Tm) (now : Timestamp) : List Char :=
  chars (Logger.formatTime .new localtime now).content

/-- The minute of local time that a record shows. -/
def Timestamp.minute (offset : Int) (t : Timestamp) : Int := (t.secondsSinceEpoch + offset) / 60

theorem isAscii_zeroPadded (w n : Nat) : IsAscii (zeroPadded w n) :=
  (isAscii_toDigits n).leftpad (by decide) w

theorem isAscii_minuteText (tm : Tm) : IsAscii tm.minuteText := by
  have hfield : ∀ {c : Char} (n : Nat), c.toNat < 128 → IsAscii (c :: zeroPadded 2 n) :=
    fun n hc => (isAscii_zeroPadded 2 n).cons hc
  have hyear : IsAscii (percent 4 (tm.year + 1900)) := (isAscii_render _).leftpad (by decide) 4
  exact (((hyear.append (hfield _ (by decide))).append (hfield _ (by decide))).append
    (hfield _ (by decide))).append (hfield _ (by decide))

theorem isAscii_microText (v : Int) : IsAscii (microText v) := by
  have hblank : IsAscii [' '] := IsAscii.cons (by decide) (fun _ h => absurd h List.not_mem_nil)
  have hall : IsAscii (percent0 6 v ++ [' ']) := by
    refine IsAscii.append ?_ hblank
    unfold percent0
    split
    · exact (isAscii_zeroPadded _ _).cons (by decide)
    · exact isAscii_zeroPadded _ _
  intro c hc
  exact hall c (List.mem_of_mem_take hc)

/-- The minute, a colon, and no seconds behind it. -/
theorem timePrefix_eq {offset : Int} {t : Timestamp}
    (h : (localtimeAt offset t.secondsSinceEpoch).FourDigits) :
    timePrefix (localtimeAt offset) t =
      (localtimeAt offset t.secondsSinceEpoch).minuteText ++ ':' :: microText t.microseconds := by
  have hlength := h.length_minuteText
  have htimer : (Logger.timer (localtimeAt offset) t).take 17 =
      (localtimeAt offset t.secondsSinceEpoch).minuteText ++ [':'] := by
    rw [Logger.timer_eq, Tm.dateTime_eq, List.take_append, hlength,
      List.take_of_length_le (by rw [hlength]; decide)]
    rfl
  have hmicro : (Logger.microTime t).take 7 = microText t.microseconds := by
    rw [Logger.microTime_eq]
    rfl
  have hascii : IsAscii ((localtimeAt offset t.secondsSinceEpoch).minuteText ++
      ':' :: microText t.microseconds) :=
    (isAscii_minuteText _).append ((isAscii_microText _).cons (by decide))
  rw [timePrefix, Logger.content_formatTime, htimer, hmicro]
  have hjoin : ascii ((localtimeAt offset t.secondsSinceEpoch).minuteText ++ [':']) ++
      ascii (microText t.microseconds) = ascii ((localtimeAt offset t.secondsSinceEpoch).minuteText
        ++ ':' :: microText t.microseconds) := by
    simp [ascii]
  rw [hjoin, chars_ascii hascii]

theorem minute_le (offset : Int) {t u : Timestamp}
    (h : t.microSecondsSinceEpoch < u.microSecondsSinceEpoch) :
    t.minute offset ≤ u.minute offset := by
  unfold Timestamp.minute Timestamp.secondsSinceEpoch Timestamp.kMicroSecondsPerSecond
  rw [tdiv_eq, tdiv_eq]
  omega

/-- Of two records of years with four digits, the earlier one has the smaller
prefix if and only if it is of an earlier minute, or its microseconds come first;
the seconds do not count. -/
theorem time_prefix_lt_iff (offset : Int) (t u : Timestamp)
    (hlt : t.microSecondsSinceEpoch < u.microSecondsSinceEpoch)
    (ht : (localtimeAt offset t.secondsSinceEpoch).FourDigits)
    (hu : (localtimeAt offset u.secondsSinceEpoch).FourDigits) :
    timePrefix (localtimeAt offset) t < timePrefix (localtimeAt offset) u ↔
      t.minute offset < u.minute offset ∨ microKey t.microseconds < microKey u.microseconds := by
  have hlength : (localtimeAt offset t.secondsSinceEpoch).minuteText.length =
      (localtimeAt offset u.secondsSinceEpoch).minuteText.length := by
    rw [ht.length_minuteText, hu.length_minuteText]
  have hmicro := microText_lt_iff t.natAbs_microseconds_lt u.natAbs_microseconds_lt
  rw [timePrefix_eq ht, timePrefix_eq hu, append_lt_append_iff hlength, cons_lt_cons, hmicro]
  rcases Int.lt_or_eq_of_le (minute_le offset hlt) with hminute | hminute
  · have htext := minuteText_lt ht hu hminute
    constructor
    · intro _
      exact Or.inl hminute
    · intro _
      exact Or.inl htext
  · have htext := minuteText_eq hminute
    have hnot : ¬ (localtimeAt offset t.secondsSinceEpoch).minuteText <
        (localtimeAt offset u.secondsSinceEpoch).minuteText := by
      rw [htext]
      exact List.lt_irrefl _
    constructor
    · rintro (hless | ⟨_, hless⟩)
      · exact absurd hless hnot
      · exact Or.inr hless
    · rintro (hless | hless)
      · omega
      · exact Or.inr ⟨htext, hless⟩

/-- 12:44:00.5 and 12:44:01.2 of a day in March 2026, a zone eight hours ahead. -/
def halfPast : Timestamp := ⟨1772945040500000, by decide, by decide⟩

def laterSecond : Timestamp := ⟨1772945041200000, by decide, by decide⟩

theorem time_prefix_lt_iff_seconds :
    timePrefix (localtimeAt 28800) halfPast < timePrefix (localtimeAt 28800) laterSecond ↔
      halfPast.minute 28800 < laterSecond.minute 28800 ∨
        microKey halfPast.microseconds < microKey laterSecond.microseconds :=
  time_prefix_lt_iff 28800 halfPast laterSecond (by decide) (by decide +kernel) (by decide +kernel)

/-- The later record has the smaller prefix. -/
theorem later_second_comes_first :
    halfPast.microSecondsSinceEpoch < laterSecond.microSecondsSinceEpoch ∧
    (localtimeAt 28800 halfPast.secondsSinceEpoch).FourDigits ∧
    (localtimeAt 28800 laterSecond.secondsSinceEpoch).FourDigits ∧
    timePrefix (localtimeAt 28800) laterSecond < timePrefix (localtimeAt 28800) halfPast := by
  have hfirst : (localtimeAt 28800 halfPast.secondsSinceEpoch).FourDigits := by decide +kernel
  have hlater : (localtimeAt 28800 laterSecond.secondsSinceEpoch).FourDigits := by decide +kernel
  refine ⟨by decide, hfirst, hlater, ?_⟩
  have htext : (localtimeAt 28800 halfPast.secondsSinceEpoch).minuteText =
      (localtimeAt 28800 laterSecond.secondsSinceEpoch).minuteText := minuteText_eq (by decide)
  have hmicro := (microText_lt_iff laterSecond.natAbs_microseconds_lt
    halfPast.natAbs_microseconds_lt).mpr (by decide)
  have hlength : (localtimeAt 28800 laterSecond.secondsSinceEpoch).minuteText.length =
      (localtimeAt 28800 halfPast.secondsSinceEpoch).minuteText.length := by rw [htext]
  rw [timePrefix_eq hfirst, timePrefix_eq hlater, append_lt_append_iff hlength, cons_lt_cons]
  exact Or.inr ⟨htext.symm, hmicro⟩

end EchoServer
