import EchoServer.LogFile

/-!
# The daily roll

How long the change of the day can go unnoticed. `count_` is tested only where
the size is not exceeded, and it is not reset where the size makes the file
roll, so nothing bounds it from above; a late append that exceeds the size rolls
at once, for a later day is also a later second.

* `Timely.step_kept`, `Timely.step_rolls`: a late append either brings `count_`
  closer to `checkEveryN_` or opens a new file;
* `daily_roll_not_postponed`: at most `checkEveryN_` late appends for a file.
-/

namespace EchoServer

namespace LogFile

open Runs

def Label.isAppend : Label → Bool
  | .append .. => true
  | .flush => false

/-- The clock readings of a call; a reading that `rollFile` does not take can
be thought of as the one before it. -/
def Label.readings : Label → List Int
  | .append _ _ now rollNow _ => [now, rollNow]
  | .flush => []

/-- An append on a later day than the day of the current file. -/
def Late (s : LogFile) : Label → Prop
  | .append _ _ now _ _ => s.startOfPeriod < startOfDay now
  | .flush => False

instance (s : LogFile) : (e : Label) → Decidable (s.Late e)
  | .append _ _ now _ _ => inferInstanceAs (Decidable (s.startOfPeriod < startOfDay now))
  | .flush => inferInstanceAs (Decidable False)

/-- The late appends of a run that go into the file opened `i`-th. -/
def lateAppends (s : LogFile) (es : List Label) (i : Nat) : Nat :=
  countSteps step (fun s e => decide (s.Late e ∧ s.closed.length = i)) s es

theorem startOfDay_mono {a b : Int} (h : a ≤ b) : startOfDay a ≤ startOfDay b :=
  Int.mul_le_mul_of_nonneg_right (Int.tdiv_le_tdiv (by decide) h) (by decide)

/-- What the run `es` from `s` meets, where the clock has shown `now`. -/
structure Timely (s : LogFile) (now : Int) (es : List Label) : Prop where
  writesTo : ∃ stream n, s.WritesTo stream n
  good : ∀ e ∈ es, e.TakesAll ∧ e.FopenSucceeds
  clock : (now :: es.flatMap Label.readings).Pairwise (· ≤ ·)
  period : s.startOfPeriod = startOfDay s.lastRoll
  rolledBefore : s.lastRoll ≤ now
  positive : 1 ≤ s.checkEveryN
  nonneg : 0 ≤ s.count
  room : s.count + es.countP Label.isAppend < 2 ^ 31

/-- What the `i`-th file may still get on later days, where the clock has shown
`now`. -/
def allowance (s : LogFile) (now : Int) (i : Nat) : Nat :=
  if i < s.closed.length then 0
  else if s.closed.length < i then s.checkEveryN.toNat
  else if s.startOfPeriod < startOfDay now then max 1 (s.checkEveryN - s.count).toNat
  else s.checkEveryN.toNat

theorem keptCount_eq (s : LogFile) :
    s.keptCount = s.count ∨ s.keptCount = 0 ∧ s.checkEveryN ≤ s.count := by
  unfold keptCount
  split
  · exact Or.inl rfl
  · split
    · next hcount => exact Or.inr ⟨rfl, hcount⟩
    · exact Or.inl rfl

namespace Timely

variable {s : LogFile} {last now rollNow : Int} {data : List Byte} {ws : List Fwrite}
  {es : List Label}

theorem count_appended (h : s.Timely last (.append data ws now rollNow true :: es)) :
    (s.count + 1).bmod (2 ^ 32) = s.count + 1 := by
  have hnonneg := h.nonneg
  have hroom := h.room
  rw [List.countP_cons_of_pos rfl] at hroom
  apply Int.bmod_eq_of_le <;> omega

theorem readings_le (h : s.Timely last (.append data ws now rollNow true :: es)) :
    last ≤ now ∧ now ≤ rollNow ∧ (rollNow :: es.flatMap Label.readings).Pairwise (· ≤ ·) := by
  have hclock := h.clock
  simp only [List.flatMap_cons, Label.readings, List.cons_append, List.nil_append,
    List.pairwise_cons, List.mem_cons, forall_eq_or_imp] at hclock ⊢
  exact ⟨hclock.1.1, hclock.2.1.1, hclock.2.2⟩

theorem takesAll (h : s.Timely last (.append data ws now rollNow true :: es)) :
    ∀ w ∈ ws, data.length ≤ w.taken :=
  (h.good _ (List.mem_cons_self ..)).1

/-- An append that opens no file. A late one has not attempted to. -/
theorem step_kept (h : s.Timely last (.append data ws now rollNow true :: es))
    (hkept : (s.appended data ws).Attempts now → rollNow ≤ s.lastRoll) :
    (s.step (.append data ws now rollNow true)).Timely rollNow es ∧
      (s.step (.append data ws now rollNow true)).closed = s.closed ∧
      (s.step (.append data ws now rollNow true)).startOfPeriod = s.startOfPeriod ∧
      (s.step (.append data ws now rollNow true)).checkEveryN = s.checkEveryN ∧
      (s.startOfPeriod < startOfDay now →
        (s.step (.append data ws now rollNow true)).count = s.count + 1 ∧
          s.count + 1 < s.checkEveryN) := by
  rcases h.writesTo with ⟨stream, n, hto⟩
  have hto' := hto.writesTo_appended h.takesAll
  have heq := hto.appended h.takesAll
  rw [h.count_appended] at heq
  have hlast := hto.lastRoll_appended data ws
  rcases hto'.finish_kept true (hlast ▸ hkept) with ⟨lastFlush, hfinish⟩
  rw [hto.step_append, hfinish]
  rcases h.readings_le with ⟨hnow, hroll, hclock⟩
  have hcount : (s.appended data ws).count = s.count + 1 := by rw [heq]
  have hevery : (s.appended data ws).checkEveryN = s.checkEveryN := by rw [heq]
  have hperiod : (s.appended data ws).startOfPeriod = s.startOfPeriod := by rw [heq]
  have hnonneg := h.nonneg
  have hroom := h.room
  rw [List.countP_cons_of_pos rfl] at hroom
  have hkeptCount := (s.appended data ws).keptCount_eq
  rw [hcount, hevery] at hkeptCount
  have hbefore := h.rolledBefore
  refine ⟨?_, by rw [heq], hperiod, hevery, ?_⟩
  · exact {
      writesTo := ⟨_, _, hto'.file, hto'.fault⟩
      good := fun e he => h.good e (List.mem_cons_of_mem _ he)
      clock := hclock
      period := by rw [heq]; exact h.period
      rolledBefore := by rw [heq]; show s.lastRoll ≤ rollNow; omega
      positive := by rw [heq]; exact h.positive
      nonneg := by show 0 ≤ (s.appended data ws).keptCount; omega
      room := by show (s.appended data ws).keptCount + _ < _; omega }
  · intro hlate
    -- an attempt would have opened a file: a later day is a later second
    have hnone : ¬ (s.appended data ws).Attempts now := by
      intro hattempts
      have hday : startOfDay now ≤ startOfDay s.lastRoll :=
        startOfDay_mono (Int.le_trans hroll (hkept hattempts))
      rw [← h.period] at hday
      omega
    have hfew : s.count + 1 < s.checkEveryN := by
      by_contra hmany
      refine hnone (Or.inr ⟨?_, ?_⟩)
      · rw [hcount, hevery]
        omega
      · rw [hperiod]
        omega
    refine ⟨?_, hfew⟩
    show (s.appended data ws).keptCount = s.count + 1
    omega

theorem step_rolls (h : s.Timely last (.append data ws now rollNow true :: es))
    (hattempts : (s.appended data ws).Attempts now) (hlater : s.lastRoll < rollNow) :
    (s.step (.append data ws now rollNow true)).Timely rollNow es ∧
      (s.step (.append data ws now rollNow true)).closed.length = s.closed.length + 1 ∧
      (s.step (.append data ws now rollNow true)).startOfPeriod = startOfDay rollNow ∧
      (s.step (.append data ws now rollNow true)).checkEveryN = s.checkEveryN := by
  rcases h.writesTo with ⟨stream, n, hto⟩
  have hto' := hto.writesTo_appended h.takesAll
  have heq := hto.appended h.takesAll
  rw [h.count_appended] at heq
  have hlast := hto.lastRoll_appended data ws
  rcases hto'.finish_rolled hattempts (hlast ▸ hlater) with ⟨count, lastFlush, hcount, hfinish⟩
  rw [hto.step_append, hfinish]
  rcases h.readings_le with ⟨_, _, hclock⟩
  have hcount' : (s.appended data ws).count = s.count + 1 := by rw [heq]
  rw [hcount'] at hcount
  have hnonneg := h.nonneg
  have hroom := h.room
  rw [List.countP_cons_of_pos rfl] at hroom
  refine ⟨?_, by simp [heq], rfl, by rw [heq]⟩
  exact {
    writesTo := ⟨_, _, rfl, hto'.fault⟩
    good := fun e he => h.good e (List.mem_cons_of_mem _ he)
    clock := hclock
    period := rfl
    rolledBefore := Int.le_refl _
    positive := by rw [heq]; exact h.positive
    nonneg := by show 0 ≤ count; omega
    room := by show count + _ < _; omega }

theorem period_le (h : s.Timely last es) : s.startOfPeriod ≤ startOfDay last := by
  rw [h.period]
  exact startOfDay_mono h.rolledBefore

/-- A late append draws on the allowance of its file. -/
theorem step (h : s.Timely last (.append data ws now rollNow true :: es)) (i : Nat) :
    (s.step (.append data ws now rollNow true)).Timely rollNow es ∧
      (decide (s.Late (.append data ws now rollNow true) ∧ s.closed.length = i)).toNat +
          (s.step (.append data ws now rollNow true)).allowance rollNow i ≤
        s.allowance last i := by
  have hpositive := h.positive
  have hnonneg := h.nonneg
  have hperiod := h.period_le
  have hday := startOfDay_mono h.readings_le.1
  have hday' := startOfDay_mono h.readings_le.2.1
  rcases (s.appended data ws).rolls_or_kept now s.lastRoll rollNow with
    ⟨hattempts, hlater⟩ | hkept
  · rcases h.step_rolls hattempts hlater with ⟨htimely, hclosed, hperiod', hevery⟩
    refine ⟨htimely, ?_⟩
    rw [toNat_mark]
    simp only [Late, allowance, hclosed, hperiod', hevery]
    rcases Nat.lt_trichotomy i s.closed.length with hclosed | hcurrent | hunopened
    · grind
    · -- the last append into this file
      grind
    · grind
  · rcases h.step_kept hkept with ⟨htimely, hclosed, hperiod', hevery, hcount⟩
    refine ⟨htimely, ?_⟩
    have hnonneg' := htimely.nonneg
    rw [toNat_mark]
    simp only [Late, allowance, hclosed, hperiod', hevery]
    rcases Nat.lt_trichotomy i s.closed.length with hclosed | hcurrent | hunopened
    · grind
    · -- `count_` has gone up, or the day is still that of the file
      by_cases hlate : s.startOfPeriod < startOfDay now
      · rcases hcount hlate with ⟨hcount, hfew⟩
        rw [hcount]
        grind
      · grind
    · grind

theorem lateAppends_le (h : s.Timely last es) (i : Nat) :
    s.lateAppends es i ≤ s.allowance last i := by
  apply countSteps_le (fun s es b => ∃ last, s.Timely last es ∧ s.allowance last i ≤ b)
  · rintro s e es b ⟨last, h, hb⟩
    cases e with
    | append data ws now rollNow fopen =>
      obtain rfl : fopen = true := (h.good _ (List.mem_cons_self ..)).2
      rcases h.step i with ⟨htimely, hspent⟩
      exact ⟨_, Nat.le_trans hspent hb, rollNow, htimely, Nat.le_refl _⟩
    | flush =>
      rcases h.writesTo with ⟨stream, n, hto⟩
      refine ⟨b, by simp [Late], last, ?_, ?_⟩
      · rw [hto.step_flush]
        exact { h with good := fun e he => h.good e (List.mem_cons_of_mem _ he) }
      · rw [hto.step_flush]
        exact hb
  · exact ⟨last, h, Nat.le_refl _⟩

end Timely

theorem timely_new (rollsize : Nat) (flushInterval : Int) {checkEveryN now : Int}
    (hpositive : 1 ≤ checkEveryN) (hnow : 0 < now) {es : List Label}
    (hgood : ∀ e ∈ es, e.TakesAll ∧ e.FopenSucceeds)
    (hclock : (now :: es.flatMap Label.readings).Pairwise (· ≤ ·))
    (hcalls : es.countP Label.isAppend < 2 ^ 31) :
    (new rollsize flushInterval checkEveryN now true).Timely now es := by
  rw [new_eq rollsize flushInterval checkEveryN hnow]
  exact {
    writesTo := ⟨_, _, rfl, rfl⟩
    good := hgood
    clock := hclock
    period := rfl
    rolledBefore := Int.le_refl _
    positive := hpositive
    nonneg := Int.le_refl _
    room := by show (0 : Int) + _ < _; omega }

/-- While the clock does not step back and `count_` does not wrap round, a file takes at
most `checkEveryN` appends of a later day than its own. -/
theorem daily_roll_not_postponed (rollsize : Nat) (flushInterval : Int) {checkEveryN now : Int}
    (hpositive : 1 ≤ checkEveryN) (hnow : 0 < now) (es : List Label)
    (hgood : ∀ e ∈ es, e.TakesAll ∧ e.FopenSucceeds)
    (hclock : (now :: es.flatMap Label.readings).Pairwise (· ≤ ·))
    (hcalls : es.countP Label.isAppend < 2 ^ 31) (i : Nat) :
    ((new rollsize flushInterval checkEveryN now true).lateAppends es i : Int) ≤ checkEveryN := by
  have hle := (timely_new rollsize flushInterval hpositive hnow hgood hclock hcalls).lateAppends_le i
  have hallowance : (new rollsize flushInterval checkEveryN now true).allowance now i ≤
      checkEveryN.toNat := by
    rw [new_eq rollsize flushInterval checkEveryN hnow]
    simp only [allowance, List.length_nil]
    grind
  omega

/-- Two appends after midnight, of which the second finds `count_` high enough. -/
theorem daily_roll_not_postponed_midnight :
    ((new 100 3 3 86399 true).lateAppends
      [.append [1] [] 86399 86399 true, .append [2] [] 86400 86400 true,
        .append [3] [] 86401 86401 true, .append [4] [] 86402 86402 true] 0 : Int) ≤ 3 :=
  daily_roll_not_postponed 100 3 (by decide) (by decide) _
    (by simp [Label.TakesAll, Label.FopenSucceeds]) (by simp [Label.readings])
    (by decide) 0

example : (new 100 3 3 86399 true).lateAppends
    [.append [1] [] 86399 86399 true, .append [2] [] 86400 86400 true,
      .append [3] [] 86401 86401 true, .append [4] [] 86402 86402 true] 0 = 2 := by
  decide

end LogFile

end EchoServer
