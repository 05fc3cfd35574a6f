import EchoServer.LogFile

/-!
# A roll whose `fopen` fails

`FileUtil`'s constructor hands what `fopen` returned to `setbuffer`, before
anybody could look at it, and its destructor is the only place that tests for
null. So the first roll that cannot open its file ends the program.

* `WritesTo.step`: with the file opened, the log goes on writing;
* `failed_roll_ends_logging`: logging stays intact exactly in the runs where
  every roll that is not refused opens its file.
-/

namespace EchoServer

namespace LogFile

open Runs

/-- The record of an append goes to the end of the open files, as far as
`fwrite` takes it. -/
def Written (s : LogFile) (e : Label) : Prop :=
  match e with
  | .append data ws _ _ _ =>
    s.fault = none ∧
      (s.step e).contents.flatten = s.contents.flatten ++ (FileUtil.writeLoop ws data).1
  | .flush => True

/-- A stdio function has been given a null stream. -/
def UsedNullStream (s : LogFile) : Prop := s.fault = some .nullStream

/-- Where the append rolls, `fopen` succeeds. -/
def RollsOpen (s : LogFile) (e : Label) : Prop :=
  match e with
  | .append data ws now rollNow fopen =>
    (s.appended data ws).Attempts now → s.lastRoll < rollNow → fopen = true
  | .flush => True

instance (s : LogFile) (e : Label) : Decidable (s.Written e) := by
  cases e <;> unfold Written <;> infer_instance

instance (s : LogFile) (e : Label) : Decidable (s.RollsOpen e) := by
  cases e <;> unfold RollsOpen <;> infer_instance

section
variable {s : LogFile} {stream : Stream} {n : Nat}

theorem WritesTo.contents (h : s.WritesTo stream n) :
    s.contents.flatten = (s.closed.map Stream.content).flatten ++ stream.content := by
  rw [LogFile.contents, h.opened, List.map_append, List.flatten_append]
  simp

theorem WritesTo.step (h : s.WritesTo stream n) {e : Label} (hopen : s.RollsOpen e) :
    s.Written e ∧ ∃ stream' n', (s.step e).WritesTo stream' n' := by
  cases e with
  | append data ws now rollNow fopen =>
    have hto := h.after_write data ws
    have heq := h.appended_eq data ws
    have hlast := h.lastRoll_appended data ws
    have hclosed : (s.appended data ws).closed = s.closed := by rw [heq]
    simp only [Written, h.step_append, h.contents]
    rcases (s.appended data ws).rolls_or_kept now s.lastRoll rollNow with
      ⟨hattempts, hlater⟩ | hkept
    · obtain rfl : fopen = true := hopen hattempts hlater
      rcases hto.finish_rolled hattempts (hlast ▸ hlater) with ⟨count, lastFlush, _, hfinish⟩
      have hto' : ((s.appended data ws).finish now rollNow true).WritesTo ⟨rollNow, []⟩ 0 := by
        rw [hfinish]
        exact ⟨rfl, hto.fault⟩
      refine ⟨⟨h.fault, ?_⟩, _, _, hto'⟩
      rw [hto'.contents, hfinish]
      simp [hclosed]
    · rcases hto.finish_kept fopen (hlast ▸ hkept) with ⟨lastFlush, hfinish⟩
      have hto' := hto.congr (t := (s.appended data ws).finish now rollNow fopen)
        (by rw [hfinish]) (by rw [hfinish])
      refine ⟨⟨h.fault, ?_⟩, _, _, hto'⟩
      rw [hto'.contents, hfinish]
      simp [hclosed]
  | flush =>
    rw [h.step_flush]
    exact ⟨trivial, stream, n, h⟩

theorem WritesTo.step_fails (h : s.WritesTo stream n) {e : Label} (hfails : ¬ s.RollsOpen e) :
    (s.step e).UsedNullStream := by
  cases e with
  | append data ws now rollNow fopen =>
    simp only [RollsOpen, Classical.not_imp, Bool.not_eq_true] at hfails
    rcases hfails with ⟨hattempts, hlater, rfl⟩
    have hlast := h.lastRoll_appended data ws
    rw [h.step_append]
    exact finish_failed hattempts (hlast ▸ hlater)
  | flush => exact absurd trivial hfails

end

/-- Every record is written and no null stream is used, exactly in the runs in which
`fopen` succeeds at every roll that goes through. -/
theorem failed_roll_ends_logging (rollsize : Nat) (flushInterval checkEveryN : Int) {now : Int}
    (hnow : 0 < now) (es : List Label) :
    EachStep step (new rollsize flushInterval checkEveryN now true) Written es ∧
        Always step (new rollsize flushInterval checkEveryN now true) (¬ UsedNullStream ·) es ↔
      EachStep step (new rollsize flushInterval checkEveryN now true) RollsOpen es := by
  apply eachStep_always_iff fun s => ¬ s.UsedNullStream → ∃ stream n, s.WritesTo stream n
  · intro _
    rw [new_eq rollsize flushInterval checkEveryN hnow]
    exact ⟨_, _, rfl, rfl⟩
  · intro s e h hused hused'
    rcases h hused with ⟨stream, n, hto⟩
    by_cases hopen : s.RollsOpen e
    · exact (hto.step hopen).2
    · exact absurd (hto.step_fails hopen) hused'
  · rw [new_eq rollsize flushInterval checkEveryN hnow]
    simp [UsedNullStream]
  · intro s e h hused
    rcases h hused with ⟨stream, n, hto⟩
    constructor
    · rintro ⟨_, hused'⟩
      by_contra hopen
      exact hused' (hto.step_fails hopen)
    · intro hopen
      rcases hto.step hopen with ⟨hwritten, stream', n', hto'⟩
      refine ⟨hwritten, fun hused' => ?_⟩
      rw [UsedNullStream, hto'.fault] at hused'
      exact absurd hused' (by simp)

/-- A second after the file has been opened, the descriptors are used up. -/
def outOfDescriptors : List Label :=
  [.append [1] [] 101 101 false, .append [2] [] 102 102 true]

theorem failed_roll_uses_null_stream :
    (run step (new 0 3 1024 100 true) outOfDescriptors).UsedNullStream ∧
      ¬ EachStep step (new 0 3 1024 100 true) Written outOfDescriptors := by
  constructor
  · rw [UsedNullStream]
    decide
  · decide

theorem failed_roll_ends_logging_refused :
    EachStep step (new 0 3 1024 100 true) Written [.append [1] [] 100 100 false, .flush] ∧
        Always step (new 0 3 1024 100 true) (¬ UsedNullStream ·)
          [.append [1] [] 100 100 false, .flush] ↔
      EachStep step (new 0 3 1024 100 true) RollsOpen [.append [1] [] 100 100 false, .flush] :=
  failed_roll_ends_logging 0 3 1024 (by decide) _

end LogFile

end EchoServer
