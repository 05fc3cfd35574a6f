import EchoServer.LogFile

/-!
# The size counter of a log file

`FileUtil::append`, one call of `fwrite_unlocked` after the other. `LogFile`
decides to roll on what `writtenBytes()` returns.

* `run_fwrites`: a whole call does what `writeLoop` says;
* `exact_iff_nothing_dropped`: no call runs for ever, and the counter is what
  the stream has accepted as long as no `fwrite` that fails has accepted a part.
-/

namespace EchoServer

open Runs

namespace FileUtil

/-- The bytes the stream has accepted. -/
def accepted (f : FileUtil) : Nat := (f.file.map fun stream => stream.content.length).getD 0

/-- The stream accepts `data`. -/
def accept (f : FileUtil) (data : List Byte) : FileUtil :=
  { f with file := f.file.map fun stream => { stream with content := stream.content ++ data } }

@[simp] theorem writtenBytes_accept (f : FileUtil) (data : List Byte) :
    (f.accept data).writtenBytes = f.writtenBytes := rfl

theorem accept_nil (f : FileUtil) : f.accept [] = f := by
  rcases f with ⟨_ | stream, n⟩ <;> simp [accept]

theorem accept_accept (f : FileUtil) (data more : List Byte) :
    (f.accept data).accept more = f.accept (data ++ more) := by
  rcases f with ⟨_ | stream, n⟩ <;> simp [accept]

theorem accepted_accept {f : FileUtil} (h : f.file ≠ none) (data : List Byte) :
    (f.accept data).accepted = f.accepted + data.length := by
  rcases f with ⟨_ | stream, n⟩
  · exact absurd rfl h
  · simp [accept, accepted]

theorem file_accept {f : FileUtil} (h : f.file ≠ none) (data : List Byte) :
    (f.accept data).file ≠ none := by
  simp [accept, h]

end FileUtil

/-- The `while` of a call of `append`, between two calls of `write`. -/
structure WriteLoop where
  /-- What is at `data + written`: the `len - written` bytes that remain. -/
  rest : List Byte
  written : Nat
deriving DecidableEq, Repr

/-- A file and the call of `append` on it, if there is one. -/
structure Appender where
  util : FileUtil
  loop : Option WriteLoop
deriving DecidableEq, Repr

namespace Appender

inductive Op where
  | append (data : List Byte)
  /-- `write` returns. -/
  | fwrite (w : Fwrite)
deriving DecidableEq, Repr

/-- A file that has just been opened. -/
def opened (now : Int) : Appender := ⟨⟨some ⟨now, []⟩, 0⟩, none⟩

/-- `writtenBytes_ += written`. -/
def leave (util : FileUtil) (written : Nat) : Appender :=
  ⟨{ util with writtenBytes := util.writtenBytes + written }, none⟩

/-- The test `written != len`. -/
def test (util : FileUtil) (rest : List Byte) (written : Nat) : Appender :=
  if rest = [] then leave util written else ⟨util, some ⟨rest, written⟩⟩

def step (s : Appender) : Op → Appender
  | .append data =>
    match s.loop with
    | none => test s.util data 0
    | some _ => s
  | .fwrite w =>
    match s.loop with
    | none => s
    | some ⟨rest, written⟩ =>
      -- `clearerr` and `break`
      if w.taken ≠ rest.length ∧ w.error = true then leave (s.util.accept (rest.take w.taken)) written
      else test (s.util.accept (rest.take w.taken)) (rest.drop w.taken) (written + w.taken)

theorem step_append {s : Appender} (h : s.loop = none) (data : List Byte) :
    s.step (.append data) = test s.util data 0 := by
  simp [step, h]

theorem step_fwrite {s : Appender} {rest : List Byte} {written : Nat}
    (h : s.loop = some ⟨rest, written⟩) (w : Fwrite) :
    s.step (.fwrite w) =
      if w.taken ≠ rest.length ∧ w.error = true then
        leave (s.util.accept (rest.take w.taken)) written
      else test (s.util.accept (rest.take w.taken)) (rest.drop w.taken) (written + w.taken) := by
  simp [step, h]

/-- Between two calls nothing is written. -/
theorem step_fwrite_of_none {s : Appender} (h : s.loop = none) (w : Fwrite) :
    s.step (.fwrite w) = s := by
  simp [step, h]

/-- During a call no other one is made. -/
theorem step_append_of_some {s : Appender} {loop : WriteLoop} (h : s.loop = some loop)
    (data : List Byte) : s.step (.append data) = s := by
  simp [step, h]

/-! ## What C allows -/

/-- `fwrite` takes no more than it is given, and less only with the error flag set. -/
def Allowed (s : Appender) : Op → Prop
  | .append _ => True
  | .fwrite w =>
    match s.loop with
    | none => True
    | some loop => w.taken ≤ loop.rest.length ∧ (w.taken < loop.rest.length → w.error = true)

instance (s : Appender) : DecidablePred s.Allowed
  | .append _ => inferInstanceAs (Decidable True)
  | .fwrite w => by
    unfold Allowed
    cases s.loop <;> infer_instance

theorem allowed_fwrite {s : Appender} {rest : List Byte} {written : Nat}
    (h : s.loop = some ⟨rest, written⟩) (w : Fwrite) :
    s.Allowed (.fwrite w) ↔ w.taken ≤ rest.length ∧ (w.taken < rest.length → w.error = true) := by
  simp [Allowed, h]

/-! ## A whole call -/

theorem run_of_none {s : Appender} (h : s.loop = none) (ws : List Fwrite) :
    run step s (ws.map .fwrite) = s := by
  induction ws with
  | nil => rfl
  | cons w ws ih => rw [List.map_cons, run_cons, step_fwrite_of_none h, ih]

/-- The machine does what `LogFile` takes a call of `append` to do: what
`writeLoop` says the stream gets and the counter grows by. -/
theorem run_fwrites {util : FileUtil} {rest : List Byte} {written : Nat} {ws : List Fwrite}
    (hws : EachStep step (test util rest written) Allowed (ws.map .fwrite))
    (hdone : (run step (test util rest written) (ws.map .fwrite)).loop = none) :
    run step (test util rest written) (ws.map .fwrite) =
      leave (util.accept (FileUtil.writeLoop ws rest).1)
        (written + (FileUtil.writeLoop ws rest).2) := by
  induction ws generalizing util rest written with
  | nil =>
    cases rest with
    | nil => simp [test, FileUtil.writeLoop, FileUtil.accept_nil]
    | cons b rest => simp [test] at hdone
  | cons w ws ih =>
    cases rest with
    | nil =>
      have hleft : test util [] written = leave util written := rfl
      rw [hleft, run_of_none rfl, FileUtil.writeLoop, FileUtil.accept_nil]
      rfl
    | cons b rest =>
      generalize hdata : b :: rest = data at hws hdone ⊢
      have hne : data ≠ [] := by simp [← hdata]
      have hloop : (test util data written).loop = some ⟨data, written⟩ := by simp [test, hne]
      have hutil : (test util data written).util = util := by simp [test, hne]
      rw [List.map_cons] at hws hdone ⊢
      rcases eachStep_cons.mp hws with ⟨hallowed, hws⟩
      rcases (allowed_fwrite hloop w).mp hallowed with ⟨hle, _⟩
      rw [run_cons] at hdone ⊢
      rw [step_fwrite hloop, hutil] at hws hdone ⊢
      rw [FileUtil.writeLoop]
      swap
      · exact hne
      by_cases herror : w.taken ≠ data.length ∧ w.error = true
      · have hshort : w.taken < data.length ∧ w.error = true := ⟨by omega, herror.2⟩
        rw [if_pos herror, if_pos hshort, run_of_none rfl]
        rfl
      · have hshort : ¬ (w.taken < data.length ∧ w.error = true) :=
          fun h => herror ⟨by omega, h.2⟩
        rw [if_neg herror] at hws hdone ⊢
        rw [if_neg hshort, ih hws hdone, FileUtil.accept_accept, List.length_take,
          Nat.min_eq_left hle, Nat.add_assoc]

/-- So a call of `append` that ends leaves the file of `LogFile` as `write` does. -/
theorem run_append {s : LogFile} {stream : Stream} {n : Nat} (h : s.WritesTo stream n)
    {data : List Byte} {ws : List Fwrite}
    (hws : EachStep step (test ⟨some stream, n⟩ data 0) Allowed (ws.map .fwrite))
    (hdone : (run step ⟨⟨some stream, n⟩, none⟩ (.append data :: ws.map .fwrite)).loop = none) :
    (s.write data ws).file =
      some (run step ⟨⟨some stream, n⟩, none⟩ (.append data :: ws.map .fwrite)).util := by
  rw [run_cons, step_append rfl] at hdone ⊢
  rw [run_fwrites hws hdone]
  simp [LogFile.write, h.file, leave, FileUtil.accept]

/-! ## The counter -/

/-- The next `fwrite`, whatever it answers, is the last one of the call. -/
def Terminates (s : Appender) : Prop :=
  ∀ w, s.loop ≠ none → s.Allowed (.fwrite w) → (s.step (.fwrite w)).loop = none

/-- Between two calls, `writtenBytes()` is what the stream has accepted. -/
def Exact (s : Appender) : Prop := s.loop = none → s.util.writtenBytes = s.util.accepted

/-- A `fwrite` that fails has accepted nothing. -/
def NothingDropped (s : Appender) : Op → Prop
  | .append _ => True
  | .fwrite w =>
    match s.loop with
    | none => True
    | some loop => 0 < w.taken → w.taken = loop.rest.length

theorem nothingDropped_fwrite {s : Appender} {rest : List Byte} {written : Nat}
    (h : s.loop = some ⟨rest, written⟩) (w : Fwrite) :
    s.NothingDropped (.fwrite w) ↔ (0 < w.taken → w.taken = rest.length) := by
  simp [NothingDropped, h]

/-- The stream is open, and what the running call has written is not counted yet. -/
structure Inv (s : Appender) : Prop where
  file : s.util.file ≠ none
  counted : ∀ rest written, s.loop = some ⟨rest, written⟩ →
    rest ≠ [] ∧ s.util.writtenBytes + written = s.util.accepted

theorem inv_leave {util : FileUtil} (hfile : util.file ≠ none) (written : Nat) :
    (leave util written).Inv := by
  constructor
  · exact hfile
  · intro rest written' hloop
    cases hloop

theorem inv_test {util : FileUtil} {rest : List Byte} {written : Nat} (hfile : util.file ≠ none)
    (hcounted : util.writtenBytes + written = util.accepted) : (test util rest written).Inv := by
  unfold test
  split
  · exact inv_leave hfile written
  · rename_i hrest
    refine ⟨hfile, ?_⟩
    rintro rest' written' heq
    cases heq
    exact ⟨hrest, hcounted⟩

theorem exact_leave {util : FileUtil} {written : Nat} :
    (leave util written).Exact ↔ util.writtenBytes + written = util.accepted := by
  simp [Exact, leave, FileUtil.accepted]

theorem exact_test {util : FileUtil} {rest : List Byte} {written : Nat}
    (hcounted : util.writtenBytes + written = util.accepted) : (test util rest written).Exact := by
  unfold test
  split
  · exact exact_leave.mpr hcounted
  · intro hloop
    cases hloop

/-- After an answer that is allowed the call is over. -/
theorem terminates (s : Appender) : s.Terminates := by
  intro w hloop hallowed
  rcases hs : s.loop with _ | ⟨rest, written⟩
  · exact absurd hs hloop
  rcases (allowed_fwrite hs w).mp hallowed with ⟨hle, hshort⟩
  rw [step_fwrite hs]
  by_cases herror : w.taken ≠ rest.length ∧ w.error = true
  · rw [if_pos herror]
    rfl
  · have hall : w.taken = rest.length := by
      by_contra hne
      exact herror ⟨hne, hshort (by omega)⟩
    have hnil : rest.drop w.taken = [] := List.drop_of_length_le (by omega)
    rw [if_neg herror, hnil]
    rfl

theorem accepted_take {s : Appender} {rest : List Byte} {written : Nat} (h : s.Inv)
    (hs : s.loop = some ⟨rest, written⟩) {taken : Nat} (hle : taken ≤ rest.length) :
    (s.util.accept (rest.take taken)).accepted = s.util.writtenBytes + written + taken := by
  have hcounted := (h.counted rest written hs).2
  rw [FileUtil.accepted_accept h.file, List.length_take, Nat.min_eq_left hle, hcounted]

theorem Inv.step {s : Appender} (h : s.Inv) (e : Op) (hexact : s.Exact) (he : s.Allowed e) :
    (s.step e).Inv := by
  rcases hs : s.loop with _ | ⟨rest, written⟩
  · cases e with
    | append data =>
      rw [step_append hs]
      exact inv_test h.file (hexact hs)
    | fwrite w =>
      rw [step_fwrite_of_none hs]
      exact h
  · cases e with
    | append data =>
      rw [step_append_of_some hs]
      exact h
    | fwrite w =>
      rcases (allowed_fwrite hs w).mp he with ⟨hle, _⟩
      have hfile := FileUtil.file_accept h.file (rest.take w.taken)
      rw [step_fwrite hs]
      split
      · exact inv_leave hfile written
      · apply inv_test hfile
        rw [accepted_take h hs hle, FileUtil.writtenBytes_accept, Nat.add_assoc]

/-- After a `fwrite` the counter is exact unless the loop was left with a part that
has been accepted. -/
theorem Inv.exact_fwrite_iff {s : Appender} (h : s.Inv) {rest : List Byte} {written : Nat}
    (hs : s.loop = some ⟨rest, written⟩) (w : Fwrite) (hw : s.Allowed (.fwrite w)) :
    (s.step (.fwrite w)).Exact ↔ s.NothingDropped (.fwrite w) := by
  rcases (allowed_fwrite hs w).mp hw with ⟨hle, hshort⟩
  have haccepted := accepted_take h hs hle
  rw [step_fwrite hs, nothingDropped_fwrite hs]
  by_cases herror : w.taken ≠ rest.length ∧ w.error = true
  · rw [if_pos herror, exact_leave, haccepted, FileUtil.writtenBytes_accept]
    omega
  · rw [if_neg herror]
    have hall : w.taken = rest.length := by
      by_contra hne
      exact herror ⟨hne, hshort (by omega)⟩
    constructor
    · intro _ _
      exact hall
    · intro _
      apply exact_test
      rw [haccepted, FileUtil.writtenBytes_accept, Nat.add_assoc]

/-- One step keeps the counter exact unless it drops the count of a part that
has been accepted. -/
theorem Inv.exact_step_iff {s : Appender} (h : s.Inv) (e : Op) (hexact : s.Exact)
    (he : s.Allowed e) : (s.step e).Exact ↔ s.NothingDropped e := by
  rcases hs : s.loop with _ | ⟨rest, written⟩
  · cases e with
    | append data =>
      rw [step_append hs]
      constructor
      · intro _
        trivial
      · intro _
        exact exact_test (hexact hs)
    | fwrite w =>
      rw [step_fwrite_of_none hs]
      constructor
      · intro _
        simp [NothingDropped, hs]
      · intro _
        exact hexact
  · cases e with
    | append data =>
      rw [step_append_of_some hs]
      constructor
      · intro _
        trivial
      · intro _
        exact hexact
    | fwrite w => exact h.exact_fwrite_iff hs w he

theorem opened_inv (now : Int) : (opened now).Inv := by
  constructor
  · simp [opened]
  · intro rest written hloop
    cases hloop

/-- Whatever `fwrite` does that C allows, every call ends; and the counter is
exact in every state of a run if and only if no `fwrite` of it that fails has
accepted a part: that part is in the file, and `break` leaves it uncounted. -/
theorem exact_iff_nothing_dropped (now : Int) (es : List Op)
    (hallowed : EachStep step (opened now) Allowed es) :
    Always step (opened now) Terminates es ∧
      (Always step (opened now) Exact es ↔ EachStep step (opened now) NothingDropped es) := by
  constructor
  · intro pre _
    exact terminates _
  · exact always_iff_eachStep_of Inv (opened_inv now) (fun _ e h => h.step e) (fun _ => rfl)
      (fun _ e h => h.exact_step_iff e) hallowed

/-- Four bytes; the disk is full after two. -/
def diskFull : List Op := [.append [1, 2, 3, 4], .fwrite ⟨2, true⟩]

theorem exact_iff_nothing_dropped_diskFull :
    Always step (opened 0) Terminates diskFull ∧
      (Always step (opened 0) Exact diskFull ↔ EachStep step (opened 0) NothingDropped diskFull) :=
  exact_iff_nothing_dropped 0 diskFull (by decide)

theorem diskFull_uncounted : EachStep step (opened 0) Allowed diskFull ∧
    ¬ Always step (opened 0) Exact diskFull ∧
    (run step (opened 0) diskFull).util.accepted = 2 ∧
    (run step (opened 0) diskFull).util.writtenBytes = 0 := by
  refine ⟨by decide, ?_, by decide, by decide⟩
  intro h
  exact absurd (h.last (by decide)) (by decide)

end Appender

end EchoServer
