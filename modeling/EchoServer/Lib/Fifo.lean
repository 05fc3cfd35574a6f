import Mathlib.Data.List.Infix
import EchoServer.Lib.Runs

/-!
# Queues and the systems that implement them

A `Queue` remembers what has entered it, what has left it and what waits, with
the conservation law as a field. A system implements queues when each of its
steps is matched by one operation (`Simulates`), and a run of the system is
then matched by a run of the queue (`Simulates.run`).

* `Queue.left_isPrefix`: what has left is a prefix of what has entered;
* `Queue.overtakes_nothing`: something that entered later has left only if
  everything that entered before has.
-/

namespace Fifo

variable {α : Type u}

structure Queue (α : Type u) where
  entered : List α
  left : List α
  waiting : List α
  conserved : left ++ waiting = entered

inductive Op (α : Type u) where
  | skip
  | enqueue (xs : List α)
  | dequeue (n : Nat)

namespace Queue

def empty : Queue α where
  entered := []
  left := []
  waiting := []
  conserved := rfl

def step (q : Queue α) : Op α → Queue α
  | .skip => q
  | .enqueue xs =>
    { entered := q.entered ++ xs
      left := q.left
      waiting := q.waiting ++ xs
      conserved := by rw [← List.append_assoc, q.conserved] }
  | .dequeue n =>
    { entered := q.entered
      left := q.left ++ q.waiting.take n
      waiting := q.waiting.drop n
      conserved := by rw [List.append_assoc, List.take_append_drop, q.conserved] }

def run (q : Queue α) (ops : List (Op α)) : Queue α := ops.foldl step q

theorem left_isPrefix (q : Queue α) : q.left <+: q.entered := ⟨q.waiting, q.conserved⟩

theorem entered_prefix_run (q : Queue α) (ops : List (Op α)) :
    q.entered <+: (q.run ops).entered := by
  induction ops generalizing q with
  | nil => exact List.prefix_refl _
  | cons op ops ih =>
    have hstep : q.entered <+: (q.step op).entered := by
      cases op with
      | skip => exact List.prefix_refl _
      | enqueue xs => exact List.prefix_append _ _
      | dequeue n => exact List.prefix_refl _
    exact hstep.trans (ih (q.step op))

theorem overtakes_nothing (q : Queue α) (ops : List (Op α))
    (h : q.entered.length ≤ (q.run ops).left.length) : q.entered <+: (q.run ops).left :=
  List.prefix_of_prefix_length_le (q.entered_prefix_run ops) (q.run ops).left_isPrefix h

end Queue

/-! ## Systems that implement a queue -/

variable {σ : Type v} {ε : Type w}

/-- Every step of the system is an operation of the queue it stands for. -/
def Simulates (step : σ → ε → σ) (R : σ → Queue α → Prop) : Prop :=
  ∀ s e q, R s q → ∃ op, R (step s e) (q.step op)

theorem Simulates.run {step : σ → ε → σ} {R : σ → Queue α → Prop} (h : Simulates step R) {s : σ}
    {q : Queue α} (hs : R s q) (es : List ε) : ∃ ops, R (Runs.run step s es) (q.run ops) := by
  induction es generalizing s q with
  | nil => exact ⟨[], hs⟩
  | cons e es ih =>
    rcases h s e q hs with ⟨op, hop⟩
    rcases ih hop with ⟨ops, hops⟩
    exact ⟨op :: ops, hops⟩

end Fifo
