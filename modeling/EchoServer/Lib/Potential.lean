import Mathlib.Algebra.GroupWithZero.Nat
import EchoServer.Lib.Runs

/-!
# Amortized accounting

What the steps of a run put out is paid from a potential that the states have and
from the credit that comes in with the labels. If every step pays for what it puts
out, so does every run.
-/

namespace Runs

variable {σ : Type u} {ε : Type v} {β : Type w}

/-- The step pays for its output, and for the potential it leaves. -/
def Pays (step : σ → ε → σ) (out : σ → ε → List β) (potential : σ → Nat) (credit : ε → Nat)
    (s : σ) (e : ε) : Prop :=
  (out s e).length + potential (step s e) ≤ potential s + credit e

theorem collect_length_le {step : σ → ε → σ} {out : σ → ε → List β} {potential : σ → Nat}
    {credit : ε → Nat} (hstep : ∀ s e, Pays step out potential credit s e) (s : σ)
    (es : List ε) :
    (collect step out s es).length + potential (run step s es) ≤
      potential s + (es.map credit).sum := by
  induction es generalizing s with
  | nil => simp [collect]
  | cons e es ih =>
    have hpays : (out s e).length + potential (step s e) ≤ potential s + credit e := hstep s e
    have hrest := ih (step s e)
    rw [collect, run_cons, List.length_append, List.map_cons, List.sum_cons]
    omega

end Runs
