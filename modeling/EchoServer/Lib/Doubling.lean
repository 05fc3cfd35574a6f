import Mathlib.Algebra.Group.Nat.Defs
import Mathlib.Data.Nat.Log
import EchoServer.Lib.Runs

/-!
# Capacities that double when they fall short

A capacity that no step lowers, and that at least doubles in every step it has
fallen short of, falls short only as often as it takes to double it up to the
largest demand.
-/

namespace Runs

variable {σ : Type u} {ε : Type v}

/-- How a step treats a capacity: it never lowers it, and doubles it if it is
marked, which happens only below the demand `n`. -/
structure Doubles (capacity : σ → Nat) (mark : σ → ε → Bool) (step : σ → ε → σ) (n : Nat) (s : σ)
    (e : ε) : Prop where
  keeps : capacity s ≤ capacity (step s e)
  short : mark s e = true → capacity s < n
  grows : mark s e = true → 2 * capacity s ≤ capacity (step s e)

/-- The number of marked steps is logarithmic in the demand. -/
theorem countSteps_le_clog {step : σ → ε → σ} {mark : σ → ε → Bool} {capacity : σ → Nat}
    (inv : σ → Prop) (hinv : ∀ s e, inv s → inv (step s e)) {n : Nat}
    (hstep : ∀ s e, inv s → Doubles capacity mark step n s e) {s : σ} (hs : inv s) {k : Nat}
    (hk : n ≤ capacity s * 2 ^ k) (es : List ε) : countSteps step mark s es ≤ k := by
  have hbudget : ∀ (s : σ) (e : ε) (es : List ε) (b : Nat), inv s ∧ n ≤ capacity s * 2 ^ b →
      ∃ b', (mark s e).toNat + b' ≤ b ∧ inv (step s e) ∧ n ≤ capacity (step s e) * 2 ^ b' := by
    intro s e _ b hb
    have hdoubles := hstep s e hb.1
    by_cases hmark : mark s e = true
    · -- a marked step has doubled the capacity, and uses one up
      cases b with
      | zero =>
        have hshort := hdoubles.short hmark
        omega
      | succ b =>
        refine ⟨b, by simp [hmark, Nat.add_comm], hinv s e hb.1, ?_⟩
        calc n ≤ capacity s * 2 ^ (b + 1) := hb.2
          _ = 2 * capacity s * 2 ^ b := by
              rw [Nat.pow_succ]
              ac_rfl
          _ ≤ capacity (step s e) * 2 ^ b := Nat.mul_le_mul_right _ (hdoubles.grows hmark)
    · refine ⟨b, by simp [hmark], hinv s e hb.1, ?_⟩
      exact hb.2.trans (Nat.mul_le_mul_right _ hdoubles.keeps)
  exact countSteps_le (fun s _ b => inv s ∧ n ≤ capacity s * 2 ^ b) hbudget ⟨hs, hk⟩

/-- `countSteps_le_clog` with the exponent worked out. -/
theorem countSteps_le_clog_div {step : σ → ε → σ} {mark : σ → ε → Bool} {capacity : σ → Nat}
    (inv : σ → Prop) (hinv : ∀ s e, inv s → inv (step s e)) {n : Nat}
    (hstep : ∀ s e, inv s → Doubles capacity mark step n s e) {s : σ} (hs : inv s)
    (hpos : 0 < capacity s) (es : List ε) :
    countSteps step mark s es ≤ Nat.clog 2 ((n + capacity s - 1) / capacity s) := by
  refine countSteps_le_clog inv hinv hstep hs ?_ es
  have hceil : n ≤ capacity s * ((n + capacity s - 1) / capacity s) := by
    have hmod := Nat.mod_lt (n + capacity s - 1) hpos
    have hdiv := Nat.div_add_mod (n + capacity s - 1) (capacity s)
    omega
  have hclog : (n + capacity s - 1) / capacity s ≤
      2 ^ Nat.clog 2 ((n + capacity s - 1) / capacity s) := Nat.le_pow_clog (by decide) _
  exact hceil.trans (Nat.mul_le_mul_left _ hclog)

end Runs
