import Mathlib.Data.List.Infix

/-!
# Runs of a labelled step function

A system is a total step function `step : σ → ε → σ` over labels; a label that
is not enabled leaves the state as it is (a stutter). A run is a list of
labels, and its history at any moment is a prefix of that list.

* `run_invariant`: the induction rule for invariants;
* `Covers.elim`: a step is a stutter or one of a list of enabled steps;
* `concat_isPrefix_concat_iff`, `exists_moment_concat`: the steps of a history;
* `throughout_iff_atEachStep`: a property of histories holds at every moment
  exactly when every step taken meets the step condition;
* `eachStep_always_iff`, `always_iff_eachStep`, `always_iff_eachStep_of`,
  `always_of_eachStep`: the same for properties of states and steps, relative to
  an invariant;
* `someStep_invariant`, `on_iff_someStep`: what a step leaves behind, and what
  one kind of step sets and another clears for good;
* `countSteps_le`: a budget that every marked step draws on bounds their number;
* `log_run`: a log is what the steps have put out.
-/

namespace Runs

variable {σ : Type u} {ε : Type v} {β : Type w}

/-- The state after the labels, taken from left to right. -/
def run (step : σ → ε → σ) (s : σ) (es : List ε) : σ :=
  es.foldl step s

@[simp] theorem run_nil (step : σ → ε → σ) (s : σ) : run step s [] = s := rfl

@[simp] theorem run_cons (step : σ → ε → σ) (s : σ) (e : ε) (es : List ε) :
    run step s (e :: es) = run step (step s e) es := rfl

theorem run_append (step : σ → ε → σ) (s : σ) (es fs : List ε) :
    run step s (es ++ fs) = run step (run step s es) fs := by
  simp [run, List.foldl_append]

theorem run_concat (step : σ → ε → σ) (s : σ) (es : List ε) (e : ε) :
    run step s (es ++ [e]) = step (run step s es) e := by
  simp [run, List.foldl_append]

/-- Invariant induction: what every step preserves holds after every run. -/
theorem run_invariant {step : σ → ε → σ} (inv : σ → Prop)
    (hstep : ∀ s e, inv s → inv (step s e)) {s : σ} (hs : inv s) (es : List ε) :
    inv (run step s es) := by
  induction es generalizing s with
  | nil => exact hs
  | cons e es ih => exact ih (hstep s e hs)

/-- `Step` lists what the enabled steps of `step` do; every other label stutters. -/
def Covers (Step : σ → ε → σ → Prop) (step : σ → ε → σ) : Prop :=
  ∀ s e, step s e = s ∨ Step s e (step s e)

/-- What holds before a step and after every enabled one holds after the step. -/
theorem Covers.elim {Step : σ → ε → σ → Prop} {step : σ → ε → σ} (h : Covers Step step)
    {P : σ → Prop} {s : σ} {e : ε} (hs : P s) (hstep : ∀ s', Step s e s' → P s') :
    P (step s e) := by
  rcases h s e with hstutter | henabled
  · rw [hstutter]
    exact hs
  · exact hstep (step s e) henabled

/-! ## Properties of histories -/

/-- The last step of a history is one of the run before, or the one just taken. -/
theorem concat_isPrefix_concat_iff {pre es : List ε} {f e : ε} :
    pre ++ [f] <+: es ++ [e] ↔ pre ++ [f] <+: es ∨ pre = es ∧ f = e := by
  rw [List.prefix_concat_iff, or_comm]
  constructor
  · rintro (hpre | heq)
    · exact Or.inl hpre
    · rcases List.append_inj' heq rfl with ⟨hes, hf⟩
      exact Or.inr ⟨hes, List.singleton_inj.mp hf⟩
  · rintro (hpre | ⟨rfl, rfl⟩)
    · exact Or.inl hpre
    · exact Or.inr rfl

/-- So is a step with a property. -/
theorem exists_moment_concat {P : List ε → ε → Prop} {es : List ε} {e : ε} :
    (∃ pre f, pre ++ [f] <+: es ++ [e] ∧ P pre f) ↔
      (∃ pre f, pre ++ [f] <+: es ∧ P pre f) ∨ P es e := by
  constructor
  · rintro ⟨pre, f, hpre, hP⟩
    rcases concat_isPrefix_concat_iff.mp hpre with hpre | ⟨rfl, rfl⟩
    · exact Or.inl ⟨pre, f, hpre, hP⟩
    · exact Or.inr hP
  · rintro (⟨pre, f, hpre, hP⟩ | hP)
    · exact ⟨pre, f, hpre.trans (List.prefix_append es [e]), hP⟩
    · exact ⟨es, e, List.prefix_refl _, hP⟩

/-- No step has been taken at the beginning. -/
theorem not_concat_isPrefix_nil {pre : List ε} {f : ε} : ¬ pre ++ [f] <+: [] := by
  intro hpre
  have hnil := List.prefix_nil.mp hpre
  simp at hnil

theorem not_exists_moment_nil {P : List ε → ε → Prop} :
    ¬ ∃ pre f, pre ++ [f] <+: [] ∧ P pre f := by
  rintro ⟨pre, f, hpre, _⟩
  exact not_concat_isPrefix_nil hpre

/-- `P` holds of the history at every moment of the run. -/
def Throughout (P : List ε → Prop) (es : List ε) : Prop :=
  ∀ pre, pre <+: es → P pre

/-- Every step of the run meets `C`, judged from the history before it. -/
def AtEachStep (C : List ε → ε → Prop) (es : List ε) : Prop :=
  ∀ pre e, pre ++ [e] <+: es → C pre e

theorem throughout_nil {P : List ε → Prop} : Throughout P [] ↔ P [] := by
  constructor
  · intro h
    exact h [] (List.nil_prefix)
  · intro h pre hpre
    rw [List.prefix_nil.mp hpre]
    exact h

theorem throughout_concat {P : List ε → Prop} {es : List ε} {e : ε} :
    Throughout P (es ++ [e]) ↔ Throughout P es ∧ P (es ++ [e]) := by
  constructor
  · intro h
    constructor
    · intro pre hpre
      exact h pre (hpre.trans (List.prefix_append es [e]))
    · exact h (es ++ [e]) (List.prefix_refl _)
  · rintro ⟨hes, hlast⟩ pre hpre
    rcases List.prefix_concat_iff.mp hpre with heq | hpre'
    · rw [heq]
      exact hlast
    · exact hes pre hpre'

theorem atEachStep_nil {C : List ε → ε → Prop} : AtEachStep C [] := by
  intro pre e hpre
  exact absurd hpre not_concat_isPrefix_nil

theorem atEachStep_concat {C : List ε → ε → Prop} {es : List ε} {e : ε} :
    AtEachStep C (es ++ [e]) ↔ AtEachStep C es ∧ C es e := by
  constructor
  · intro h
    constructor
    · intro pre f hpre
      exact h pre f (hpre.trans (List.prefix_append es [e]))
    · exact h es e (List.prefix_refl _)
  · rintro ⟨hes, hlast⟩ pre f hpre
    rcases concat_isPrefix_concat_iff.mp hpre with hpre | ⟨rfl, rfl⟩
    · exact hes pre f hpre
    · exact hlast

/-- If, from a history that satisfies `P`, the next one satisfies it exactly
when the step meets `C`, then `P` holds throughout a run exactly when every
step of it meets `C`. -/
theorem throughout_iff_atEachStep {P : List ε → Prop} {C : List ε → ε → Prop}
    (h0 : P []) (hstep : ∀ pre e, P pre → (P (pre ++ [e]) ↔ C pre e)) (es : List ε) :
    Throughout P es ↔ AtEachStep C es := by
  induction es using List.reverseRecOn with
  | nil => simp [throughout_nil, h0, atEachStep_nil]
  | append_singleton es e ih =>
    rw [throughout_concat, atEachStep_concat, ← ih]
    constructor
    · rintro ⟨hes, hlast⟩
      exact ⟨hes, (hstep es e (hes es (List.prefix_refl _))).mp hlast⟩
    · rintro ⟨hes, hC⟩
      exact ⟨hes, (hstep es e (hes es (List.prefix_refl _))).mpr hC⟩

/-! ## Properties of states along a run -/

/-- `P` holds in every state of the run from `s`. -/
def Always (step : σ → ε → σ) (s : σ) (P : σ → Prop) (es : List ε) : Prop :=
  Throughout (fun pre => P (run step s pre)) es

/-- Every step of the run from `s` meets `C`, judged in the state before it. -/
def EachStep (step : σ → ε → σ) (s : σ) (C : σ → ε → Prop) (es : List ε) : Prop :=
  AtEachStep (fun pre e => C (run step s pre) e) es

/-- Where `P` has held so far, so has an invariant that steps from `P` keep. -/
theorem inv_of_always {step : σ → ε → σ} (inv : σ → Prop) {P : σ → Prop} {s : σ} (hs : inv s)
    (hinv : ∀ s e, inv s → P s → inv (step s e)) {es : List ε} (hP : Always step s P es) :
    inv (run step s es) := by
  induction es using List.reverseRecOn with
  | nil => exact hs
  | append_singleton es e ih =>
    obtain ⟨hes, _⟩ := throughout_concat.mp hP
    rw [run_concat]
    exact hinv _ e (ih hes) (hes es (List.prefix_refl _))

/-- The state form of `throughout_iff_atEachStep`, relative to an invariant and
with a demand `D` on the steps themselves. -/
theorem eachStep_always_iff {step : σ → ε → σ} (inv : σ → Prop) {P : σ → Prop}
    {D C : σ → ε → Prop} {s : σ} (hs : inv s) (hinv : ∀ s e, inv s → P s → inv (step s e))
    (h0 : P s) (hstep : ∀ s e, inv s → P s → (D s e ∧ P (step s e) ↔ C s e)) (es : List ε) :
    EachStep step s D es ∧ Always step s P es ↔ EachStep step s C es := by
  induction es using List.reverseRecOn with
  | nil =>
    constructor
    · intro _
      exact atEachStep_nil
    · intro _
      exact ⟨atEachStep_nil, throughout_nil.mpr h0⟩
  | append_singleton es e ih =>
    have hlast : EachStep step s D es ∧ Always step s P es →
        (D (run step s es) e ∧ P (run step s (es ++ [e])) ↔ C (run step s es) e) := by
      rintro ⟨_, hP⟩
      rw [run_concat]
      exact hstep _ e (inv_of_always inv hs hinv hP) (hP es (List.prefix_refl _))
    unfold EachStep Always at *
    rw [atEachStep_concat, throughout_concat, atEachStep_concat, ← ih]
    constructor
    · rintro ⟨⟨hD, hDe⟩, hP, hPe⟩
      exact ⟨⟨hD, hP⟩, (hlast ⟨hD, hP⟩).mp ⟨hDe, hPe⟩⟩
    · rintro ⟨hDP, hC⟩
      obtain ⟨hDe, hPe⟩ := (hlast hDP).mpr hC
      exact ⟨⟨hDP.1, hDe⟩, hDP.2, hPe⟩

/-- `eachStep_always_iff` without a demand on the steps. -/
theorem always_iff_eachStep {step : σ → ε → σ} (inv : σ → Prop) {P : σ → Prop}
    {C : σ → ε → Prop} {s : σ} (hs : inv s) (hinv : ∀ s e, inv s → P s → inv (step s e))
    (h0 : P s) (hstep : ∀ s e, inv s → P s → (P (step s e) ↔ C s e)) (es : List ε) :
    Always step s P es ↔ EachStep step s C es := by
  have h := eachStep_always_iff (D := fun _ _ => True) inv hs hinv h0
    (fun s e hi hp => by simpa using hstep s e hi hp) es
  rw [← h]
  constructor
  · intro hP
    exact ⟨fun _ _ _ => trivial, hP⟩
  · exact And.right

/-- The last step of a run. -/
theorem EachStep.last {step : σ → ε → σ} {s : σ} {D : σ → ε → Prop} {es : List ε} {e : ε}
    (h : EachStep step s D (es ++ [e])) : D (run step s es) e :=
  h es e (List.prefix_refl _)

theorem EachStep.of_prefix {step : σ → ε → σ} {s : σ} {D : σ → ε → Prop} {pre es : List ε}
    (h : EachStep step s D es) (hpre : pre <+: es) : EachStep step s D pre :=
  fun first e hfirst => h first e (hfirst.trans hpre)

/-- Two demands that agree on every step. -/
theorem eachStep_congr {step : σ → ε → σ} {D C : σ → ε → Prop} {s : σ}
    (h : ∀ s e, D s e ↔ C s e) (es : List ε) : EachStep step s D es ↔ EachStep step s C es := by
  constructor
  · intro hD pre e he
    exact (h _ e).mp (hD pre e he)
  · intro hC pre e he
    exact (h _ e).mpr (hC pre e he)

/-- The weaker rule for an invariant that only good steps preserve: along a
run whose steps all meet `C`, it holds in every state. -/
theorem always_of_eachStep {step : σ → ε → σ} {inv : σ → Prop} {C : σ → ε → Prop} {s : σ}
    (hs : inv s) (hstep : ∀ s e, inv s → C s e → inv (step s e)) {es : List ε}
    (hC : EachStep step s C es) : Always step s inv es := by
  induction es using List.reverseRecOn with
  | nil => exact throughout_nil.mpr hs
  | append_singleton es e ih =>
    obtain ⟨hes, hlast⟩ := atEachStep_concat.mp hC
    have hpre := ih hes
    refine throughout_concat.mpr ⟨hpre, ?_⟩
    rw [run_concat]
    exact hstep (run step s es) e (hpre es (List.prefix_refl _)) hlast

/-- The state a run ends in. -/
theorem Always.last {step : σ → ε → σ} {s : σ} {P : σ → Prop} {es : List ε}
    (h : Always step s P es) : P (run step s es) :=
  h es (List.prefix_refl _)

/-- `always_iff_eachStep` along a run whose steps all meet `A`, which the
invariant and the equivalence may rely on. -/
theorem always_iff_eachStep_of {step : σ → ε → σ} (inv : σ → Prop) {P : σ → Prop}
    {A C : σ → ε → Prop} {s : σ} (hs : inv s)
    (hinv : ∀ s e, inv s → P s → A s e → inv (step s e)) (h0 : P s)
    (hstep : ∀ s e, inv s → P s → A s e → (P (step s e) ↔ C s e)) {es : List ε}
    (hA : EachStep step s A es) : Always step s P es ↔ EachStep step s C es := by
  -- as long as `P` holds, so does the invariant
  have hboth : (Always step s P es → inv (run step s es)) ∧
      (Always step s P es ↔ EachStep step s C es) := by
    induction es using List.reverseRecOn with
    | nil =>
      constructor
      · intro _
        exact hs
      · constructor
        · intro _
          exact atEachStep_nil
        · intro _
          exact throughout_nil.mpr h0
    | append_singleton es e ih =>
      rcases atEachStep_concat.mp hA with ⟨hA, hAe⟩
      rcases ih hA with ⟨hinvs, hiff⟩
      have hlast : Always step s P es → (P (run step s (es ++ [e])) ↔ C (run step s es) e) := by
        intro hP
        rw [run_concat]
        exact hstep _ e (hinvs hP) hP.last hAe
      constructor
      · intro h
        have hP : Always step s P es := (throughout_concat.mp h).1
        rw [run_concat]
        exact hinv _ e (hinvs hP) hP.last hAe
      · constructor
        · intro h
          rcases throughout_concat.mp h with ⟨hP, hPe⟩
          exact atEachStep_concat.mpr ⟨hiff.mp hP, (hlast hP).mp hPe⟩
        · intro h
          rcases atEachStep_concat.mp h with ⟨hC, hCe⟩
          have hP : Always step s P es := hiff.mpr hC
          exact throughout_concat.mpr ⟨hP, (hlast hP).mpr hCe⟩
  exact hboth.2

/-- A property of the states that yields a demand on the next step. -/
theorem Always.eachStep {step : σ → ε → σ} {s : σ} {P : σ → Prop} {D : σ → ε → Prop}
    {es : List ε} (h : Always step s P es) (hPD : ∀ s e, P s → D s e) : EachStep step s D es :=
  fun pre e hpre => hPD _ e (h pre ((List.prefix_append pre [e]).trans hpre))

theorem eachStep_cons {step : σ → ε → σ} {s : σ} {C : σ → ε → Prop} {e : ε} {es : List ε} :
    EachStep step s C (e :: es) ↔ C s e ∧ EachStep step (step s e) C es := by
  constructor
  · intro h
    refine ⟨h [] e (List.prefix_append [e] es), fun pre f hpre => ?_⟩
    exact h (e :: pre) f (List.cons_prefix_cons.mpr ⟨rfl, hpre⟩)
  · rintro ⟨he, hes⟩ pre f hpre
    cases pre with
    | nil =>
      obtain rfl := (List.cons_prefix_cons.mp hpre).1
      exact he
    | cons e' pre =>
      obtain ⟨rfl, htail⟩ := List.cons_prefix_cons.mp hpre
      exact hes pre f htail

theorem always_nil {step : σ → ε → σ} {s : σ} {P : σ → Prop} : Always step s P [] ↔ P s :=
  throughout_nil

theorem always_cons {step : σ → ε → σ} {s : σ} {P : σ → Prop} {e : ε} {es : List ε} :
    Always step s P (e :: es) ↔ P s ∧ Always step (step s e) P es := by
  constructor
  · intro h
    refine ⟨h [] List.nil_prefix, fun pre hpre => ?_⟩
    exact h (e :: pre) (List.cons_prefix_cons.mpr ⟨rfl, hpre⟩)
  · rintro ⟨hs, hes⟩ pre hpre
    cases pre with
    | nil => exact hs
    | cons e' pre =>
      obtain ⟨rfl, htail⟩ := List.cons_prefix_cons.mp hpre
      exact hes pre htail

/-- Properties of states that can be computed can be checked along a run. -/
instance decidableAlways (step : σ → ε → σ) (P : σ → Prop) [DecidablePred P] :
    ∀ (s : σ) (es : List ε), Decidable (Always step s P es)
  | s, [] => decidable_of_iff (P s) always_nil.symm
  | s, e :: es =>
    have := decidableAlways step P (step s e) es
    decidable_of_iff (P s ∧ Always step (step s e) P es) always_cons.symm

/-- Step conditions that can be computed can be checked along a run. -/
instance decidableEachStep (step : σ → ε → σ) (C : σ → ε → Prop) [∀ s e, Decidable (C s e)] :
    ∀ (s : σ) (es : List ε), Decidable (EachStep step s C es)
  | _, [] => isTrue atEachStep_nil
  | s, e :: es =>
    have := decidableEachStep step C (step s e) es
    decidable_of_iff (C s e ∧ EachStep step (step s e) C es) eachStep_cons.symm

/-! ## Steps that have been taken -/

/-- The run from `s` has a step that meets `D`, judged in the state before it. -/
def SomeStep (step : σ → ε → σ) (s : σ) (D : σ → ε → Prop) (es : List ε) : Prop :=
  ∃ pre e, pre ++ [e] <+: es ∧ D (run step s pre) e

theorem someStep_nil {step : σ → ε → σ} {s : σ} {D : σ → ε → Prop} : ¬ SomeStep step s D [] :=
  not_exists_moment_nil

theorem someStep_concat {step : σ → ε → σ} {s : σ} {D : σ → ε → Prop} {es : List ε} {e : ε} :
    SomeStep step s D (es ++ [e]) ↔ SomeStep step s D es ∨ D (run step s es) e :=
  exists_moment_concat

theorem SomeStep.mono {step : σ → ε → σ} {s : σ} {D : σ → ε → Prop} {pre es : List ε}
    (h : SomeStep step s D pre) (hpre : pre <+: es) : SomeStep step s D es := by
  rcases h with ⟨first, e, hfirst, hD⟩
  exact ⟨first, e, hfirst.trans hpre, hD⟩

/-- What holds after every step that meets `D`, and is kept by all, holds once
such a step has been taken. -/
theorem someStep_invariant {step : σ → ε → σ} (inv : σ → Prop) {P : σ → Prop}
    {D : σ → ε → Prop} (hinv : ∀ s e, inv s → inv (step s e))
    (hset : ∀ s e, inv s → D s e → P (step s e)) (hkeep : ∀ s e, inv s → P s → P (step s e))
    {s : σ} (hs : inv s) {es : List ε} (h : SomeStep step s D es) : P (run step s es) := by
  induction es using List.reverseRecOn with
  | nil => exact absurd h someStep_nil
  | append_singleton es e ih =>
    have hlast : inv (run step s es) := run_invariant inv hinv hs es
    rw [run_concat]
    rcases someStep_concat.mp h with h | h
    · exact hkeep _ e hlast (ih h)
    · exact hset _ e hlast h

/-- `A` sets `P`, `D` clears it, and nothing is set after it has been cleared:
`P` holds after the runs with an `A` and without a `D`. -/
theorem on_iff_someStep {step : σ → ε → σ} (inv : σ → Prop) {P : σ → Prop} {A D : σ → ε → Prop}
    (hinv : ∀ s e, inv s → inv (step s e)) {s : σ} (hs : inv s) (h0 : ¬ P s)
    (hstep : ∀ s e, inv s → (P (step s e) ↔ (P s ∨ A s e) ∧ ¬ D s e))
    (honce : ∀ es e, SomeStep step s D es → ¬ A (run step s es) e) (es : List ε) :
    P (run step s es) ↔ SomeStep step s A es ∧ ¬ SomeStep step s D es := by
  induction es using List.reverseRecOn with
  | nil =>
    constructor
    · intro h
      exact absurd h h0
    · rintro ⟨hA, _⟩
      exact absurd hA someStep_nil
  | append_singleton es e ih =>
    have hbefore := honce es e
    rw [run_concat, hstep _ e (run_invariant inv hinv hs es), ih, someStep_concat, someStep_concat]
    constructor
    · rintro ⟨⟨hA, hD⟩ | hA, hlast⟩
      · exact ⟨Or.inl hA, fun h => h.elim hD hlast⟩
      · exact ⟨Or.inr hA, fun h => h.elim (fun h => hbefore h hA) hlast⟩
    · rintro ⟨hA, hD⟩
      refine ⟨?_, fun hlast => hD (Or.inr hlast)⟩
      rcases hA with hA | hA
      · exact Or.inl ⟨hA, fun h => hD (Or.inl h)⟩
      · exact Or.inr hA

/-! ## Counting steps -/

/-- How many steps of the run from `s` are marked. -/
def countSteps (step : σ → ε → σ) (mark : σ → ε → Bool) : σ → List ε → Nat
  | _, [] => 0
  | s, e :: es => (mark s e).toNat + countSteps step mark (step s e) es

/-- A step counts for one if it is marked. -/
theorem toNat_mark (p : Prop) [Decidable p] : (decide p).toNat = if p then 1 else 0 := by
  by_cases hp : p
  · simp [hp]
  · simp [hp]

theorem countSteps_false (step : σ → ε → σ) (s : σ) (es : List ε) :
    countSteps step (fun _ _ => false) s es = 0 := by
  induction es generalizing s with
  | nil => rfl
  | cons e es ih => rw [countSteps, ih, Bool.toNat_false]

/-- `Budget s es b` grants the run `es` from `s` at most `b` marked steps, and
what is left after a step is again a budget. -/
theorem countSteps_le {step : σ → ε → σ} {mark : σ → ε → Bool}
    (Budget : σ → List ε → Nat → Prop)
    (hstep : ∀ s e es b, Budget s (e :: es) b →
      ∃ b', (mark s e).toNat + b' ≤ b ∧ Budget (step s e) es b')
    {s : σ} {es : List ε} {b : Nat} (h : Budget s es b) : countSteps step mark s es ≤ b := by
  induction es generalizing s b with
  | nil => exact Nat.zero_le b
  | cons e es ih =>
    rcases hstep s e es b h with ⟨b', hspent, hleft⟩
    have hrest : countSteps step mark (step s e) es ≤ b' := ih hleft
    rw [countSteps]
    omega

/-! ## What the steps put out -/

/-- What the steps of the run put out, one after the other. -/
def collect (step : σ → ε → σ) (out : σ → ε → List β) : σ → List ε → List β
  | _, [] => []
  | s, e :: es => out s e ++ collect step out (step s e) es

/-- A log to which every step adds what it puts out. -/
theorem log_run {step : σ → ε → σ} (inv : σ → Prop) (hinv : ∀ s e, inv s → inv (step s e))
    {log : σ → List β} {out : σ → ε → List β}
    (hstep : ∀ s e, inv s → log (step s e) = log s ++ out s e) {s : σ} (hs : inv s)
    (es : List ε) : log (run step s es) = log s ++ collect step out s es := by
  induction es generalizing s with
  | nil => simp [collect]
  | cons e es ih =>
    rw [run_cons, ih (hinv s e hs), hstep s e hs, List.append_assoc]
    rfl

theorem collect_map {γ : Type w'} (step : σ → ε → σ) (out : σ → ε → List β) (f : β → γ) (s : σ)
    (es : List ε) :
    collect step (fun s e => (out s e).map f) s es = (collect step out s es).map f := by
  induction es generalizing s with
  | nil => rfl
  | cons e es ih => rw [collect, collect, List.map_append, ih]

theorem Always.mono {step : σ → ε → σ} {s : σ} {P Q : σ → Prop} {es : List ε}
    (h : Always step s P es) (hPQ : ∀ s, P s → Q s) : Always step s Q es :=
  fun pre hpre => hPQ _ (h pre hpre)

end Runs
