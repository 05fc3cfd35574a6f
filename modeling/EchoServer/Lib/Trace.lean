import Mathlib.Data.List.Basic

/-!
# Growing traces

A step of a program appends to its trace. `Extends Q t t'` says that `t'` is
`t` with events appended that all satisfy `Q`; what `Q` rules out is then
unchanged by the step, whether it is read off by membership, by `filter` or by
`flatMap`.
-/

namespace Trace

variable {ε : Type u} {β : Type v}

/-- `t'` is `t` followed by events that all satisfy `Q`. -/
def Extends (Q : ε → Prop) (t t' : List ε) : Prop :=
  ∃ es, t' = t ++ es ∧ ∀ e ∈ es, Q e

theorem Extends.refl (Q : ε → Prop) (t : List ε) : Extends Q t t :=
  ⟨[], by simp, by simp⟩

theorem Extends.one {Q : ε → Prop} {e : ε} (h : Q e) (t : List ε) : Extends Q t (t ++ [e]) :=
  ⟨[e], rfl, by simpa using h⟩

theorem Extends.trans {Q : ε → Prop} {t t' t'' : List ε} (h : Extends Q t t')
    (h' : Extends Q t' t'') : Extends Q t t'' := by
  obtain ⟨es, rfl, hes⟩ := h
  obtain ⟨fs, rfl, hfs⟩ := h'
  refine ⟨es ++ fs, by simp, ?_⟩
  intro e he
  rcases List.mem_append.mp he with he | he
  · exact hes e he
  · exact hfs e he

theorem Extends.mono {Q R : ε → Prop} {t t' : List ε} (h : Extends Q t t')
    (hQR : ∀ e, Q e → R e) : Extends R t t' := by
  obtain ⟨es, rfl, hes⟩ := h
  exact ⟨es, rfl, fun e he => hQR e (hes e he)⟩

/-- An old event stays. -/
theorem Extends.mem_of_mem {Q : ε → Prop} {t t' : List ε} (h : Extends Q t t') {e : ε}
    (he : e ∈ t) : e ∈ t' := by
  obtain ⟨es, rfl, _⟩ := h
  exact List.mem_append_left es he

/-- An event is old or satisfies `Q`. -/
theorem Extends.mem_or {Q : ε → Prop} {t t' : List ε} (h : Extends Q t t') {e : ε}
    (he : e ∈ t') : e ∈ t ∨ Q e := by
  obtain ⟨es, rfl, hes⟩ := h
  rcases List.mem_append.mp he with he | he
  · exact Or.inl he
  · exact Or.inr (hes e he)

theorem Extends.mem_iff {Q : ε → Prop} {t t' : List ε} (h : Extends Q t t') {e : ε}
    (he : ¬ Q e) : e ∈ t' ↔ e ∈ t := by
  constructor
  · intro hmem
    rcases h.mem_or hmem with hmem | hQ
    · exact hmem
    · exact absurd hQ he
  · exact h.mem_of_mem

/-- A filter that no new event passes reads the same off both traces. -/
theorem Extends.filter_eq {Q : ε → Prop} {p : ε → Bool} {t t' : List ε} (h : Extends Q t t')
    (hp : ∀ e, Q e → p e = false) : t'.filter p = t.filter p := by
  obtain ⟨es, rfl, hes⟩ := h
  have hnil : es.filter p = [] := by
    rw [List.filter_eq_nil_iff]
    intro e he
    simp [hp e (hes e he)]
  rw [List.filter_append, hnil, List.append_nil]

/-- A projection that is empty on every new event reads the same off both. -/
theorem Extends.flatMap_eq {Q : ε → Prop} {f : ε → List β} {t t' : List ε} (h : Extends Q t t')
    (hf : ∀ e, Q e → f e = []) : t'.flatMap f = t.flatMap f := by
  obtain ⟨es, rfl, hes⟩ := h
  have hnil : es.flatMap f = [] := by
    rw [List.flatMap_eq_nil_iff]
    intro e he
    exact hf e (hes e he)
  rw [List.flatMap_append, hnil, List.append_nil]

/-- A projection with nothing on every new event finds nothing in what is new. -/
theorem Extends.filterMap_drop {Q : ε → Prop} {f : ε → Option β} {t t' : List ε}
    (h : Extends Q t t') (hf : ∀ e, Q e → f e = none) :
    (t'.drop t.length).filterMap f = [] := by
  rcases h with ⟨es, rfl, hes⟩
  rw [List.drop_left, List.filterMap_eq_nil_iff]
  intro e he
  exact hf e (hes e he)

end Trace
