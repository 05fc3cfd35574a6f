import Mathlib.Algebra.Group.Int.Defs
import Mathlib.Algebra.Group.Nat.Defs
import Mathlib.Data.List.Basic
import Mathlib.Order.Basic

/-!
# Decimal texts

Numbers as `printf` renders them, and the order of the texts.

* `readInt_render`, `readNat_zeroPadded`: reading `%d` and `%0wd` gives the number back;
* `zeroPadded_lt_iff`: numbers that fit a fixed width are ordered as their
  zero-padded texts are;
* `append_lt_append_iff`: texts made of parts of fixed widths are compared part
  by part.
-/

namespace Decimal

/-! ## Truncated division -/

/-- Division rounds towards zero. -/
theorem tdiv_eq (v d : Int) : v.tdiv d = if 0 ≤ v then v / d else -(-v / d) := by
  split
  · rename_i h
    exact Int.tdiv_eq_ediv_of_nonneg h
  · rename_i h
    have hneg : v.tdiv d = -((-v).tdiv d) := by rw [Int.neg_tdiv, Int.neg_neg]
    rw [hneg, Int.tdiv_eq_ediv_of_nonneg (by omega)]

/-- The remainder has the sign of the dividend. -/
theorem tmod_eq (v d : Int) : v.tmod d = if 0 ≤ v then v % d else -(-v % d) := by
  split
  · rename_i h
    exact Int.tmod_eq_emod_of_nonneg h
  · rename_i h
    have hneg : v.tmod d = -((-v).tmod d) := by rw [Int.neg_tmod, Int.neg_neg]
    rw [hneg, Int.tmod_eq_emod_of_nonneg (by omega)]

/-! ## Rendering -/

/-- `%d`. -/
def render (v : Int) : List Char := v.repr.toList

/-- `%0wd` of a number that is not negative. -/
def zeroPadded (w n : Nat) : List Char := (Nat.toDigits 10 n).leftpad w '0'

/-- `%0wd`: the sign goes before the zeros. -/
def percent0 (w : Nat) (v : Int) : List Char :=
  if v < 0 then '-' :: zeroPadded (w - 1) v.natAbs else zeroPadded w v.natAbs

/-- `%wd`: blanks go before the sign. -/
def percent (w : Nat) (v : Int) : List Char := (render v).leftpad w ' '

theorem render_of_nonneg {v : Int} (h : 0 ≤ v) : render v = Nat.toDigits 10 v.natAbs := by
  cases v with
  | ofNat n => exact Nat.toList_repr
  | negSucc n => exact absurd h (by omega)

theorem render_of_neg {v : Int} (h : v < 0) : render v = '-' :: Nat.toDigits 10 v.natAbs := by
  cases v with
  | ofNat n => exact absurd h (by simp)
  | negSucc n =>
    have htext : (Int.negSucc n).repr = "-" ++ (n + 1).repr := rfl
    rw [render, htext, String.toList_append, Nat.toList_repr]
    rfl

/-! ## Reading back -/

/-- Decimal digits, at least one. -/
def readNat (cs : List Char) : Option Nat :=
  if cs ≠ [] ∧ cs.all Char.isDigit then some (Nat.ofDigitChars 10 cs 0) else none

/-- Digits, or `-` and digits. -/
def readInt : List Char → Option Int
  | '-' :: cs => (readNat cs).map fun n : Nat => -(n : Int)
  | cs => (readNat cs).map fun n : Nat => (n : Int)

theorem readNat_toDigits (n : Nat) : readNat (Nat.toDigits 10 n) = some n := by
  have hall : (Nat.toDigits 10 n).all Char.isDigit = true := by
    rw [List.all_eq_true]
    intro c hc
    exact Nat.isDigit_of_mem_toDigits (by decide) (by decide) hc
  rw [readNat, if_pos ⟨Nat.toDigits_ne_nil, hall⟩, Nat.ofDigitChars_ten_toDigits]

/-- Reading what has been rendered. -/
theorem readInt_render (v : Int) : readInt (render v) = some v := by
  by_cases h : v < 0
  · rw [render_of_neg h, readInt, readNat_toDigits, Option.map_some]
    congr 1
    omega
  · have hnonneg : 0 ≤ v := by omega
    rw [render_of_nonneg hnonneg]
    have hread : readInt (Nat.toDigits 10 v.natAbs) =
        (readNat (Nat.toDigits 10 v.natAbs)).map fun n : Nat => (n : Int) := by
      unfold readInt
      split
      · rename_i cs heq
        -- a digit is no sign
        have hdigit := Nat.isDigit_of_mem_toDigits (b := 10) (n := v.natAbs) (c := '-')
          (by decide) (by decide) (by rw [heq]; exact List.mem_cons_self ..)
        exact absurd hdigit (by decide)
      · rfl
    rw [hread, readNat_toDigits, Option.map_some]
    congr 1
    omega

theorem render_injective {v w : Int} (h : render v = render w) : v = w := by
  have hread := congrArg readInt h
  rwa [readInt_render, readInt_render, Option.some.injEq] at hread

theorem length_percent (w : Nat) (v : Int) : (percent w v).length = max w (render v).length := by
  rw [percent, List.length_leftpad]

/-- A blank is no digit and no sign. -/
theorem blank_not_mem_render (v : Int) : ' ' ∉ render v := by
  have hdigits : ' ' ∉ Nat.toDigits 10 v.natAbs := by
    intro hmem
    exact absurd (Nat.isDigit_of_mem_toDigits (by decide) (by decide) hmem) (by decide)
  by_cases h : v < 0
  · rw [render_of_neg h, List.mem_cons]
    rintro (heq | hmem)
    · exact absurd heq (by decide)
    · exact hdigits hmem
  · rw [render_of_nonneg (by omega)]
    exact hdigits

/-- The blanks in front can be taken off again. -/
theorem dropWhile_percent (w : Nat) (v : Int) : (percent w v).dropWhile (· == ' ') = render v := by
  have hblanks : ∀ k, (List.replicate k ' ' ++ render v).dropWhile (· == ' ') = render v := by
    intro k
    induction k with
    | zero =>
      cases htext : render v with
      | nil => rfl
      | cons c text =>
        have hc : ¬ (c == ' ') = true := by
          intro heq
          have hmem : c ∈ render v := by
            rw [htext]
            exact List.mem_cons_self ..
          rw [eq_of_beq heq] at hmem
          exact blank_not_mem_render v hmem
        exact List.dropWhile_cons_of_neg hc
    | succ k ih => exact ih
  exact hblanks _

theorem percent_injective {w : Nat} {v u : Int} (h : percent w v = percent w u) : v = u := by
  have hdrop := congrArg (List.dropWhile (· == ' ')) h
  rw [dropWhile_percent, dropWhile_percent] at hdrop
  exact render_injective hdrop

/-! ## The order of texts -/

/-- Texts that begin with parts of one width. -/
theorem append_lt_append_iff {a b c d : List Char} (h : a.length = b.length) :
    a ++ c < b ++ d ↔ a < b ∨ a = b ∧ c < d := by
  induction a generalizing b with
  | nil =>
    obtain rfl := List.length_eq_zero_iff.mp h.symm
    simp
  | cons x a ih =>
    cases b with
    | nil => simp at h
    | cons y b =>
      rw [List.cons_append, List.cons_append, List.cons_lt_cons_iff, List.cons_lt_cons_iff,
        ih (by simpa using h), List.cons.injEq]
      tauto

theorem cons_lt_cons {x : Char} {a b : List Char} : x :: a < x :: b ↔ a < b := by
  rw [List.cons_lt_cons_iff]
  constructor
  · rintro (hlt | ⟨_, hlt⟩)
    · exact absurd hlt (Char.lt_irrefl x)
    · exact hlt
  · intro hlt
    exact Or.inr ⟨rfl, hlt⟩

/-- One digit less. -/
theorem zeroPadded_succ (w n : Nat) (hw : 0 < w) :
    zeroPadded (w + 1) n = zeroPadded w (n / 10) ++ [(n % 10).digitChar] := by
  unfold zeroPadded List.leftpad
  by_cases hn : n < 10
  · have hdiv : n / 10 = 0 := by omega
    have hmod : n % 10 = n := by omega
    have hw' : w = w - 1 + 1 := by omega
    rw [hdiv, hmod, Nat.toDigits_of_lt_base hn, Nat.toDigits_zero]
    have hzeros : List.replicate w '0' = List.replicate (w - 1) '0' ++ ['0'] := by
      rw [hw', List.replicate_succ']
      rfl
    simp [hzeros]
  · rw [Nat.toDigits_of_base_le (by decide) (by omega : 10 ≤ n)]
    simp [Nat.add_sub_add_right]

theorem zeroPadded_one {n : Nat} (h : n < 10) : zeroPadded 1 n = [n.digitChar] := by
  simp [zeroPadded, List.leftpad, Nat.toDigits_of_lt_base h]

theorem length_zeroPadded {w n : Nat} (hw : 0 < w) (hn : n < 10 ^ w) :
    (zeroPadded w n).length = w := by
  have hle : (Nat.toDigits 10 n).length ≤ w := (Nat.length_toDigits_le_iff (by decide) hw).mpr hn
  simp [zeroPadded]
  omega

theorem digitChar_lt_iff : ∀ m < 10, ∀ n < 10, (m.digitChar < n.digitChar ↔ m < n) := by
  decide

theorem digitChar_inj : ∀ m < 10, ∀ n < 10, m.digitChar = n.digitChar → m = n := by
  decide

/-- The last digit can be split off below `10 ^ (w + 1)`. -/
theorem div_lt_of_lt_pow_succ {w n : Nat} (h : n < 10 ^ (w + 1)) : n / 10 < 10 ^ w := by
  rw [Nat.pow_succ] at h
  omega

theorem zeroPadded_injective {w : Nat} (hw : 0 < w) {m n : Nat} (hm : m < 10 ^ w)
    (hn : n < 10 ^ w) (h : zeroPadded w m = zeroPadded w n) : m = n := by
  induction w generalizing m n with
  | zero => exact absurd hw (Nat.lt_irrefl 0)
  | succ w ih =>
    rcases Nat.eq_zero_or_pos w with rfl | hpos
    · rw [zeroPadded_one hm, zeroPadded_one hn] at h
      exact digitChar_inj m hm n hn (List.singleton_inj.mp h)
    · rw [zeroPadded_succ w m hpos, zeroPadded_succ w n hpos] at h
      rcases List.append_inj' h rfl with ⟨hfirst, hlast⟩
      have hdiv := ih hpos (div_lt_of_lt_pow_succ hm) (div_lt_of_lt_pow_succ hn) hfirst
      have hmod := digitChar_inj (m % 10) (by omega) (n % 10) (by omega)
        (List.singleton_inj.mp hlast)
      omega

/-- The order of numbers is the order of their zero-padded texts. -/
theorem zeroPadded_lt_iff {w : Nat} (hw : 0 < w) {m n : Nat} (hm : m < 10 ^ w) (hn : n < 10 ^ w) :
    zeroPadded w m < zeroPadded w n ↔ m < n := by
  induction w generalizing m n with
  | zero => exact absurd hw (Nat.lt_irrefl 0)
  | succ w ih =>
    rcases Nat.eq_zero_or_pos w with rfl | hpos
    · rw [zeroPadded_one hm, zeroPadded_one hn, List.cons_lt_cons_iff]
      simp [digitChar_lt_iff m hm n hn]
    · have hm' := div_lt_of_lt_pow_succ hm
      have hn' := div_lt_of_lt_pow_succ hn
      have hlength : (zeroPadded w (m / 10)).length = (zeroPadded w (n / 10)).length := by
        rw [length_zeroPadded hpos hm', length_zeroPadded hpos hn']
      rw [zeroPadded_succ w m hpos, zeroPadded_succ w n hpos, append_lt_append_iff hlength,
        ih hpos hm' hn', List.cons_lt_cons_iff]
      have hlast := digitChar_lt_iff (m % 10) (by omega) (n % 10) (by omega)
      have heq : zeroPadded w (m / 10) = zeroPadded w (n / 10) ↔ m / 10 = n / 10 := by
        constructor
        · exact zeroPadded_injective hpos hm' hn'
        · intro h
          rw [h]
      simp only [heq, hlast, List.not_lt_nil, and_false, or_false]
      omega

end Decimal
