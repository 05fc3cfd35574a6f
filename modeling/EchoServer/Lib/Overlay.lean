import Mathlib.Data.List.Basic

/-!
# Overlaying a list at a position

`overlay l i xs` is `l` with the elements from position `i` on replaced by
`xs`: what copying a block of memory onto another one does. The lemmas say
what is found below, at and above the copied block. `copyForward` is the loop that
copies within one list; it is an overlay where the target is not above the
source (`copyForward_eq_overlay`).
-/

namespace Overlay

variable {α : Type u}

/-- `l` with `xs` written over it from position `i` on. -/
def overlay (l : List α) (i : Nat) (xs : List α) : List α :=
  l.take i ++ xs ++ l.drop (i + xs.length)

theorem length_overlay {l : List α} {i : Nat} {xs : List α} (h : i + xs.length ≤ l.length) :
    (overlay l i xs).length = l.length := by
  simp only [overlay, List.length_append, List.length_take, List.length_drop]
  omega

@[simp] theorem overlay_nil (l : List α) (i : Nat) : overlay l i [] = l := by
  simp [overlay]

/-- Below the block nothing changes. -/
theorem take_overlay {l : List α} {i : Nat} {xs : List α} (hi : i ≤ l.length) :
    (overlay l i xs).take i = l.take i := by
  have hlen : (l.take i).length = i := by
    simp only [List.length_take]
    omega
  rw [overlay, List.append_assoc, List.take_append_of_le_length (by omega)]
  exact List.take_of_length_le (by omega)

/-- From the block's start one reads the block and then the old elements. -/
theorem drop_overlay {l : List α} {i : Nat} {xs : List α} (hi : i ≤ l.length) :
    (overlay l i xs).drop i = xs ++ l.drop (i + xs.length) := by
  have hlen : (l.take i).length = i := by
    simp only [List.length_take]
    omega
  rw [overlay, List.append_assoc, List.drop_append_of_le_length (by omega)]
  rw [List.drop_of_length_le (by omega), List.nil_append]

/-- The window from `r` up to the end of a block written at `i ≥ r`. -/
theorem window_overlay {l : List α} {i r : Nat} (hr : r ≤ i) (hi : i ≤ l.length) (xs : List α) :
    ((overlay l i xs).drop r).take (i + xs.length - r) = (l.drop r).take (i - r) ++ xs := by
  have hsplit : overlay l i xs = l.take i ++ (xs ++ l.drop (i + xs.length)) := by
    rw [overlay, List.append_assoc]
  have hlen : (l.take i).length = i := by
    simp only [List.length_take]
    omega
  rw [hsplit, List.drop_append_of_le_length (by omega), List.drop_take]
  have hlen' : ((l.drop r).take (i - r)).length = i - r := by
    simp only [List.length_take, List.length_drop]
    omega
  rw [List.take_append, hlen', List.take_of_length_le (by omega)]
  have hk : i + xs.length - r - (i - r) = xs.length := by
    omega
  rw [hk, List.take_left]

/-- The window below the block is untouched. -/
theorem window_below {l : List α} {i r n : Nat} {xs : List α} (hi : i ≤ l.length)
    (hn : r + n ≤ i) :
    ((overlay l i xs).drop r).take n = (l.drop r).take n := by
  have htake : ∀ m : List α, (m.drop r).take n = ((m.take i).drop r).take n := by
    intro m
    rw [List.drop_take, List.take_take, Nat.min_eq_left (by omega)]
  rw [htake (overlay l i xs), take_overlay hi, ← htake l]

/-! ## Copying inside a list -/

/-- Copies `n` elements from `src` on to `dst` on, one after the other, so that a
copy may overwrite what is still to be copied. -/
def copyForward (l : List α) (src dst : Nat) : Nat → List α
  | 0 => l
  | n + 1 =>
    match l[src]? with
    | none => l
    | some x => copyForward (l.set dst x) (src + 1) (dst + 1) n

theorem overlay_cons {l : List α} {i : Nat} (hi : i < l.length) (x : α) (xs : List α) :
    overlay l i (x :: xs) = overlay (l.set i x) (i + 1) xs := by
  have htake : (l.set i x).take (i + 1) = l.take i ++ [x] := by
    rw [List.take_add_one, List.take_set_of_le (Nat.le_refl i), List.getElem?_set_self hi]
    rfl
  have hdrop : (l.set i x).drop (i + 1 + xs.length) = l.drop (i + (x :: xs).length) := by
    rw [List.drop_set_of_lt (by omega), List.length_cons]
    congr 1
    omega
  rw [overlay, overlay, htake, hdrop]
  simp

/-- A copy to a lower position overwrites only what it has copied already. -/
theorem copyForward_eq_overlay {l : List α} {src dst n : Nat} (hdst : dst ≤ src)
    (hn : src + n ≤ l.length) :
    copyForward l src dst n = overlay l dst ((l.drop src).take n) := by
  induction n generalizing l src dst with
  | zero => simp [copyForward]
  | succ n ih =>
    have hsrc : src < l.length := by omega
    have hlen : src + 1 + n ≤ (l.set dst l[src]).length := by
      rw [List.length_set]
      omega
    rw [copyForward, List.getElem?_eq_getElem hsrc]
    simp only
    rw [ih (by omega) hlen, List.drop_set_of_lt (by omega), List.drop_eq_getElem_cons hsrc,
      List.take_succ_cons, overlay_cons (by omega)]

end Overlay
