import OddsfoxExecution.Library.Table
import Mathlib.Algebra.BigOperators.Group.List.Basic
import Mathlib.Algebra.Order.BigOperators.Group.List
import Mathlib.Tactic.Abel

/-!
# Sums over tables

What appending a row and replacing one do to the sum of a column.
-/

namespace Table

variable {α κ M : Type} [DecidableEq κ] {key : α → κ} {t : List α}

theorem sum_filter [AddCommMonoid M] (p : α → Prop) [DecidablePred p] (column : α → M) :
    ((t.filter fun row => decide (p row)).map column).sum =
      (t.map fun row => if p row then column row else 0).sum := by
  induction t with
  | nil => rfl
  | cons row rest ih =>
    by_cases hp : p row <;> simp [hp, ih]

/-- The sum of a column, split at one row, with what replacing the row does to it. -/
theorem sum_split [AddCommMonoid M] (column : α → M) (hnodup : (t.map key).Nodup) {old : α}
    (hold : old ∈ t) : ∃ rest, (t.map column).sum = column old + rest ∧
      ∀ new, key new = key old → ((replace key new t).map column).sum = column new + rest := by
  induction t with
  | nil => cases hold
  | cons row others ih =>
    obtain ⟨hfresh, hothers⟩ := List.nodup_cons.mp hnodup
    have hcons : ∀ new, replace key new (row :: others) =
        (if key row = key new then new else row) :: replace key new others := fun _ => rfl
    rcases List.mem_cons.mp hold with rfl | hold
    · refine ⟨(others.map column).sum, by rw [List.map_cons, List.sum_cons], fun new hkey => ?_⟩
      have hkept : replace key new others = others := updateWhere_eq_self fun other hother heq =>
        hfresh (List.mem_map.mpr ⟨other, hother, heq.trans hkey⟩)
      rw [hcons, if_pos hkey.symm, hkept, List.map_cons, List.sum_cons]
    · obtain ⟨rest, hsum, hreplaced⟩ := ih hothers hold
      refine ⟨column row + rest, ?_, fun new hkey => ?_⟩
      · rw [List.map_cons, List.sum_cons, hsum, add_left_comm]
      · have hne : key row ≠ key new := fun heq =>
          hfresh (List.mem_map.mpr ⟨old, hold, (heq.trans hkey).symm⟩)
        rw [hcons, if_neg hne, List.map_cons, List.sum_cons, hreplaced new hkey, add_left_comm]

section Group

variable [AddCommGroup M] {column : α → M}

theorem sum_append_row (row : α) :
    ((t ++ [row]).map column).sum = (t.map column).sum + column row := by
  rw [List.map_append, List.sum_append, List.map_singleton, List.sum_singleton]

/-- Replacing a row changes the sum by the difference of the two rows. -/
theorem sum_replace (hnodup : (t.map key).Nodup) {old new : α} (hold : old ∈ t)
    (hkey : key new = key old) :
    ((replace key new t).map column).sum = (t.map column).sum - column old + column new := by
  obtain ⟨rest, hsum, hreplaced⟩ := sum_split column hnodup hold
  rw [hsum, hreplaced new hkey]
  abel

end Group

section Ordered

variable [AddCommMonoid M] [PartialOrder M] [IsOrderedAddMonoid M] {column : α → M}

theorem sum_nonneg (hnonneg : ∀ row ∈ t, 0 ≤ column row) : 0 ≤ (t.map column).sum :=
  List.sum_nonneg fun _ hvalue => by
    obtain ⟨row, hrow, rfl⟩ := List.mem_map.mp hvalue
    exact hnonneg row hrow

/-- One row of a column without negative values is at most its sum. -/
theorem le_sum (hnonneg : ∀ row ∈ t, 0 ≤ column row) {row : α} (hrow : row ∈ t) :
    column row ≤ (t.map column).sum :=
  List.single_le_sum (fun _ hvalue => by
    obtain ⟨other, hother, rfl⟩ := List.mem_map.mp hvalue
    exact hnonneg other hother) _ (List.mem_map.mpr ⟨row, hrow, rfl⟩)

end Ordered

end Table
