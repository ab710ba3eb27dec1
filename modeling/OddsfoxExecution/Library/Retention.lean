import Mathlib.Data.List.Basic
import Mathlib.Order.Lattice

/-!
# A pruned log and its copies

Entries numbered one after the other, the oldest of which are dropped.  A copy
of the log covers a number as long as every entry that is still kept up to that
number is in the copy: entries appended later have greater numbers and entries
dropped later need no copy any more.
-/

namespace NumberedLog

variable {α : Type} {number : α → Nat} {entries later : List α} {next cutoff : Nat}

/-- The entries carry consecutive numbers, and the next one drawn follows them. -/
def Consecutive (number : α → Nat) (entries : List α) (next : Nat) : Prop :=
  ∃ first, entries.map number = List.range' first entries.length ∧ first + entries.length = next

theorem Consecutive.nil (number : α → Nat) (next : Nat) : Consecutive number [] next :=
  ⟨next, rfl, rfl⟩

theorem Consecutive.append (h : Consecutive number entries next)
    (hlater : later.map number = List.range' next later.length) :
    Consecutive number (entries ++ later) (next + later.length) := by
  obtain ⟨first, hnumbers, rfl⟩ := h
  refine ⟨first, ?_, ?_⟩
  · rw [List.map_append, hnumbers, hlater, List.length_append, List.range'_append_1]
  · rw [List.length_append, Nat.add_assoc]

theorem Consecutive.max?_eq (h : Consecutive number entries next) (hsome : entries ≠ []) :
    (entries.map number).max? = some (next - 1) := by
  obtain ⟨first, hnumbers, rfl⟩ := h
  have hpos := List.length_pos_of_ne_nil hsome
  rw [List.max?_eq_some_iff, hnumbers]
  simp only [List.mem_range'_1]
  refine ⟨by omega, fun b hb => ?_⟩
  omega

/-- Dropping what is numbered up to a cutoff drops from the front. -/
theorem filter_eq_drop {first : Nat} (h : entries.map number = List.range' first entries.length) :
    (entries.filter fun a => cutoff < number a) = entries.drop (cutoff + 1 - first) := by
  induction entries generalizing first with
  | nil => simp
  | cons a rest ih =>
    rw [List.map_cons, List.length_cons, List.range'_succ, List.cons.injEq] at h
    obtain ⟨hfirst, hrest⟩ := h
    by_cases hkeep : cutoff < number a
    · have hzero : cutoff + 1 - first = 0 := by omega
      have hzero' : cutoff + 1 - (first + 1) = 0 := by omega
      rw [List.filter_cons_of_pos (by simpa using hkeep), ih hrest, hzero, hzero', List.drop_zero,
        List.drop_zero]
    · have hsucc : cutoff + 1 - first = (cutoff + 1 - (first + 1)) + 1 := by omega
      rw [List.filter_cons_of_neg (by simpa using hkeep), ih hrest, hsucc, List.drop_succ_cons]

theorem Consecutive.prune (h : Consecutive number entries next) (hcutoff : cutoff < next) :
    Consecutive number (entries.filter fun a => cutoff < number a) next := by
  obtain ⟨first, hnumbers, rfl⟩ := h
  rw [filter_eq_drop hnumbers]
  rcases Nat.le_total first (cutoff + 1) with hle | hle
  · refine ⟨cutoff + 1, ?_, ?_⟩
    · rw [List.map_drop, hnumbers, List.drop_range', List.length_drop]
      congr 1
      omega
    · rw [List.length_drop]
      omega
  · rw [Nat.sub_eq_zero_of_le hle, List.drop_zero]
    exact ⟨first, hnumbers, rfl⟩

/-- As many entries stay as are numbered above the cutoff. -/
theorem Consecutive.length_prune (h : Consecutive number entries next) (cutoff : Nat) :
    (entries.filter fun a => cutoff < number a).length =
      min entries.length (next - 1 - cutoff) := by
  obtain ⟨first, hnumbers, rfl⟩ := h
  rw [filter_eq_drop hnumbers, List.length_drop]
  omega

/-! ## Copies -/

/-- A copy has every entry that is kept up to the number. -/
def Covers (number : α → Nat) (copy entries : List α) (upTo : Nat) : Prop :=
  ∀ a ∈ entries, number a ≤ upTo → a ∈ copy

variable {copy : List α} {upTo : Nat}

theorem Covers.self : Covers number entries entries upTo := fun _ ha _ => ha

theorem Covers.of_subset (h : Covers number copy entries upTo) {kept : List α}
    (hkept : kept ⊆ entries) : Covers number copy kept upTo := fun a ha => h a (hkept ha)

theorem Covers.append (h : Covers number copy entries upTo) (hupTo : upTo < next)
    (hlater : later.map number = List.range' next later.length) :
    Covers number copy (entries ++ later) upTo := by
  intro a ha hle
  rcases List.mem_append.mp ha with hold | hnew
  · exact h a hold hle
  · have hmem := List.mem_map_of_mem (f := number) hnew
    rw [hlater, List.mem_range'_1] at hmem
    omega

end NumberedLog
