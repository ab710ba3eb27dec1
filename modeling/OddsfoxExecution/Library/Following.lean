import OddsfoxExecution.Library.Retention

/-!
# Following a numbered log

A reader takes the entries of a log above the number it begins with, and goes
on from the number of the last one it has seen.  What it has read is then a
beginning of all there is above its first number, so it needs to know no more
than where it stands.
-/

namespace NumberedLog

variable {α : Type} {number : α → Nat} {log read entries later : List α} {first n m : Nat}

/-- Each entry has a greater number than those before it. -/
def Increasing (number : α → Nat) (entries : List α) : Prop :=
  entries.Pairwise fun a b => number a < number b

theorem increasing_append :
    Increasing number (entries ++ later) ↔ Increasing number entries ∧ Increasing number later ∧
      ∀ a ∈ entries, ∀ b ∈ later, number a < number b :=
  List.pairwise_append

theorem Increasing.sublist (h : Increasing number entries) (hsub : later.Sublist entries) :
    Increasing number later :=
  List.Pairwise.sublist hsub h

theorem increasing_of_range' (h : entries.map number = List.range' first entries.length) :
    Increasing number entries := by
  have hnumbers : (entries.map number).Pairwise (· < ·) := by
    rw [h]
    exact List.pairwise_lt_range'
  exact List.pairwise_map.mp hnumbers

/-- The entries above a number. -/
def above (number : α → Nat) (n : Nat) (entries : List α) : List α :=
  entries.filter fun a => n < number a

@[simp] theorem mem_above {a : α} : a ∈ above number n entries ↔ a ∈ entries ∧ n < number a := by
  simp [above]

@[simp] theorem above_append :
    above number n (entries ++ later) = above number n entries ++ above number n later :=
  List.filter_append ..

theorem above_sublist : (above number n entries).Sublist entries := List.filter_sublist

theorem above_eq_nil (h : ∀ a ∈ entries, number a ≤ n) : above number n entries = [] := by
  refine List.filter_eq_nil_iff.mpr fun a ha => ?_
  simpa using h a ha

theorem above_eq_self (h : ∀ a ∈ entries, n < number a) : above number n entries = entries := by
  refine List.filter_eq_self.mpr fun a ha => ?_
  simpa using h a ha

theorem above_above (hle : n ≤ m) :
    above number m (above number n entries) = above number m entries := by
  rw [above, above, List.filter_filter]
  refine List.filter_congr fun a _ => ?_
  simp only [Bool.and_eq_left_iff_imp, decide_eq_true_eq]
  omega

/-! ## Where a reader stands -/

/-- The number a reader has come to that began with `first`. -/
def position (number : α → Nat) (first : Nat) (read : List α) : Nat :=
  (read.getLast?.map number).getD first

@[simp] theorem position_nil : position number first [] = first := rfl

@[simp] theorem position_append_singleton (a : α) :
    position number first (read ++ [a]) = number a := by
  simp [position]

theorem le_position (h : Increasing number read) {a : α} (ha : a ∈ read) :
    number a ≤ position number first read := by
  rcases List.eq_nil_or_concat read with rfl | ⟨earlier, last, rfl⟩
  · cases ha
  · rw [List.concat_eq_append] at h ha ⊢
    rw [position_append_singleton]
    rcases List.mem_append.mp ha with hearlier | hlast
    · exact ((increasing_append.mp h).2.2 a hearlier last (List.mem_singleton_self last)).le
    · rw [List.mem_singleton.mp hlast]

theorem first_le_position (h : ∀ a ∈ read, first < number a) :
    first ≤ position number first read := by
  rcases List.eq_nil_or_concat read with rfl | ⟨earlier, last, rfl⟩
  · exact le_rfl
  · rw [List.concat_eq_append] at h ⊢
    rw [position_append_singleton]
    exact (h last (by simp)).le

theorem above_position (hlog : Increasing number log) (h : read <+: above number first log) :
    above number first log = read ++ above number (position number first read) log := by
  obtain ⟨rest, hrest⟩ := h
  have hincreasing : Increasing number (read ++ rest) := hrest ▸ hlog.sublist above_sublist
  obtain ⟨hread, -, hlater⟩ := increasing_append.mp hincreasing
  have hbegun : ∀ a ∈ read, first < number a := fun a ha =>
    (mem_above.mp (hrest ▸ List.mem_append_left rest ha)).2
  have hnone : above number (position number first read) read = [] :=
    above_eq_nil fun a ha => le_position hread ha
  have hall : above number (position number first read) rest = rest := by
    refine above_eq_self fun b hb => ?_
    rcases List.eq_nil_or_concat read with rfl | ⟨earlier, last, rfl⟩
    · exact (mem_above.mp (hrest ▸ List.mem_append_right [] hb)).2
    · rw [List.concat_eq_append] at hlater ⊢
      rw [position_append_singleton]
      exact hlater last (by simp) b hb
  calc above number first log
      = read ++ rest := hrest.symm
    _ = read ++ above number (position number first read) (read ++ rest) := by
        rw [above_append, hnone, hall, List.nil_append]
    _ = read ++ above number (position number first read) log := by
        rw [hrest, above_above (first_le_position hbegun)]

/-- What has been read is all there is up to the position. -/
theorem read_eq (hlog : Increasing number log) (h : read <+: above number first log) :
    read = log.filter fun a => first < number a ∧ number a ≤ position number first read := by
  have hsplit := above_position hlog h
  have hread : Increasing number read := (hlog.sublist above_sublist).sublist h.sublist
  have hupTo : (above number first log).filter
      (fun a => number a ≤ position number first read) = read := by
    rw [hsplit, List.filter_append, List.filter_eq_self.mpr, List.filter_eq_nil_iff.mpr,
      List.append_nil]
    · intro a ha
      simpa using (mem_above.mp ha).2
    · intro a ha
      simpa using le_position hread ha
  rw [above, List.filter_filter] at hupTo
  refine hupTo.symm.trans (List.filter_congr fun a _ => ?_)
  rw [Bool.decide_and, Bool.and_comm]

end NumberedLog
