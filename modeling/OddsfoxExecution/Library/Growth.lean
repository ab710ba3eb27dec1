import OddsfoxExecution.Library.Table

/-!
# Tables with drawn keys

Rows whose keys are drawn from one counter, in the order they are inserted.  A
table `Grows` between two readings of the counter when it gains only rows with
keys drawn in between and loses none; a key below the first reading is then in
the table after if and only if it was in it before.
-/

namespace Table

variable {α : Type} {key : α → Nat} {n n' m : Nat} {t t' u : List α}

/-- Between the readings `n` and `n'` the table gained rows with keys drawn in that span. -/
def Grows (key : α → Nat) (n n' : Nat) (t t' : List α) : Prop :=
  ∃ drawn, t'.map key = t.map key ++ drawn ∧ drawn.Pairwise (· < ·) ∧ ∀ k ∈ drawn, n ≤ k ∧ k < n'

/-- The keys of the table were drawn in order before the reading `n`. -/
structure Drawn (key : α → Nat) (n : Nat) (t : List α) : Prop where
  ordered : (t.map key).Pairwise (· < ·)
  below : ∀ k ∈ t.map key, k < n

namespace Grows

theorem of_map_eq (h : t'.map key = t.map key) : Grows key n n' t t' :=
  ⟨[], by rw [h, List.append_nil], .nil, by simp⟩

theorem append_row {row : α} (hkey : key row = n) (hlt : n < n') :
    Grows key n n' t (t ++ [row]) :=
  ⟨[n], by simp [hkey], List.pairwise_singleton _ _, by simpa using hlt⟩

theorem trans (hle : n ≤ n') (hle' : n' ≤ m) (h : Grows key n n' t t') (h' : Grows key n' m t' u) :
    Grows key n m t u := by
  obtain ⟨first, hfirst, hordered, hspan⟩ := h
  obtain ⟨second, hsecond, hordered', hspan'⟩ := h'
  refine ⟨first ++ second, by rw [hsecond, hfirst, List.append_assoc], ?_, ?_⟩
  · refine List.pairwise_append.mpr ⟨hordered, hordered', fun a ha b hb => ?_⟩
    exact Nat.lt_of_lt_of_le (hspan a ha).2 (hspan' b hb).1
  · intro k hk
    rcases List.mem_append.mp hk with hk | hk
    · exact ⟨(hspan k hk).1, Nat.lt_of_lt_of_le (hspan k hk).2 hle'⟩
    · exact ⟨Nat.le_trans hle (hspan' k hk).1, (hspan' k hk).2⟩

theorem kept (h : Grows key n n' t t') {k : Nat} (hk : k ∈ t.map key) : k ∈ t'.map key := by
  obtain ⟨drawn, heq, -, -⟩ := h
  rw [heq]
  exact List.mem_append_left _ hk

theorem old (h : Grows key n n' t t') {k : Nat} (hk : k ∈ t'.map key) (hlt : k < n) :
    k ∈ t.map key := by
  obtain ⟨drawn, heq, -, hspan⟩ := h
  rw [heq] at hk
  rcases List.mem_append.mp hk with hk | hk
  · exact hk
  · exact absurd hlt (Nat.not_lt.mpr (hspan k hk).1)

end Grows

namespace Drawn

theorem nil : Drawn key n [] := ⟨List.Pairwise.nil, by simp⟩

theorem grows (h : Drawn key n t) (hle : n ≤ n') (hgrows : Grows key n n' t t') :
    Drawn key n' t' := by
  obtain ⟨drawn, heq, hordered, hspan⟩ := hgrows
  constructor
  · rw [heq]
    refine List.pairwise_append.mpr ⟨h.ordered, hordered, fun a ha b hb => ?_⟩
    exact Nat.lt_of_lt_of_le (h.below a ha) (hspan b hb).1
  · intro k hk
    rw [heq] at hk
    rcases List.mem_append.mp hk with hk | hk
    · exact Nat.lt_of_lt_of_le (h.below k hk) hle
    · exact (hspan k hk).2

theorem nodup (h : Drawn key n t) : (t.map key).Nodup := h.ordered.imp Nat.ne_of_lt

end Drawn

end Table
