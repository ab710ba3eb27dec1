import Mathlib.Logic.Relation

/-!
# Locks taken in order

Tasks hold locks and wait for them.  Where every task waits only for a lock
above all those it holds, waiting chains go up: no chain comes back to where it
began, and if the ranks are bounded each one leads to a task that waits for no
one.
-/

namespace LockOrder

variable {T L : Type}

/-- A task waits for a lock that another one holds. -/
def WaitsFor (waits holds : T → L → Prop) (t t' : T) : Prop := ∃ l, waits t l ∧ holds t' l

/-- Every task waits only above the locks it holds. -/
def Ordered (waits holds : T → L → Prop) (rank : L → Nat) : Prop :=
  ∀ t l l', waits t l → holds t l' → rank l' < rank l

variable {waits holds : T → L → Prop} {rank : L → Nat}

/-- The last lock of a waiting chain is not below the first. -/
theorem Ordered.chain (h : Ordered waits holds rank) {t t' : T} {l : L}
    (hone : ∀ t l l', waits t l → waits t l' → l = l') (hwaits : waits t l)
    (hchain : Relation.TransGen (WaitsFor waits holds) t t') :
    ∃ l', holds t' l' ∧ rank l ≤ rank l' := by
  induction hchain with
  | single hlast =>
    obtain ⟨l', hwaits', hholds⟩ := hlast
    obtain rfl := hone _ _ _ hwaits hwaits'
    exact ⟨l, hholds, Nat.le_refl _⟩
  | tail _ hlast ih =>
    obtain ⟨lower, hlower, hle⟩ := ih
    obtain ⟨upper, hupper, hholds⟩ := hlast
    have hlt := h _ _ _ hupper hlower
    exact ⟨upper, hholds, by omega⟩

/-- No waiting chain comes back to where it began. -/
theorem Ordered.acyclic (h : Ordered waits holds rank)
    (hone : ∀ t l l', waits t l → waits t l' → l = l') (t : T) :
    ¬ Relation.TransGen (WaitsFor waits holds) t t := by
  intro hcycle
  obtain ⟨_, hfirst, -⟩ := Relation.TransGen.head'_iff.mp hcycle
  obtain ⟨l, hwaits, -⟩ := hfirst
  obtain ⟨l', hholds, hle⟩ := h.chain hone hwaits hcycle
  exact absurd (h t l l' hwaits hholds) (Nat.not_lt.mpr hle)

/-- With bounded ranks, whoever waits waits in the end for a task that waits for no one. -/
theorem Ordered.exists_runner (h : Ordered waits holds rank) {bound : Nat}
    (hbound : ∀ l, rank l ≤ bound) {t : T} {l : L} (hholds : holds t l) :
    ∃ t', Relation.ReflTransGen (WaitsFor waits holds) t t' ∧ (∃ l', holds t' l') ∧
      ∀ t'', ¬ WaitsFor waits holds t' t'' := by
  -- the rank of the lock that is held goes up with every step of the chain
  induction hdistance : bound - rank l using Nat.strongRecOn generalizing t l with
  | ind distance ih =>
    by_cases hwait : ∃ t'', WaitsFor waits holds t t''
    · obtain ⟨t'', upper, hwaits, hupper⟩ := hwait
      have hlt := h t upper l hwaits hholds
      have hcloser : bound - rank upper < distance := by
        have := hbound upper
        omega
      obtain ⟨t', hchain, hrunner⟩ := ih _ hcloser hupper rfl
      exact ⟨t', .head ⟨upper, hwaits, hupper⟩ hchain, hrunner⟩
    · exact ⟨t, .refl, ⟨l, hholds⟩, fun t'' hwaits => hwait ⟨t'', hwaits⟩⟩

end LockOrder
