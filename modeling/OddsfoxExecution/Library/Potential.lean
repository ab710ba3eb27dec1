import Mathlib.Algebra.BigOperators.Finsupp.Basic
import Mathlib.Algebra.Order.Ring.Defs
import Mathlib.Data.Finsupp.Basic
import Mathlib.Logic.Relation
import Mathlib.Tactic.Ring
import Mathlib.Tactic.Linarith

/-!
# Pending claims and potentials

A state of claims that are still pending, of amounts held under keys and of
records booked.  A step enters a claim or turns one into what is left of it, an
amount and records.  A potential values the three together; a potential that no
turn raises stays below a bound that every entry keeps.
-/

structure Holdings (α κ β R : Type) [Zero R] where
  pending : Multiset α
  held : κ →₀ R
  booked : Multiset β

variable {α κ β R : Type}

/-- One change of a state: `enters` says which claims it may take on, `turns` what a claim may turn
into. -/
inductive Holdings.Step [AddCommGroup R] (enters : Holdings α κ β R → α → Prop)
    (turns : α → Multiset α → (κ →₀ R) → Multiset β → Prop) (h : Holdings α κ β R) :
    Holdings α κ β R → Prop
  | enter {claim : α} (henters : enters h claim) :
      Step enters turns h { h with pending := claim ::ₘ h.pending }
  | turn {claim : α} {rest left : Multiset α} {moved : κ →₀ R} {records : Multiset β}
      (hpending : h.pending = claim ::ₘ rest) (hturns : turns claim left moved records) :
      Step enters turns h
        { pending := left + rest, held := h.held + moved, booked := h.booked + records }

abbrev Holdings.Steps [AddCommGroup R] (enters : Holdings α κ β R → α → Prop)
    (turns : α → Multiset α → (κ →₀ R) → Multiset β → Prop) :
    Holdings α κ β R → Holdings α κ β R → Prop :=
  Relation.ReflTransGen (Holdings.Step enters turns)

/-- What a claim, a unit held under a key and a record are worth. -/
structure Potential (α κ β R : Type) where
  claim : α → R
  weight : κ → R
  record : β → R

namespace Potential

section Ring

variable [CommRing R]

/-- The value of claims, amounts and records. -/
def worth (φ : Potential α κ β R) (claims : Multiset α) (held : κ →₀ R)
    (records : Multiset β) : R :=
  (claims.map φ.claim).sum + held.sum (fun key amount => φ.weight key * amount) +
    (records.map φ.record).sum

def of (φ : Potential α κ β R) (h : Holdings α κ β R) : R := φ.worth h.pending h.held h.booked

theorem worth_add [DecidableEq κ] (φ : Potential α κ β R) (claims claims' : Multiset α)
    (held held' : κ →₀ R) (records records' : Multiset β) :
    φ.worth (claims + claims') (held + held') (records + records') =
      φ.worth claims held records + φ.worth claims' held' records' := by
  unfold worth
  rw [Multiset.map_add, Multiset.sum_add, Multiset.map_add, Multiset.sum_add,
    Finsupp.sum_add_index (fun _ _ => mul_zero _) (fun _ _ _ _ => mul_add _ _ _)]
  ring

theorem worth_claim (φ : Potential α κ β R) (claim : α) :
    φ.worth {claim} 0 0 = φ.claim claim := by
  simp [worth]

theorem of_enter [DecidableEq κ] (φ : Potential α κ β R) (h : Holdings α κ β R) (claim : α) :
    φ.of { h with pending := claim ::ₘ h.pending } = φ.of h + φ.claim claim := by
  have hsplit := φ.worth_add h.pending {claim} h.held 0 h.booked 0
  rw [add_zero, add_zero, add_comm h.pending, Multiset.singleton_add, worth_claim] at hsplit
  exact hsplit

theorem of_turn [DecidableEq κ] (φ : Potential α κ β R) {h : Holdings α κ β R} {claim : α}
    {rest : Multiset α} (hpending : h.pending = claim ::ₘ rest) (left : Multiset α)
    (moved : κ →₀ R) (records : Multiset β) :
    φ.of { pending := left + rest, held := h.held + moved, booked := h.booked + records } +
      φ.claim claim = φ.of h + φ.worth left moved records := by
  have hbefore := φ.of_enter { h with pending := rest } claim
  have hstate : ({ h with pending := claim ::ₘ rest } : Holdings α κ β R) = h := by
    rw [← hpending]
  have hafter := φ.worth_add left rest moved h.held records h.booked
  rw [hstate] at hbefore
  rw [add_comm moved, add_comm records] at hafter
  rw [of, hafter, hbefore]
  unfold of
  ring

end Ring

section Ordered

variable [CommRing R] [LinearOrder R] [IsStrictOrderedRing R] {φ : Potential α κ β R}
  {enters : Holdings α κ β R → α → Prop}
  {turns : α → Multiset α → (κ →₀ R) → Multiset β → Prop}

/-- A claim never turns into more than it is worth. -/
def Drains (φ : Potential α κ β R)
    (turns : α → Multiset α → (κ →₀ R) → Multiset β → Prop) : Prop :=
  ∀ claim left moved records, turns claim left moved records →
    φ.worth left moved records ≤ φ.claim claim

/-- A potential that drains stays below a bound that every entry keeps. -/
theorem Drains.bounded [DecidableEq κ] (hdrains : φ.Drains turns) {bound : R}
    (henters : ∀ h claim, enters h claim → φ.of h ≤ bound → φ.of h + φ.claim claim ≤ bound)
    {h h' : Holdings α κ β R} (hsteps : Holdings.Steps enters turns h h') (hnow : φ.of h ≤ bound) :
    φ.of h' ≤ bound := by
  induction hsteps with
  | refl => exact hnow
  | tail _ hstep ih =>
    cases hstep with
    | enter henter =>
      rw [of_enter]
      exact henters _ _ henter ih
    | @turn claim rest left moved records hpending hturn =>
      have hsum := φ.of_turn hpending left moved records
      have hle := hdrains _ _ _ _ hturn
      linarith

end Ordered

end Potential
