import Mathlib.Algebra.BigOperators.Group.List.Basic
import Mathlib.Algebra.Order.BigOperators.Group.List
import Mathlib.Algebra.Order.Field.Basic
import Mathlib.Tactic.Linarith
import Mathlib.Tactic.Ring

/-!
# Cheapest first

Amounts bought from a list of offers, each with a price and a size.  Whatever
is bought costs at least what it would cost at one price for everything, less
what the offers below that price save; taking the cheapest offers first reaches
this bound at the price of the last offer touched.
-/

variable {ι K : Type} [Field K] [LinearOrder K] [IsStrictOrderedRing K]

namespace Offers

/-- No offer gives more than its size. -/
def Fits (size : ι → K) (offers : List ι) (amounts : List K) : Prop :=
  List.Forall₂ (fun o a => 0 ≤ a ∧ a ≤ size o) offers amounts

def cost (price : ι → K) (offers : List ι) (amounts : List K) : K :=
  (List.zipWith (fun o a => price o * a) offers amounts).sum

/-- What an offer changes at most against buying at the price `p`. -/
def saving (price size : ι → K) (p : K) (o : ι) : K := min (price o - p) 0 * size o

variable {price size : ι → K} {p : K} {offers : List ι} {amounts : List K}

theorem bound_le_cost (h : Fits size offers amounts) :
    p * amounts.sum + (offers.map (saving price size p)).sum ≤ cost price offers amounts := by
  unfold Fits at h
  induction h with
  | nil => simp [cost]
  | @cons o a offers amounts hfit _ ih =>
    have hone : p * a + saving price size p o ≤ price o * a := by
      unfold saving
      rcases le_total (price o) p with hle | hle
      · rw [min_eq_left (sub_nonpos.mpr hle)]
        nlinarith [mul_le_mul_of_nonneg_left hfit.2 (sub_nonneg.mpr hle)]
      · rw [min_eq_right (sub_nonneg.mpr hle), zero_mul, add_zero]
        exact mul_le_mul_of_nonneg_right hle hfit.1
    simp only [cost, List.map_cons, List.sum_cons, List.zipWith_cons_cons] at ih ⊢
    linarith

/-- The offers below the price `p` save what separates them from it, the others nothing. -/
theorem savings_eq {cheap dear : List ι} (hcheap : ∀ o ∈ cheap, price o ≤ p)
    (hdear : ∀ o ∈ dear, p ≤ price o) :
    ((cheap ++ dear).map (saving price size p)).sum =
      (cheap.map fun o => price o * size o).sum - p * (cheap.map size).sum := by
  have hnone : (dear.map (saving price size p)).sum = 0 := by
    refine List.sum_eq_zero fun x hx => ?_
    obtain ⟨o, ho, rfl⟩ := List.mem_map.mp hx
    rw [saving, min_eq_right (sub_nonneg.mpr (hdear o ho)), zero_mul]
  rw [List.map_append, List.sum_append, hnone, add_zero]
  clear hnone
  induction cheap with
  | nil => simp
  | cons o cheap ih =>
    have hrest := ih fun other hother => hcheap other (List.mem_cons_of_mem _ hother)
    have hone : saving price size p o = price o * size o - p * size o := by
      rw [saving, min_eq_left (sub_nonpos.mpr (hcheap o List.mem_cons_self)), sub_mul]
    simp only [List.map_cons, List.sum_cons, hrest, hone]
    ring

/-- Whole offers up to one price and a part of one at that price cost no more than any other way
to buy as much. -/
theorem cheapest_first {cheap dear : List ι} {last : ι} {part : K}
    (hperm : (cheap ++ last :: dear).Perm offers) (hcheap : ∀ o ∈ cheap, price o ≤ price last)
    (hdear : ∀ o ∈ dear, price last ≤ price o) (hfits : Fits size offers amounts)
    (hsame : amounts.sum = (cheap.map size).sum + part) :
    (cheap.map fun o => price o * size o).sum + price last * part ≤ cost price offers amounts := by
  have hsavings : ((cheap ++ last :: dear).map (saving price size (price last))).sum =
      (cheap.map fun o => price o * size o).sum - price last * (cheap.map size).sum :=
    savings_eq hcheap (List.forall_mem_cons.mpr ⟨le_refl _, hdear⟩)
  rw [(hperm.map _).sum_eq] at hsavings
  calc (cheap.map fun o => price o * size o).sum + price last * part
      = price last * amounts.sum + (offers.map (saving price size (price last))).sum := by
        rw [hsavings, hsame]
        ring
    _ ≤ cost price offers amounts := bound_le_cost hfits

theorem everything {all : List ι} (hperm : all.Perm offers) (hle : ∀ o ∈ all, price o ≤ p)
    (hfits : Fits size offers amounts) (hsame : amounts.sum = (all.map size).sum) :
    (all.map fun o => price o * size o).sum ≤ cost price offers amounts := by
  have hsavings : ((all ++ []).map (saving price size p)).sum =
      (all.map fun o => price o * size o).sum - p * (all.map size).sum :=
    savings_eq hle (by simp)
  rw [List.append_nil, (hperm.map _).sum_eq] at hsavings
  calc (all.map fun o => price o * size o).sum
      = p * amounts.sum + (offers.map (saving price size p)).sum := by
        rw [hsavings, hsame]
        ring
    _ ≤ cost price offers amounts := bound_le_cost hfits

omit [LinearOrder K] [IsStrictOrderedRing K] in
theorem cost_neg (price : ι → K) (offers : List ι) (amounts : List K) :
    cost (fun o => -price o) offers amounts = -cost price offers amounts := by
  unfold cost
  induction offers generalizing amounts with
  | nil => simp
  | cons o offers ih =>
    cases amounts with
    | nil => simp
    | cons a amounts =>
      simp only [List.zipWith_cons_cons, List.sum_cons, ih]
      ring

section TwoOrders

variable {cheap dear cheap' dear' : List ι} {last last' : ι} {weight : ι → K}

/-- Two ways to take the cheapest first of the same offers: the one that ends at a higher price
took all of the other before its own last offer. -/
theorem taken_before (hperm : (cheap ++ last :: dear).Perm (cheap' ++ last' :: dear'))
    (hcheap : ∀ o ∈ cheap, price o ≤ price last) (hdear : ∀ o ∈ dear', price last' ≤ price o)
    (hlt : price last < price last') (hweight : ∀ o ∈ cheap ++ last :: dear, 0 ≤ weight o) :
    (cheap.map weight).sum + weight last ≤ (cheap'.map weight).sum := by
  have hnone : (last' :: dear').filter (price · < price last') = [] := by
    refine List.filter_eq_nil_iff.mpr fun o ho => ?_
    have hle : price last' ≤ price o := by
      rcases List.mem_cons.mp ho with rfl | ho
      · exact le_rfl
      · exact hdear o ho
    simpa using hle
  have hall : (cheap ++ [last]).filter (price · < price last') = cheap ++ [last] := by
    refine List.filter_eq_self.mpr fun o ho => ?_
    have hle : price o ≤ price last := by
      rcases List.mem_append.mp ho with ho | ho
      · exact hcheap o ho
      · rw [List.mem_singleton.mp ho]
    simpa using hle.trans_lt hlt
  have hbelow : (cheap ++ [last] ++ dear.filter (price · < price last')).Perm
      (cheap'.filter (price · < price last')) := by
    have hfilter := hperm.filter (price · < price last')
    rwa [List.filter_append cheap', hnone, List.append_nil, List.append_cons, List.filter_append,
      hall] at hfilter
  have hcheap' : ∀ o ∈ cheap', 0 ≤ weight o := fun o ho =>
    hweight o (hperm.symm.subset (List.mem_append_left _ ho))
  have hrest : 0 ≤ ((dear.filter (price · < price last')).map weight).sum := by
    refine List.sum_nonneg fun x hx => ?_
    obtain ⟨o, ho, rfl⟩ := List.mem_map.mp hx
    exact hweight o (List.mem_append_right _ (List.mem_cons_of_mem _ (List.mem_of_mem_filter ho)))
  calc (cheap.map weight).sum + weight last
      ≤ ((cheap ++ [last] ++ dear.filter (price · < price last')).map weight).sum := by
        simp only [List.map_append, List.sum_append, List.map_cons, List.map_nil, List.sum_cons,
          List.sum_nil]
        linarith
    _ = ((cheap'.filter (price · < price last')).map weight).sum := (hbelow.map weight).sum_eq
    _ ≤ (cheap'.map weight).sum := by
        refine (List.filter_sublist.map weight).sum_le_sum fun x hx => ?_
        obtain ⟨o, ho, rfl⟩ := List.mem_map.mp hx
        exact hcheap' o ho

/-- Where both end at one price, what they cost differs by what they differ in size, at that
price. -/
theorem cost_sub_cost {part part' : K}
    (hperm : (cheap ++ last :: dear).Perm (cheap' ++ last' :: dear'))
    (hprice : price last' = price last)
    (hcheap : ∀ o ∈ cheap, price o ≤ price last) (hdear : ∀ o ∈ dear, price last ≤ price o)
    (hcheap' : ∀ o ∈ cheap', price o ≤ price last') (hdear' : ∀ o ∈ dear', price last' ≤ price o) :
    (cheap'.map fun o => price o * size o).sum + price last' * part' -
        ((cheap.map fun o => price o * size o).sum + price last * part) =
      price last * ((cheap'.map size).sum + part' - ((cheap.map size).sum + part)) := by
  have hsavings : ((cheap ++ last :: dear).map (saving price size (price last))).sum =
      (cheap.map fun o => price o * size o).sum - price last * (cheap.map size).sum :=
    savings_eq hcheap (List.forall_mem_cons.mpr ⟨le_refl _, hdear⟩)
  have hsavings' : ((cheap' ++ last' :: dear').map (saving price size (price last'))).sum =
      (cheap'.map fun o => price o * size o).sum - price last' * (cheap'.map size).sum :=
    savings_eq hcheap' (List.forall_mem_cons.mpr ⟨le_refl _, hdear'⟩)
  rw [(hperm.map _).sum_eq] at hsavings
  rw [hprice] at hsavings' ⊢
  linarith

end TwoOrders

end Offers
