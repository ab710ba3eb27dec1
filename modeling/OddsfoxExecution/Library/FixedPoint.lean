import Mathlib.Data.Rat.Floor
import Mathlib.Algebra.Order.Field.Basic
import Mathlib.Algebra.Ring.Int.Parity
import Mathlib.Tactic.Linarith

/-!
# Rounding to decimals of a bounded mantissa

A decimal is an integer below a bound over a power of ten.  A result is rounded
half to even, to as many digits as the bound leaves room for.  It stays below
the bound exactly if what is rounded is not within one half of it.
-/

namespace FixedPoint

/-- The nearest integer, of two the even one. -/
def roundHalfEven (x : ℚ) : ℤ :=
  if Int.fract x < 1 / 2 then ⌊x⌋
  else if 1 / 2 < Int.fract x then ⌊x⌋ + 1
  else if Even ⌊x⌋ then ⌊x⌋
  else ⌊x⌋ + 1

theorem roundHalfEven_cases (x : ℚ) :
    roundHalfEven x = ⌊x⌋ ∧ Int.fract x ≤ 1 / 2 ∨
      roundHalfEven x = ⌊x⌋ + 1 ∧ 1 / 2 ≤ Int.fract x := by
  unfold roundHalfEven
  split
  · rename_i hbelow
    exact Or.inl ⟨rfl, hbelow.le⟩
  · rename_i hbelow
    split
    · rename_i habove
      exact Or.inr ⟨rfl, habove.le⟩
    · rename_i habove
      split
      · exact Or.inl ⟨rfl, not_lt.mp habove⟩
      · exact Or.inr ⟨rfl, not_lt.mp hbelow⟩

theorem even_roundHalfEven {x : ℚ} (h : Int.fract x = 1 / 2) : Even (roundHalfEven x) := by
  unfold roundHalfEven
  rw [if_neg h.not_lt, if_neg h.not_gt]
  split
  · assumption
  · rename_i hodd
    exact Int.even_add_one.mpr hodd

theorem abs_roundHalfEven_sub_le (x : ℚ) : |(roundHalfEven x : ℚ) - x| ≤ 1 / 2 := by
  have hsplit := Int.floor_add_fract x
  have hnonneg := Int.fract_nonneg x
  have hlt := Int.fract_lt_one x
  rcases roundHalfEven_cases x with ⟨hround, hfract⟩ | ⟨hround, hfract⟩
  · rw [hround, abs_le]
    constructor <;> linarith
  · rw [hround, Int.cast_add, Int.cast_one, abs_le]
    constructor <;> linarith

theorem roundHalfEven_nonneg {x : ℚ} (h : 0 ≤ x) : 0 ≤ roundHalfEven x := by
  have hfloor : 0 ≤ ⌊x⌋ := Int.floor_nonneg.mpr h
  rcases roundHalfEven_cases x with ⟨hround, -⟩ | ⟨hround, -⟩ <;> omega

theorem roundHalfEven_lt_iff {x : ℚ} {bound : ℤ} (heven : Even bound) :
    roundHalfEven x < bound ↔ x < bound - 1 / 2 := by
  have hclose := abs_le.mp (abs_roundHalfEven_sub_le x)
  constructor
  · intro hlt
    have hle : (roundHalfEven x : ℚ) ≤ bound - 1 := by exact_mod_cast Int.le_sub_one_of_lt hlt
    refine lt_of_le_of_ne (by linarith) fun heq => ?_
    -- the tie below the bound goes to the bound
    have hround : (roundHalfEven x : ℚ) = bound - 1 := le_antisymm hle (by linarith)
    have hhalf : x = ((bound - 1 : ℤ) : ℚ) + 1 / 2 := by
      rw [heq]
      push_cast
      ring
    have hfract : Int.fract x = 1 / 2 := by
      rw [hhalf, Int.fract_intCast_add]
      exact Int.fract_eq_self.mpr ⟨by norm_num, by norm_num⟩
    have hbelow : roundHalfEven x = bound - 1 := by exact_mod_cast hround
    have hboth := even_roundHalfEven hfract
    rw [hbelow] at hboth
    have hodd : ¬ Even (bound - 1) := by
      rw [Int.even_sub_one]
      exact fun h => h heven
    exact hodd hboth
  · intro hlt
    have hcast : (roundHalfEven x : ℚ) < bound := by linarith
    exact_mod_cast hcast

theorem lt_roundHalfEven_iff {x : ℚ} {bound : ℤ} (heven : Even bound) :
    bound < roundHalfEven x ↔ bound + 1 / 2 < x := by
  have hclose := abs_le.mp (abs_roundHalfEven_sub_le x)
  constructor
  · intro hlt
    have hle : (bound : ℚ) + 1 ≤ roundHalfEven x := by exact_mod_cast Int.add_one_le_of_lt hlt
    refine lt_of_le_of_ne (by linarith) fun heq => ?_
    have hround : (roundHalfEven x : ℚ) = bound + 1 := le_antisymm (by linarith) hle
    have hfract : Int.fract x = 1 / 2 := by
      rw [← heq, Int.fract_intCast_add]
      exact Int.fract_eq_self.mpr ⟨by norm_num, by norm_num⟩
    have habove : roundHalfEven x = bound + 1 := by exact_mod_cast hround
    have hboth := even_roundHalfEven hfract
    rw [habove, Int.even_add_one] at hboth
    exact hboth heven
  · intro hlt
    have hcast : (bound : ℚ) < roundHalfEven x := by linarith
    exact_mod_cast hcast

theorem abs_roundHalfEven_lt_iff {x : ℚ} {bound : ℕ} (heven : Even bound) :
    |roundHalfEven x| < bound ↔ |x| < bound - 1 / 2 := by
  have hcast : Even (bound : ℤ) := by exact_mod_cast heven
  rw [abs_lt, abs_lt, roundHalfEven_lt_iff hcast, lt_roundHalfEven_iff hcast.neg]
  push_cast
  rw [neg_sub, neg_add_eq_sub]

/-! ## Decimals -/

/-- A result with as many of `digits` digits as a mantissa below `bound` has room for. -/
def nearestDecimal (bound : ℕ) : ℕ → ℚ → ℚ
  | 0, x => roundHalfEven x
  | digits + 1, x =>
    if |roundHalfEven (x * 10 ^ (digits + 1))| < bound then
      roundHalfEven (x * 10 ^ (digits + 1)) / 10 ^ (digits + 1)
    else nearestDecimal bound digits x

section Nearest

variable {bound digits : ℕ} {x : ℚ}

theorem one_le_scale (digits : ℕ) : (1 : ℚ) ≤ 10 ^ digits := one_le_pow₀ (by norm_num)

theorem abs_nearestDecimal_sub_le (bound digits : ℕ) (x : ℚ) :
    |nearestDecimal bound digits x - x| ≤ 1 / 2 := by
  induction digits with
  | zero => exact abs_roundHalfEven_sub_le x
  | succ digits ih =>
    unfold nearestDecimal
    split
    · have hscale := one_le_scale (digits + 1)
      have hpos : (0 : ℚ) < 10 ^ (digits + 1) := zero_lt_one.trans_le hscale
      have hclose := abs_roundHalfEven_sub_le (x * 10 ^ (digits + 1))
      have hsplit : (roundHalfEven (x * 10 ^ (digits + 1)) : ℚ) / 10 ^ (digits + 1) - x =
          (roundHalfEven (x * 10 ^ (digits + 1)) - x * 10 ^ (digits + 1)) / 10 ^ (digits + 1) := by
        rw [sub_div, mul_div_cancel_right₀ _ hpos.ne']
      rw [hsplit, abs_div, abs_of_pos hpos]
      exact (div_le_self (abs_nonneg _) hscale).trans hclose
    · exact ih

theorem nearestDecimal_nonneg (h : 0 ≤ x) : 0 ≤ nearestDecimal bound digits x := by
  induction digits with
  | zero =>
    unfold nearestDecimal
    exact_mod_cast roundHalfEven_nonneg h
  | succ digits ih =>
    unfold nearestDecimal
    split
    · have hscale : (0 : ℚ) ≤ 10 ^ (digits + 1) := zero_le_one.trans (one_le_scale _)
      have hround : (0 : ℚ) ≤ roundHalfEven (x * 10 ^ (digits + 1)) := by
        exact_mod_cast roundHalfEven_nonneg (mul_nonneg h hscale)
      exact div_nonneg hround hscale
    · exact ih

/-- A result is below the bound exactly if it is before it is rounded, by more than one half. -/
theorem abs_nearestDecimal_lt_iff (heven : Even bound) (hpos : 0 < bound) :
    |nearestDecimal bound digits x| < bound ↔ |x| < bound - 1 / 2 := by
  induction digits with
  | zero =>
    rw [← abs_roundHalfEven_lt_iff heven]
    unfold nearestDecimal
    exact_mod_cast Iff.rfl
  | succ digits ih =>
    unfold nearestDecimal
    split
    · rename_i hroom
      have hten : (10 : ℚ) ≤ 10 ^ (digits + 1) := by
        rw [pow_succ]
        linarith [one_le_scale digits]
      have hscale : (0 : ℚ) < 10 ^ (digits + 1) := by linarith
      have hbound : (2 : ℚ) ≤ bound := by
        obtain ⟨half, rfl⟩ := heven
        have hhalf : 1 ≤ half := by omega
        exact_mod_cast (by omega : 2 ≤ half + half)
      have hmantissa : |(roundHalfEven (x * 10 ^ (digits + 1)) : ℚ)| < bound := by
        exact_mod_cast hroom
      refine iff_of_true ?_ ?_
      · rw [abs_div, abs_of_pos hscale]
        exact (div_le_self (abs_nonneg _) (by linarith)).trans_lt hmantissa
      · have hlt := (abs_roundHalfEven_lt_iff heven).mp hroom
        rw [abs_mul, abs_of_pos hscale] at hlt
        have hle : |x| * 10 ≤ |x| * 10 ^ (digits + 1) :=
          mul_le_mul_of_nonneg_left hten (abs_nonneg x)
        linarith
    · exact ih

theorem abs_nearestDecimal_le (h : |nearestDecimal bound digits x| < bound) :
    |nearestDecimal bound digits x| ≤ bound - 1 := by
  have hinteger : ∀ {n : ℤ}, |n| < bound → |(n : ℚ)| ≤ bound - 1 := fun hn => by
    exact_mod_cast Int.le_sub_one_of_lt hn
  induction digits with
  | zero =>
    unfold nearestDecimal at h ⊢
    exact hinteger (by exact_mod_cast h)
  | succ digits ih =>
    unfold nearestDecimal at h ⊢
    split at h
    · rename_i hroom
      rw [if_pos hroom, abs_div, abs_of_nonneg (zero_le_one.trans (one_le_scale _))]
      exact (div_le_self (abs_nonneg _) (one_le_scale _)).trans (hinteger hroom)
    · rename_i hroom
      rw [if_neg hroom]
      exact ih h

end Nearest

end FixedPoint
