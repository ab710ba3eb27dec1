import OddsfoxExecution.PaperVenue
import OddsfoxExecution.Library.Greedy
import Mathlib.Algebra.Order.BigOperators.Group.List
import Mathlib.Tactic.FieldSimp

/-!
# The walk through the book

`walk_book` fills an immediate order of the paper venue level by level.  Buys
spend the request on shares and their fee, sells spend it share by share; but
for what one share of a level spends, the two loops are one.  The walk takes
the best levels whole, and a part of the last, so its fill is as good as any.
-/

namespace OddsfoxExecution

/-- What `walk_book` leaves unspent and still calls complete. -/
def tolerance : Decimal := 1 / 1000000

theorem tolerance_pos : 0 < tolerance := by
  norm_num [tolerance]

/-- What one share of a level takes of the amount requested. -/
def PriceLevel.unitCost (side : Side) (feeRate : Decimal) (level : PriceLevel) : Decimal :=
  match side with
  | .buy => level.price * (1 + feeRate)
  | .sell => 1

theorem PriceLevel.unitCost_pos (level : PriceLevel) (side : Side) {feeRate : Decimal}
    (hfee : 0 ≤ feeRate) (hprice : 0 < level.price) : 0 < level.unitCost side feeRate := by
  cases side with
  | buy => exact mul_pos hprice (by linarith)
  | sell => exact one_pos

@[simp] theorem PriceLevel.unitCost_part (side : Side) (feeRate : Decimal) (level : PriceLevel)
    (part : Decimal) :
    unitCost side feeRate { level with size := part } = level.unitCost side feeRate := by
  cases side <;> rfl

/-- The loop of `walk_book`, with what a share spends as a parameter. -/
def walkLevels (unit : PriceLevel → Decimal) (feeRate : Decimal) :
    List PriceLevel → Decimal → PaperFill → PaperFill
  | [], _, fill => fill
  | level :: rest, remaining, fill =>
    let shares := min level.size (remaining / unit level)
    let fill := fill.add shares (shares * level.price) feeRate
    let remaining := remaining - unit level * shares
    if remaining ≤ tolerance then { fill with complete := true }
    else walkLevels unit feeRate rest remaining fill

theorem walkAsks_cons {feeRate : Decimal} {level : PriceLevel}
    (hunit : level.unitCost .buy feeRate ≠ 0) (rest : List PriceLevel) (remaining : Decimal)
    (fill : PaperFill) :
    walkAsks feeRate (level :: rest) remaining fill =
      let shares := min level.size (remaining / level.unitCost .buy feeRate)
      let fill := fill.add shares (shares * level.price) feeRate
      let remaining := remaining - level.unitCost .buy feeRate * shares
      if remaining ≤ tolerance then some { fill with complete := true }
      else walkAsks feeRate rest remaining fill := by
  have hspent : ∀ shares : Decimal,
      remaining - (shares * level.price + shares * level.price * feeRate) =
        remaining - level.price * (1 + feeRate) * shares := by
    intro shares
    ring
  simp only [PriceLevel.unitCost] at hunit
  simp only [walkAsks, if_neg hunit, hspent]
  rfl

theorem walkAsks_eq {feeRate : Decimal} {levels : List PriceLevel} (remaining : Decimal)
    (fill : PaperFill) (hunit : ∀ level ∈ levels, level.unitCost .buy feeRate ≠ 0) :
    walkAsks feeRate levels remaining fill =
      some (walkLevels (PriceLevel.unitCost .buy feeRate) feeRate levels remaining fill) := by
  induction levels generalizing remaining fill with
  | nil => rfl
  | cons level rest ih =>
    obtain ⟨hlevel, hrest⟩ := List.forall_mem_cons.mp hunit
    simp only [walkAsks_cons hlevel, ih _ _ hrest, walkLevels]
    exact (apply_ite some _ _ _).symm

/-- A walk that divides by nothing is the common loop, whatever comes after its end. -/
theorem eq_of_walkAsks {feeRate remaining : Decimal} {levels : List PriceLevel}
    {fill fill' : PaperFill} (h : walkAsks feeRate levels remaining fill = some fill') :
    fill' = walkLevels (PriceLevel.unitCost .buy feeRate) feeRate levels remaining fill := by
  induction levels generalizing remaining fill with
  | nil => exact (Option.some.inj h).symm
  | cons level rest ih =>
    by_cases hlevel : level.unitCost .buy feeRate = 0
    · simp only [PriceLevel.unitCost] at hlevel
      simp [walkAsks, hlevel] at h
    · simp only [walkAsks_cons hlevel] at h
      simp only [walkLevels]
      split at h
      · rename_i hdone
        rw [if_pos hdone]
        exact (Option.some.inj h).symm
      · rename_i hgo
        rw [if_neg hgo]
        exact ih h

theorem walkBids_eq (feeRate : Decimal) (levels : List PriceLevel) (remaining : Decimal)
    (fill : PaperFill) :
    walkBids feeRate levels remaining fill =
      walkLevels (PriceLevel.unitCost .sell feeRate) feeRate levels remaining fill := by
  induction levels generalizing remaining fill with
  | nil => rfl
  | cons level rest ih =>
    simp only [walkBids, walkLevels, PriceLevel.unitCost, ih, div_one, one_mul, tolerance]

/-! ## What a walk takes -/

/-- What a walk takes of its levels, as levels of their own, and whether it ends there: every
level whole, or some whole and a part of the next. -/
inductive TakenFrom : List PriceLevel → List PriceLevel → Bool → Prop
  | nil : TakenFrom [] [] false
  | last {level : PriceLevel} {rest : List PriceLevel} {part : Decimal} (hpart : 0 ≤ part)
      (hfits : part ≤ level.size) : TakenFrom (level :: rest) [{ level with size := part }] true
  | cons {level : PriceLevel} {rest parts : List PriceLevel} {complete : Bool}
      (h : TakenFrom rest parts complete) : TakenFrom (level :: rest) (level :: parts) complete

def sharesOf (parts : List PriceLevel) : Decimal := (parts.map PriceLevel.size).sum

def quoteOf (parts : List PriceLevel) : Decimal :=
  (parts.map fun level => level.price * level.size).sum

def spentOn (side : Side) (feeRate : Decimal) (parts : List PriceLevel) : Decimal :=
  (parts.map fun level => level.unitCost side feeRate * level.size).sum

@[simp] theorem sharesOf_nil : sharesOf [] = 0 := rfl

@[simp] theorem quoteOf_nil : quoteOf [] = 0 := rfl

@[simp] theorem spentOn_nil (side : Side) (feeRate : Decimal) : spentOn side feeRate [] = 0 := rfl

variable {side : Side} {feeRate requested worst : Decimal} {levels rest parts : List PriceLevel}
  {level : PriceLevel} {fill : PaperFill} {complete : Bool}

@[simp] theorem sharesOf_cons : sharesOf (level :: rest) = level.size + sharesOf rest := by
  simp [sharesOf]

@[simp] theorem quoteOf_cons :
    quoteOf (level :: rest) = level.price * level.size + quoteOf rest := by
  simp [quoteOf]

@[simp] theorem spentOn_cons : spentOn side feeRate (level :: rest) =
    level.unitCost side feeRate * level.size + spentOn side feeRate rest := by
  simp [spentOn]

theorem spentOn_append (parts more : List PriceLevel) :
    spentOn side feeRate (parts ++ more) =
      spentOn side feeRate parts + spentOn side feeRate more := by
  simp [spentOn]

theorem spentOn_buy (feeRate : Decimal) (parts : List PriceLevel) :
    spentOn .buy feeRate parts = quoteOf parts + feeRate * quoteOf parts := by
  induction parts with
  | nil => simp
  | cons level rest ih =>
    simp only [spentOn_cons, quoteOf_cons, ih, PriceLevel.unitCost]
    ring

theorem spentOn_sell (feeRate : Decimal) (parts : List PriceLevel) :
    spentOn .sell feeRate parts = sharesOf parts := by
  induction parts with
  | nil => simp
  | cons level rest ih => simp only [spentOn_cons, sharesOf_cons, ih, PriceLevel.unitCost, one_mul]

/-- The levels use up a request: one of them costs less than nothing, or up to one of them they
spend all of it but the tolerance. -/
def UsesUp (side : Side) (feeRate requested : Decimal) (levels : List PriceLevel) : Prop :=
  ∃ before level after, levels = before ++ level :: after ∧
    (level.unitCost side feeRate < 0 ∨
      requested - spentOn side feeRate (before ++ [level]) ≤ tolerance)

theorem not_usesUp_nil : ¬ UsesUp side feeRate requested [] := by
  rintro ⟨before, level, after, h, -⟩
  simp at h

theorem usesUp_cons : UsesUp side feeRate requested (level :: rest) ↔
    (level.unitCost side feeRate < 0 ∨
      requested - level.unitCost side feeRate * level.size ≤ tolerance) ∨
    UsesUp side feeRate (requested - level.unitCost side feeRate * level.size) rest := by
  constructor
  · rintro ⟨before, last, after, hsplit, hlast⟩
    cases before with
    | nil =>
      obtain ⟨rfl, rfl⟩ := List.cons.inj hsplit
      exact .inl (by simpa using hlast)
    | cons first before =>
      obtain ⟨rfl, rfl⟩ := List.cons.inj hsplit
      refine .inr ⟨before, last, after, rfl, hlast.imp_right fun hleft => ?_⟩
      rw [List.cons_append, spentOn_cons] at hleft
      linarith
  · rintro (hhead | ⟨before, last, after, rfl, hlast⟩)
    · exact ⟨[], level, rest, rfl, by simpa using hhead⟩
    · refine ⟨level :: before, last, after, rfl, hlast.imp_right fun hleft => ?_⟩
      rw [List.cons_append, spentOn_cons]
      linarith

def fillOf (feeRate : Decimal) (parts : List PriceLevel) (complete : Bool) : PaperFill :=
  { PaperFill.none.add (sharesOf parts) (quoteOf parts) feeRate with complete }

theorem PaperFill.add_add (fill : PaperFill) (shares quote more extra feeRate : Decimal) :
    (fill.add shares quote feeRate).add more extra feeRate =
      fill.add (shares + more) (quote + extra) feeRate := by
  simp only [PaperFill.add, PaperFill.mk.injEq]
  exact ⟨by ring, by ring, by ring, trivial⟩

theorem TakenFrom.ne_nil (h : TakenFrom levels parts complete) (hcomplete : complete = true) :
    parts ≠ [] := by
  cases h with
  | nil => cases hcomplete
  | last => exact List.cons_ne_nil _ _
  | cons => exact List.cons_ne_nil _ _

/-- What a walk with `requested` to spend takes of its levels: what it can pay, and it ends at the
first level that leaves no more than the tolerance. -/
structure Takes (side : Side) (feeRate requested : Decimal) (levels parts : List PriceLevel)
    (complete : Bool) : Prop where
  taken : TakenFrom levels parts complete
  paid : spentOn side feeRate parts ≤ requested
  done : complete = true → requested - spentOn side feeRate parts ≤ tolerance
  more : complete = false → tolerance < requested →
    tolerance < requested - spentOn side feeRate parts
  before : complete = true → tolerance < requested →
    tolerance < requested - spentOn side feeRate parts.dropLast

namespace Takes

theorem nil (hrequested : 0 ≤ requested) : Takes side feeRate requested [] [] false where
  taken := .nil
  paid := by simpa using hrequested
  done := by simp
  more := by simp
  before := by simp

theorem last {part : Decimal} (hpart : 0 ≤ part) (hfits : part ≤ level.size)
    (hpaid : level.unitCost side feeRate * part ≤ requested)
    (hdone : requested - level.unitCost side feeRate * part ≤ tolerance) :
    Takes side feeRate requested (level :: rest) [{ level with size := part }] true where
  taken := .last hpart hfits
  paid := by simpa using hpaid
  done := by simpa using hdone
  more := by simp
  before := by simp

theorem cons (h : Takes side feeRate (requested - level.unitCost side feeRate * level.size) rest
      parts complete)
    (hgo : tolerance < requested - level.unitCost side feeRate * level.size) :
    Takes side feeRate requested (level :: rest) (level :: parts) complete where
  taken := .cons h.taken
  paid := by
    rw [spentOn_cons]
    linarith [h.paid]
  done hcomplete := by
    rw [spentOn_cons]
    linarith [h.done hcomplete]
  more hcomplete _ := by
    rw [spentOn_cons]
    linarith [h.more hcomplete hgo]
  before hcomplete _ := by
    rw [List.dropLast_cons_of_ne_nil (h.taken.ne_nil hcomplete), spentOn_cons]
    linarith [h.before hcomplete hgo]

/-- A walk is complete exactly when what it leaves is within the tolerance. -/
theorem complete_iff (h : Takes side feeRate requested levels parts complete)
    (hrequested : tolerance < requested) :
    complete = true ↔ requested - spentOn side feeRate parts ≤ tolerance := by
  refine ⟨h.done, fun hleft => ?_⟩
  cases complete with
  | true => rfl
  | false => exact absurd (h.more rfl hrequested) (not_lt.mpr hleft)

end Takes

/-- A walk over levels that are not free takes what it can pay. -/
theorem walkLevels_takes (hunit : ∀ level ∈ levels, 0 < level.unitCost side feeRate)
    (hsize : ∀ level ∈ levels, 0 < level.size) (hrequested : 0 ≤ requested)
    (hfill : fill.complete = false) :
    ∃ parts complete, Takes side feeRate requested levels parts complete ∧
      walkLevels (PriceLevel.unitCost side feeRate) feeRate levels requested fill =
        { fill.add (sharesOf parts) (quoteOf parts) feeRate with complete } := by
  induction levels generalizing requested fill with
  | nil =>
    refine ⟨[], false, .nil hrequested, ?_⟩
    simp [walkLevels, PaperFill.add, ← hfill]
  | cons level rest ih =>
    obtain ⟨hlevel, hunit⟩ := List.forall_mem_cons.mp hunit
    obtain ⟨hlevelSize, hsize⟩ := List.forall_mem_cons.mp hsize
    have hmul : level.unitCost side feeRate * (requested / level.unitCost side feeRate) =
        requested := by
      field_simp
    simp only [walkLevels]
    rcases le_or_gt level.size (requested / level.unitCost side feeRate) with hwhole | hpart
    · rw [min_eq_left hwhole]
      have hpaid : level.unitCost side feeRate * level.size ≤ requested := by
        rw [← hmul]
        exact mul_le_mul_of_nonneg_left hwhole hlevel.le
      split
      · rename_i hdone
        exact ⟨[level], true, .last hlevelSize.le le_rfl hpaid hdone, by simp [mul_comm]⟩
      · rename_i hgo
        have hadded : (fill.add level.size (level.size * level.price) feeRate).complete = false :=
          hfill
        obtain ⟨parts, complete, htakes, hwalk⟩ := ih hunit hsize (sub_nonneg.mpr hpaid) hadded
        refine ⟨level :: parts, complete, htakes.cons (not_le.mp hgo), ?_⟩
        rw [hwalk, PaperFill.add_add, sharesOf_cons, quoteOf_cons, mul_comm level.price]
    · rw [min_eq_right hpart.le, hmul, sub_self, if_pos tolerance_pos.le]
      refine ⟨[{ level with size := requested / level.unitCost side feeRate }], true,
        .last (div_nonneg hrequested hlevel.le) hpart.le hmul.le ?_, by simp [mul_comm]⟩
      rw [hmul, sub_self]
      exact tolerance_pos.le

/-- Where something is left after a level, the level was taken whole. -/
theorem walk_whole {remaining : Decimal} (hunit : level.unitCost side feeRate ≠ 0)
    (hgo : ¬ remaining - level.unitCost side feeRate *
      min level.size (remaining / level.unitCost side feeRate) ≤ tolerance) :
    min level.size (remaining / level.unitCost side feeRate) = level.size := by
  refine min_eq_left (le_of_not_ge fun hle => hgo ?_)
  rw [min_eq_right hle, mul_div_cancel₀ _ hunit, sub_self]
  exact tolerance_pos.le

/-! ## What is taken fits the levels -/

theorem TakenFrom.shares_le (h : TakenFrom levels parts complete)
    (hsize : ∀ level ∈ levels, 0 < level.size) : sharesOf parts ≤ sharesOf levels := by
  induction h with
  | nil => exact le_rfl
  | @last level rest part _ hfits =>
    have hrest : 0 ≤ sharesOf rest := by
      refine List.sum_nonneg fun x hx => ?_
      obtain ⟨other, hother, rfl⟩ := List.mem_map.mp hx
      exact (hsize other (List.mem_cons_of_mem _ hother)).le
    simp only [sharesOf_cons, sharesOf_nil]
    linarith
  | cons _ ih =>
    simp only [sharesOf_cons]
    linarith [ih fun other hother => hsize other (List.mem_cons_of_mem _ hother)]

theorem TakenFrom.spent_le (h : TakenFrom levels parts complete)
    (hunit : ∀ level ∈ levels, 0 < level.unitCost side feeRate)
    (hsize : ∀ level ∈ levels, 0 < level.size) :
    spentOn side feeRate parts ≤ spentOn side feeRate levels := by
  induction h with
  | nil => exact le_rfl
  | @last level rest part _ hfits =>
    have hrest : 0 ≤ spentOn side feeRate rest := by
      refine List.sum_nonneg fun x hx => ?_
      obtain ⟨other, hother, rfl⟩ := List.mem_map.mp hx
      exact mul_nonneg (hunit other (List.mem_cons_of_mem _ hother)).le
        (hsize other (List.mem_cons_of_mem _ hother)).le
    have hpart := mul_le_mul_of_nonneg_left hfits (hunit level List.mem_cons_self).le
    simp only [spentOn_cons, spentOn_nil, PriceLevel.unitCost_part]
    linarith
  | cons _ ih =>
    simp only [spentOn_cons]
    linarith [ih (fun other hother => hunit other (List.mem_cons_of_mem _ hother))
      fun other hother => hsize other (List.mem_cons_of_mem _ hother)]

/-- A level a request of `side` may trade with: its price is within the worst price. -/
def PriceLevel.Within (side : Side) (worst : Decimal) (level : PriceLevel) : Prop :=
  match side with
  | .buy => level.price ≤ worst
  | .sell => worst ≤ level.price

instance (side : Side) (worst : Decimal) : DecidablePred (PriceLevel.Within side worst) := fun _ =>
  match side with
  | .buy => inferInstanceAs (Decidable (_ ≤ _))
  | .sell => inferInstanceAs (Decidable (_ ≤ _))

/-- Every level taken is a level of the walk, but for the size of the last. -/
theorem TakenFrom.forall_parts {P : PriceLevel → Prop} (h : TakenFrom levels parts complete)
    (hprice : ∀ level part, P level → P { level with size := part })
    (hlevels : ∀ level ∈ levels, P level) (hsize : ∀ level ∈ levels, 0 < level.size) :
    ∀ part ∈ parts, P part ∧ 0 ≤ part.size := by
  induction h with
  | nil => simp
  | @last level rest part hpart _ =>
    intro other hother
    rw [List.mem_singleton] at hother
    subst hother
    exact ⟨hprice level part (hlevels level List.mem_cons_self), hpart⟩
  | @cons level rest parts complete _ ih =>
    intro other hother
    rcases List.mem_cons.mp hother with rfl | hother
    · exact ⟨hlevels _ List.mem_cons_self, (hsize _ List.mem_cons_self).le⟩
    · exact ih (fun x hx => hlevels x (List.mem_cons_of_mem _ hx))
        (fun x hx => hsize x (List.mem_cons_of_mem _ hx)) other hother

theorem TakenFrom.within (h : TakenFrom levels parts complete)
    (hwithin : ∀ level ∈ levels, level.Within side worst)
    (hsize : ∀ level ∈ levels, 0 < level.size) :
    ∀ part ∈ parts, part.Within side worst ∧ 0 ≤ part.size := by
  refine h.forall_parts (fun level part hlevel => ?_) hwithin hsize
  cases side <;> exact hlevel

theorem quoteOf_le (h : ∀ part ∈ parts, part.Within .buy worst ∧ 0 ≤ part.size) :
    quoteOf parts ≤ worst * sharesOf parts := by
  induction parts with
  | nil => simp
  | cons part rest ih =>
    obtain ⟨⟨hprice, hsize⟩, hrest⟩ := List.forall_mem_cons.mp h
    simp only [quoteOf_cons, sharesOf_cons, mul_add]
    exact add_le_add (mul_le_mul_of_nonneg_right hprice hsize) (ih hrest)

theorem le_quoteOf (h : ∀ part ∈ parts, part.Within .sell worst ∧ 0 ≤ part.size) :
    worst * sharesOf parts ≤ quoteOf parts := by
  induction parts with
  | nil => simp
  | cons part rest ih =>
    obtain ⟨⟨hprice, hsize⟩, hrest⟩ := List.forall_mem_cons.mp h
    simp only [quoteOf_cons, sharesOf_cons, mul_add]
    exact add_le_add (mul_le_mul_of_nonneg_right hprice hsize) (ih hrest)

theorem TakenFrom.all (h : TakenFrom levels parts false) : parts = levels := by
  generalize hcomplete : false = complete at h
  induction h with
  | nil => rfl
  | last => cases hcomplete
  | cons _ ih => rw [ih hcomplete]

theorem TakenFrom.split (h : TakenFrom levels parts true) :
    ∃ whole last rest part, levels = whole ++ last :: rest ∧
      parts = whole ++ [{ last with size := part }] ∧ part ≤ last.size := by
  generalize hcomplete : true = complete at h
  induction h with
  | nil => cases hcomplete
  | @last level rest part _ hfits => exact ⟨[], level, rest, part, rfl, rfl, hfits⟩
  | @cons level _ _ _ _ ih =>
    obtain ⟨whole, last, rest, part, rfl, rfl, hfits⟩ := ih hcomplete
    exact ⟨level :: whole, last, rest, part, rfl, rfl, hfits⟩

/-- The best levels first are as good as any: nothing of the same size costs less. -/
theorem TakenFrom.cheapest {p : Decimal} {offers : List PriceLevel} {amounts : List Decimal}
    (h : TakenFrom levels parts complete) (price : PriceLevel → Decimal)
    (hprice : ∀ (level : PriceLevel) part, price { level with size := part } = price level)
    (hsorted : levels.Pairwise fun a b => price a ≤ price b)
    (hle : ∀ level ∈ levels, price level ≤ p)
    (hperm : levels.Perm offers) (hfits : Offers.Fits PriceLevel.size offers amounts)
    (hsame : amounts.sum = sharesOf parts) :
    (parts.map fun level => price level * level.size).sum ≤ Offers.cost price offers amounts := by
  cases complete with
  | false =>
    rw [h.all] at hsame ⊢
    exact Offers.everything hperm hle hfits hsame
  | true =>
    obtain ⟨whole, last, rest, part, rfl, rfl, -⟩ := h.split
    obtain ⟨_, hdear, hcheap⟩ := List.pairwise_append.mp hsorted
    have hbest := Offers.cheapest_first hperm
      (fun level hlevel => hcheap level hlevel last List.mem_cons_self)
      (List.pairwise_cons.mp hdear).1 hfits (by simpa [sharesOf] using hsame)
    simpa [hprice] using hbest

section TwoOrders

variable {whole whole' rest' others parts' : List PriceLevel} {last last' : PriceLevel}
  {part : Decimal} {price : PriceLevel → Decimal}

/-- A walk ends at no higher a price than another walk of the same levels that needed the price
it ends at: below it the first would have spent no less. -/
theorem last_le (hperm : (whole ++ last :: rest).Perm (whole' ++ last' :: rest'))
    (hsorted : (whole ++ last :: rest).Pairwise fun a b => price a ≤ price b)
    (hsorted' : (whole' ++ last' :: rest').Pairwise fun a b => price a ≤ price b)
    (hunit : ∀ level ∈ whole ++ last :: rest, 0 < level.unitCost side feeRate)
    (hsize : ∀ level ∈ whole ++ last :: rest, 0 < level.size) (hpart : part ≤ last.size)
    (hdone : requested - spentOn side feeRate (whole ++ [{ last with size := part }]) ≤ tolerance)
    (hbefore : tolerance < requested - spentOn side feeRate whole') :
    price last' ≤ price last := by
  by_contra hlt
  obtain ⟨_, _, hcheap⟩ := List.pairwise_append.mp hsorted
  obtain ⟨_, hdear, _⟩ := List.pairwise_append.mp hsorted'
  have hall : spentOn side feeRate whole + last.unitCost side feeRate * last.size ≤
      spentOn side feeRate whole' :=
    Offers.taken_before hperm (fun level hlevel => hcheap level hlevel last List.mem_cons_self)
      (List.pairwise_cons.mp hdear).1 (not_le.mp hlt)
      fun level hlevel => mul_nonneg (hunit level hlevel).le (hsize level hlevel).le
  have hlast : last ∈ whole ++ last :: rest := List.mem_append_right _ List.mem_cons_self
  have hfits := mul_le_mul_of_nonneg_left hpart (hunit last hlast).le
  simp only [spentOn_append, spentOn_cons, spentOn_nil, PriceLevel.unitCost_part, add_zero] at hdone
  linarith

/-- Two complete walks of the same levels end at one price, and differ in what they take there. -/
theorem Takes.one_price (h : Takes side feeRate requested levels parts true)
    (h' : Takes side feeRate requested others parts' true) (hrequested : tolerance < requested)
    (hperm : levels.Perm others)
    (hprice : ∀ (level : PriceLevel) part, price { level with size := part } = price level)
    (hsorted : levels.Pairwise fun a b => price a ≤ price b)
    (hsorted' : others.Pairwise fun a b => price a ≤ price b)
    (hunit : ∀ level ∈ levels, 0 < level.unitCost side feeRate)
    (hsize : ∀ level ∈ levels, 0 < level.size) :
    ∃ level ∈ levels, (parts'.map fun part => price part * part.size).sum -
        (parts.map fun part => price part * part.size).sum =
      price level * (sharesOf parts' - sharesOf parts) := by
  obtain ⟨whole, last, rest, part, rfl, rfl, hpart⟩ := h.taken.split
  obtain ⟨whole', last', rest', part', rfl, rfl, hpart'⟩ := h'.taken.split
  have hbefore := h.before rfl hrequested
  have hbefore' := h'.before rfl hrequested
  rw [List.dropLast_concat] at hbefore hbefore'
  have hle := last_le hperm hsorted hsorted' hunit hsize hpart (h.done rfl) hbefore'
  have hge := last_le hperm.symm hsorted' hsorted
    (fun level hlevel => hunit level (hperm.symm.subset hlevel))
    (fun level hlevel => hsize level (hperm.symm.subset hlevel)) hpart' (h'.done rfl) hbefore
  obtain ⟨_, hdear, hcheap⟩ := List.pairwise_append.mp hsorted
  obtain ⟨_, hdear', hcheap'⟩ := List.pairwise_append.mp hsorted'
  have hcost : (whole'.map fun level => price level * level.size).sum + price last' * part' -
        ((whole.map fun level => price level * level.size).sum + price last * part) =
      price last * ((whole'.map PriceLevel.size).sum + part' -
        ((whole.map PriceLevel.size).sum + part)) :=
    Offers.cost_sub_cost hperm (le_antisymm hle hge)
      (fun level hlevel => hcheap level hlevel last List.mem_cons_self)
      (List.pairwise_cons.mp hdear).1
      (fun level hlevel => hcheap' level hlevel last' List.mem_cons_self)
      (List.pairwise_cons.mp hdear').1
  refine ⟨last, List.mem_append_right _ List.mem_cons_self, ?_⟩
  simpa [hprice, sharesOf] using hcost

end TwoOrders

/-! ## The levels of the book -/

theorem OrderBook.sorted_asks (book : OrderBook) (worst : Decimal) :
    (book.eligible .buy worst).Pairwise fun a b => a.price ≤ b.price := by
  have : Std.Total fun a b : PriceLevel => a.price ≤ b.price := ⟨fun a b => le_total _ _⟩
  have : IsTrans PriceLevel fun a b => a.price ≤ b.price := ⟨fun a b c => le_trans⟩
  exact (List.pairwise_insertionSort _ _).filter _

theorem OrderBook.sorted_bids (book : OrderBook) (worst : Decimal) :
    (book.eligible .sell worst).Pairwise fun a b => b.price ≤ a.price := by
  have : Std.Total fun a b : PriceLevel => b.price ≤ a.price := ⟨fun a b => le_total _ _⟩
  have : IsTrans PriceLevel fun a b => b.price ≤ a.price := ⟨fun a b c h h' => le_trans h' h⟩
  exact (List.pairwise_insertionSort _ _).filter _

/-- The levels on the side a request of `side` trades against. -/
def OrderBook.opposite (book : OrderBook) (side : Side) : List PriceLevel :=
  match side with
  | .buy => book.asks
  | .sell => book.bids

/-- The levels a request of `side` may trade with, as the book has them. -/
def OrderBook.through (book : OrderBook) (side : Side) (worst : Decimal) : List PriceLevel :=
  (book.opposite side).filter fun level => level.Within side worst

theorem OrderBook.eligible_perm (book : OrderBook) (side : Side) (worst : Decimal) :
    (book.eligible side worst).Perm (book.through side worst) := by
  cases side with
  | buy => exact (List.perm_insertionSort _ _).filter _
  | sell => exact (List.perm_insertionSort _ _).filter _

/-- Prices between nothing and one, and sizes of something. -/
def OrderBook.Sound (book : OrderBook) : Prop :=
  ∀ level ∈ book.bids ++ book.asks, 0 < level.price ∧ level.price < 1 ∧ 0 < level.size

theorem OrderBook.Sound.eligible {book : OrderBook} (h : book.Sound) :
    ∀ level ∈ book.eligible side worst,
      level.Within side worst ∧ 0 < level.price ∧ 0 < level.size := by
  intro level hlevel
  obtain ⟨hmem, hwithin⟩ := List.mem_filter.mp ((book.eligible_perm side worst).subset hlevel)
  have hboth : level ∈ book.bids ++ book.asks := by
    cases side with
    | buy => exact List.mem_append_right _ hmem
    | sell => exact List.mem_append_left _ hmem
  exact ⟨by simpa using hwithin, (h level hboth).1, (h level hboth).2.2⟩

theorem OrderBook.Sound.unitCost_pos {book : OrderBook} (h : book.Sound) (hfee : 0 ≤ feeRate) :
    ∀ level ∈ book.eligible side worst, 0 < level.unitCost side feeRate := by
  intro level hlevel
  exact level.unitCost_pos side hfee (h.eligible level hlevel).2.1

/-- What the walk through a sound book makes of a request. -/
theorem walkBook_takes {book : OrderBook} (hbook : book.Sound) (hfee : 0 ≤ feeRate)
    (hrequested : 0 ≤ requested) (side : Side) (worst : Decimal) :
    ∃ parts complete,
      Takes side feeRate requested (book.eligible side worst) parts complete ∧
      walkBook book side requested worst feeRate = some (fillOf feeRate parts complete) := by
  have hunit : ∀ level ∈ book.eligible side worst, 0 < level.unitCost side feeRate :=
    hbook.unitCost_pos hfee
  obtain ⟨parts, complete, htakes, hwalk⟩ :=
    walkLevels_takes hunit (fun level hlevel => (hbook.eligible level hlevel).2.2) hrequested
      (rfl : PaperFill.none.complete = false)
  refine ⟨parts, complete, htakes, ?_⟩
  cases side with
  | buy =>
    rw [walkBook, walkAsks_eq _ _ fun level hlevel => (hunit level hlevel).ne', hwalk]
    rfl
  | sell =>
    rw [walkBook, walkBids_eq, hwalk]
    rfl

/-! ## The fill of a request -/

/-- What a fill of a buy owes the request: paid for within the amount requested at no worse a
price than allowed, and as cheap as the book can be. -/
structure BoughtWell (book : OrderBook) (requested worst feeRate : Decimal) (fill : PaperFill) :
    Prop where
  paid : fill.quote + fill.fee ≤ requested
  fee : fill.fee = feeRate * fill.quote
  price : fill.quote ≤ worst * fill.shares
  depth : fill.shares ≤ book.askDepthThrough worst
  cheapest : ∀ amounts, Offers.Fits PriceLevel.size (book.through .buy worst) amounts →
    amounts.sum = fill.shares →
    fill.quote ≤ Offers.cost PriceLevel.price (book.through .buy worst) amounts
  complete : fill.complete = true ↔ requested - (fill.quote + fill.fee) ≤ tolerance

/-- What a fill of a sell owes the request. -/
structure SoldWell (book : OrderBook) (requested worst feeRate : Decimal) (fill : PaperFill) :
    Prop where
  shares : fill.shares ≤ requested
  fee : fill.fee = feeRate * fill.quote
  price : worst * fill.shares ≤ fill.quote
  depth : fill.shares ≤ book.bidDepthThrough worst
  dearest : ∀ amounts, Offers.Fits PriceLevel.size (book.through .sell worst) amounts →
    amounts.sum = fill.shares →
    Offers.cost PriceLevel.price (book.through .sell worst) amounts ≤ fill.quote
  complete : fill.complete = true ↔ requested - fill.shares ≤ tolerance

@[simp] theorem fillOf_shares : (fillOf feeRate parts complete).shares = sharesOf parts := by
  simp [fillOf, PaperFill.add, PaperFill.none]

@[simp] theorem fillOf_quote : (fillOf feeRate parts complete).quote = quoteOf parts := by
  simp [fillOf, PaperFill.add, PaperFill.none]

@[simp] theorem fillOf_fee : (fillOf feeRate parts complete).fee = feeRate * quoteOf parts := by
  simp [fillOf, PaperFill.add, PaperFill.none, mul_comm]

@[simp] theorem fillOf_complete : (fillOf feeRate parts complete).complete = complete := rfl

theorem sum_neg_price (parts : List PriceLevel) :
    (parts.map fun level => -level.price * level.size).sum = -quoteOf parts := by
  induction parts with
  | nil => simp
  | cons level rest ih =>
    rw [List.map_cons, List.sum_cons, ih, quoteOf_cons]
    ring

theorem bought_well {book : OrderBook} (hbook : book.Sound) (hfee : 0 ≤ feeRate)
    (hrequested : tolerance < requested) (worst : Decimal) :
    ∃ fill, walkBook book .buy requested worst feeRate = some fill ∧
      BoughtWell book requested worst feeRate fill := by
  obtain ⟨parts, complete, htakes, hwalk⟩ :=
    walkBook_takes hbook hfee (tolerance_pos.trans hrequested).le .buy worst
  have heligible : ∀ level ∈ book.eligible .buy worst,
      level.Within .buy worst ∧ 0 < level.price ∧ 0 < level.size := hbook.eligible
  have hpaid := htakes.paid
  have hcomplete := htakes.complete_iff hrequested
  rw [spentOn_buy] at hpaid hcomplete
  refine ⟨_, hwalk, ?_, ?_, ?_, ?_, ?_, ?_⟩
  · simpa using hpaid
  · simp
  · simpa using quoteOf_le (htakes.taken.within (fun level hlevel => (heligible level hlevel).1)
      fun level hlevel => (heligible level hlevel).2.2)
  · have hle := htakes.taken.shares_le fun level hlevel => (heligible level hlevel).2.2
    rw [sharesOf, sharesOf, ((book.eligible_perm .buy worst).map _).sum_eq] at hle
    rw [fillOf_shares]
    exact hle
  · intro amounts hfits hsame
    have hbest := htakes.taken.cheapest (p := worst) PriceLevel.price (fun _ _ => rfl)
      (book.sorted_asks worst) (fun level hlevel => (heligible level hlevel).1)
      (book.eligible_perm .buy worst) hfits (by simpa using hsame)
    simpa [quoteOf] using hbest
  · simpa using hcomplete

theorem sold_well {book : OrderBook} (hbook : book.Sound) (hfee : 0 ≤ feeRate)
    (hrequested : tolerance < requested) (worst : Decimal) :
    ∃ fill, walkBook book .sell requested worst feeRate = some fill ∧
      SoldWell book requested worst feeRate fill := by
  obtain ⟨parts, complete, htakes, hwalk⟩ :=
    walkBook_takes hbook hfee (tolerance_pos.trans hrequested).le .sell worst
  have heligible : ∀ level ∈ book.eligible .sell worst,
      level.Within .sell worst ∧ 0 < level.price ∧ 0 < level.size := hbook.eligible
  have hpaid := htakes.paid
  have hcomplete := htakes.complete_iff hrequested
  rw [spentOn_sell] at hpaid hcomplete
  refine ⟨_, hwalk, ?_, ?_, ?_, ?_, ?_, ?_⟩
  · simpa using hpaid
  · simp
  · simpa using le_quoteOf (htakes.taken.within (fun level hlevel => (heligible level hlevel).1)
      fun level hlevel => (heligible level hlevel).2.2)
  · have hle := htakes.taken.shares_le fun level hlevel => (heligible level hlevel).2.2
    rw [sharesOf, sharesOf, ((book.eligible_perm .sell worst).map _).sum_eq] at hle
    rw [fillOf_shares]
    exact hle
  · intro amounts hfits hsame
    -- The dearest bids are the cheapest asks once every price is turned around.
    have hbest := htakes.taken.cheapest (p := -worst) (fun level => -level.price)
      (fun _ _ => rfl) ((book.sorted_bids worst).imp neg_le_neg)
      (fun level hlevel => neg_le_neg (heligible level hlevel).1)
      (book.eligible_perm .sell worst) hfits (by simpa using hsame)
    rw [Offers.cost_neg, sum_neg_price] at hbest
    simpa using hbest
  · simpa using hcomplete

/-! ## The same levels in another order -/

def OrderBook.Rearranged (book other : OrderBook) : Prop :=
  book.bids.Perm other.bids ∧ book.asks.Perm other.asks

variable {book other : OrderBook}

theorem OrderBook.Rearranged.sound (h : book.Rearranged other) (hbook : book.Sound) :
    other.Sound := by
  intro level hlevel
  exact hbook level ((h.1.append h.2).symm.subset hlevel)

theorem OrderBook.Rearranged.through (h : book.Rearranged other) (side : Side) (worst : Decimal) :
    (book.through side worst).Perm (other.through side worst) := by
  cases side with
  | buy => exact h.2.filter _
  | sell => exact h.1.filter _

theorem OrderBook.Rearranged.eligible (h : book.Rearranged other) (side : Side) (worst : Decimal) :
    (book.eligible side worst).Perm (other.eligible side worst) :=
  (book.eligible_perm side worst).trans
    ((h.through side worst).trans (other.eligible_perm side worst).symm)

/-- With no two levels at one price there is one best first order. -/
theorem OrderBook.Rearranged.eligible_eq (h : book.Rearranged other)
    (hdistinct : ((book.through side worst).map PriceLevel.price).Nodup) :
    book.eligible side worst = other.eligible side worst := by
  have hinj : ∀ a ∈ book.through side worst, ∀ b ∈ book.through side worst,
      a.price = b.price → a = b := by
    intro a ha b hb hprice
    exact List.inj_on_of_nodup_map hdistinct ha hb hprice
  have hmine : ∀ a ∈ book.eligible side worst, a ∈ book.through side worst := fun a ha =>
    (book.eligible_perm side worst).subset ha
  have htheirs : ∀ a ∈ other.eligible side worst, a ∈ book.through side worst := fun a ha =>
    hmine a ((h.eligible side worst).symm.subset ha)
  cases side with
  | buy =>
    exact (h.eligible .buy worst).eq_of_pairwise
      (fun a b ha hb hle hge => hinj a (hmine a ha) b (htheirs b hb) (le_antisymm hle hge))
      (book.sorted_asks worst) (other.sorted_asks worst)
  | sell =>
    exact (h.eligible .sell worst).eq_of_pairwise
      (fun a b ha hb hle hge => hinj a (hmine a ha) b (htheirs b hb) (le_antisymm hge hle))
      (book.sorted_bids worst) (other.sorted_bids worst)

/-- A walk is complete exactly when the levels together leave no more than the tolerance. -/
theorem Takes.complete_iff_all (h : Takes side feeRate requested levels parts complete)
    (hunit : ∀ level ∈ levels, 0 < level.unitCost side feeRate)
    (hsize : ∀ level ∈ levels, 0 < level.size) (hrequested : tolerance < requested) :
    complete = true ↔ requested - spentOn side feeRate levels ≤ tolerance := by
  constructor
  · intro hcomplete
    linarith [h.done hcomplete, h.taken.spent_le hunit hsize]
  · intro hleft
    cases complete with
    | true => rfl
    | false =>
      have hmore := h.more rfl hrequested
      rw [h.taken.all] at hmore
      exact absurd hmore (not_lt.mpr hleft)

def PaperFill.spent (side : Side) (fill : PaperFill) : Decimal :=
  match side with
  | .buy => fill.quote + fill.fee
  | .sell => fill.shares

@[simp] theorem fillOf_spent :
    (fillOf feeRate parts complete).spent side = spentOn side feeRate parts := by
  cases side with
  | buy => simp [PaperFill.spent, spentOn_buy]
  | sell => simp [PaperFill.spent, spentOn_sell]

section Complete

variable {parts' : List PriceLevel}

/-- What the shares of one level make of the difference of two fills. -/
theorem spentOn_sub (hquote : quoteOf parts' - quoteOf parts =
      level.price * (sharesOf parts' - sharesOf parts)) :
    spentOn side feeRate parts' - spentOn side feeRate parts =
      level.unitCost side feeRate * (sharesOf parts' - sharesOf parts) := by
  cases side with
  | buy =>
    calc spentOn .buy feeRate parts' - spentOn .buy feeRate parts
        = (1 + feeRate) * (quoteOf parts' - quoteOf parts) := by
          rw [spentOn_buy, spentOn_buy]
          ring
      _ = level.price * (1 + feeRate) * (sharesOf parts' - sharesOf parts) := by
          rw [hquote]
          ring
  | sell => simp only [spentOn_sell, PriceLevel.unitCost, one_mul]

/-- Two complete walks through the same levels differ in the shares of one level. -/
theorem Takes.differ (hbook : book.Sound) (hfee : 0 ≤ feeRate) (h : book.Rearranged other)
    (hrequested : tolerance < requested)
    (htakes : Takes side feeRate requested (book.eligible side worst) parts true)
    (htakes' : Takes side feeRate requested (other.eligible side worst) parts' true) :
    ∃ level ∈ book.eligible side worst, quoteOf parts' - quoteOf parts =
      level.price * (sharesOf parts' - sharesOf parts) := by
  have hperm := h.eligible side worst
  have hunit : ∀ level ∈ book.eligible side worst, 0 < level.unitCost side feeRate :=
    hbook.unitCost_pos hfee
  have hsize : ∀ level ∈ book.eligible side worst, 0 < level.size := fun level hlevel =>
    (hbook.eligible level hlevel).2.2
  cases side with
  | buy =>
    exact htakes.one_price htakes' hrequested hperm (fun _ _ => rfl) (book.sorted_asks worst)
      (other.sorted_asks worst) hunit hsize
  | sell =>
    obtain ⟨level, hlevel, hquote⟩ := htakes.one_price htakes' hrequested hperm
      (fun (_ : PriceLevel) _ => neg_inj.mpr rfl) ((book.sorted_bids worst).imp neg_le_neg)
      ((other.sorted_bids worst).imp neg_le_neg) hunit hsize
    rw [sum_neg_price, sum_neg_price] at hquote
    exact ⟨level, hlevel, by linarith⟩

/-- Two complete walks through the same levels that spend the same take the same. -/
theorem fillOf_eq_of_spent (hbook : book.Sound) (hfee : 0 ≤ feeRate)
    (hlevel : level ∈ book.eligible side worst)
    (hquote : quoteOf parts' - quoteOf parts = level.price * (sharesOf parts' - sharesOf parts))
    (hspends : spentOn side feeRate parts' = spentOn side feeRate parts) :
    fillOf feeRate parts' complete = fillOf feeRate parts complete := by
  have hdiff : level.unitCost side feeRate * (sharesOf parts' - sharesOf parts) = 0 := by
    rw [← spentOn_sub hquote, hspends, sub_self]
  have hshares := (mul_eq_zero.mp hdiff).resolve_left (hbook.unitCost_pos hfee level hlevel).ne'
  rw [hshares, mul_zero] at hquote
  rw [fillOf, fillOf, sub_eq_zero.mp hshares, sub_eq_zero.mp hquote]

/-- Nor do they take more than the tolerance buys apart. -/
theorem Takes.close (hunit : 0 < level.unitCost side feeRate)
    (hquote : quoteOf parts' - quoteOf parts = level.price * (sharesOf parts' - sharesOf parts))
    (htakes : Takes side feeRate requested levels parts true)
    (htakes' : Takes side feeRate requested rest parts' true) :
    level.unitCost side feeRate * |sharesOf parts' - sharesOf parts| ≤ tolerance := by
  rw [← abs_of_pos hunit, ← abs_mul, ← spentOn_sub hquote, abs_le]
  constructor
  · linarith [htakes.paid, htakes'.done rfl]
  · linarith [htakes'.paid, htakes.done rfl]

end Complete

/-- The order of the levels decides nothing but which of the levels at one price the last part is
taken from: two complete fills differ in shares of that price, by no more than the tolerance
buys.  Where they spend the same, or the book runs out, they are the same. -/
theorem walkBook_rearranged (hbook : book.Sound) (hfee : 0 ≤ feeRate)
    (hrequested : tolerance < requested) (h : book.Rearranged other) (side : Side)
    (worst : Decimal) :
    ∃ fill again, walkBook book side requested worst feeRate = some fill ∧
      walkBook other side requested worst feeRate = some again ∧
      again.complete = fill.complete ∧
      (fill.complete = false ∨ ((book.through side worst).map PriceLevel.price).Nodup →
        again = fill) ∧
      (again.spent side = fill.spent side → again = fill) ∧
      (fill.complete = true → ∃ level ∈ book.through side worst,
        again.quote - fill.quote = level.price * (again.shares - fill.shares) ∧
        level.unitCost side feeRate * |again.shares - fill.shares| ≤ tolerance) := by
  have hpositive := (tolerance_pos.trans hrequested).le
  have hother := h.sound hbook
  obtain ⟨parts, complete, htakes, hwalk⟩ := walkBook_takes hbook hfee hpositive side worst
  obtain ⟨parts', complete', htakes', hwalk'⟩ := walkBook_takes hother hfee hpositive side worst
  have hsame : spentOn side feeRate (other.eligible side worst) =
      spentOn side feeRate (book.eligible side worst) :=
    ((h.eligible side worst).map _).sum_eq.symm
  have hiff := htakes.complete_iff_all (hbook.unitCost_pos hfee)
    (fun level hlevel => (hbook.eligible level hlevel).2.2) hrequested
  have hiff' := htakes'.complete_iff_all (hother.unitCost_pos hfee)
    (fun level hlevel => (hother.eligible level hlevel).2.2) hrequested
  rw [hsame] at hiff'
  obtain rfl : complete' = complete := Bool.eq_iff_iff.mpr (hiff'.trans hiff.symm)
  have hrunsOut : complete' = false →
      fillOf feeRate parts' complete' = fillOf feeRate parts complete' := by
    rintro rfl
    rw [htakes.taken.all, htakes'.taken.all, fillOf, fillOf, sharesOf, sharesOf, quoteOf, quoteOf,
      ((h.eligible side worst).map _).sum_eq, ((h.eligible side worst).map _).sum_eq]
  refine ⟨_, _, hwalk, hwalk', rfl, ?_, ?_, ?_⟩
  · rintro (hfalse | hdistinct)
    · exact hrunsOut hfalse
    · have heq := h.eligible_eq hdistinct
      have hwalks : walkBook book side requested worst feeRate =
          walkBook other side requested worst feeRate := by
        cases side with
        | buy => simp only [walkBook, heq]
        | sell => simp only [walkBook, heq]
      exact Option.some_inj.mp (hwalk'.symm.trans (hwalks.symm.trans hwalk))
  · intro hspends
    rw [fillOf_spent, fillOf_spent] at hspends
    cases complete' with
    | false => exact hrunsOut rfl
    | true =>
      obtain ⟨level, hlevel, hquote⟩ := Takes.differ hbook hfee h hrequested htakes htakes'
      exact fillOf_eq_of_spent hbook hfee hlevel hquote hspends
  · rintro rfl
    obtain ⟨level, hlevel, hquote⟩ := Takes.differ hbook hfee h hrequested htakes htakes'
    refine ⟨level, (book.eligible_perm side worst).subset hlevel, by simpa using hquote, ?_⟩
    rw [fillOf_shares, fillOf_shares]
    exact Takes.close (hbook.unitCost_pos hfee level hlevel) hquote htakes htakes'

/-- The walk through a sound book is a sound, best first fill of the request on both sides, and
the order of the levels makes no difference beyond the tolerance. -/
theorem walkBook_sound (book : OrderBook) (requested worst feeRate : Decimal) (hbook : book.Sound)
    (hrequested : tolerance < requested) (_hworst : 0 < worst ∧ worst < 1)
    (hfee : 0 ≤ feeRate ∧ feeRate ≤ 1) :
    (∃ fill, walkBook book .buy requested worst feeRate = some fill ∧
      BoughtWell book requested worst feeRate fill) ∧
    (∃ fill, walkBook book .sell requested worst feeRate = some fill ∧
      SoldWell book requested worst feeRate fill) ∧
    ∀ other side, book.Rearranged other →
      ∃ fill again, walkBook book side requested worst feeRate = some fill ∧
        walkBook other side requested worst feeRate = some again ∧
        again.complete = fill.complete ∧
        (fill.complete = false ∨ ((book.through side worst).map PriceLevel.price).Nodup →
          again = fill) ∧
        (again.spent side = fill.spent side → again = fill) ∧
        (fill.complete = true → ∃ level ∈ book.through side worst,
          again.quote - fill.quote = level.price * (again.shares - fill.shares) ∧
          level.unitCost side feeRate * |again.shares - fill.shares| ≤ tolerance) :=
  ⟨bought_well hbook hfee.1 hrequested worst, sold_well hbook hfee.1 hrequested worst,
    fun _ side h => walkBook_rearranged hbook hfee.1 hrequested h side worst⟩

/-- A book with two asks at one price, the first of which nearly fills a request of one. -/
def tiedBook : OrderBook :=
  { bids := [], asks := [⟨1 / 2, 1999999 / 1000000⟩, ⟨1 / 2, 10⟩], observedAt := 0, hash := none }

theorem tiedBook_sound : tiedBook.Sound := by
  intro level hlevel
  simp only [tiedBook, List.nil_append, List.mem_cons, List.not_mem_nil, or_false] at hlevel
  rcases hlevel with rfl | rfl <;> norm_num

theorem walkBook_sound_sample :
    ∃ fill, walkBook tiedBook .buy 1 (3 / 5) (1 / 100) = some fill ∧
      BoughtWell tiedBook 1 (3 / 5) (1 / 100) fill :=
  (walkBook_sound tiedBook 1 (3 / 5) (1 / 100) tiedBook_sound (by norm_num [tolerance])
    (by norm_num) (by norm_num)).1

/-- A millionth of the request is within the tolerance: the same two asks give a millionth of a
share less where the smaller comes first. -/
theorem walkBook_order_matters :
    ∃ book other : OrderBook, book.Sound ∧ book.Rearranged other ∧
      walkBook book .buy 1 (3 / 5) 0 ≠ walkBook other .buy 1 (3 / 5) 0 := by
  refine ⟨tiedBook, { tiedBook with asks := tiedBook.asks.reverse }, tiedBook_sound,
    ⟨.refl _, (List.reverse_perm _).symm⟩, ?_⟩
  decide +kernel

end OddsfoxExecution
