import OddsfoxExecution.Library.FixedPoint
import OddsfoxExecution.PaperFit
import OddsfoxExecution.Coordinator.Schedule

/-!
# The range of the decimals

`rust_decimal` rounds a result to a mantissa of 96 bits and panics when it does
not fit without any fractional digits.  The results of the arithmetic on the way
from a request to its risk decision, in the order the code computes them, and
when all of them are in range: the quantity of a request is bounded by 2^96
alone, and an immediate buy divides it by the price and by the tick before any
limit is compared.
-/

namespace OddsfoxExecution

/-- The least magnitude `rust_decimal` does not represent. -/
def decimalBound : Decimal := 2 ^ 96

/-- The least exact magnitude that is rounded to `decimalBound` or more. -/
def decimalRoom : Decimal := decimalBound - 1 / 2

/-- What `rust_decimal` makes of an exact result: 28 fractional digits, or as many as the mantissa
has room for, the last one rounded half to even. -/
def decimalResult (x : Decimal) : Decimal := FixedPoint.nearestDecimal (2 ^ 96) 28 x

/-- Every result is represented, so no operator panics. -/
def InRange (results : List Decimal) : Prop := ∀ x ∈ results, |x| < decimalBound

instance (results : List Decimal) : Decidable (InRange results) :=
  inferInstanceAs (Decidable (∀ x ∈ results, |x| < decimalBound))

/-- The results of `sum()`, which adds to what it has summed so far. -/
def runningSums : Decimal → List Decimal → List Decimal
  | _, [] => []
  | total, x :: xs => decimalResult (total + x) :: runningSums (decimalResult (total + x)) xs

def roundedSum : Decimal → List Decimal → Decimal
  | total, [] => total
  | total, x :: xs => roundedSum (decimalResult (total + x)) xs

/-! ## The results of the code -/

/-- A FAK or FOK buy. -/
def OrderIntentRequest.BuysAtOnce (request : OrderIntentRequest) : Prop :=
  request.side = .buy ∧ request.timeInForce.immediate = true

instance (request : OrderIntentRequest) : Decidable request.BuysAtOnce :=
  inferInstanceAs (Decidable (_ ∧ _))

/-- The shares `validate_freshness_and_increments` compares with the minimum size. -/
def OrderIntentRequest.roundedShares (request : OrderIntentRequest) (quantity price : Decimal) :
    Decimal :=
  if request.BuysAtOnce then decimalResult (quantity / price) else quantity

/-- `conservative_exposure`, rounded. -/
def roundedExposure (request : OrderIntentRequest) (market : MarketRules)
    (quantity price : Decimal) : Option (Decimal × Decimal) :=
  if request.BuysAtOnce then
    if 0 < market.tickSize then some (decimalResult (quantity / market.tickSize), quantity)
    else none
  else some (quantity, decimalResult (price * quantity))

def exposureResults (request : OrderIntentRequest) (market : MarketRules)
    (quantity price : Decimal) : List Decimal :=
  if request.BuysAtOnce then
    if 0 < market.tickSize then [decimalResult (quantity / market.tickSize)] else []
  else [decimalResult (price * quantity)]

/-- The levels `ask_depth_through` and `bid_depth_through` sum up. -/
def OrderBook.sizesThrough (book : OrderBook) (side : Side) (price : Decimal) : List Decimal :=
  match side with
  | .buy => (book.asks.filter fun level => decide (level.price ≤ price)).map PriceLevel.size
  | .sell => (book.bids.filter fun level => decide (price ≤ level.price)).map PriceLevel.size

namespace RiskPolicy

/-- The last results of `evaluate`, for immediate orders only. -/
def bookResults (request : OrderIntentRequest) (book : OrderBook) (price : Decimal) :
    List Decimal :=
  if request.timeInForce.immediate then
    runningSums 0 (book.sizesThrough request.side price) ++
      match (match request.side with | .buy => book.bestAsk | .sell => book.bestBid) with
      | none => []
      | some reference => [decimalResult (price - reference)]
  else []

/-- What a buy of `quote` adds to the gross exposure: the quote with its fee. -/
def grossQuote (side : Side) (takerFeeRate quote : Decimal) : Decimal :=
  if side = .buy then decimalResult (quote + decimalResult (quote * takerFeeRate)) else 0

/-- The results of `evaluate` from the order's shares and quote on. -/
def limitResults (policy : RiskPolicy) (request : OrderIntentRequest) (market : MarketRules)
    (book : OrderBook) (snapshot : RiskSnapshot) (price shares quote : Decimal) : List Decimal :=
  let marketAfter := decimalResult (snapshot.marketOpenNotional + quote)
  let long := decimalResult (snapshot.tokenPosition + snapshot.tokenPendingBuys)
  let longAfter := decimalResult (long + if request.side = .buy then shares else 0)
  let short := decimalResult (snapshot.tokenPosition - snapshot.tokenPendingSells)
  let shortAfter := decimalResult (short - if request.side = .sell then shares else 0)
  let grossAfter := decimalResult (snapshot.grossExposure +
    grossQuote request.side market.takerFeeRate quote)
  let dailyAfter := decimalResult (snapshot.dailyMatchedNotional + quote)
  if policy.maxSharesPerOrder < shares ∨ policy.maxQuotePerOrder < quote ∨
      policy.maxOpenOrders ≤ snapshot.openOrderCount then []
  else marketAfter ::
    if policy.maxOpenNotionalPerMarket < marketAfter then []
    else [long, longAfter, short, shortAfter] ++
      if policy.maxNetPositionPerToken < max |longAfter| |shortAfter| then []
      else (if request.side = .buy then
          [decimalResult (quote * market.takerFeeRate),
            decimalResult (quote + decimalResult (quote * market.takerFeeRate))] else []) ++
        grossAfter ::
        if policy.maxGrossExposure < grossAfter then []
        else dailyAfter ::
          if policy.maxDailyMatchedNotional < dailyAfter then [] else bookResults request book price

/-- The checks `evaluate` makes before its first calculation. -/
def Lists (policy : RiskPolicy) (request : OrderIntentRequest) (market : MarketRules) : Prop :=
  ¬ (policy.allowedConditionIds ≠ [] ∧ request.conditionId ∉ policy.allowedConditionIds) ∧
    ¬ (policy.allowedTokenIds ≠ [] ∧ request.tokenId ∉ policy.allowedTokenIds) ∧
    request.side ∈ policy.allowedSides ∧ request.timeInForce ∈ policy.allowedTimeInForce ∧
    ¬ (¬ market.active ∨ market.closed ∨ ¬ market.acceptingOrders)

instance (policy : RiskPolicy) (request : OrderIntentRequest) (market : MarketRules) :
    Decidable (policy.Lists request market) := by
  unfold Lists
  infer_instance

/-- The results of `evaluate`, with those of `conservative_exposure`. -/
def evaluationResults (policy : RiskPolicy) (request : OrderIntentRequest) (market : MarketRules)
    (book : OrderBook) (snapshot : RiskSnapshot) : List Decimal :=
  if ¬ policy.Lists request market then []
  else
    match request.quantityDecimal, request.protectionPrice with
    | .ok quantity, .ok price =>
      exposureResults request market quantity price ++
        match roundedExposure request market quantity price with
        | none => []
        | some (shares, quote) =>
          policy.limitResults request market book snapshot price shares quote
    | _, _ => []

end RiskPolicy

/-- The results on the way from a request to its decision: the division of
`validate_freshness_and_increments` and, for a request that passes it, those of the evaluation. -/
def Coordinator.admissionResults (self : Coordinator) (request : OrderIntentRequest)
    (market : MarketRules) (book : OrderBook) (snapshot : RiskSnapshot) (now : Time) :
    List Decimal :=
  match self.validateMarketData request market book now, request.protectionPrice,
      request.quantityDecimal with
  | .ok (), .ok price, .ok quantity =>
    if decimalRem price market.tickSize ≠ 0 then []
    else
      (if request.BuysAtOnce then [request.roundedShares quantity price] else []) ++
        if request.roundedShares quantity price < market.minimumOrderSize then []
        else self.policy.evaluationResults request market book snapshot
  | _, _, _ => []

/-! ## What has to be in range -/

/-- The depth of the book an order of a side meets up to its price, summed level by level. -/
def OrderBook.depthThrough (book : OrderBook) (side : Side) (price : Decimal) : Decimal :=
  roundedSum 0 (book.sizesThrough side price)

namespace RiskPolicy

/-- An order of `shares` for `quote` leaves the exposures of the snapshot in range, as far as the
limits of the policy let `evaluate` look at them. -/
def HasRoom (policy : RiskPolicy) (request : OrderIntentRequest) (market : MarketRules)
    (book : OrderBook) (snapshot : RiskSnapshot) (price shares quote : Decimal) : Prop :=
  let long := snapshot.tokenPosition + snapshot.tokenPendingBuys
  let longAfter := decimalResult long + if request.side = .buy then shares else 0
  let short := snapshot.tokenPosition - snapshot.tokenPendingSells
  let shortAfter := decimalResult short - if request.side = .sell then shares else 0
  let charged := quote + decimalResult (quote * market.takerFeeRate)
  let gross := snapshot.grossExposure + grossQuote request.side market.takerFeeRate quote
  shares ≤ policy.maxSharesPerOrder → quote ≤ policy.maxQuotePerOrder →
    snapshot.openOrderCount < policy.maxOpenOrders →
    |snapshot.marketOpenNotional + quote| < decimalRoom ∧
      (decimalResult (snapshot.marketOpenNotional + quote) ≤ policy.maxOpenNotionalPerMarket →
        (|long| < decimalRoom ∧ |longAfter| < decimalRoom ∧ |short| < decimalRoom ∧
          |shortAfter| < decimalRoom) ∧
        (|decimalResult longAfter| ≤ policy.maxNetPositionPerToken →
          |decimalResult shortAfter| ≤ policy.maxNetPositionPerToken →
          ((request.side = .buy → charged < decimalRoom) ∧ |gross| < decimalRoom) ∧
          (decimalResult gross ≤ policy.maxGrossExposure →
            |snapshot.dailyMatchedNotional + quote| < decimalRoom ∧
            (decimalResult (snapshot.dailyMatchedNotional + quote) ≤
                policy.maxDailyMatchedNotional →
              request.timeInForce.immediate = true →
              book.depthThrough request.side price < decimalBound))))

/-- A request for `quantity` at `price` keeps the arithmetic in range: an immediate buy is for less
than its price times 2^96 less a half, and for less than so many ticks where it reaches the
exposure; and there is room for the order. -/
def Fits (policy : RiskPolicy) (request : OrderIntentRequest) (market : MarketRules)
    (book : OrderBook) (snapshot : RiskSnapshot) (quantity price : Decimal) : Prop :=
  decimalRem price market.tickSize = 0 →
    (request.BuysAtOnce → quantity < decimalRoom * price) ∧
    (market.minimumOrderSize ≤ request.roundedShares quantity price →
      policy.Lists request market →
      (request.BuysAtOnce → quantity < decimalRoom * market.tickSize) ∧
      ∀ shares quote, roundedExposure request market quantity price = some (shares, quote) →
        policy.HasRoom request market book snapshot price shares quote)

end RiskPolicy

/-! ## Results in range -/

@[simp] theorem InRange.nil : InRange [] ↔ True := iff_of_true (fun _ hx => (nomatch hx)) trivial

@[simp] theorem InRange.cons {x : Decimal} {xs : List Decimal} :
    InRange (x :: xs) ↔ |x| < decimalBound ∧ InRange xs := List.forall_mem_cons

@[simp] theorem InRange.append {xs ys : List Decimal} :
    InRange (xs ++ ys) ↔ InRange xs ∧ InRange ys := List.forall_mem_append

theorem decimalBound_pos : 0 < decimalBound := by
  unfold decimalBound
  norm_num

theorem one_lt_decimalRoom : 1 < decimalRoom := by
  unfold decimalRoom decimalBound
  norm_num

theorem decimalResult_nonneg {x : Decimal} (h : 0 ≤ x) : 0 ≤ decimalResult x :=
  FixedPoint.nearestDecimal_nonneg h

/-- A result is represented exactly if it is below the bound by more than one half. -/
theorem decimalResult_inRange {x : Decimal} :
    |decimalResult x| < decimalBound ↔ |x| < decimalRoom := by
  have hnearest : |FixedPoint.nearestDecimal (2 ^ 96) 28 x| < ((2 ^ 96 : ℕ) : Decimal) ↔
      |x| < ((2 ^ 96 : ℕ) : Decimal) - 1 / 2 :=
    FixedPoint.abs_nearestDecimal_lt_iff (by decide +kernel) (by decide +kernel)
  unfold decimalResult decimalRoom decimalBound
  exact_mod_cast hnearest

theorem decimalResult_inRange_of_nonneg {x : Decimal} (h : 0 ≤ x) :
    decimalResult x < decimalBound ↔ x < decimalRoom := by
  rw [← abs_of_nonneg (decimalResult_nonneg h), decimalResult_inRange, abs_of_nonneg h]

theorem decimalResult_le {x : Decimal} (h : |x| < decimalRoom) :
    |decimalResult x| ≤ decimalBound - 1 := by
  have hlt : |FixedPoint.nearestDecimal (2 ^ 96) 28 x| < ((2 ^ 96 : ℕ) : Decimal) := by
    have hrange := decimalResult_inRange.mpr h
    unfold decimalResult decimalBound at hrange
    exact_mod_cast hrange
  have hle := FixedPoint.abs_nearestDecimal_le hlt
  unfold decimalResult decimalBound
  exact_mod_cast hle

theorem abs_decimalResult_le (x : Decimal) : |decimalResult x| ≤ |x| + 1 / 2 := by
  have hclose : |decimalResult x - x| ≤ 1 / 2 := FixedPoint.abs_nearestDecimal_sub_le _ _ x
  linarith [abs_sub_abs_le_abs_sub (decimalResult x) x]

theorem le_roundedSum {total : Decimal} {xs : List Decimal} (htotal : decimalBound ≤ total)
    (hxs : ∀ x ∈ xs, 0 ≤ x) : decimalBound ≤ roundedSum total xs := by
  induction xs generalizing total with
  | nil => exact htotal
  | cons x xs ih =>
    obtain ⟨hx, hxs⟩ := List.forall_mem_cons.mp hxs
    have hnonneg : 0 ≤ total + x := by linarith [decimalBound_pos]
    refine ih (le_of_not_gt fun hlt => ?_) hxs
    have hroom := (decimalResult_inRange_of_nonneg hnonneg).mp hlt
    unfold decimalRoom at hroom
    linarith

/-- The running sums of sizes are in range when the last of them is. -/
theorem runningSums_inRange {total : Decimal} {xs : List Decimal} (htotal : 0 ≤ total)
    (hbound : total < decimalBound) (hxs : ∀ x ∈ xs, 0 ≤ x) :
    InRange (runningSums total xs) ↔ roundedSum total xs < decimalBound := by
  induction xs generalizing total with
  | nil => simpa [runningSums, roundedSum] using hbound
  | cons x xs ih =>
    obtain ⟨hx, hxs⟩ := List.forall_mem_cons.mp hxs
    have hnext : 0 ≤ decimalResult (total + x) := decimalResult_nonneg (add_nonneg htotal hx)
    rw [runningSums, roundedSum, InRange.cons, abs_of_nonneg hnext]
    by_cases hlt : decimalResult (total + x) < decimalBound
    · exact (and_iff_right hlt).trans (ih hnext hlt hxs)
    · exact iff_of_false (fun h => hlt h.1) (not_lt.mpr (le_roundedSum (not_lt.mp hlt) hxs))

theorem div_inRange {x y : Decimal} (hx : 0 < x) (hy : 0 < y) :
    |decimalResult (x / y)| < decimalBound ↔ x < decimalRoom * y := by
  rw [decimalResult_inRange, abs_of_pos (div_pos hx hy), div_lt_iff₀ hy]

-- A quotient less than one half below the bound is rounded to it.
example : ¬ |decimalResult (55459713759985036315480765235 / (7 / 10))| < decimalBound := by
  decide +kernel

section Book

variable {market : MarketRules} {book : OrderBook}

theorem Tradable.sizesThrough_nonneg (h : Tradable market book) (side : Side) (price : Decimal) :
    ∀ size ∈ book.sizesThrough side price, 0 ≤ size := by
  have hsizes : ∀ levels : List PriceLevel, Coordinator.validLevels market levels →
      ∀ p : PriceLevel → Bool, ∀ size ∈ (levels.filter p).map PriceLevel.size, 0 ≤ size := by
    intro levels hvalid p size hsize
    obtain ⟨level, hlevel, rfl⟩ := List.mem_map.mp hsize
    exact (hvalid level (List.mem_filter.mp hlevel).1).2.2.2.le
  cases side with
  | buy => exact hsizes _ h.asks _
  | sell => exact hsizes _ h.bids _

theorem Tradable.reference (h : Tradable market book) {side : Side} {reference : Decimal}
    (hreference : (match side with | .buy => book.bestAsk | .sell => book.bestBid) =
      some reference) : 0 < reference ∧ reference < 1 := by
  cases side with
  | buy =>
    obtain ⟨level, hlevel, rfl⟩ := List.mem_map.mp (List.min?_mem hreference)
    exact ⟨(h.asks level hlevel).1, (h.asks level hlevel).2.1⟩
  | sell =>
    obtain ⟨level, hlevel, rfl⟩ := List.mem_map.mp (List.max?_mem hreference)
    exact ⟨(h.bids level hlevel).1, (h.bids level hlevel).2.1⟩

theorem RiskPolicy.bookResults_inRange (h : Tradable market book) {request : OrderIntentRequest}
    {price : Decimal} (hprice : 0 < price ∧ price < 1) :
    InRange (bookResults request book price) ↔ (request.timeInForce.immediate = true →
      book.depthThrough request.side price < decimalBound) := by
  unfold bookResults
  split
  · rename_i himmediate
    rw [InRange.append, runningSums_inRange le_rfl decimalBound_pos (h.sizesThrough_nonneg _ _),
      and_iff_left, imp_iff_right himmediate]
    · exact Iff.rfl
    · split
      · exact InRange.nil.mpr trivial
      · rename_i reference hreference
        obtain ⟨hpos, hlt⟩ := h.reference hreference
        have hroom := one_lt_decimalRoom
        rw [InRange.cons, decimalResult_inRange, abs_lt]
        exact ⟨⟨by linarith, by linarith⟩, InRange.nil.mpr trivial⟩
  · rename_i hresting
    exact iff_of_true (InRange.nil.mpr trivial) fun himmediate => absurd himmediate hresting

end Book

theorem magnitude_le {negative : Bool} {mantissa digits : Nat} (h : mantissa < 2 ^ 96) :
    (if negative then -((mantissa : Decimal) / (10 ^ digits : Nat))
      else (mantissa : Decimal) / (10 ^ digits : Nat)) ≤ decimalBound - 1 := by
  have hscale : (1 : Decimal) ≤ ((10 ^ digits : Nat) : Decimal) := by
    exact_mod_cast Nat.one_le_pow _ _ (by decide)
  have hle : (mantissa : Decimal) ≤ decimalBound - 1 := by
    have hcast : ((mantissa + 1 : Nat) : Decimal) ≤ ((2 ^ 96 : Nat) : Decimal) := by
      exact_mod_cast h
    unfold decimalBound
    push_cast at hcast
    linarith
  have hmagnitude : (mantissa : Decimal) / ((10 ^ digits : Nat) : Decimal) ≤ mantissa :=
    div_le_self (Nat.cast_nonneg _) hscale
  have hnonneg : (0 : Decimal) ≤ mantissa / ((10 ^ digits : Nat) : Decimal) :=
    div_nonneg (Nat.cast_nonneg _) (zero_le_one.trans hscale)
  split
  · linarith [one_lt_decimalRoom]
  · linarith

theorem decimalFromStrExact_le {raw : String} {value : Decimal} {scale : Nat}
    (h : decimalFromStrExact raw = some (value, scale)) : value ≤ decimalBound - 1 := by
  unfold decimalFromStrExact at h
  dsimp only at h
  split at h
  · split at h
    · rename_i hmantissa
      obtain ⟨rfl, -⟩ := Prod.mk.inj (Option.some.inj h)
      exact magnitude_le hmantissa
    · cases h
  · cases h

theorem parsePositiveDecimal_le {field raw : String} {value : Decimal}
    (h : parsePositiveDecimal field raw = .ok value) : value ≤ decimalBound - 1 := by
  unfold parsePositiveDecimal at h
  split at h
  · cases h
  · rename_i hparsed
    split at h
    · cases h
    · split at h
      · cases h
      · cases h
        exact decimalFromStrExact_le hparsed

namespace RiskPolicy

variable {policy : RiskPolicy} {request : OrderIntentRequest} {market : MarketRules}
  {book : OrderBook} {snapshot : RiskSnapshot} {quantity price shares quote : Decimal}

/-- A check against a limit, and what is calculated once it passes. -/
theorem inRange_past {limit x : Decimal} {results : List Decimal} {P : Prop}
    (h : InRange results ↔ P) :
    InRange (if limit < x then [] else results) ↔ (x ≤ limit → P) := by
  split
  · rename_i hover
    exact iff_of_true (InRange.nil.mpr trivial) fun hle => absurd hle (not_le.mpr hover)
  · rename_i hwithin
    rw [imp_iff_right (not_lt.mp hwithin)]
    exact h

/-- A result checked against a limit, and what is calculated once it passes. -/
theorem inRange_checked {limit x : Decimal} {results : List Decimal} {P : Prop}
    (h : InRange results ↔ P) :
    InRange (decimalResult x :: if limit < decimalResult x then [] else results) ↔
      |x| < decimalRoom ∧ (decimalResult x ≤ limit → P) :=
  InRange.cons.trans (and_congr decimalResult_inRange (inRange_past h))

theorem grossQuote_inRange {side : Side} {takerFeeRate : Decimal}
    (hfee : 0 ≤ takerFeeRate ∧ takerFeeRate ≤ 1) (hquote : 0 ≤ quote ∧ quote ≤ decimalBound - 1) :
    InRange (if side = .buy then [decimalResult (quote * takerFeeRate),
        decimalResult (quote + decimalResult (quote * takerFeeRate))] else []) ↔
      (side = .buy → quote + decimalResult (quote * takerFeeRate) < decimalRoom) := by
  by_cases hside : side = .buy
  · have hfeeQuote : 0 ≤ quote * takerFeeRate := mul_nonneg hquote.1 hfee.1
    have hfeeLe : quote * takerFeeRate ≤ quote := mul_le_of_le_one_right hquote.1 hfee.2
    have hfeeRoom : quote * takerFeeRate < decimalRoom := by
      unfold decimalRoom
      linarith
    have hcharged := add_nonneg hquote.1 (decimalResult_nonneg hfeeQuote)
    rw [if_pos hside, InRange.cons, InRange.cons, decimalResult_inRange, decimalResult_inRange,
      abs_of_nonneg hfeeQuote, abs_of_nonneg hcharged, and_iff_right hfeeRoom, imp_iff_right hside]
    exact and_iff_left (InRange.nil.mpr trivial)
  · rw [if_neg hside]
    exact iff_of_true (InRange.nil.mpr trivial) fun hbuy => absurd hbuy hside

theorem limitResults_inRange (h : Tradable market book) (hprice : 0 < price ∧ price < 1)
    (hquote : 0 ≤ quote ∧ quote ≤ decimalBound - 1) :
    InRange (policy.limitResults request market book snapshot price shares quote) ↔
      policy.HasRoom request market book snapshot price shares quote := by
  unfold limitResults HasRoom
  dsimp only
  have hbook : InRange (bookResults request book price) ↔ (request.timeInForce.immediate = true →
      book.depthThrough request.side price < decimalBound) := bookResults_inRange h hprice
  split
  · rename_i hcaps
    refine iff_of_true (InRange.nil.mpr trivial) fun hshares hmax hcount => ?_
    rcases hcaps with hover | hover | hover
    · exact absurd hshares (not_le.mpr hover)
    · exact absurd hmax (not_le.mpr hover)
    · exact absurd hcount (not_lt.mpr hover)
  · rename_i hcaps
    simp only [not_or, not_lt, not_le] at hcaps
    rw [imp_iff_right hcaps.1, imp_iff_right hcaps.2.1, imp_iff_right hcaps.2.2]
    refine inRange_checked ?_
    rw [InRange.append]
    refine and_congr ?_ ?_
    · simp only [InRange.cons, InRange.nil, decimalResult_inRange, and_true]
    · rw [← and_imp, ← max_le_iff]
      refine inRange_past ?_
      rw [InRange.append, grossQuote_inRange h.takerFee hquote, and_assoc]
      exact and_congr Iff.rfl (inRange_checked (inRange_checked hbook))

end RiskPolicy

/-! ## From the request to its decision -/

section Admission

variable {self : Coordinator} {policy : RiskPolicy} {request : OrderIntentRequest}
  {market : MarketRules} {book : OrderBook} {snapshot : RiskSnapshot} {now : Time}
  {quantity price : Decimal}

theorem worth_lt_decimalRoom (hquantity : 0 < quantity ∧ quantity ≤ decimalBound - 1)
    (hprice : 0 < price ∧ price < 1) : 0 < price * quantity ∧ price * quantity < decimalRoom := by
  have hle : price * quantity ≤ quantity := mul_le_of_le_one_left hquantity.1.le hprice.2.le
  refine ⟨mul_pos hprice.1 hquantity.1, ?_⟩
  unfold decimalRoom
  linarith [hquantity.2]

theorem exposureResults_inRange (h : Tradable market book)
    (hquantity : 0 < quantity ∧ quantity ≤ decimalBound - 1) (hprice : 0 < price ∧ price < 1) :
    InRange (exposureResults request market quantity price) ↔
      (request.BuysAtOnce → quantity < decimalRoom * market.tickSize) := by
  unfold exposureResults
  by_cases hbuys : request.BuysAtOnce
  · rw [if_pos hbuys, if_pos h.tick.1, InRange.cons, div_inRange hquantity.1 h.tick.1,
      imp_iff_right hbuys]
    exact and_iff_left (InRange.nil.mpr trivial)
  · have hquote := worth_lt_decimalRoom hquantity hprice
    rw [if_neg hbuys, InRange.cons, decimalResult_inRange, abs_of_pos hquote.1]
    exact iff_of_true ⟨hquote.2, InRange.nil.mpr trivial⟩ fun h => absurd h hbuys

/-- The exposure of an order in a tradable market: its quote is represented. -/
theorem roundedExposure_spec (request : OrderIntentRequest) (h : Tradable market book)
    (hquantity : 0 < quantity ∧ quantity ≤ decimalBound - 1) (hprice : 0 < price ∧ price < 1) :
    ∃ shares quote, roundedExposure request market quantity price = some (shares, quote) ∧
      0 ≤ quote ∧ quote ≤ decimalBound - 1 := by
  unfold roundedExposure
  by_cases hbuys : request.BuysAtOnce
  · rw [if_pos hbuys, if_pos h.tick.1]
    exact ⟨_, _, rfl, hquantity.1.le, hquantity.2⟩
  · have hquote := worth_lt_decimalRoom hquantity hprice
    rw [if_neg hbuys]
    refine ⟨_, _, rfl, decimalResult_nonneg hquote.1.le, (le_abs_self _).trans ?_⟩
    exact decimalResult_le ((abs_of_pos hquote.1).trans_lt hquote.2)

theorem RiskPolicy.evaluationResults_inRange (h : Tradable market book)
    (hquantity : request.quantityDecimal = .ok quantity)
    (hprice : request.protectionPrice = .ok price) :
    InRange (policy.evaluationResults request market book snapshot) ↔
      (policy.Lists request market →
        (request.BuysAtOnce → quantity < decimalRoom * market.tickSize) ∧
        ∀ shares quote, roundedExposure request market quantity price = some (shares, quote) →
          policy.HasRoom request market book snapshot price shares quote) := by
  have hbounds := OrderIntentRequest.protectionPrice_pos hprice
  have hrange : 0 < quantity ∧ quantity ≤ decimalBound - 1 :=
    ⟨OrderIntentRequest.quantityDecimal_pos hquantity, parsePositiveDecimal_le hquantity⟩
  unfold evaluationResults
  split
  · rename_i hunlisted
    exact iff_of_true (InRange.nil.mpr trivial) fun hlists => absurd hlists hunlisted
  · rename_i hlists
    obtain ⟨shares, quote, hexposure, hquote⟩ := roundedExposure_spec request h hrange hbounds
    rw [imp_iff_right (not_not.mp hlists), hquantity, hprice]
    dsimp only
    rw [hexposure, InRange.append, exposureResults_inRange h hrange hbounds]
    refine and_congr Iff.rfl ((limitResults_inRange h hbounds hquote).trans ?_)
    constructor
    · intro hroom _ _ heq
      cases heq
      exact hroom
    · exact fun hroom => hroom shares quote rfl

/-- Without rounding the trace goes on where `validate_freshness_and_increments` lets pass. -/
theorem Coordinator.validateFreshnessAndIncrements_iff
    (hmarket : self.validateMarketData request market book now = .ok ())
    (hquantity : request.quantityDecimal = .ok quantity)
    (hprice : request.protectionPrice = .ok price)
    (hexact : decimalResult (quantity / price) = quantity / price) :
    self.validateFreshnessAndIncrements request market book now = .ok () ↔
      decimalRem price market.tickSize = 0 ∧
        market.minimumOrderSize ≤ request.roundedShares quantity price := by
  have hshares : (if request.side = .buy ∧ request.timeInForce.immediate = true then
      quantity / price else quantity) = request.roundedShares quantity price := by
    unfold OrderIntentRequest.roundedShares
    rw [hexact]
    rfl
  unfold validateFreshnessAndIncrements
  rw [hmarket, hprice, hquantity]
  dsimp only
  rw [hshares]
  split
  · rename_i htick
    exact iff_of_false (fun h => by cases h) fun h => htick h.1
  · rename_i htick
    rw [and_iff_right (not_not.mp htick)]
    split
    · rename_i hsmall
      exact iff_of_false (fun h => by cases h) (not_le.mpr hsmall)
    · rename_i hsmall
      exact iff_of_true rfl (not_lt.mp hsmall)

/-- No operator panics on the way from a request to its decision exactly when the request fits. -/
theorem admission_arithmetic_in_range (self : Coordinator) (request : OrderIntentRequest)
    (market : MarketRules) (book : OrderBook) (snapshot : RiskSnapshot) (admitted now : Time)
    (hvalid : request.validate admitted = .ok ())
    (hmarket : self.validateMarketData request market book now = .ok ()) :
    ∃ quantity price, request.quantityDecimal = .ok quantity ∧
      request.protectionPrice = .ok price ∧
      (InRange (self.admissionResults request market book snapshot now) ↔
        self.policy.Fits request market book snapshot quantity price) := by
  obtain ⟨quantity, price, hquantity, hprice⟩ := request.amounts_of_validate hvalid
  refine ⟨quantity, price, hquantity, hprice, ?_⟩
  have hpositive := OrderIntentRequest.quantityDecimal_pos hquantity
  have hbounds := OrderIntentRequest.protectionPrice_pos hprice
  have hdivision : InRange (if request.BuysAtOnce then [request.roundedShares quantity price]
      else []) ↔ (request.BuysAtOnce → quantity < decimalRoom * price) := by
    unfold OrderIntentRequest.roundedShares
    by_cases hbuys : request.BuysAtOnce
    · rw [if_pos hbuys, if_pos hbuys, InRange.cons, div_inRange hpositive hbounds.1,
        imp_iff_right hbuys]
      exact and_iff_left (InRange.nil.mpr trivial)
    · rw [if_neg hbuys]
      exact iff_of_true (InRange.nil.mpr trivial) fun h => absurd h hbuys
  unfold Coordinator.admissionResults RiskPolicy.Fits
  rw [hmarket, hprice, hquantity]
  dsimp only
  split
  · rename_i htick
    exact iff_of_true (InRange.nil.mpr trivial) fun hrem => absurd hrem htick
  · rename_i htick
    rw [imp_iff_right (not_not.mp htick), InRange.append, hdivision]
    refine and_congr Iff.rfl (RiskPolicy.inRange_past ?_)
    exact RiskPolicy.evaluationResults_inRange (Coordinator.tradable hmarket) hquantity hprice

/-- No limit of the policy and no figure of the snapshot is above a quarter of the bound. -/
structure Moderate (policy : RiskPolicy) (snapshot : RiskSnapshot) : Prop where
  shares : policy.maxSharesPerOrder ≤ decimalBound / 4
  quote : policy.maxQuotePerOrder ≤ decimalBound / 4
  market : |snapshot.marketOpenNotional| ≤ decimalBound / 4
  position : |snapshot.tokenPosition| ≤ decimalBound / 4
  buys : |snapshot.tokenPendingBuys| ≤ decimalBound / 4
  sells : |snapshot.tokenPendingSells| ≤ decimalBound / 4
  gross : |snapshot.grossExposure| ≤ decimalBound / 4
  daily : |snapshot.dailyMatchedNotional| ≤ decimalBound / 4

theorem decimalResult_between {x : Decimal} : -(|x| + 1 / 2) ≤ decimalResult x ∧
    decimalResult x ≤ |x| + 1 / 2 :=
  abs_le.mp (abs_decimalResult_le x)

theorem grossQuote_le (side : Side) {takerFeeRate quote : Decimal} (hquote : 0 ≤ quote)
    (hfee : 0 ≤ takerFeeRate ∧ takerFeeRate ≤ 1) :
    quote + decimalResult (quote * takerFeeRate) ≤ 2 * quote + 1 / 2 ∧
      0 ≤ RiskPolicy.grossQuote side takerFeeRate quote ∧
      RiskPolicy.grossQuote side takerFeeRate quote ≤ 2 * quote + 1 := by
  have hnonneg : 0 ≤ quote * takerFeeRate := mul_nonneg hquote hfee.1
  have hle : quote * takerFeeRate ≤ quote := mul_le_of_le_one_right hquote hfee.2
  have hrounded := decimalResult_nonneg hnonneg
  have hfeeLe := (decimalResult_between (x := quote * takerFeeRate)).2
  rw [abs_of_nonneg hnonneg] at hfeeLe
  have hcharged : 0 ≤ quote + decimalResult (quote * takerFeeRate) := add_nonneg hquote hrounded
  have hgrossLe := (decimalResult_between (x := quote + decimalResult (quote * takerFeeRate))).2
  rw [abs_of_nonneg hcharged] at hgrossLe
  refine ⟨by linarith, ?_⟩
  unfold RiskPolicy.grossQuote
  split
  · exact ⟨decimalResult_nonneg hcharged, by linarith⟩
  · exact ⟨le_rfl, by linarith⟩

/-- Under moderate limits and exposures only the depth of the book can leave the range once the
exposure of the order is known. -/
theorem Moderate.hasRoom (h : Moderate policy snapshot) {shares quote : Decimal}
    (hshares : 0 ≤ shares) (hquote : 0 ≤ quote)
    (hfee : 0 ≤ market.takerFeeRate ∧ market.takerFeeRate ≤ 1)
    (hdepth : book.depthThrough request.side price < decimalBound) :
    policy.HasRoom request market book snapshot price shares quote := by
  unfold RiskPolicy.HasRoom
  intro long longAfter short shortAfter charged gross hmaxShares hmaxQuote _
  have hroom : 3 / 4 * decimalBound + 1 < decimalRoom := by
    unfold decimalRoom decimalBound
    norm_num
  have hbound := decimalBound_pos
  have hsharesLe := hmaxShares.trans h.shares
  have hquoteLe := hmaxQuote.trans h.quote
  obtain ⟨hmarket, hmarket'⟩ := abs_le.mp h.market
  obtain ⟨hposition, hposition'⟩ := abs_le.mp h.position
  obtain ⟨hbuys, hbuys'⟩ := abs_le.mp h.buys
  obtain ⟨hsells, hsells'⟩ := abs_le.mp h.sells
  obtain ⟨hexposed, hexposed'⟩ := abs_le.mp h.gross
  obtain ⟨hdaily, hdaily'⟩ := abs_le.mp h.daily
  obtain ⟨hcharged, hgrossNonneg, hgrossLe⟩ := grossQuote_le request.side hquote hfee
  have hadded : ∀ {p : Prop} [Decidable p], 0 ≤ (if p then shares else 0) ∧
      (if p then shares else 0) ≤ decimalBound / 4 := by
    intro p _
    split
    · exact ⟨hshares, hsharesLe⟩
    · exact ⟨le_rfl, by linarith⟩
  have hlong : |long| ≤ decimalBound / 2 :=
    abs_le.mpr ⟨by simp only [long]; linarith, by simp only [long]; linarith⟩
  have hshort : |short| ≤ decimalBound / 2 :=
    abs_le.mpr ⟨by simp only [short]; linarith, by simp only [short]; linarith⟩
  obtain ⟨hlongGe, hlongLe⟩ := decimalResult_between (x := long)
  obtain ⟨hshortGe, hshortLe⟩ := decimalResult_between (x := short)
  have hlongAfter := @hadded (request.side = .buy) _
  have hshortAfter := @hadded (request.side = .sell) _
  refine ⟨abs_lt.mpr ⟨by linarith, by linarith⟩, fun _ => ⟨⟨by linarith, ?_, by linarith, ?_⟩,
    fun _ _ => ⟨⟨fun _ => ?_, ?_⟩,
    fun _ => ⟨abs_lt.mpr ⟨by linarith, by linarith⟩, fun _ _ => hdepth⟩⟩⟩⟩
  · exact abs_lt.mpr ⟨by simp only [longAfter]; linarith, by simp only [longAfter]; linarith⟩
  · exact abs_lt.mpr ⟨by simp only [shortAfter]; linarith, by simp only [shortAfter]; linarith⟩
  · simp only [charged]
    linarith
  · exact abs_lt.mpr ⟨by simp only [gross]; linarith, by simp only [gross]; linarith⟩

end Admission

/-! ## Two requests -/

def noExposure : RiskSnapshot := ⟨0, 0, 0, 0, 0, 0, 0⟩

def immediatePurchase (quote : String) : OrderIntentRequest :=
  { sampleRequest with
    timeInForce := .fak
    quantity := { unit := .quote, value := quote }
    limitPrice := none
    worstPrice := some "0.5" }

def hugePurchase : OrderIntentRequest := immediatePurchase "79228162514264337593543950335"

theorem admission_arithmetic_in_range_immediate :
    Db.initial.riskSnapshot "condition" "7" 0 = .ok noExposure ∧
      (immediatePurchase "5").BuysAtOnce ∧
      sampleCoordinator.policy.Fits (immediatePurchase "5") sampleMarket sampleBook noExposure 5
        (1 / 2) := by
  obtain ⟨quantity, price, hquantity, hprice, hiff⟩ :=
    admission_arithmetic_in_range sampleCoordinator (immediatePurchase "5") sampleMarket sampleBook
      noExposure 0 0 (by decide +kernel) (by decide +kernel)
  have hfive : (immediatePurchase "5").quantityDecimal = .ok 5 := by decide +kernel
  have hhalf : (immediatePurchase "5").protectionPrice = .ok (1 / 2) := by decide +kernel
  obtain rfl := Except.ok.inj (hquantity.symm.trans hfive)
  obtain rfl := Except.ok.inj (hprice.symm.trans hhalf)
  exact ⟨by decide +kernel, by decide +kernel, hiff.mp (by decide +kernel)⟩

/-- The admitted purchase of a service without exposure: the size in shares, which the validation
computes before any limit, is twice the quantity. -/
theorem admission_arithmetic_overflows :
    hugePurchase.validate 0 = .ok () ∧ samplePolicy.validate = .ok () ∧
      sampleCoordinator.validateMarketData hugePurchase sampleMarket sampleBook 0 = .ok () ∧
      Db.initial.riskSnapshot "condition" "7" 0 = .ok noExposure ∧
      ¬ InRange (sampleCoordinator.admissionResults hugePurchase sampleMarket sampleBook
        noExposure 0) := by
  decide +kernel

end OddsfoxExecution
