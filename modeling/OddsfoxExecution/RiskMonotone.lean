import OddsfoxExecution.Store.Run
import Mathlib.Tactic.Linarith

/-!
# Monotonicity of the risk engine

An approval stands when the order shrinks and when the portfolio it is checked
against eases.  The position check takes absolute values of a long and of a
short case, and easing moves the two towards each other: neither leaves the
band the other one bounds.
-/

namespace OddsfoxExecution

/-- The same position, with nothing else above `other` and nothing pending below zero. -/
structure RiskSnapshot.Eases (snapshot other : RiskSnapshot) : Prop where
  openOrderCount : snapshot.openOrderCount ≤ other.openOrderCount
  marketOpenNotional : snapshot.marketOpenNotional ≤ other.marketOpenNotional
  tokenPosition : snapshot.tokenPosition = other.tokenPosition
  pendingBuys_nonneg : 0 ≤ snapshot.tokenPendingBuys
  tokenPendingBuys : snapshot.tokenPendingBuys ≤ other.tokenPendingBuys
  pendingSells_nonneg : 0 ≤ snapshot.tokenPendingSells
  tokenPendingSells : snapshot.tokenPendingSells ≤ other.tokenPendingSells
  grossExposure : snapshot.grossExposure ≤ other.grossExposure
  dailyMatchedNotional : snapshot.dailyMatchedNotional ≤ other.dailyMatchedNotional

def OrderIntentRequest.withQuantity (request : OrderIntentRequest) (quantity : Quantity) :
    OrderIntentRequest := { request with quantity }

/-- A smaller order has an exposure too, and a smaller one. -/
theorem conservativeExposure_mono {request : OrderIntentRequest} {market : MarketRules}
    {less quantity price shares quote : Decimal} (hprice : 0 < price) (hle : less ≤ quantity)
    (h : conservativeExposure request market quantity price = some (shares, quote)) :
    ∃ shares' quote', conservativeExposure request market less price = some (shares', quote') ∧
      shares' ≤ shares ∧ quote' ≤ quote := by
  unfold conservativeExposure at h ⊢
  by_cases himmediate : request.side = .buy ∧ request.timeInForce.immediate
  · rw [if_pos himmediate] at h ⊢
    by_cases htick : 0 < market.tickSize
    · rw [if_pos htick] at h ⊢
      obtain ⟨rfl, rfl⟩ := Prod.mk.inj (Option.some.inj h)
      exact ⟨_, _, rfl, div_le_div_of_nonneg_right hle htick.le, hle⟩
    · rw [if_neg htick] at h
      exact absurd h (Option.some_ne_none _).symm
  · rw [if_neg himmediate] at h ⊢
    obtain ⟨rfl, rfl⟩ := Prod.mk.inj (Option.some.inj h)
    exact ⟨_, _, rfl, hle, mul_le_mul_of_nonneg_left hle hprice.le⟩

namespace RiskPolicy

/-- What `evaluate` checks before it reads an amount. -/
structure Permits (policy : RiskPolicy) (request : OrderIntentRequest) (market : MarketRules) :
    Prop where
  condition : policy.allowedConditionIds = [] ∨
    request.conditionId ∈ policy.allowedConditionIds
  token : policy.allowedTokenIds = [] ∨ request.tokenId ∈ policy.allowedTokenIds
  side : request.side ∈ policy.allowedSides
  timeInForce : request.timeInForce ∈ policy.allowedTimeInForce
  accepting : market.active ∧ ¬ market.closed ∧ market.acceptingOrders

structure Affords (policy : RiskPolicy) (side : Side) (market : MarketRules)
    (snapshot : RiskSnapshot) (shares quote : Decimal) : Prop where
  within : policy.Within side shares quote snapshot
  sharesPerOrder : shares ≤ policy.maxSharesPerOrder
  quotePerOrder : quote ≤ policy.maxQuotePerOrder
  gross : snapshot.grossExposure +
    (if side = .buy then quote + quote * market.takerFeeRate else 0) ≤ policy.maxGrossExposure
  daily : snapshot.dailyMatchedNotional + quote ≤ policy.maxDailyMatchedNotional

/-- The book passes, whatever the decision it then hands on. -/
def BookPasses (policy : RiskPolicy) (request : OrderIntentRequest) (book : OrderBook)
    (price : Decimal) : Prop :=
  ∀ approve : RiskDecision, approve.approved = true →
    (policy.evaluateBook request book price approve).approved = true

variable {policy : RiskPolicy} {request : OrderIntentRequest} {market : MarketRules}
  {book : OrderBook} {snapshot : RiskSnapshot}

/-- A check hands on a decision or rejects, whatever the decision is. -/
theorem bookPasses_of_approved {price : Decimal} {approve : RiskDecision}
    (h : (policy.evaluateBook request book price approve).approved = true) :
    policy.BookPasses request book price := by
  intro other hother
  unfold evaluateBook at h ⊢
  by_cases himmediate : request.timeInForce.immediate = true
  · rw [if_pos himmediate] at h ⊢
    cases hside : request.side <;> simp only [hside] at h ⊢
    · cases hreference : book.bestAsk with
      | none => simp [hreference] at h
      | some reference =>
        simp only [hreference] at h ⊢
        obtain ⟨hdistance, h⟩ := past_of_approved rfl h
        obtain ⟨hdepth, -⟩ := past_of_approved rfl h
        rw [if_neg hdistance, if_neg hdepth]
        exact hother
    · cases hreference : book.bestBid with
      | none => simp [hreference] at h
      | some reference =>
        simp only [hreference] at h ⊢
        obtain ⟨hdistance, h⟩ := past_of_approved rfl h
        obtain ⟨hdepth, -⟩ := past_of_approved rfl h
        rw [if_neg hdistance, if_neg hdepth]
        exact hother
  · rw [if_neg himmediate]
    exact hother

theorem evaluateExposure_approved_iff {price shares quote : Decimal} :
    (policy.evaluateExposure request market book snapshot price shares quote).approved = true ↔
      policy.Affords request.side market snapshot shares quote ∧
        policy.BookPasses request book price := by
  constructor
  · intro h
    have hwithin := within_of_evaluateExposure h
    unfold evaluateExposure at h
    dsimp only at h
    obtain ⟨hshares, h⟩ := past_of_approved rfl h
    obtain ⟨hquote, h⟩ := past_of_approved rfl h
    obtain ⟨-, h⟩ := past_of_approved rfl h
    obtain ⟨-, h⟩ := past_of_approved rfl h
    obtain ⟨-, h⟩ := past_of_approved rfl h
    obtain ⟨hgross, h⟩ := past_of_approved rfl h
    obtain ⟨hdaily, h⟩ := past_of_approved rfl h
    exact ⟨⟨hwithin, not_lt.mp hshares, not_lt.mp hquote, not_lt.mp hgross, not_lt.mp hdaily⟩,
      bookPasses_of_approved h⟩
  · rintro ⟨hafford, hbook⟩
    unfold evaluateExposure
    dsimp only
    rw [if_neg (not_lt.mpr hafford.sharesPerOrder), if_neg (not_lt.mpr hafford.quotePerOrder),
      if_neg (not_le.mpr hafford.within.openOrders), if_neg (not_lt.mpr hafford.within.market),
      if_neg (not_lt.mpr (max_le hafford.within.long hafford.within.short)),
      if_neg (not_lt.mpr hafford.gross), if_neg (not_lt.mpr hafford.daily)]
    exact hbook _ rfl

/-- What an approval means, check by check. -/
theorem evaluate_approved_iff :
    (policy.evaluate request market book snapshot).approved = true ↔
      policy.Permits request market ∧ ∃ quantity price shares quote,
        request.quantityDecimal = .ok quantity ∧ request.protectionPrice = .ok price ∧
        conservativeExposure request market quantity price = some (shares, quote) ∧
        policy.Affords request.side market snapshot shares quote ∧
        policy.BookPasses request book price := by
  constructor
  · intro h
    obtain ⟨quantity, price, ⟨shares, quote⟩, hquantity, hprice, hexposure⟩ :=
      exposure_of_approved h
    unfold evaluate at h
    rw [hquantity, hprice] at h
    dsimp only at h
    rw [hexposure] at h
    obtain ⟨hcondition, h⟩ := past_of_approved rfl h
    obtain ⟨htoken, h⟩ := past_of_approved rfl h
    obtain ⟨hside, h⟩ := past_of_approved rfl h
    obtain ⟨htime, h⟩ := past_of_approved rfl h
    obtain ⟨haccepting, h⟩ := past_of_approved rfl h
    obtain ⟨hafford, hbook⟩ := evaluateExposure_approved_iff.mp h
    refine ⟨⟨?_, ?_, not_not.mp hside, not_not.mp htime, ?_⟩, quantity, price, shares, quote,
      hquantity, hprice, hexposure, hafford, hbook⟩
    · by_cases hempty : policy.allowedConditionIds = []
      · exact Or.inl hempty
      · exact Or.inr (not_not.mp fun hnot => hcondition ⟨hempty, hnot⟩)
    · by_cases hempty : policy.allowedTokenIds = []
      · exact Or.inl hempty
      · exact Or.inr (not_not.mp fun hnot => htoken ⟨hempty, hnot⟩)
    · simpa [not_or] using haccepting
  · rintro ⟨hpermits, quantity, price, shares, quote, hquantity, hprice, hexposure, hafford,
      hbook⟩
    unfold evaluate
    rw [hquantity, hprice]
    dsimp only
    rw [hexposure, if_neg, if_neg, if_neg (not_not.mpr hpermits.side),
      if_neg (not_not.mpr hpermits.timeInForce), if_neg]
    · exact evaluateExposure_approved_iff.mpr ⟨hafford, hbook⟩
    · simpa [not_or] using hpermits.accepting
    · rintro ⟨hne, hnot⟩
      exact hpermits.token.elim hne hnot
    · rintro ⟨hne, hnot⟩
      exact hpermits.condition.elim hne hnot

/-- The long case falls, the short case rises, and each bounds the other. -/
theorem Within.mono {side : Side} {shares shares' quote quote' : Decimal}
    {snapshot' : RiskSnapshot} (hshares : 0 < shares') (hle : shares' ≤ shares)
    (hquote : quote' ≤ quote) (heases : snapshot'.Eases snapshot)
    (h : policy.Within side shares quote snapshot) :
    policy.Within side shares' quote' snapshot' := by
  have hposition := heases.tokenPosition
  have hbuys := heases.tokenPendingBuys
  have hsells := heases.tokenPendingSells
  have hbuys_nonneg := heases.pendingBuys_nonneg
  have hsells_nonneg := heases.pendingSells_nonneg
  obtain ⟨-, hlong⟩ := abs_le.mp h.long
  obtain ⟨hshort, -⟩ := abs_le.mp h.short
  have hlong' : snapshot'.tokenPosition + snapshot'.tokenPendingBuys +
      (if side = .buy then shares' else 0) ≤ policy.maxNetPositionPerToken := by
    by_cases hside : side = .buy
    · rw [if_pos hside] at hlong ⊢
      linarith
    · rw [if_neg hside] at hlong ⊢
      linarith
  have hshort' : -policy.maxNetPositionPerToken ≤ snapshot'.tokenPosition -
      snapshot'.tokenPendingSells - (if side = .sell then shares' else 0) := by
    by_cases hside : side = .sell
    · rw [if_pos hside] at hshort ⊢
      linarith
    · rw [if_neg hside] at hshort ⊢
      linarith
  have hbought : 0 ≤ if side = .buy then shares' else 0 := by
    split
    · exact hshares.le
    · exact le_rfl
  have hsold : 0 ≤ if side = .sell then shares' else 0 := by
    split
    · exact hshares.le
    · exact le_rfl
  constructor
  · exact lt_of_le_of_lt heases.openOrderCount h.openOrders
  · have hmarket := h.market
    have hnotional := heases.marketOpenNotional
    linarith
  · rw [abs_le]
    exact ⟨by linarith, hlong'⟩
  · rw [abs_le]
    exact ⟨hshort', by linarith⟩

theorem Affords.mono {side : Side} {shares shares' quote quote' : Decimal}
    {snapshot' : RiskSnapshot} (hfee : 0 ≤ market.takerFeeRate) (hshares : 0 < shares')
    (hle : shares' ≤ shares) (hquote : quote' ≤ quote) (heases : snapshot'.Eases snapshot)
    (h : policy.Affords side market snapshot shares quote) :
    policy.Affords side market snapshot' shares' quote' := by
  refine ⟨h.within.mono hshares hle hquote heases, hle.trans h.sharesPerOrder,
    hquote.trans h.quotePerOrder, ?_, ?_⟩
  · have hgross := h.gross
    have hexposure := heases.grossExposure
    by_cases hside : side = .buy
    · rw [if_pos hside] at hgross ⊢
      have hcharge := mul_le_mul_of_nonneg_right hquote hfee
      linarith
    · rw [if_neg hside] at hgross ⊢
      linarith
  · have hdaily := h.daily
    have hmatched := heases.dailyMatchedNotional
    linarith

/-- An approved request stays approved at any smaller quantity and against any eased snapshot. -/
theorem approval_monotone {quantity' : Quantity} {snapshot' : RiskSnapshot}
    {whole part : Decimal} (hfee : 0 ≤ market.takerFeeRate)
    (hwhole : request.quantityDecimal = .ok whole)
    (hpart : (request.withQuantity quantity').quantityDecimal = .ok part) (hle : part ≤ whole)
    (heases : snapshot'.Eases snapshot)
    (h : (policy.evaluate request market book snapshot).approved = true) :
    (policy.evaluate (request.withQuantity quantity') market book snapshot').approved = true := by
  obtain ⟨hpermits, quantity, price, shares, quote, hquantity, hprice, hexposure, hafford,
    hbook⟩ := evaluate_approved_iff.mp h
  have hsame : quantity = whole := Except.ok.inj (hquantity.symm.trans hwhole)
  subst hsame
  have hpositive := (OrderIntentRequest.protectionPrice_pos hprice).1
  obtain ⟨shares', quote', hexposure', hshares, hquote⟩ :=
    conservativeExposure_mono hpositive hle hexposure
  have hshares' := (conservativeExposure_pos (OrderIntentRequest.quantityDecimal_pos hpart)
    hpositive hexposure').1
  refine evaluate_approved_iff.mpr ⟨⟨hpermits.condition, hpermits.token, hpermits.side,
    hpermits.timeInForce, hpermits.accepting⟩, part, price, shares', quote', hpart, hprice,
    hexposure', hafford.mono hfee hshares' hshares hquote heases, ?_⟩
  exact hbook

/-- A purchase that takes the long case to the position limit stays approved, with fewer pending
buys, for less than half of its quantity. -/
theorem approval_monotone_at_limit :
    (samplePolicy.evaluate sampleRequest sampleMarket sampleBook
      ⟨9, 400, -10, 1000, 30, 500, 20⟩).approved = true ∧
    (samplePolicy.evaluate (sampleRequest.withQuantity ⟨.shares, "4.5"⟩) sampleMarket sampleBook
      ⟨0, 400, -10, 2, 0, 500, 0⟩).approved = true := by
  have hwhole : (samplePolicy.evaluate sampleRequest sampleMarket sampleBook
      ⟨9, 400, -10, 1000, 30, 500, 20⟩).approved = true := by decide +kernel
  have heases : RiskSnapshot.Eases ⟨0, 400, -10, 2, 0, 500, 0⟩
      ⟨9, 400, -10, 1000, 30, 500, 20⟩ := by
    constructor <;> decide +kernel
  exact ⟨hwhole, approval_monotone (by decide +kernel)
    (show sampleRequest.quantityDecimal = .ok 10 by decide +kernel)
    (show (sampleRequest.withQuantity ⟨.shares, "4.5"⟩).quantityDecimal = .ok (9 / 2) by
      decide +kernel) (by decide +kernel) heases hwhole⟩

end RiskPolicy

end OddsfoxExecution
