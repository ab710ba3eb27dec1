import OddsfoxExecution.Venue
import Mathlib.Algebra.Order.Field.Basic
import Mathlib.Algebra.Order.Ring.Rat
import Mathlib.Algebra.Field.Rat

/-!
# The risk engine

`RiskPolicy::evaluate` and `conservative_exposure` of `src/risk.rs`.  The
policy's limits are the decimals its strings parse to; `RiskPolicy::load`
refuses a policy whose strings do not.
-/

namespace OddsfoxExecution

structure RiskPolicy where
  version : String
  allowedConditionIds : List String
  allowedTokenIds : List String
  allowedSides : List Side
  allowedTimeInForce : List TimeInForce
  maxQuotePerOrder : Decimal
  maxSharesPerOrder : Decimal
  maxOpenOrders : Nat
  maxOpenNotionalPerMarket : Decimal
  maxNetPositionPerToken : Decimal
  maxGrossExposure : Decimal
  maxDailyMatchedNotional : Decimal
  maxWorstPriceDistance : Decimal
  minVisibleDepth : Decimal
  maxMarketMetadataAgeSeconds : Nat
  maxOrderBookAgeSeconds : Nat
  maxUserStreamAgeSeconds : Nat
  maxReconciliationAgeSeconds : Nat
  cancelOnHalt : Bool
deriving DecidableEq

structure RiskSnapshot where
  openOrderCount : Nat
  marketOpenNotional : Decimal
  tokenPosition : Decimal
  tokenPendingBuys : Decimal
  tokenPendingSells : Decimal
  grossExposure : Decimal
  dailyMatchedNotional : Decimal
deriving DecidableEq

/-- A value of a decision's `observed` object. -/
inductive Observation where
  | text (value : String)
  | amount (value : Decimal)
  | count (value : Nat)
  | flag (value : Bool)
  | side (value : Side)
  | timeInForce (value : TimeInForce)
deriving DecidableEq

structure RiskDecision where
  approved : Bool
  reasonCode : String
  message : String
  observed : List (String × Observation)
  policyVersion : String
deriving DecidableEq

/-- `conservative_exposure`: the shares and the quote an order can at most consume. -/
def conservativeExposure (request : OrderIntentRequest) (market : MarketRules)
    (quantity price : Decimal) : Option (Decimal × Decimal) :=
  if request.side = .buy ∧ request.timeInForce.immediate then
    if 0 < market.tickSize then some (quantity / market.tickSize, quantity) else none
  else some (quantity, price * quantity)

theorem conservativeExposure_pos {request : OrderIntentRequest} {market : MarketRules}
    {quantity price shares quote : Decimal} (hquantity : 0 < quantity) (hprice : 0 < price)
    (h : conservativeExposure request market quantity price = some (shares, quote)) :
    0 < shares ∧ 0 < quote := by
  unfold conservativeExposure at h
  split at h
  · split at h
    · cases h
      exact ⟨div_pos hquantity ‹_›, hquantity⟩
    · cases h
  · cases h
    exact ⟨hquantity, mul_pos hprice hquantity⟩

namespace RiskPolicy

def reject (policy : RiskPolicy) (code message : String)
    (observed : List (String × Observation)) : RiskDecision :=
  { approved := false, reasonCode := code, message, observed, policyVersion := policy.version }

/-- The last check of `evaluate`, made for immediate orders only. -/
def evaluateBook (policy : RiskPolicy) (request : OrderIntentRequest) (book : OrderBook)
    (price : Decimal) (approve : RiskDecision) : RiskDecision :=
  if request.timeInForce.immediate then
    let (reference, visibleDepth) := match request.side with
      | .buy => (book.bestAsk, book.askDepthThrough price)
      | .sell => (book.bestBid, book.bidDepthThrough price)
    match reference with
    | none => policy.reject "RISK_EMPTY_BOOK" "book has no executable liquidity" []
    | some reference =>
      let distance := |price - reference|
      if policy.maxWorstPriceDistance < distance then
        policy.reject "RISK_WORST_PRICE_DISTANCE" "worst price is too far from the current book"
          [("observed", .amount distance), ("limit", .amount policy.maxWorstPriceDistance)]
      else if visibleDepth < policy.minVisibleDepth then
        policy.reject "RISK_MIN_VISIBLE_DEPTH" "visible executable depth is below policy"
          [("observed", .amount visibleDepth), ("limit", .amount policy.minVisibleDepth)]
      else approve
  else approve

/-- The exposure checks of `evaluate`, from the order's shares and quote on. -/
def evaluateExposure (policy : RiskPolicy) (request : OrderIntentRequest) (market : MarketRules)
    (book : OrderBook) (snapshot : RiskSnapshot) (price shares quote : Decimal) : RiskDecision :=
  let marketAfter := snapshot.marketOpenNotional + quote
  let longAfter := snapshot.tokenPosition + snapshot.tokenPendingBuys +
    (if request.side = .buy then shares else 0)
  let shortAfter := snapshot.tokenPosition - snapshot.tokenPendingSells -
    (if request.side = .sell then shares else 0)
  let worstPositionAfter := max |longAfter| |shortAfter|
  let grossAfter := snapshot.grossExposure +
    (if request.side = .buy then quote + quote * market.takerFeeRate else 0)
  let dailyAfter := snapshot.dailyMatchedNotional + quote
  if policy.maxSharesPerOrder < shares then
    policy.reject "RISK_MAX_SHARES_PER_ORDER" "share quantity exceeds policy"
      [("observed", .amount shares), ("limit", .amount policy.maxSharesPerOrder)]
  else if policy.maxQuotePerOrder < quote then
    policy.reject "RISK_MAX_QUOTE_PER_ORDER" "quote notional exceeds policy"
      [("observed", .amount quote), ("limit", .amount policy.maxQuotePerOrder)]
  else if policy.maxOpenOrders ≤ snapshot.openOrderCount then
    policy.reject "RISK_MAX_OPEN_ORDERS" "open order count exceeds policy"
      [("observed", .count snapshot.openOrderCount), ("limit", .count policy.maxOpenOrders)]
  else if policy.maxOpenNotionalPerMarket < marketAfter then
    policy.reject "RISK_MAX_MARKET_EXPOSURE" "worst-case market exposure would exceed policy"
      [("observed", .amount marketAfter), ("limit", .amount policy.maxOpenNotionalPerMarket)]
  else if policy.maxNetPositionPerToken < worstPositionAfter then
    policy.reject "RISK_MAX_TOKEN_POSITION" "worst-case token position would exceed policy"
      [("observed", .amount worstPositionAfter), ("long_case", .amount longAfter),
        ("short_case", .amount shortAfter), ("limit", .amount policy.maxNetPositionPerToken)]
  else if policy.maxGrossExposure < grossAfter then
    policy.reject "RISK_MAX_GROSS_EXPOSURE" "worst-case gross exposure would exceed policy"
      [("observed", .amount grossAfter), ("limit", .amount policy.maxGrossExposure)]
  else if policy.maxDailyMatchedNotional < dailyAfter then
    policy.reject "RISK_MAX_DAILY_MATCHED_NOTIONAL" "daily matched notional would exceed policy"
      [("observed", .amount dailyAfter), ("limit", .amount policy.maxDailyMatchedNotional)]
  else
    policy.evaluateBook request book price
      { approved := true
        reasonCode := "RISK_APPROVED"
        message := "intent satisfies policy"
        observed := [("quote", .amount quote), ("shares", .amount shares),
          ("gross_after", .amount grossAfter), ("market_after", .amount marketAfter),
          ("long_position_after", .amount longAfter),
          ("short_position_after", .amount shortAfter)]
        policyVersion := policy.version }

def evaluate (policy : RiskPolicy) (request : OrderIntentRequest) (market : MarketRules)
    (book : OrderBook) (snapshot : RiskSnapshot) : RiskDecision :=
  if policy.allowedConditionIds ≠ [] ∧ request.conditionId ∉ policy.allowedConditionIds then
    policy.reject "RISK_CONDITION_NOT_ALLOWED" "condition is not allowlisted"
      [("condition_id", .text request.conditionId)]
  else if policy.allowedTokenIds ≠ [] ∧ request.tokenId ∉ policy.allowedTokenIds then
    policy.reject "RISK_TOKEN_NOT_ALLOWED" "token is not allowlisted"
      [("token_id", .text request.tokenId)]
  else if request.side ∉ policy.allowedSides then
    policy.reject "RISK_SIDE_NOT_ALLOWED" "side is not allowed" [("side", .side request.side)]
  else if request.timeInForce ∉ policy.allowedTimeInForce then
    policy.reject "RISK_TIF_NOT_ALLOWED" "time in force is not allowed"
      [("time_in_force", .timeInForce request.timeInForce)]
  else if ¬ market.active ∨ market.closed ∨ ¬ market.acceptingOrders then
    policy.reject "MARKET_NOT_ACCEPTING_ORDERS" "market is not active and accepting orders"
      [("active", .flag market.active), ("closed", .flag market.closed),
        ("accepting_orders", .flag market.acceptingOrders)]
  else
    match request.quantityDecimal with
    | .error e => policy.reject "ORDER_INVALID_QUANTITY" e.text []
    | .ok quantity =>
      match request.protectionPrice with
      | .error e => policy.reject "ORDER_INVALID_PRICE" e.text []
      | .ok price =>
        match conservativeExposure request market quantity price with
        | none =>
          policy.reject "MARKET_RULES_INVALID" "market tick size must be positive"
            [("tick_size", .amount market.tickSize)]
        | some (shares, quote) =>
          policy.evaluateExposure request market book snapshot price shares quote

/-- The decimal limits of a policy, under the names `validate` reports them by. -/
def decimalLimits (policy : RiskPolicy) : List (String × Decimal) :=
  [("max_quote_per_order", policy.maxQuotePerOrder),
    ("max_shares_per_order", policy.maxSharesPerOrder),
    ("max_open_notional_per_market", policy.maxOpenNotionalPerMarket),
    ("max_net_position_per_token", policy.maxNetPositionPerToken),
    ("max_gross_exposure", policy.maxGrossExposure),
    ("max_daily_matched_notional", policy.maxDailyMatchedNotional),
    ("max_worst_price_distance", policy.maxWorstPriceDistance),
    ("min_visible_depth", policy.minVisibleDepth)]

def validate (policy : RiskPolicy) : Except String Unit :=
  if trimIsEmpty policy.version then .error "risk policy version is required"
  else if policy.maxOpenOrders = 0 then .error "max_open_orders must be positive"
  else if policy.maxMarketMetadataAgeSeconds = 0 ∨ policy.maxOrderBookAgeSeconds = 0 ∨
      policy.maxUserStreamAgeSeconds = 0 ∨ policy.maxReconciliationAgeSeconds = 0 then
    .error "risk freshness limits must be positive"
  else
    match policy.decimalLimits.find? fun limit => limit.2 < 0 with
    | some (name, _) => .error (name ++ " may not be negative")
    | none => .ok ()

theorem limits_nonneg {policy : RiskPolicy} (h : policy.validate = .ok ()) :
    ∀ limit ∈ policy.decimalLimits, 0 ≤ limit.2 := by
  unfold validate at h
  split at h
  · cases h
  · split at h
    · cases h
    · split at h
      · cases h
      · split at h
        · cases h
        · rename_i hnone
          exact fun limit hlimit => by simpa using List.find?_eq_none.mp hnone limit hlimit

@[simp] theorem reject_approved (policy : RiskPolicy) (code message : String)
    (observed : List (String × Observation)) :
    (policy.reject code message observed).approved = false := rfl

theorem exposure_of_approved {policy : RiskPolicy} {request : OrderIntentRequest}
    {market : MarketRules} {book : OrderBook} {snapshot : RiskSnapshot}
    (h : (policy.evaluate request market book snapshot).approved = true) :
    ∃ quantity price exposure, request.quantityDecimal = .ok quantity ∧
      request.protectionPrice = .ok price ∧
      conservativeExposure request market quantity price = some exposure := by
  unfold evaluate at h
  repeat' split at h
  all_goals first
    | exact ⟨_, _, _, ‹_›, ‹_›, ‹_›⟩
    | simp at h

/-- What an approved exposure leaves within the limits. -/
structure Within (policy : RiskPolicy) (side : Side) (shares quote : Decimal)
    (snapshot : RiskSnapshot) : Prop where
  openOrders : snapshot.openOrderCount < policy.maxOpenOrders
  market : snapshot.marketOpenNotional + quote ≤ policy.maxOpenNotionalPerMarket
  long : |snapshot.tokenPosition + snapshot.tokenPendingBuys +
    (if side = .buy then shares else 0)| ≤ policy.maxNetPositionPerToken
  short : |snapshot.tokenPosition - snapshot.tokenPendingSells -
    (if side = .sell then shares else 0)| ≤ policy.maxNetPositionPerToken

theorem past_of_approved {c : Prop} [Decidable c] {rejected next : RiskDecision}
    (hrejected : rejected.approved = false)
    (h : (if c then rejected else next).approved = true) : ¬ c ∧ next.approved = true := by
  split at h
  · rw [hrejected] at h
    cases h
  · exact ⟨‹_›, h⟩

theorem within_of_evaluateExposure {policy : RiskPolicy} {request : OrderIntentRequest}
    {market : MarketRules} {book : OrderBook} {snapshot : RiskSnapshot}
    {price shares quote : Decimal}
    (h : (policy.evaluateExposure request market book snapshot price shares quote).approved =
      true) : policy.Within request.side shares quote snapshot := by
  unfold evaluateExposure at h
  dsimp only at h
  obtain ⟨-, h⟩ := past_of_approved rfl h
  obtain ⟨-, h⟩ := past_of_approved rfl h
  obtain ⟨hcount, h⟩ := past_of_approved rfl h
  obtain ⟨hmarket, h⟩ := past_of_approved rfl h
  obtain ⟨hposition, -⟩ := past_of_approved rfl h
  obtain ⟨hlong, hshort⟩ := max_le_iff.mp (not_lt.mp hposition)
  exact ⟨not_le.mp hcount, not_lt.mp hmarket, hlong, hshort⟩

theorem within_of_approved {policy : RiskPolicy} {request : OrderIntentRequest}
    {market : MarketRules} {book : OrderBook} {snapshot : RiskSnapshot}
    {quantity price shares quote : Decimal} (hquantity : request.quantityDecimal = .ok quantity)
    (hprice : request.protectionPrice = .ok price)
    (hexposure : conservativeExposure request market quantity price = some (shares, quote))
    (h : (policy.evaluate request market book snapshot).approved = true) :
    policy.Within request.side shares quote snapshot := by
  unfold evaluate at h
  rw [hquantity, hprice] at h
  dsimp only at h
  rw [hexposure] at h
  obtain ⟨-, h⟩ := past_of_approved rfl h
  obtain ⟨-, h⟩ := past_of_approved rfl h
  obtain ⟨-, h⟩ := past_of_approved rfl h
  obtain ⟨-, h⟩ := past_of_approved rfl h
  obtain ⟨-, h⟩ := past_of_approved rfl h
  exact within_of_evaluateExposure h

end RiskPolicy

end OddsfoxExecution
