import OddsfoxExecution.Store.Decisions
import OddsfoxExecution.Store.ExposureEffects
import OddsfoxExecution.Store.Pipeline
import OddsfoxExecution.Coordinator.Intents

/-!
# The exposure checked and the exposure reserved

`RiskPolicy::evaluate` projects what an order adds to the snapshot;
`build_risk_snapshot` counts what its reservation row adds.  The two agree on
everything but the fee of a buy: the projection charges the taker's rate, the
row the greater of the two.
-/

namespace OddsfoxExecution

/-! ## What an approved decision shows -/

/-- An entry of a decision's `observed` object. -/
def RiskDecision.figure (decision : RiskDecision) (name : String) : Option Observation :=
  (decision.observed.find? fun entry => entry.1 == name).map Prod.snd

structure Projects (decision : RiskDecision) (side : Side) (takerFeeRate shares quote : Decimal)
    (snapshot : RiskSnapshot) : Prop where
  market : decision.figure "market_after" = some (.amount (snapshot.marketOpenNotional + quote))
  long : decision.figure "long_position_after" =
    some (.amount (snapshot.tokenPosition + snapshot.tokenPendingBuys +
      (if side = .buy then shares else 0)))
  short : decision.figure "short_position_after" =
    some (.amount (snapshot.tokenPosition - snapshot.tokenPendingSells -
      (if side = .sell then shares else 0)))
  gross : decision.figure "gross_after" =
    some (.amount (snapshot.grossExposure +
      (if side = .buy then quote + quote * takerFeeRate else 0)))

namespace RiskPolicy

theorem evaluateBook_approved {policy : RiskPolicy} {request : OrderIntentRequest}
    {book : OrderBook} {price : Decimal} {approve : RiskDecision}
    (h : (policy.evaluateBook request book price approve).approved = true) :
    policy.evaluateBook request book price approve = approve := by
  unfold evaluateBook at h ⊢
  split
  · rename_i himmediate
    rw [if_pos himmediate] at h
    dsimp only at h ⊢
    split
    · rename_i hnone
      simp only [hnone, reject_approved, Bool.false_eq_true] at h
    · rename_i hsome
      simp only [hsome] at h
      obtain ⟨hdistance, h⟩ := past_of_approved rfl h
      obtain ⟨hdepth, -⟩ := past_of_approved rfl h
      rw [if_neg hdistance, if_neg hdepth]
  · rfl

theorem projects_of_evaluateExposure {policy : RiskPolicy} {request : OrderIntentRequest}
    {market : MarketRules} {book : OrderBook} {snapshot : RiskSnapshot}
    {price shares quote : Decimal}
    (h : (policy.evaluateExposure request market book snapshot price shares quote).approved =
      true) :
    Projects (policy.evaluateExposure request market book snapshot price shares quote)
      request.side market.takerFeeRate shares quote snapshot := by
  unfold evaluateExposure at h ⊢
  dsimp only at h ⊢
  obtain ⟨hshares, h⟩ := past_of_approved rfl h
  obtain ⟨hquote, h⟩ := past_of_approved rfl h
  obtain ⟨hcount, h⟩ := past_of_approved rfl h
  obtain ⟨hmarket, h⟩ := past_of_approved rfl h
  obtain ⟨hposition, h⟩ := past_of_approved rfl h
  obtain ⟨hgross, h⟩ := past_of_approved rfl h
  obtain ⟨hdaily, h⟩ := past_of_approved rfl h
  rw [if_neg hshares, if_neg hquote, if_neg hcount, if_neg hmarket, if_neg hposition,
    if_neg hgross, if_neg hdaily, evaluateBook_approved h]
  exact ⟨rfl, rfl, rfl, rfl⟩

theorem projects_of_approved {policy : RiskPolicy} {request : OrderIntentRequest}
    {market : MarketRules} {book : OrderBook} {snapshot : RiskSnapshot}
    {quantity price shares quote : Decimal} (hquantity : request.quantityDecimal = .ok quantity)
    (hprice : request.protectionPrice = .ok price)
    (hexposure : conservativeExposure request market quantity price = some (shares, quote))
    (h : (policy.evaluate request market book snapshot).approved = true) :
    Projects (policy.evaluate request market book snapshot) request.side market.takerFeeRate
      shares quote snapshot := by
  unfold evaluate at h ⊢
  simp only [hquantity, hprice, hexposure] at h ⊢
  obtain ⟨hcondition, h⟩ := past_of_approved rfl h
  obtain ⟨htoken, h⟩ := past_of_approved rfl h
  obtain ⟨hside, h⟩ := past_of_approved rfl h
  obtain ⟨htime, h⟩ := past_of_approved rfl h
  obtain ⟨haccepting, h⟩ := past_of_approved rfl h
  rw [if_neg hcondition, if_neg htoken, if_neg hside, if_neg htime, if_neg haccepting]
  exact projects_of_evaluateExposure h

end RiskPolicy

/-! ## What the reservation adds to the snapshot -/

theorem evaluateAndReserveRisk_approved {intentId : Uuid} {request : OrderIntentRequest}
    {market : MarketRules} {book : OrderBook} {policy : RiskPolicy} {now : Time} {db : Db}
    {r : Committed RiskDecision}
    (h : evaluateAndReserveRisk intentId request market book policy now db = .ok r)
    (happroved : r.value.approved = true) :
    ∃ before row, db.riskSnapshot request.conditionId request.tokenId now = .ok before ∧
      r.value = policy.evaluate request market book before ∧
      Reserved intentId request market db row ∧
      r.db.riskReservations = db.riskReservations ++ [row] ∧ r.db.orders = db.orders ∧
      r.db.trades = db.trades ∧ r.db.positions = db.positions := by
  have hvalue : ∀ decision events (db : Db), concludeRisk intentId decision events db = .ok r →
      r.value = decision := by
    intro decision events db hconclude
    unfold concludeRisk at hconclude
    dsimp only at hconclude
    split at hconclude
    · cases hconclude
    · cases hconclude
      rfl
  unfold evaluateAndReserveRisk at h
  split at h
  · cases h
  · rename_i before hbefore
    dsimp only at h
    split at h
    · cases h
    · split at h
      · split at h
        · cases h
        · rename_i hreserve
          obtain ⟨row, hreserved, rfl⟩ := reserveRisk_ok hreserve
          obtain ⟨-, _, -, -, hreservations, horders, htrades, hpositions⟩ := concludeRisk_ok h
          exact ⟨before, row, hbefore, hvalue _ _ _ h, ⟨hreserved.fresh, hreserved.row⟩,
            hreservations, horders, htrades, hpositions⟩
      · rename_i hrejected
        rw [hvalue _ _ _ h] at happroved
        exact absurd happroved hrejected

variable {db db' : Db} {row : RiskReservation} {before : RiskSnapshot}

theorem Db.riskSnapshot_reserve {now : Time} (later : Time)
    (hbefore : db.riskSnapshot row.conditionId row.tokenId now = .ok before)
    (hactive : row.state = .active) (hquantity : 0 < row.quantity)
    (hreservations : db'.riskReservations = db.riskReservations ++ [row])
    (horders : db'.orders = db.orders) (hpositions : db'.positions = db.positions) :
    ∃ after, db'.riskSnapshot row.conditionId row.tokenId later = .ok after ∧
      after.openOrderCount = before.openOrderCount + 1 ∧
      after.marketOpenNotional = before.marketOpenNotional + row.quoteExposure ∧
      after.tokenPosition = before.tokenPosition ∧
      after.tokenPendingBuys =
        before.tokenPendingBuys + (if row.side = .buy then row.quantity else 0) ∧
      after.tokenPendingSells =
        before.tokenPendingSells + (if row.side = .sell then row.quantity else 0) ∧
      after.grossExposure = before.grossExposure +
        (if row.side = .buy then row.quoteExposure * (1 + row.feeRate) else 0) := by
  have hrows : db'.orderExposures ++ db'.reservationExposures =
      db.orderExposures ++ db.reservationExposures ++
        [{ conditionId := row.conditionId, tokenId := row.tokenId, side := row.side,
           feeRate := row.feeRate, quoteExposure := row.quoteExposure,
           originalQuantity := row.quantity, quantity := row.quantity }] := by
    simp [Db.orderExposures, Db.reservationExposures, horders, hreservations, hactive]
  have hworth : row.quoteExposure * row.quantity / row.quantity = row.quoteExposure :=
    mul_div_cancel_right₀ _ hquantity.ne'
  unfold Db.riskSnapshot at hbefore ⊢
  dsimp only at hbefore ⊢
  rw [foldl_addExposure] at hbefore ⊢
  split at hbefore
  · cases hbefore
  · rename_i hpositive
    cases hbefore
    rw [hrows, if_neg (by simpa [hquantity] using hpositive)]
    refine ⟨_, rfl, ?_, ?_, ?_, ?_, ?_, ?_⟩
    · simp [add_assoc]
    · simp [hworth, add_assoc]
    · simp [Db.positionShares, hpositions]
    · simp [add_assoc]
    · simp [add_assoc]
    · simp only [List.map_append, List.sum_append, List.map_cons, List.map_nil, List.sum_cons,
        List.sum_nil, hworth, hpositions]
      ring

/-! ## The two exposures -/

/-- The snapshot after a reservation is the one its decision projected. -/
structure AsProjected (decision : RiskDecision) (before after : RiskSnapshot) : Prop where
  openOrders : after.openOrderCount = before.openOrderCount + 1
  market : decision.figure "market_after" = some (.amount after.marketOpenNotional)
  long : decision.figure "long_position_after" =
    some (.amount (after.tokenPosition + after.tokenPendingBuys))
  short : decision.figure "short_position_after" =
    some (.amount (after.tokenPosition - after.tokenPendingSells))
  gross : decision.figure "gross_after" = some (.amount after.grossExposure)

/-- Whatever is approved, the snapshot rebuilt after the commit is the one the decision projected
exactly when the order sells or the taker's fee is the greater. -/
theorem reserved_as_checked (intentId : Uuid) (request : OrderIntentRequest)
    (market : MarketRules) (book : OrderBook) (policy : RiskPolicy) (now later : Time) (db : Db)
    (r : Committed RiskDecision)
    (hrun : evaluateAndReserveRisk intentId request market book policy now db = .ok r)
    (happroved : r.value.approved = true) :
    ∃ before after, db.riskSnapshot request.conditionId request.tokenId now = .ok before ∧
      r.db.riskSnapshot request.conditionId request.tokenId later = .ok after ∧
      (AsProjected r.value before after ↔
        request.side = .sell ∨ market.makerFeeRate ≤ market.takerFeeRate) := by
  obtain ⟨before, row, hbefore, hvalue, hreserved, hreservations, horders, -, hpositions⟩ :=
    evaluateAndReserveRisk_approved hrun happroved
  obtain ⟨quantity, price, shares, quote, hquantity, hprice, hexposure, rfl⟩ := hreserved.row
  obtain ⟨hshares, hquote⟩ := conservativeExposure_pos
    (OrderIntentRequest.quantityDecimal_pos hquantity)
    (OrderIntentRequest.protectionPrice_pos hprice).1 hexposure
  rw [hvalue] at happroved ⊢
  have hprojects := RiskPolicy.projects_of_approved hquantity hprice hexposure happroved
  obtain ⟨after, hafter, hcount, hmarket, hposition, hbuys, hsells, hgross⟩ :=
    Db.riskSnapshot_reserve later hbefore rfl hshares hreservations horders hpositions
  refine ⟨before, after, hbefore, hafter, ?_⟩
  simp only [reservationFor] at hmarket hbuys hsells hgross
  have hagrees : before.grossExposure +
        (if request.side = .buy then quote + quote * market.takerFeeRate else 0) =
      after.grossExposure ↔ request.side = .sell ∨ market.makerFeeRate ≤ market.takerFeeRate := by
    have hmul : quote + quote * market.takerFeeRate = quote * (1 + market.takerFeeRate) := by
      ring
    have hside : request.side = .buy ∨ request.side = .sell := by
      cases request.side <;> simp
    rw [hgross, add_right_inj]
    rcases hside with hbuy | hsell
    · simp [hbuy, hmul, hquote.ne']
    · simp [hsell]
  constructor
  · intro h
    refine hagrees.mp ?_
    have hsame := hprojects.gross.symm.trans h.gross
    rw [Option.some.injEq, Observation.amount.injEq] at hsame
    exact hsame
  · intro hcondition
    refine ⟨hcount, ?_, ?_, ?_, ?_⟩
    · rw [hprojects.market, hmarket]
    · rw [hprojects.long, hposition, hbuys, add_assoc]
      rfl
    · rw [hprojects.short, hposition, hsells, sub_sub]
      rfl
    · rw [hprojects.gross, hagrees.mpr hcondition]

def makerFeeMarket : MarketRules := { sampleMarket with makerFeeRate := 1 / 100 }

def validatingDb : Db := { readyDb with
  intents := [{ id := 1, actorId := "operator", idempotencyKey := "first"
                requestHash := .intent sampleRequest, request := sampleRequest
                state := .validating, rejectionCode := none, rejectionMessage := none
                policyVersion := none, createdAt := 0 }]
  nextUuid := 2 }

theorem reserved_as_checked_sample :
    ∃ r before after,
      evaluateAndReserveRisk 1 sampleRequest sampleMarket sampleBook samplePolicy 0 validatingDb =
        .ok r ∧ AsProjected r.value before after := by
  have hcheck : ((evaluateAndReserveRisk 1 sampleRequest sampleMarket sampleBook samplePolicy 0
      validatingDb).toOption.any fun r => r.value.approved) = true := by
    decide +kernel
  obtain ⟨r, hrun, happroved⟩ := exists_ok_of_any hcheck
  obtain ⟨before, after, -, -, hagrees⟩ := reserved_as_checked 1 sampleRequest sampleMarket
    sampleBook samplePolicy 0 0 validatingDb r hrun happroved
  exact ⟨r, before, after, hrun, hagrees.mpr (.inr (by decide +kernel))⟩

/-- A buy of ten shares at one half where makers pay a hundredth: the decision projects a gross
exposure of five, and the snapshot after its commit counts the fee as well. -/
theorem reserved_not_as_checked :
    ∃ r before after,
      Coordinator.validateFreshnessAndIncrements
        { policy := samplePolicy, requiresHeartbeat := false }
        sampleRequest makerFeeMarket sampleBook 0 = .ok () ∧
      evaluateAndReserveRisk 1 sampleRequest makerFeeMarket sampleBook samplePolicy 0
        validatingDb = .ok r ∧ r.value.approved = true ∧
      validatingDb.riskSnapshot "condition" "7" 0 = .ok before ∧
      r.db.riskSnapshot "condition" "7" 0 = .ok after ∧
      r.value.figure "gross_after" = some (.amount 5) ∧ after.grossExposure = 101 / 20 := by
  have hcheck : ((evaluateAndReserveRisk 1 sampleRequest makerFeeMarket sampleBook samplePolicy 0
      validatingDb).toOption.any fun r => decide (r.value.approved = true ∧
        r.value.figure "gross_after" = some (.amount 5)) &&
          (r.db.riskSnapshot "condition" "7" 0).toOption.any fun after =>
            decide (after.grossExposure = 101 / 20)) = true := by
    decide +kernel
  have hbefore : ((validatingDb.riskSnapshot "condition" "7" 0).toOption.any fun _ => true) =
      true := by
    decide +kernel
  obtain ⟨before, hbefore, -⟩ := exists_ok_of_any hbefore
  obtain ⟨r, hrun, hfigures⟩ := exists_ok_of_any hcheck
  obtain ⟨hdecision, hafter⟩ := Bool.and_eq_true_iff.mp hfigures
  obtain ⟨after, hafter, hgross⟩ := exists_ok_of_any hafter
  obtain ⟨happroved, hprojected⟩ := of_decide_eq_true hdecision
  exact ⟨r, before, after, by decide +kernel, hrun, happroved, hbefore, hafter, hprojected,
    of_decide_eq_true hgross⟩

end OddsfoxExecution
