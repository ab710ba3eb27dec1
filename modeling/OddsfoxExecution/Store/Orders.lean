import OddsfoxExecution.Store.Submission
import Mathlib.Data.String.Basic

/-!
# Orders after submission

The transactions that move an order the venue knows: `transition_order` and
`cancel_prepared_order` for cancellations, `reconcile_order_projection` for a
venue snapshot, and the finality and position updates of a reconciliation.
-/

namespace OddsfoxExecution

def transitionOrder (id : Uuid) (next : OrderState) (venueOrderId : Option String) (db : Db) :
    Tx OrderRecord :=
  match db.order? id with
  | none => .error .notFound
  | some prior =>
    if next = .cancelPending ∧ prior.state.terminal then .ok ⟨prior, db, []⟩
    else if ¬ validOrderTransition prior.state next then
      .error (.identityMismatch
        ("invalid order transition " ++ prior.state.debug ++ " -> " ++ next.debug))
    else
      let moved : OrderRecord :=
        { prior with state := next, venueOrderId := venueOrderId.or prior.venueOrderId }
      let db : Db := { db with
        orders := Table.updateWhere (fun o : OrderRecord => o.id = id)
          (fun o => { o with state := next, venueOrderId := venueOrderId.or o.venueOrderId })
          db.orders
        intents :=
          if prior.state = .unknown ∧
              (next = .filled ∨ next = .cancelled ∨ next = .expired) then
            Table.updateWhere (IntentRecord.At prior.intentId .unknown)
              (fun i => { i with state := .submitted }) db.intents
          else db.intents
        orderTransitions := db.orderTransitions ++ [⟨id, prior.state, next⟩] }
      let (db, event) := db.appendEvent ("order." ++ next.lower) "order" (.uuid id)
      .ok ⟨moved, db, [event]⟩

def cancelPreparedOrder (orderId : Uuid) (db : Db) : Tx OrderRecord :=
  match db.orders.find? fun o => OrderRecord.At orderId .prepared o with
  | none => .error .notFound
  | some order =>
    let db : Db := { db with
      orders := Table.updateWhere (fun o : OrderRecord => o.id = orderId)
        (fun o => { o with state := .cancelled }) db.orders
      intents := Table.updateWhere (IntentRecord.At order.intentId .prepared)
        (fun i => { i with
          state := .rejected
          rejectionCode := some "CANCELLED_BEFORE_SUBMISSION"
          rejectionMessage := some "cancelled before venue submission" }) db.intents
      submissionAttempts := Table.updateWhere
        (SubmissionAttempt.At (db.preparedOrderId order.intentId) .prepared)
        (fun a => { a with
          state := .cancelled
          responseClass := some "CANCELLED_BEFORE_SUBMISSION" }) db.submissionAttempts
      orderTransitions := db.orderTransitions ++ [⟨orderId, .prepared, .cancelled⟩] }
    let (db, orderEvent) := db.appendEvent "order.cancelled" "order" (.uuid orderId)
    let (db, intentEvent) := db.appendEvent "intent.rejected" "intent" (.uuid order.intentId)
    .ok ⟨{ order with state := .cancelled }, db, [orderEvent, intentEvent]⟩

def getOrder (id : Uuid) (db : Db) : Except StoreError OrderRecord :=
  match db.order? id with
  | none => .error .notFound
  | some order => .ok order

/-! ## Reconciliation reads -/

/-- The first query of `reconciliation_orders`. -/
def Db.knownOrders (db : Db) : List OrderRecord := db.orders.filter fun o => o.venueOrderId.isSome

/-- The second query of `reconciliation_orders`. -/
def Db.deterministicOrderIds (db : Db) : List String :=
  db.preparedOrders.map PreparedOrder.deterministicOrderId

/-- The query `order_ids_for_venue_ids` makes for each venue identifier. -/
def Db.orderIdForVenueId (db : Db) (venueOrderId : String) : Option Uuid :=
  (db.orders.find? fun o => o.venueOrderId = some venueOrderId).map OrderRecord.id

/-! ## The projection of a venue observation -/

/-- The state `reconcile_order_projection` gives an order. -/
def projectedState (prior observed : OrderState) : OrderState :=
  if prior = .cancelPending ∧ (observed = .live ∨ observed = .partiallyFilled) then .cancelPending
  else observed

/-- The fill an order's remaining quantity already reflects. -/
def OrderRecord.localFilled (order : OrderRecord) : Decimal :=
  max (order.originalQuantity - order.remainingQuantity) 0

def reconcileOrderProjection (orderId : Uuid) (observedState : OrderState)
    (remainingQuantity totalFilledQuantity : Decimal) (filledPrice : Option Decimal)
    (venueTradeIds : List String) (now : Time) (db : Db) : Tx Unit :=
  match db.order? orderId with
  | none => .error .notFound
  | some order =>
    match validateVenueOrderEvidence order.originalQuantity observedState remainingQuantity
        totalFilledQuantity filledPrice with
    | .error e => .error e
    | .ok () =>
      if totalFilledQuantity < order.localFilled then
        .error (.identityMismatch s!"venue fill quantity {decimalText totalFilledQuantity
          } regressed below local {decimalText order.localFilled}")
      else
        let deltaFill := totalFilledQuantity - order.localFilled
        let nextState := projectedState order.state observedState
        if nextState = order.state ∧ remainingQuantity = order.remainingQuantity ∧
            deltaFill = 0 then .ok ⟨(), db, []⟩
        else
          let db : Db := { db with
            orders := Table.updateWhere (fun o : OrderRecord => o.id = orderId)
              (fun o => { o with state := nextState, remainingQuantity }) db.orders }
          let (db, tradeEvent) := applyMatchedFill db order order.venueOrderId deltaFill
            filledPrice venueTradeIds now
          let db : Db := { db with
            orderTransitions := db.orderTransitions ++ [⟨orderId, order.state, nextState⟩] }
          let (db, orderEvent) := db.appendEvent "order.reconciled" "order" (.uuid orderId)
          .ok ⟨(), db, orderEvent :: tradeEvent.toList⟩

/-! ## Trade finality -/

def tradeComponentIds (venueTradeId : String) : List String :=
  let marker := "submission:".toList
  if marker.isPrefixOf venueTradeId.toList then
    ((venueTradeId.toList.drop marker.length).splitOn ',').map String.ofList
  else [venueTradeId]

def aggregateTradeStatus (statuses : List TradeState) : TradeState :=
  if .failed ∈ statuses then .failed
  else if .retrying ∈ statuses then .retrying
  else if ∀ status ∈ statuses, status = .confirmed then .confirmed
  else if ∀ status ∈ statuses, status = .mined ∨ status = .confirmed then .mined
  else .matched

/-- `SELECT status FROM venue_trade_finality WHERE venue_trade_id = ?`. -/
def Db.finalityStatus (db : Db) (venueTradeId : String) : Option TradeState :=
  (db.venueTradeFinality.find? fun f => f.venueTradeId = venueTradeId).map
    VenueTradeFinality.status

def recordVenueTradeFinality (orderId : Uuid) (venueTradeId : String) (status : TradeState)
    (db : Db) : Tx Bool :=
  let trades := (db.trades.filter fun t => t.orderId = orderId).insertionSort
    fun a b => a.id ≤ b.id
  match trades.find? fun t => venueTradeId ∈ tradeComponentIds t.venueTradeId with
  | none => .ok ⟨false, db, []⟩
  | some trade =>
    if db.finalityStatus venueTradeId = some status then .ok ⟨true, db, []⟩
    else
      let row : VenueTradeFinality := { venueTradeId, tradeId := trade.id, status }
      let db : Db := { db with
        venueTradeFinality := Table.upsert VenueTradeFinality.venueTradeId row (fun _ => row)
          db.venueTradeFinality }
      let componentIds := tradeComponentIds trade.venueTradeId
      let componentStatuses := componentIds.filterMap db.finalityStatus
      let aggregateStatus :=
        if componentStatuses.length = componentIds.length then
          aggregateTradeStatus componentStatuses
        else trade.status
      let db : Db := { db with
        trades :=
          if aggregateStatus ≠ trade.status then
            Table.updateWhere (fun t : TradeRecord => t.id = trade.id)
              (fun t => { t with status := aggregateStatus }) db.trades
          else db.trades }
      let (db, event) := db.appendEvent "trade.finality_observed" "trade" (.uuid trade.id)
      .ok ⟨true, db, [event]⟩

/-! ## Venue positions -/

/-- The first loop of `reconcile_venue_positions`; `current` is read before it. -/
def upsertVenuePositions (current : List PositionRecord) :
    List ObservedVenuePosition → List String → Db → List ExecutionEvent →
      Except StoreError (List String × Db × List ExecutionEvent)
  | [], observedTokens, db, events => .ok (observedTokens, db, events)
  | observed :: rest, observedTokens, db, events =>
    if observed.conditionId.isEmpty ∨ observed.tokenId.isEmpty ∨ observed.shares < 0 then
      .error (.identityMismatch "venue returned an invalid position")
    else if observed.tokenId ∈ observedTokens then
      .error (.identityMismatch
        ("venue returned duplicate position token " ++ observed.tokenId))
    else
      let observedTokens := observed.tokenId :: observedTokens
      let prior := (current.find? fun p => p.tokenId = observed.tokenId).map PositionRecord.shares
      if prior = some observed.shares then
        upsertVenuePositions current rest observedTokens db events
      else
        let row : PositionRecord :=
          { tokenId := observed.tokenId, conditionId := observed.conditionId
            shares := observed.shares }
        let db : Db := { db with
          positions := Table.upsert PositionRecord.tokenId row (fun _ => row) db.positions }
        let (db, event) :=
          db.appendEvent "position.reconciled" "position" (.text observed.tokenId)
        upsertVenuePositions current rest observedTokens db (events ++ [event])

/-- The second loop of `reconcile_venue_positions`: what the venue did not report is zero. -/
def zeroMissingPositions (observedTokens : List String) :
    List PositionRecord → Db → List ExecutionEvent → Db × List ExecutionEvent
  | [], db, events => (db, events)
  | prior :: rest, db, events =>
    if prior.tokenId ∈ observedTokens ∨ prior.shares = 0 then
      zeroMissingPositions observedTokens rest db events
    else
      let db : Db := { db with
        positions := Table.updateWhere (fun p : PositionRecord => p.tokenId = prior.tokenId)
          (fun p => { p with shares := 0 }) db.positions }
      let (db, event) := db.appendEvent "position.reconciled" "position" (.text prior.tokenId)
      zeroMissingPositions observedTokens rest db (events ++ [event])

def reconcileVenuePositions (observed : List ObservedVenuePosition) (db : Db) : Tx Unit :=
  let current := db.positions.insertionSort fun a b => a.tokenId ≤ b.tokenId
  match upsertVenuePositions current observed [] db [] with
  | .error e => .error e
  | .ok (observedTokens, db, events) =>
    let (db, events) := zeroMissingPositions observedTokens current db events
    .ok ⟨(), db, events⟩

end OddsfoxExecution
