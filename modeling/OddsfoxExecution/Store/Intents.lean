import OddsfoxExecution.Store.Schema
import Mathlib.Data.List.Sort

/-!
# Intents before submission

The transactions that take an intent from admission to a prepared order:
`admit_intent`, `transition_intent`, `record_risk_decision`,
`evaluate_and_reserve_risk`, `create_prepared_order`, `reject_preparation`,
and the recovery of pre-submission work after a crash.
-/

namespace OddsfoxExecution

inductive Admission where
  | created (record : IntentRecord)
  | existing (record : IntentRecord)
deriving DecidableEq

def admitIntent (actorId idempotencyKey : String) (request : OrderIntentRequest) (now : Time)
    (db : Db) : Tx Admission :=
  match db.intents.find? fun i => i.actorId = actorId ∧ i.idempotencyKey = idempotencyKey with
  | some existing =>
    if existing.requestHash ≠ .intent request then .error .idempotencyConflict
    else
      match db.idempotencyKeys.find? fun k => k.actorId = actorId ∧
          k.idempotencyKey = idempotencyKey ∧ k.resourceType = "intent" with
      | none =>
        .error (.database
          "no rows returned by a query that expected to return at least one row")
      | some row =>
        match row.response with
        | .intent record => .ok ⟨.existing record, db, []⟩
        | _ => .error (.serialization "stored response is not an intent")
  | none =>
    if db.controlState.state ≠ .ready then .error (.newRiskDisabled db.controlState.state)
    else
      let record : IntentRecord :=
        { id := db.nextUuid, actorId, idempotencyKey, requestHash := .intent request, request,
          state := .received, rejectionCode := none, rejectionMessage := none,
          policyVersion := none, createdAt := now }
      let key : IdempotencyKey :=
        { actorId, idempotencyKey, requestHash := .intent request, resourceType := "intent",
          responseStatus := 202, response := .intent record }
      match Table.insertNew (fun k : IdempotencyKey => (k.actorId, k.idempotencyKey)) key
          db.idempotencyKeys with
      | none => .error (.database "UNIQUE constraint failed: idempotency_keys")
      | some idempotencyKeys =>
        let db : Db := { db with
          intents := db.intents ++ [record], idempotencyKeys, nextUuid := db.nextUuid + 1 }
        let (db, event) := db.appendEvent "intent.received" "intent" (.uuid record.id)
        .ok ⟨.created record, db, [event]⟩

def transitionIntent (id : Uuid) (expected next : IntentState)
    (rejection : Option (String × String)) (db : Db) : Tx IntentRecord :=
  let intents := Table.updateWhere (IntentRecord.At id expected)
    (fun i => { i with
      state := next
      rejectionCode := rejection.map Prod.fst
      rejectionMessage := rejection.map Prod.snd }) db.intents
  if Table.rowsAffected (IntentRecord.At id expected) db.intents ≠ 1 then
    .error .notFound
  else
    match intents.find? fun i => i.id = id with
    | none => .error .notFound
    | some record =>
      let db : Db := { db with intents }
      let (db, event) := db.appendEvent ("intent." ++ next.lower) "intent" (.uuid id)
      .ok ⟨record, db, [event]⟩

def recordRiskDecision (intentId : Uuid) (approved : Bool) (reasonCode policyVersion : String)
    (db : Db) : Tx Unit :=
  if db.intent? intentId = none then .error (.database "FOREIGN KEY constraint failed")
  else
    let decision : RiskDecisionRow :=
      { id := db.nextUuid, intentId, approved, reasonCode, policyVersion }
    let db : Db := { db with
      riskDecisions := db.riskDecisions ++ [decision], nextUuid := db.nextUuid + 1 }
    let (db, event) := db.appendEvent "risk.decision" "risk_decision" (.uuid decision.id)
    .ok ⟨(), db, [event]⟩

/-! ## The risk snapshot -/

structure RiskExposureRow where
  conditionId : String
  tokenId : String
  side : Side
  feeRate : Decimal
  quoteExposure : Decimal
  originalQuantity : Decimal
  quantity : Decimal
deriving DecidableEq

/-- The order states whose exposure the snapshot counts. -/
def OrderState.exposed : OrderState → Bool
  | .prepared | .submitting | .live | .partiallyFilled | .cancelPending | .unknown => true
  | _ => false

def Db.orderExposures (db : Db) : List RiskExposureRow :=
  (db.orders.filter fun o => o.state.exposed).map fun o =>
    { conditionId := o.conditionId, tokenId := o.tokenId, side := o.side, feeRate := o.feeRate,
      quoteExposure := o.quoteExposure, originalQuantity := o.originalQuantity,
      quantity := o.remainingQuantity }

def Db.reservationExposures (db : Db) : List RiskExposureRow :=
  (db.riskReservations.filter fun r => r.state = .active).map fun r =>
    { conditionId := r.conditionId, tokenId := r.tokenId, side := r.side, feeRate := r.feeRate,
      quoteExposure := r.quoteExposure, originalQuantity := r.quantity, quantity := r.quantity }

/-- The midnight that starts the UTC day of `now`: `date('now')`. -/
def startOfDay (now : Time) : Time := now - now % 86400000

/-- One exposure row added to the running totals of `build_risk_snapshot`. -/
def addExposure (conditionId tokenId : String) (snapshot : RiskSnapshot) (row : RiskExposureRow) :
    RiskSnapshot :=
  let notional := row.quoteExposure * row.quantity / row.originalQuantity
  { snapshot with
    marketOpenNotional := snapshot.marketOpenNotional +
      (if row.conditionId = conditionId then notional else 0)
    tokenPendingBuys := snapshot.tokenPendingBuys +
      (if row.tokenId = tokenId ∧ row.side = .buy then row.quantity else 0)
    tokenPendingSells := snapshot.tokenPendingSells +
      (if row.tokenId = tokenId ∧ row.side = .sell then row.quantity else 0)
    grossExposure := snapshot.grossExposure +
      (if row.side = .buy then notional * (1 + row.feeRate) else 0) }

/-- `build_risk_snapshot` over `risk_snapshot_in_transaction`'s reads. -/
def Db.riskSnapshot (db : Db) (conditionId tokenId : String) (now : Time) :
    Except StoreError RiskSnapshot :=
  let rows := db.orderExposures ++ db.reservationExposures
  if rows.any fun row => row.originalQuantity ≤ 0 then
    .error (.identityMismatch "risk exposure has a non-positive original quantity")
  else
    let exposed := rows.foldl (addExposure conditionId tokenId)
      { openOrderCount := rows.length, marketOpenNotional := 0, tokenPosition := 0,
        tokenPendingBuys := 0, tokenPendingSells := 0, grossExposure := 0,
        dailyMatchedNotional := 0 }
    let daily := db.trades.filter fun t => startOfDay now ≤ t.createdAt
    .ok { exposed with
      grossExposure := exposed.grossExposure + (db.positions.map fun p => |p.shares|).sum
      tokenPosition := db.positionShares tokenId
      dailyMatchedNotional := (daily.map fun t => t.price * t.size).sum }

/-! ## Reservation, preparation, rejection -/

/-- The reservation row `evaluate_and_reserve_risk` inserts. -/
def reservationFor (intentId : Uuid) (request : OrderIntentRequest) (market : MarketRules)
    (price shares quoteExposure : Decimal) : RiskReservation :=
  { intentId, conditionId := request.conditionId, tokenId := request.tokenId, side := request.side,
    price, quantity := shares, quoteExposure,
    feeRate := max market.makerFeeRate market.takerFeeRate, state := .active }

/-- The last statements of `evaluate_and_reserve_risk`: the intent leaves VALIDATING. -/
def concludeRisk (intentId : Uuid) (decision : RiskDecision) (events : List ExecutionEvent)
    (db : Db) : Tx RiskDecision :=
  let nextState : IntentState := if decision.approved then .approved else .rejected
  if Table.rowsAffected (IntentRecord.At intentId .validating) db.intents ≠ 1 then
    .error (.identityMismatch "intent was not VALIDATING during risk reservation")
  else
    let db : Db := { db with
      intents := Table.updateWhere (IntentRecord.At intentId .validating)
        (fun i => { i with
          state := nextState
          rejectionCode := if decision.approved then none else some decision.reasonCode
          rejectionMessage := if decision.approved then none else some decision.message
          policyVersion := some decision.policyVersion }) db.intents }
    let (db, event) := db.appendEvent ("intent." ++ nextState.lower) "intent" (.uuid intentId)
    .ok ⟨decision, db, events ++ [event]⟩

/-- The statements of `evaluate_and_reserve_risk` for an approved decision. -/
def reserveRisk (intentId : Uuid) (request : OrderIntentRequest) (market : MarketRules)
    (db : Db) : Except StoreError (Db × ExecutionEvent) :=
  match request.protectionPrice with
  | .error e => .error (.invalidDecimal e.text)
  | .ok price =>
    match request.quantityDecimal with
    | .error e => .error (.invalidDecimal e.text)
    | .ok quantity =>
      match conservativeExposure request market quantity price with
      | none =>
        .error (.identityMismatch "approved risk decision has an invalid market tick size")
      | some (shares, quoteExposure) =>
        match Table.insertNew RiskReservation.intentId
            (reservationFor intentId request market price shares quoteExposure)
            db.riskReservations with
        | none => .error (.database "UNIQUE constraint failed: risk_reservations.intent_id")
        | some riskReservations =>
          .ok (({ db with riskReservations } : Db).appendEvent "risk.reserved" "risk_reservation"
            (.uuid intentId))

def evaluateAndReserveRisk (intentId : Uuid) (request : OrderIntentRequest)
    (market : MarketRules) (book : OrderBook) (policy : RiskPolicy) (now : Time) (db : Db) :
    Tx RiskDecision :=
  match db.riskSnapshot request.conditionId request.tokenId now with
  | .error e => .error e
  | .ok snapshot =>
    let decision := policy.evaluate request market book snapshot
    if db.intent? intentId = none then .error (.database "FOREIGN KEY constraint failed")
    else
      let row : RiskDecisionRow :=
        { id := db.nextUuid, intentId, approved := decision.approved,
          reasonCode := decision.reasonCode, policyVersion := decision.policyVersion }
      let db : Db := { db with
        riskDecisions := db.riskDecisions ++ [row], nextUuid := db.nextUuid + 1 }
      let (db, decided) := db.appendEvent "risk.decision" "risk_decision" (.uuid row.id)
      if decision.approved then
        match reserveRisk intentId request market db with
        | .error e => .error e
        | .ok (db, reserved) => concludeRisk intentId decision [decided, reserved] db
      else concludeRisk intentId decision [decided] db

def createPreparedOrder (intentId : Uuid) (request : OrderIntentRequest)
    (prepared : PreparedVenueOrder) (policyVersion : String) (feeRate : Decimal) (now : Time)
    (db : Db) : Tx OrderRecord :=
  match prepared.normalizedJson.canonical with
  | none => .error (.serialization "normalized venue order is not JSON")
  | some normalizedJson =>
    if db.intent? intentId = none then .error (.database "FOREIGN KEY constraint failed")
    else
      let preparedId := db.nextUuid
      let preparedOrder : PreparedOrder :=
        { id := preparedId, intentId, normalizedJson
          signedPayloadJson := prepared.signedPayloadJson
          deterministicOrderId := prepared.deterministicOrderId
          signerAddress := prepared.signerAddress
          funderAddress := prepared.funderAddress
          protocolVersion := prepared.protocolVersion
          sdkVersion := prepared.sdkVersion
          policyVersion }
      let attempt : SubmissionAttempt :=
        { id := preparedId + 1, preparedOrderId := preparedId, attemptNumber := 1,
          state := .prepared, responseClass := none }
      match request.protectionPrice with
      | .error e => .error (.invalidDecimal e.text)
      | .ok price =>
        match db.riskReservations.find? fun r => r.intentId = intentId ∧ r.state = .active with
        | none =>
          .error (.identityMismatch "prepared order does not have an active risk reservation")
        | some reservation =>
          let order : OrderRecord :=
            { id := preparedId + 2, intentId, venueOrderId := none
              conditionId := request.conditionId, tokenId := request.tokenId
              side := request.side, timeInForce := request.timeInForce
              price, feeRate, quoteExposure := reservation.quoteExposure
              originalQuantity := reservation.quantity
              remainingQuantity := reservation.quantity
              state := .prepared, createdAt := now }
          if Table.rowsAffected (RiskReservation.At intentId .active) db.riskReservations ≠ 1 then
            .error (.identityMismatch
              "prepared order does not have exactly one active risk reservation")
          else if Table.rowsAffected (IntentRecord.At intentId .preparing) db.intents ≠ 1 then
            .error (.identityMismatch "intent was not PREPARING while committing prepared order")
          else
            let db : Db := { db with
              preparedOrders := db.preparedOrders ++ [preparedOrder]
              submissionAttempts := db.submissionAttempts ++ [attempt]
              orders := db.orders ++ [order]
              riskReservations := Table.updateWhere (RiskReservation.At intentId .active)
                (fun r => { r with state := .consumed }) db.riskReservations
              intents := Table.updateWhere (IntentRecord.At intentId .preparing)
                (fun i => { i with state := .prepared }) db.intents
              nextUuid := db.nextUuid + 3 }
            let (db, intentEvent) := db.appendEvent "intent.prepared" "intent" (.uuid intentId)
            let (db, orderEvent) := db.appendEvent "order.prepared" "order" (.uuid order.id)
            .ok ⟨order, db, [intentEvent, orderEvent]⟩

def rejectPreparation (intentId : Uuid) (code message : String) (db : Db) : Tx Unit :=
  if Table.rowsAffected (RiskReservation.At intentId .active) db.riskReservations ≠ 1 then
    .error (.identityMismatch "preparation rejection does not have an active risk reservation")
  else if Table.rowsAffected (IntentRecord.At intentId .preparing) db.intents ≠ 1 then
    .error (.identityMismatch "intent was not PREPARING during reservation release")
  else
    let db : Db := { db with
      riskReservations := Table.updateWhere (RiskReservation.At intentId .active)
        (fun r => { r with state := .released }) db.riskReservations
      intents := Table.updateWhere (IntentRecord.At intentId .preparing)
        (fun i => { i with
          state := .rejected, rejectionCode := some code, rejectionMessage := some message })
        db.intents }
    let (db, released) := db.appendEvent "risk.released" "risk_reservation" (.uuid intentId)
    let (db, rejected) := db.appendEvent "intent.rejected" "intent" (.uuid intentId)
    .ok ⟨(), db, [released, rejected]⟩

/-! ## Recovery of pre-submission work -/

/-- The states `recover_pre_submission_work` selects. -/
def IntentState.preSubmission : IntentState → Bool
  | .received | .validating | .approved | .preparing | .prepared => true
  | _ => false

/-- `ORDER BY created_at, id`. -/
def createdBefore (a b : Time × Uuid) : Prop := a.1 < b.1 ∨ (a.1 = b.1 ∧ a.2 ≤ b.2)

instance : DecidableRel createdBefore := fun a b => by unfold createdBefore; infer_instance

/-- The number of joined order, prepared-order and attempt rows, all PREPARED, of an intent. -/
def Db.preparedTriples (db : Db) (intentId : Uuid) : Nat :=
  let orders := db.orders.filter fun o => o.intentId = intentId ∧ o.state = .prepared
  let prepared := db.preparedOrders.filter fun p => p.intentId = intentId
  let attempts := prepared.map fun p =>
    Table.rowsAffected (fun a : SubmissionAttempt => a.preparedOrderId = p.id ∧
      a.state = .prepared) db.submissionAttempts
  orders.length * attempts.sum

/-- One row of the loop of `recover_pre_submission_work`. -/
def recoverIntent (row : IntentRecord) (db : Db) (events : List ExecutionEvent) :
    Except StoreError (Db × List ExecutionEvent) :=
  if row.state = .prepared then
    if db.preparedTriples row.id ≠ 1 then
      .error (.identityMismatch ("prepared intent " ++ toString row.id ++
        " does not have exactly one prepared order and attempt"))
    else .ok (db, events)
  else if row.state = .received then .ok (db, events)
  else
    let released := Table.rowsAffected (RiskReservation.At row.id .active) db.riskReservations
    let db : Db := { db with
      riskReservations := Table.updateWhere (RiskReservation.At row.id .active)
        (fun r => { r with state := .released }) db.riskReservations }
    let (db, events) :=
      if 0 < released then
        let (db, event) := db.appendEvent "risk.released" "risk_reservation" (.uuid row.id)
        (db, events ++ [event])
      else (db, events)
    let db : Db := { db with
      intents := Table.updateWhere (IntentRecord.At row.id row.state)
        (fun i => { i with state := .received }) db.intents }
    let (db, event) :=
      db.appendEvent "intent.recovered_before_submission" "intent" (.uuid row.id)
    .ok (db, events ++ [event])

def recoverIntents : List IntentRecord → Db → List ExecutionEvent →
    Except StoreError (Db × List ExecutionEvent)
  | [], db, events => .ok (db, events)
  | row :: rows, db, events =>
    match recoverIntent row db events with
    | .error e => .error e
    | .ok (db, events) => recoverIntents rows db events

def recoverPreSubmissionWork (db : Db) : Tx (List Uuid) :=
  let rows := (db.intents.filter fun i => i.state.preSubmission).insertionSort
    fun a b => createdBefore (a.createdAt, a.id) (b.createdAt, b.id)
  match recoverIntents rows db [] with
  | .error e => .error e
  | .ok (db, events) => .ok ⟨rows.map IntentRecord.id, db, events⟩

end OddsfoxExecution
