import OddsfoxExecution.Library.Table
import OddsfoxExecution.Risk

/-!
# The database

One structure per table of `migrations/`, with the columns some operation
reads, and the database as a record of tables.  Stored decimals and JSON
columns carry the values they parse to: the code writes what it later parses.
A hash column carries what is hashed, so that no two bodies collide.
-/

namespace OddsfoxExecution

inductive ReservationState where
  | active
  | consumed
  | released
deriving DecidableEq

inductive AttemptState where
  | prepared
  | submitting
  | accepted
  | rejected
  | unknown
  | resolved
  | cancelled
deriving DecidableEq

inductive CancellationState where
  | pending
  | complete
  | reconciliationRequired
deriving DecidableEq

inductive ReconciliationState where
  | running
  | complete
  | failed
deriving DecidableEq

inductive BackupState where
  | running
  | complete
  | failed
deriving DecidableEq

/-- The JSON body of a mutation other than an intent. -/
inductive RequestBody where
  | empty
  | reason (text : String)
  | cancellation (request : CancellationRequest)
deriving DecidableEq

/-- `request_hash`: an intent hashes its bare request, every other mutation its operation and
body. -/
inductive RequestHash where
  | intent (request : OrderIntentRequest)
  | operation (operation : String) (body : RequestBody)
deriving DecidableEq

structure IntentRecord where
  id : Uuid
  actorId : String
  idempotencyKey : String
  requestHash : RequestHash
  request : OrderIntentRequest
  state : IntentState
  rejectionCode : Option String
  rejectionMessage : Option String
  policyVersion : Option String
  createdAt : Time
deriving DecidableEq

/-- `response_json`: the body a mutation answered with. -/
inductive ResponseBody where
  | intent (record : IntentRecord)
  | cancellation (id : Uuid) (targetOrderIds : List Uuid) (mode : Mode)
  | control (state : ServiceState) (mode : Mode)
  | reconciliation (id : Uuid) (mode : Mode)
  | backup (id : Uuid) (mode : Mode)
deriving DecidableEq

structure IdempotencyKey where
  actorId : String
  idempotencyKey : String
  requestHash : RequestHash
  resourceType : String
  responseStatus : Nat
  response : ResponseBody
deriving DecidableEq

structure RiskDecisionRow where
  id : Uuid
  intentId : Uuid
  approved : Bool
  reasonCode : String
  policyVersion : String
deriving DecidableEq

structure RiskReservation where
  intentId : Uuid
  conditionId : String
  tokenId : String
  side : Side
  price : Decimal
  quantity : Decimal
  quoteExposure : Decimal
  feeRate : Decimal
  state : ReservationState
deriving DecidableEq

structure PreparedOrder where
  id : Uuid
  intentId : Uuid
  normalizedJson : String
  signedPayloadJson : Option String
  deterministicOrderId : String
  signerAddress : Option String
  funderAddress : Option String
  protocolVersion : Nat
  sdkVersion : String
  policyVersion : String
deriving DecidableEq

structure SubmissionAttempt where
  id : Uuid
  preparedOrderId : Uuid
  attemptNumber : Nat
  state : AttemptState
  responseClass : Option String
deriving DecidableEq

structure OrderRecord where
  id : Uuid
  intentId : Uuid
  venueOrderId : Option String
  conditionId : String
  tokenId : String
  side : Side
  timeInForce : TimeInForce
  price : Decimal
  feeRate : Decimal
  quoteExposure : Decimal
  originalQuantity : Decimal
  remainingQuantity : Decimal
  state : OrderState
  createdAt : Time
deriving DecidableEq

structure OrderTransition where
  orderId : Uuid
  priorState : OrderState
  newState : OrderState
deriving DecidableEq

structure TradeRecord where
  id : Uuid
  orderId : Uuid
  venueTradeId : String
  price : Decimal
  size : Decimal
  status : TradeState
  createdAt : Time
deriving DecidableEq

structure VenueTradeFinality where
  venueTradeId : String
  tradeId : Uuid
  status : TradeState
deriving DecidableEq

structure PositionRecord where
  tokenId : String
  conditionId : String
  shares : Decimal
deriving DecidableEq

structure CancellationRecord where
  id : Uuid
  actorId : String
  selector : CancellationRequest
  targetOrderIds : List Uuid
  state : CancellationState
  createdAt : Time
deriving DecidableEq

structure ReconciliationRecord where
  id : Uuid
  trigger : String
  state : ReconciliationState
  startedAt : Time
  completedAt : Option Time
deriving DecidableEq

/-- Every finding the executor records is `CRITICAL`. -/
structure ReconciliationFinding where
  id : Uuid
  reconciliationId : Uuid
  code : String
  message : String
  resolvedAt : Option Time
deriving DecidableEq

structure ControlState where
  state : ServiceState
  reason : String
  revision : Nat
deriving DecidableEq

structure BackupRow where
  id : Uuid
  state : BackupState
  lastEventSequence : Option Nat
deriving DecidableEq

/-- `PaperPosition` of the paper configuration. -/
structure PaperPosition where
  conditionId : String
  tokenId : String
  shares : String
deriving DecidableEq

structure PaperConfig where
  startingQuoteBalance : String
  startingPositions : List PaperPosition
deriving DecidableEq

/-- `evidence_json` of a paper order: `PaperVenue::submit` writes it, and each trade-through over
it. -/
inductive PaperEvidence where
  | insufficientDepth
  | filled (filledQuantity quote fee : Decimal) (averagePrice : Option Decimal)
  | tradeThrough (marketEventId : String) (observedAt : Time)
    (tradePrice tradeSize fillQuantity : Decimal)
deriving DecidableEq

/-- The `configuration_sha256` column carries the configuration. -/
structure PaperAccount where
  configuration : PaperConfig
  quoteBalance : Decimal
  reservedQuote : Decimal
deriving DecidableEq

structure PaperInventory where
  tokenId : String
  shares : Decimal
  reservedShares : Decimal
deriving DecidableEq

structure PaperVenueOrder where
  venueOrderId : String
  conditionId : String
  tokenId : String
  side : Side
  state : OrderState
  price : Decimal
  feeRate : Decimal
  originalQuantity : Decimal
  remainingQuantity : Decimal
  filledQuantity : Decimal
  filledPrice : Option Decimal
  quoteAmount : Decimal
  feeAmount : Decimal
  reservedQuote : Decimal
  reservedShares : Decimal
  venueTradeIds : List String
  evidence : PaperEvidence
  createdAt : Time
deriving DecidableEq

structure PaperMarketEvent where
  eventId : String
  tokenId : String
  price : Decimal
  size : Decimal
  observedAt : Time
deriving DecidableEq

/-- `execution_events.resource_id`: the text of an identifier, or a venue's own text. -/
inductive ResourceId where
  | uuid (id : Uuid)
  | text (id : String)
deriving DecidableEq

structure ExecutionEvent where
  sequence : Nat
  eventType : String
  resourceType : String
  resourceId : ResourceId
deriving DecidableEq

structure Db where
  intents : List IntentRecord
  idempotencyKeys : List IdempotencyKey
  riskDecisions : List RiskDecisionRow
  riskReservations : List RiskReservation
  preparedOrders : List PreparedOrder
  submissionAttempts : List SubmissionAttempt
  orders : List OrderRecord
  orderTransitions : List OrderTransition
  trades : List TradeRecord
  venueTradeFinality : List VenueTradeFinality
  positions : List PositionRecord
  cancellationRequests : List CancellationRecord
  reconciliationRuns : List ReconciliationRecord
  reconciliationFindings : List ReconciliationFinding
  controlState : ControlState
  backups : List BackupRow
  paperAccount : Option PaperAccount
  paperInventory : List PaperInventory
  paperVenueOrders : List PaperVenueOrder
  paperMarketEvents : List PaperMarketEvent
  executionEvents : List ExecutionEvent
  /-- The next `AUTOINCREMENT` sequence of `execution_events`. -/
  nextSequence : Nat
  /-- The next identifier `Uuid::now_v7` draws. -/
  nextUuid : Uuid
deriving DecidableEq

/-- The database the migrations create. -/
def Db.initial : Db where
  intents := []
  idempotencyKeys := []
  riskDecisions := []
  riskReservations := []
  preparedOrders := []
  submissionAttempts := []
  orders := []
  orderTransitions := []
  trades := []
  venueTradeFinality := []
  positions := []
  cancellationRequests := []
  reconciliationRuns := []
  reconciliationFindings := []
  controlState := { state := .starting, reason := "initializing", revision := 0 }
  backups := []
  paperAccount := none
  paperInventory := []
  paperVenueOrders := []
  paperMarketEvents := []
  executionEvents := []
  nextSequence := 1
  nextUuid := 1

structure StoreConfig where
  mode : Mode
  eventRetention : Nat
deriving DecidableEq

inductive StoreError where
  | database (message : String)
  | serialization (message : String)
  | identityMismatch (message : String)
  | idempotencyConflict
  | newRiskDisabled (state : ServiceState)
  | notFound
  | invalidDecimal (text : String)
deriving DecidableEq

/-- A committed transaction: its result, the database after it and the events it broadcasts,
in the order it sends them. -/
structure Committed (α : Type) where
  value : α
  db : Db
  broadcast : List ExecutionEvent

/-- A transaction either commits or fails and leaves the database alone. -/
abbrev Tx (α : Type) := Except StoreError (Committed α)

def Db.appendEvent (db : Db) (eventType resourceType : String) (resourceId : ResourceId) :
    Db × ExecutionEvent :=
  let event : ExecutionEvent := { sequence := db.nextSequence, eventType, resourceType, resourceId }
  ({ db with
      executionEvents := db.executionEvents ++ [event]
      nextSequence := db.nextSequence + 1 }, event)

/-! ## Texts of the enumerations -/

/-- `format!("{state:?}").to_ascii_lowercase()`. -/
def IntentState.lower : IntentState → String
  | .received => "received"
  | .validating => "validating"
  | .rejected => "rejected"
  | .approved => "approved"
  | .preparing => "preparing"
  | .prepared => "prepared"
  | .submitting => "submitting"
  | .submitted => "submitted"
  | .unknown => "unknown"

/-- `format!("{state:?}")`. -/
def OrderState.debug : OrderState → String
  | .prepared => "Prepared"
  | .submitting => "Submitting"
  | .live => "Live"
  | .partiallyFilled => "PartiallyFilled"
  | .filled => "Filled"
  | .cancelPending => "CancelPending"
  | .cancelled => "Cancelled"
  | .expired => "Expired"
  | .rejected => "Rejected"
  | .unknown => "Unknown"

/-- `format!("{state:?}").to_ascii_lowercase()`. -/
def OrderState.lower : OrderState → String
  | .prepared => "prepared"
  | .submitting => "submitting"
  | .live => "live"
  | .partiallyFilled => "partiallyfilled"
  | .filled => "filled"
  | .cancelPending => "cancelpending"
  | .cancelled => "cancelled"
  | .expired => "expired"
  | .rejected => "rejected"
  | .unknown => "unknown"

/-- `service_state_text`. -/
def ServiceState.text : ServiceState → String
  | .starting => "STARTING"
  | .reconciling => "RECONCILING"
  | .ready => "READY"
  | .degraded => "DEGRADED"
  | .halted => "HALTED"
  | .shuttingDown => "SHUTTING_DOWN"

def StoreError.text : StoreError → String
  | .database message => "database error: " ++ message
  | .serialization message => "serialization error: " ++ message
  | .identityMismatch message => "database identity mismatch: " ++ message
  | .idempotencyConflict => "idempotency key reused with a different request"
  | .newRiskDisabled state =>
    "new risk admission is disabled while service state is " ++ state.text
  | .notFound => "resource not found"
  | .invalidDecimal text => "invalid stored decimal: " ++ text

/-! ## Conditions shared by the statements -/

/-- `id = ? AND state = ?` on `intents`. -/
def IntentRecord.At (id : Uuid) (state : IntentState) (i : IntentRecord) : Prop :=
  i.id = id ∧ i.state = state

/-- `intent_id = ? AND state = ?` on `risk_reservations`. -/
def RiskReservation.At (intentId : Uuid) (state : ReservationState) (r : RiskReservation) : Prop :=
  r.intentId = intentId ∧ r.state = state

/-- `id = ? AND state = ?` on `orders`. -/
def OrderRecord.At (id : Uuid) (state : OrderState) (o : OrderRecord) : Prop :=
  o.id = id ∧ o.state = state

/-- `id = ? AND intent_id = ? AND state = ?` on `orders`. -/
def OrderRecord.AtPair (id intentId : Uuid) (state : OrderState) (o : OrderRecord) : Prop :=
  o.id = id ∧ o.intentId = intentId ∧ o.state = state

/-- `prepared_order_id = ? AND state = ?` on `submission_attempts`; a null identifier matches
no row. -/
def SubmissionAttempt.At (preparedOrderId : Option Uuid) (state : AttemptState)
    (a : SubmissionAttempt) : Prop :=
  some a.preparedOrderId = preparedOrderId ∧ a.state = state

instance (id : Uuid) (state : IntentState) : DecidablePred (IntentRecord.At id state) :=
  fun i => inferInstanceAs (Decidable (i.id = id ∧ i.state = state))

instance (intentId : Uuid) (state : ReservationState) :
    DecidablePred (RiskReservation.At intentId state) :=
  fun r => inferInstanceAs (Decidable (r.intentId = intentId ∧ r.state = state))

instance (id : Uuid) (state : OrderState) : DecidablePred (OrderRecord.At id state) :=
  fun o => inferInstanceAs (Decidable (o.id = id ∧ o.state = state))

instance (id intentId : Uuid) (state : OrderState) :
    DecidablePred (OrderRecord.AtPair id intentId state) :=
  fun o => inferInstanceAs (Decidable (o.id = id ∧ o.intentId = intentId ∧ o.state = state))

instance (preparedOrderId : Option Uuid) (state : AttemptState) :
    DecidablePred (SubmissionAttempt.At preparedOrderId state) :=
  fun a => inferInstanceAs (Decidable (some a.preparedOrderId = preparedOrderId ∧ a.state = state))

/-! ## Lookups shared by the operations -/

/-- `SELECT id FROM prepared_orders WHERE intent_id = ?` as a scalar subquery. -/
def Db.preparedOrderId (db : Db) (intentId : Uuid) : Option Uuid :=
  (db.preparedOrders.find? fun p => p.intentId = intentId).map PreparedOrder.id

/-- `SELECT shares FROM positions WHERE token_id = ?`, zero where there is no row. -/
def Db.positionShares (db : Db) (tokenId : String) : Decimal :=
  match db.positions.find? fun p => p.tokenId = tokenId with
  | some p => p.shares
  | none => 0

def Db.intent? (db : Db) (id : Uuid) : Option IntentRecord := db.intents.find? fun i => i.id = id

def Db.order? (db : Db) (id : Uuid) : Option OrderRecord := db.orders.find? fun o => o.id = id

end OddsfoxExecution
