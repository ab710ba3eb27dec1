import OddsfoxExecution.Coordinator.Reconciliation

/-!
# Halting, processing an intent, starting and stopping

The rest of `src/execution.rs`: the halting entry points, `process_intent` with
`submit_prepared`, `startup`, `resume` and `shutdown`, and the body of each
task a process runs.
-/

namespace OddsfoxExecution

/-- `format!("{state:?}")`. -/
def IntentState.debug : IntentState → String
  | .received => "Received"
  | .validating => "Validating"
  | .rejected => "Rejected"
  | .approved => "Approved"
  | .preparing => "Preparing"
  | .prepared => "Prepared"
  | .submitting => "Submitting"
  | .submitted => "Submitted"
  | .unknown => "Unknown"

/-- The remainder of `Decimal`: it has the sign of the dividend. -/
def decimalRem (a b : Decimal) : Decimal := a - b * ((a / b).num.tdiv (a / b).den : Int)

/-- The prepared order `process_intent_inner` rebuilds from the journal. -/
def PreparedSubmission.venueOrder (persisted : PreparedSubmission) : PreparedVenueOrder :=
  { deterministicOrderId := persisted.deterministicOrderId
    normalizedJson := ⟨persisted.normalizedJson, some persisted.normalizedJson⟩
    signedPayloadJson := persisted.signedPayloadJson
    signerAddress := persisted.signerAddress
    funderAddress := persisted.funderAddress
    protocolVersion := persisted.protocolVersion
    sdkVersion := persisted.sdkVersion }

namespace Coordinator

variable (self : Coordinator)

/-! ## Halting -/

def halt (actor reason : String) : Action Unit :=
  if trimIsEmpty reason then throw (.invalid "reason is required")
  else do
    setServiceState actor .halted reason
    Action.withGate .safety (self.cancelOnHaltInner reason)

def haltIdempotent (actor idempotencyKey reason : String) : Action Unit :=
  if trimIsEmpty reason then throw (.invalid "reason is required")
  else do
    Action.store (.setServiceState actor .halted reason
      (some ⟨idempotencyKey, "control.halt", .reason reason⟩) none)
    self.spawnProtectiveCancellation reason

def haltInner (actor reason : String) : Action Unit :=
  if trimIsEmpty reason then throw (.invalid "reason is required")
  else do
    setServiceState actor .halted reason
    self.cancelOnHaltInner reason

def haltForVenueError (error : VenueError) (reconciliationTrigger : String) : Action Unit :=
  if error.requiresHalt = true then do
    self.haltInner "system" error.text
    let _ ← Action.attempt (self.reconcileInner reconciliationTrigger)
  else pure ()

/-! ## Health -/

def supervisedHeartbeat : Action Unit := do
  match ← Action.venue .heartbeat with
  | .ok () => Action.perform .markHealthyHeartbeat
  | .error e => throw (.venue e)
  | .timeout => throw (.invalid "venue heartbeat deadline exceeded")

def reconciliationStale (now : Time) (latest : Option Time) : Bool :=
  latest.elim true fun completedAt =>
    decide (self.policy.maxReconciliationAgeSeconds < ageSeconds now completedAt)

/-- `heartbeat_stale`; the age is in milliseconds. -/
def heartbeatStale (age : Option Nat) : Bool :=
  age.elim true fun elapsed => decide (self.policy.maxUserStreamAgeSeconds * 1000 < elapsed)

def executionHealthFailure : Action (Option String) := do
  let latest ← Action.store .latestSuccessfulReconciliation
  let now ← Action.perform .now
  if self.reconciliationStale now latest = true then
    pure (some "latest successful reconciliation is missing or stale")
  else if self.requiresHeartbeat = true then do
    let age ← Action.perform .healthyHeartbeatAge
    if self.heartbeatStale age = true then pure (some "venue heartbeat is missing or stale")
    else pure none
  else pure none

/-! ## Submission -/

/-- What `submit_prepared` does with the venue's answer. -/
def recordSubmission (intentId orderId : Uuid) (prepared : PreparedVenueOrder)
    (submission : Except VenueError VenueSubmission) : Action Unit :=
  match submission with
  | .ok submission =>
    Action.store (.finishSubmission intentId orderId .submitted submission.state
      (some submission.venueOrderId) "VENUE_RESPONSE" submission.filledQuantity
      submission.filledPrice submission.venueTradeIds)
  | .error e =>
    if e.isAmbiguous = true then do
      Action.store (.finishSubmission intentId orderId .unknown .unknown
        (some prepared.deterministicOrderId) "AMBIGUOUS" 0 none [])
      self.haltInner "system" "ambiguous venue submission"
      let _ ← Action.attempt (self.reconcileInner "ambiguous_submission")
    else do
      Action.store (.finishSubmission intentId orderId .submitted .rejected none
        "DEFINITIVE_REJECTION" 0 none [])
      if e.requiresHalt = true then do
        self.haltInner "system" e.text
        let _ ← Action.attempt (self.reconcileInner "venue_safety_halt")
      else pure ()

def submitPrepared (intentId orderId : Uuid) (prepared : PreparedVenueOrder)
    (request : OrderIntentRequest) : Action Unit := do
  let control ← Action.store .serviceState
  if control.state ≠ .ready then do
    let intent ← Action.store (.getIntent intentId)
    if intent.state = .prepared then Action.perform (.deferRecovery intentId) else pure ()
  else
    match ← Action.perform (.store (.beginSubmission intentId orderId)) with
    | .ok () => do
      let answer ← Action.venue (.submit prepared request)
      self.recordSubmission intentId orderId prepared
        (answer.orElse (.ambiguous "submission deadline exceeded after SUBMITTING commit"))
    | .error (.newRiskDisabled _) => Action.perform (.deferRecovery intentId)
    | .error e => throw (.store e)

/-! ## Processing an intent -/

/-- `valid_levels` of `validate_freshness_and_increments`. -/
def validLevels (market : MarketRules) (levels : List PriceLevel) : Prop :=
  ∀ level ∈ levels, 0 < level.price ∧ level.price < 1 ∧
    decimalRem level.price market.tickSize = 0 ∧ 0 < level.size

instance (market : MarketRules) (levels : List PriceLevel) :
    Decidable (validLevels market levels) :=
  inferInstanceAs (Decidable (∀ level ∈ levels, 0 < level.price ∧ level.price < 1 ∧
    decimalRem level.price market.tickSize = 0 ∧ 0 < level.size))

/-- The market and book checks of `validate_freshness_and_increments`. -/
def validateMarketData (request : OrderIntentRequest) (market : MarketRules) (book : OrderBook)
    (now : Time) : Except (String × String) Unit :=
  if market.conditionId ≠ request.conditionId ∨ market.tokenId ≠ request.tokenId ∨
      market.tickSize ≤ 0 ∨ 1 ≤ market.tickSize ∨ market.minimumOrderSize ≤ 0 ∨
      market.makerFeeRate < 0 ∨ 1 < market.makerFeeRate ∨ market.takerFeeRate < 0 ∨
      1 < market.takerFeeRate then
    .error ("MARKET_RULES_INVALID",
      "venue market rules contain invalid identifiers, increments, or fees")
  else if now + 5000 < market.observedAt then
    .error ("MARKET_METADATA_INVALID_TIME", "market metadata timestamp is in the future")
  else if self.policy.maxMarketMetadataAgeSeconds < ageSeconds now market.observedAt then
    .error ("MARKET_METADATA_STALE",
      "market metadata is " ++ toString (ageSeconds now market.observedAt) ++ "s old")
  else if now + 5000 < book.observedAt then
    .error ("ORDER_BOOK_INVALID_TIME", "order book timestamp is in the future")
  else if self.policy.maxOrderBookAgeSeconds < ageSeconds now book.observedAt then
    .error ("ORDER_BOOK_STALE",
      "order book is " ++ toString (ageSeconds now book.observedAt) ++ "s old")
  else if ¬ validLevels market book.bids ∨ ¬ validLevels market book.asks ∨
      (book.bestBid.any fun bid => book.bestAsk.any fun ask => decide (ask ≤ bid)) = true ∨
      (book.hash.any fun hash => trimIsEmpty hash) = true then
    .error ("ORDER_BOOK_INVALID", "order book failed structural consistency checks")
  else .ok ()

def validateFreshnessAndIncrements (request : OrderIntentRequest) (market : MarketRules)
    (book : OrderBook) (now : Time) : Except (String × String) Unit :=
  match self.validateMarketData request market book now with
  | .error rejection => .error rejection
  | .ok () =>
    match request.protectionPrice with
    | .error e => .error ("ORDER_INVALID_PRICE", e.text)
    | .ok price =>
      if decimalRem price market.tickSize ≠ 0 then
        .error ("ORDER_INVALID_TICK", s!"price must be a multiple of {decimalText market.tickSize}")
      else
        match request.quantityDecimal with
        | .error e => .error ("ORDER_INVALID_QUANTITY", e.text)
        | .ok quantity =>
          let shares :=
            if request.side = .buy ∧ request.timeInForce.immediate = true then quantity / price
            else quantity
          if shares < market.minimumOrderSize then
            .error ("ORDER_BELOW_MINIMUM_SIZE", s!"share quantity {decimalText shares} is below {
              decimalText market.minimumOrderSize}")
          else .ok ()

def rejectReceived (intentId : Uuid) (code message : String) : Action Unit := do
  let _ ← Action.store (.transitionIntent intentId .received .rejected (some (code, message)))

def rejectValidating (intentId : Uuid) (code message : String) : Action Unit := do
  Action.store (.recordRiskDecision intentId false code self.policy.version)
  let _ ← Action.store (.transitionIntent intentId .validating .rejected (some (code, message)))

/-- The market rules and the order book of an intent's token, or nothing once the intent is
rejected for the want of them. -/
def marketData (intentId : Uuid) (request : OrderIntentRequest) :
    Action (Option (MarketRules × OrderBook)) := do
  match ← Action.venue (.marketRules request.conditionId request.tokenId) with
  | .error e => do
    self.rejectValidating intentId "MARKET_VALIDATION_FAILED" e.text
    self.haltForVenueError e "market_validation_safety_halt"
    pure none
  | .timeout => do
    self.rejectValidating intentId "MARKET_VALIDATION_TIMEOUT"
      "market validation deadline exceeded"
    pure none
  | .ok market =>
    match ← Action.venue (.orderBook request.tokenId) with
    | .error e => do
      self.rejectValidating intentId "ORDER_BOOK_UNAVAILABLE" e.text
      self.haltForVenueError e "order_book_safety_halt"
      pure none
    | .timeout => do
      self.rejectValidating intentId "ORDER_BOOK_TIMEOUT" "order book deadline exceeded"
      pure none
    | .ok book => pure (some (market, book))

/-- From an approved intent on: preparation, the journal record and the submission. -/
def prepareAndSubmit (intentId : Uuid) (request : OrderIntentRequest) (market : MarketRules) :
    Action Unit := do
  let _ ← Action.store (.transitionIntent intentId .approved .preparing none)
  match ← Action.venue (.prepare intentId request) with
  | .error e => do
    Action.store (.rejectPreparation intentId "ORDER_PREPARATION_FAILED" e.text)
    self.haltForVenueError e "order_preparation_safety_halt"
  | .timeout =>
    Action.store (.rejectPreparation intentId "ORDER_PREPARATION_TIMEOUT"
      "order preparation deadline exceeded")
  | .ok prepared => do
    let order ← Action.store (.createPreparedOrder intentId request prepared self.policy.version
      (max market.makerFeeRate market.takerFeeRate))
    self.submitPrepared intentId order.id prepared request

/-- `process_intent_inner` for a RECEIVED intent. -/
def processReceived (intentId : Uuid) (request : OrderIntentRequest) : Action Unit := do
  let _ ← Action.store (.transitionIntent intentId .received .validating none)
  match request.validate (← Action.perform .now) with
  | .error e => do
    Action.store (.recordRiskDecision intentId false "ORDER_INVALID" self.policy.version)
    let _ ← Action.store (.transitionIntent intentId .validating .rejected
      (some ("ORDER_INVALID", e.text)))
  | .ok () =>
    match ← self.marketData intentId request with
    | none => pure ()
    | some (market, book) =>
      match self.validateFreshnessAndIncrements request market book (← Action.perform .now) with
      | .error (code, message) => self.rejectValidating intentId code message
      | .ok () => do
        let decision ← Action.store
          (.evaluateAndReserveRisk intentId request market book self.policy)
        if decision.approved = true then self.prepareAndSubmit intentId request market
        else pure ()

/-- `process_intent_inner` once the service is healthy and READY. -/
def processReady (intentId : Uuid) : Action Unit := do
  let intent ← Action.store (.getIntent intentId)
  if intent.state = .prepared then do
    let persisted ← Action.store (.preparedSubmission intentId)
    self.submitPrepared intentId persisted.orderId persisted.venueOrder intent.request
  else if intent.state = .received then self.processReceived intentId intent.request
  else
    throw (.invalid ("intent " ++ toString intentId ++ " is not recoverable from state " ++
      intent.state.debug))

/-- `process_intent_inner` after the reconciliation of a user-stream event. -/
def processReconciled (intentId : Uuid) : Action Unit := do
  match ← self.executionHealthFailure with
  | some reason => do
    self.haltInner "system" reason
    rejectReceived intentId "EXECUTION_HEALTH_STALE" reason
  | none => do
    let control ← Action.store .serviceState
    if control.state = .ready then self.processReady intentId
    else
      rejectReceived intentId "SERVICE_NOT_READY" "service is not ready for new risk"

def processIntentInner (intentId : Uuid) : Action Unit := do
  let required : Bool ← Action.perform .reconciliationRequired
  if required = true then do
    let _ ← Action.attempt (self.reconcileInner "pre_intent_user_stream_event")
  self.processReconciled intentId

def processIntent (intentId : Uuid) : Action Unit :=
  Action.withGate .safety (Action.withGate .orderLifecycle (self.processIntentInner intentId))

end Coordinator

end OddsfoxExecution
