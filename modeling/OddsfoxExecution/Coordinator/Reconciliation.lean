import OddsfoxExecution.Coordinator.Calls

/-!
# Reconciliation and cancellation

The functions of `src/execution.rs` that bring the store in line with the venue
(`reconcile_inner` and what it calls) and those that work through a durable
cancellation request (`execute_cancellation`, `cancel_inner` and the
cancellations a halt sets off).
-/

namespace OddsfoxExecution

/-- The parts of an `ExecutionCoordinator` that never change. -/
structure Coordinator where
  policy : RiskPolicy
  /-- `venue.requires_heartbeat()`. -/
  requiresHeartbeat : Bool

def protectiveRequest (reason : String) : CancellationRequest :=
  { orderId := none, intentId := none, conditionId := none, allOpenOrders := true,
    reason := "automatic_cancel_on_halt:" ++ reason }

namespace Coordinator

variable (self : Coordinator)

/-- `set_service_state` as the executor itself calls it. -/
def setServiceState (actor : String) (next : ServiceState) (reason : String) : Action Unit :=
  Action.store (.setServiceState actor next reason none none)

def spawnProtectiveCancellation (reason : String) : Action Unit :=
  if self.policy.cancelOnHalt then Action.perform (.spawn (.protectiveCancellation reason))
  else pure ()

/-! ## Reconciliation -/

def findVenueOrder (deterministicOrderId : String) : Action (Option ObservedVenueOrder) := do
  match ← Action.venue (.findOrder deterministicOrderId) with
  | .ok observed => pure observed
  | .error e => throw (.venue e)
  | .timeout =>
    throw (.invalid ("venue order lookup timed out for " ++ deterministicOrderId))

/-- The loop over `unexpected_order_ids`. -/
def flagUnexpectedOrders : List String → List String → Action (List String)
  | [], findings => pure findings
  | venueOrderId :: rest, findings => do
    let findings := findings ++
      ["unexpected venue order " ++ venueOrderId ++ " has no local journal record"]
    if self.policy.cancelOnHalt then do
      match ← Action.venue (.cancel venueOrderId) with
      | .ok _ => flagUnexpectedOrders rest findings
      | .error e =>
        flagUnexpectedOrders rest (findings ++
          ["protective cancellation of unexpected venue order " ++ venueOrderId ++
            " failed: " ++ e.text])
      | .timeout =>
        flagUnexpectedOrders rest (findings ++
          ["protective cancellation of unexpected venue order " ++ venueOrderId ++ " timed out"])
    else flagUnexpectedOrders rest findings

/-- The entry of `observed_by_id`: of several observations of one order the last is kept. -/
def observedById (observedOrders : List ObservedVenueOrder) (venueOrderId : String) :
    Option ObservedVenueOrder :=
  observedOrders.reverse.find? fun observed => observed.venueOrderId = venueOrderId

/-- The observation of one order: from the snapshot, else from a lookup. -/
def observeOrder (observedOrders : List ObservedVenueOrder) (venueOrderId : String) :
    Action (Option ObservedVenueOrder) :=
  match observedById observedOrders venueOrderId with
  | some observed => pure (some observed)
  | none => findVenueOrder venueOrderId

/-- The loop over `active_local_orders`; each of them has a venue identifier. -/
def projectActiveOrders (observedOrders : List ObservedVenueOrder) :
    List OrderRecord → List String → Action (List String)
  | [], findings => pure findings
  | order :: rest, findings => do
    let venueOrderId := order.venueOrderId.getD ""
    match ← observeOrder observedOrders venueOrderId with
    | some observed =>
      if observed.state = .unknown then
        projectActiveOrders observedOrders rest (findings ++
          ["venue order " ++ venueOrderId ++ " has an unrecognized state"])
      else do
        Action.store (.reconcileOrderProjection order.id observed.state
          observed.remainingQuantity observed.filledQuantity observed.filledPrice
          observed.venueTradeIds)
        projectActiveOrders observedOrders rest findings
    | none =>
      projectActiveOrders observedOrders rest (findings ++
        ["local open order " ++ toString order.id ++ " (" ++ venueOrderId ++
          ") is missing at venue"])

def unresolvedFinding (unknown : UnknownSubmission) : String :=
  "unresolved ambiguous order " ++ toString unknown.orderId ++ " (" ++
    unknown.deterministicOrderId ++ ")"

/-- The loop over `unknown_submissions`. -/
def resolveUnknownSubmissions : List UnknownSubmission → List String → Action (List String)
  | [], findings => pure findings
  | unknown :: rest, findings => do
    match ← findVenueOrder unknown.deterministicOrderId with
    | some observed =>
      if observed.state = .unknown then
        resolveUnknownSubmissions rest (findings ++ [unresolvedFinding unknown])
      else do
        Action.store (.resolveUnknownSubmission unknown observed.venueOrderId observed.state
          observed.remainingQuantity observed.filledQuantity observed.filledPrice
          observed.venueTradeIds)
        resolveUnknownSubmissions rest findings
    | none => resolveUnknownSubmissions rest (findings ++ [unresolvedFinding unknown])

/-- `order_ids_for_venue_ids`: the distinct orders, in the order of their identifiers. -/
def orderIdsForVenueIds : List String → Action (List Uuid)
  | [] => pure []
  | venueOrderId :: rest => do
    let orderId ← Action.store (.orderIdForVenueId venueOrderId)
    let ids ← orderIdsForVenueIds rest
    pure ((orderId.elim ids fun id => id :: ids).dedup.insertionSort (· ≤ ·))

/-- The loop over `observed_trades`. -/
def recordObservedTrades : List ObservedVenueTrade → List String → Action (List String)
  | [], findings => pure findings
  | trade :: rest, findings => do
    match ← orderIdsForVenueIds trade.venueOrderIds with
    | [orderId] =>
      let linked : Bool ← Action.store
        (.recordVenueTradeFinality orderId trade.venueTradeId trade.status)
      if linked = true then recordObservedTrades rest findings
      else
        recordObservedTrades rest (findings ++
          ["venue trade " ++ trade.venueTradeId ++ " is not linked to a local matched fill"])
    | [] =>
      recordObservedTrades rest (findings ++
        ["venue trade " ++ trade.venueTradeId ++ " has no local order"])
    | _ =>
      recordObservedTrades rest (findings ++
        ["venue trade " ++ trade.venueTradeId ++ " maps to multiple local orders"])

/-- `known_venue_order_ids` of `reconciliation_orders`. -/
def knownVenueOrderIds (known : List OrderRecord) (deterministicOrderIds : List String) :
    List String :=
  known.filterMap OrderRecord.venueOrderId ++ deterministicOrderIds

/-- The identifiers the venue reports and the store does not know. -/
def unexpectedOrderIds (observedOrders : List ObservedVenueOrder) (knownIds : List String) :
    List String :=
  (observedOrders.map ObservedVenueOrder.venueOrderId).filter fun id => id ∉ knownIds

/-- The findings of a reconciliation the venue answered with `result`. -/
def collectFindings (result : ReconciliationResult) : Action (List String) := do
  let known ← Action.store .knownOrders
  let deterministicOrderIds ← Action.store .deterministicOrderIds
  let unexpected := unexpectedOrderIds result.observedOrders
    (knownVenueOrderIds known deterministicOrderIds)
  let findings ← self.flagUnexpectedOrders unexpected result.criticalFindings
  let findings ← projectActiveOrders result.observedOrders
    (known.filter fun order => order.state.active) findings
  let unknown ← Action.store .unknownSubmissions
  let findings ← resolveUnknownSubmissions unknown findings
  recordObservedTrades result.observedTrades findings

def reconcileStartedInner (id : Uuid) : Action Uuid := do
  match (← Action.venue .reconcile).orElse
      (.unavailable "reconciliation deadline exceeded") with
  | .ok result =>
    let findings ← self.collectFindings result
    Action.store (.reconcileVenuePositions result.observedPositions)
    Action.store (.finishReconciliation id findings)
    let _ ← Action.store .pruneEvents
    if findings.isEmpty then pure id
    else do
      setServiceState "system" .halted "critical reconciliation finding"
      self.spawnProtectiveCancellation "critical reconciliation finding"
      pure id
  | .error e =>
    Action.store (.failReconciliation id e.text)
    setServiceState "system" .halted "reconciliation failed"
    self.spawnProtectiveCancellation "reconciliation failed"
    throw (.venue e)

/-- The end of `closeFailedReconciliation`. -/
def haltAfterFailedReconciliation : Action Unit := do
  match ← Action.perform (.store .serviceState) with
  | .ok control =>
    if control.state = .halted then pure ()
    else do
      match ← Action.perform (.store (.setServiceState "system" .halted
          "reconciliation processing failed" none none)) with
      | .ok _ => self.spawnProtectiveCancellation "reconciliation processing failed"
      | .error _ => pure ()
  | .error _ => pure ()

/-- What `reconcile_started` does after an error: the run is closed and the service halted. -/
def closeFailedReconciliation (id : Uuid) (error : CoordinatorError) : Action Unit := do
  match ← Action.perform (.store (.getReconciliation id)) with
  | .ok record =>
    if record.state = .running then do
      let _ ← Action.perform (.store (.failReconciliation id error.text))
    else pure ()
  | .error _ => pure ()
  self.haltAfterFailedReconciliation

def reconcileStarted (id : Uuid) : Action Uuid := do
  match ← Action.attempt (self.reconcileStartedInner id) with
  | .ok id => pure id
  | .error e =>
    self.closeFailedReconciliation id e
    throw e

def reconcileInner (trigger : String) : Action Uuid := do
  let id ← Action.store (.startReconciliation trigger none)
  self.reconcileStarted id

def reconcile (trigger : String) : Action Uuid :=
  Action.withGate .safety (self.reconcileInner trigger)

/-! ## Cancellation -/

/-- What `execute_cancellation` does with an order once it is CANCEL_PENDING or UNKNOWN: it asks
the venue, and reconciles when the venue cannot be asked or does not confirm. -/
def cancelAtVenue (orderId : Uuid) (venueOrderId : Option String) (failedOrderIds : List Uuid) :
    Action (List Uuid) := do
  match venueOrderId with
  | some venueOrderId =>
    match (← Action.venue (.cancel venueOrderId)).orElse
        (.ambiguous "cancellation deadline exceeded") with
    | .ok cancellation =>
      let _ ← Action.store (.transitionOrder orderId cancellation.state none)
      pure failedOrderIds
    | .error _ =>
      let _ ← Action.attempt (self.reconcileInner "cancellation_failure")
      pure (failedOrderIds ++ [orderId])
  | none =>
    let _ ← Action.attempt (self.reconcileInner "cancellation_missing_venue_id")
    pure (failedOrderIds ++ [orderId])

/-- One target of `execute_cancellation`. -/
def cancelTarget (orderId : Uuid) (failedOrderIds : List Uuid) : Action (List Uuid) := do
  let order ← Action.store (.getOrder orderId)
  if order.state.terminal = true then pure failedOrderIds
  else if order.state = .prepared ∧ order.venueOrderId = none then do
    let _ ← Action.store (.cancelPreparedOrder orderId)
    pure failedOrderIds
  else if order.state = .unknown then self.cancelAtVenue orderId order.venueOrderId failedOrderIds
  else do
    let pending ← Action.store (.transitionOrder orderId .cancelPending none)
    if pending.state.terminal = true then pure failedOrderIds
    else self.cancelAtVenue orderId order.venueOrderId failedOrderIds

/-- The loop of `execute_cancellation`. -/
def cancelTargets : List Uuid → List Uuid → Action (List Uuid)
  | [], failedOrderIds => pure failedOrderIds
  | orderId :: rest, failedOrderIds => do
    let failedOrderIds ← self.cancelTarget orderId failedOrderIds
    cancelTargets rest failedOrderIds

def executeCancellation (cancellationId : Uuid) (targets : List Uuid) : Action Unit := do
  let failedOrderIds ← self.cancelTargets targets []
  let _ ← Action.store (.finishCancellation cancellationId failedOrderIds)

def cancelInner (actor : String) (request : CancellationRequest) :
    Action (Uuid × List Uuid) := do
  match request.validate with
  | .error e => throw (.invalid e.text)
  | .ok () =>
    let created ← Action.store (.createCancellation actor request none)
    self.executeCancellation created.1 created.2
    pure created

def cancel (actor : String) (request : CancellationRequest) : Action (Uuid × List Uuid) :=
  Action.withGate .cancellation
    (Action.withGate .orderLifecycle (self.cancelInner actor request))

/-- `cancel_on_halt_inner`: a failure is only logged. -/
def cancelOnHaltInner (reason : String) : Action Unit :=
  if self.policy.cancelOnHalt then do
    let _ ← Action.attempt (self.cancelInner "system" (protectiveRequest reason))
  else pure ()

end Coordinator

end OddsfoxExecution
