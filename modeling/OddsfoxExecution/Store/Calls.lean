import OddsfoxExecution.Store.Paper

/-!
# The store as one interface

Every operation of `Store` that the coordinator, the API or the paper market
feed issues, as a value: what it answers with and the transaction it runs.  The
write gate makes each operation one step; a read is a transaction that commits
nothing.
-/

namespace OddsfoxExecution

inductive StoreCall where
  | replayIntent (actorId idempotencyKey : String) (request : OrderIntentRequest)
  | idempotentResponse (actorId idempotencyKey operation : String) (body : RequestBody)
  | admitIntent (actorId idempotencyKey : String) (request : OrderIntentRequest)
  | getIntent (id : Uuid)
  | transitionIntent (id : Uuid) (expected next : IntentState)
      (rejection : Option (String × String))
  | recordRiskDecision (intentId : Uuid) (approved : Bool) (reasonCode policyVersion : String)
  | evaluateAndReserveRisk (intentId : Uuid) (request : OrderIntentRequest)
      (market : MarketRules) (book : OrderBook) (policy : RiskPolicy)
  | createPreparedOrder (intentId : Uuid) (request : OrderIntentRequest)
      (prepared : PreparedVenueOrder) (policyVersion : String) (feeRate : Decimal)
  | rejectPreparation (intentId : Uuid) (code message : String)
  | beginSubmission (intentId orderId : Uuid)
  | finishSubmission (intentId orderId : Uuid) (intentState : IntentState)
      (orderState : OrderState) (venueOrderId : Option String) (responseClass : String)
      (filledQuantity : Decimal) (filledPrice : Option Decimal) (venueTradeIds : List String)
  | recoverInterruptedSubmissions
  | recoverPreSubmissionWork
  | preparedSubmission (intentId : Uuid)
  | unknownSubmissions
  | resolveUnknownSubmission (unknown : UnknownSubmission) (venueOrderId : String)
      (state : OrderState) (remainingQuantity filledQuantity : Decimal)
      (filledPrice : Option Decimal) (venueTradeIds : List String)
  | transitionOrder (id : Uuid) (next : OrderState) (venueOrderId : Option String)
  | cancelPreparedOrder (orderId : Uuid)
  | getOrder (id : Uuid)
  | knownOrders
  | deterministicOrderIds
  | reconcileOrderProjection (orderId : Uuid) (observedState : OrderState)
      (remainingQuantity totalFilledQuantity : Decimal) (filledPrice : Option Decimal)
      (venueTradeIds : List String)
  | orderIdForVenueId (venueOrderId : String)
  | recordVenueTradeFinality (orderId : Uuid) (venueTradeId : String) (status : TradeState)
  | reconcileVenuePositions (observed : List ObservedVenuePosition)
  | serviceState
  | setServiceState (actor : String) (next : ServiceState) (reason : String)
      (idempotency : Option Idempotency) (expectedRevision : Option Nat)
  | createCancellation (actor : String) (request : CancellationRequest)
      (idempotency : Option Idempotency)
  | finishCancellation (id : Uuid) (failedOrderIds : List Uuid)
  | pendingCancellations
  | startReconciliation (trigger : String) (idempotency : Option (String × Idempotency))
  | failInterruptedReconciliations
  | finishReconciliation (id : Uuid) (criticalFindings : List String)
  | failReconciliation (id : Uuid) (error : String)
  | getReconciliation (id : Uuid)
  | unresolvedCriticalFindings
  | latestSuccessfulReconciliation
  | startBackup (actor : String) (idempotency : Option Idempotency)
  | completeBackup (id : Uuid) (lastSequence : Nat)
  | failBackup (id : Uuid)
  | failInterruptedBackups
  | pruneEvents
  | applyPaperTradeThrough (trade : PaperTrade)
deriving DecidableEq

namespace StoreCall

abbrev Value : StoreCall → Type
  | replayIntent .. => Option IntentRecord
  | idempotentResponse .. => Option (Nat × ResponseBody)
  | admitIntent .. => Admission
  | getIntent .. => IntentRecord
  | transitionIntent .. => IntentRecord
  | recordRiskDecision .. => Unit
  | evaluateAndReserveRisk .. => RiskDecision
  | createPreparedOrder .. => OrderRecord
  | rejectPreparation .. => Unit
  | beginSubmission .. => Unit
  | finishSubmission .. => Unit
  | recoverInterruptedSubmissions => Nat
  | recoverPreSubmissionWork => List Uuid
  | preparedSubmission .. => PreparedSubmission
  | unknownSubmissions => List UnknownSubmission
  | resolveUnknownSubmission .. => Unit
  | transitionOrder .. => OrderRecord
  | cancelPreparedOrder .. => OrderRecord
  | getOrder .. => OrderRecord
  | knownOrders => List OrderRecord
  | deterministicOrderIds => List String
  | reconcileOrderProjection .. => Unit
  | orderIdForVenueId .. => Option Uuid
  | recordVenueTradeFinality .. => Bool
  | reconcileVenuePositions .. => Unit
  | serviceState => ControlState
  | setServiceState .. => Unit
  | createCancellation .. => Uuid × List Uuid
  | finishCancellation .. => CancellationRecord
  | pendingCancellations => List CancellationRecord
  | startReconciliation .. => Uuid
  | failInterruptedReconciliations => Nat
  | finishReconciliation .. => Unit
  | failReconciliation .. => Unit
  | getReconciliation .. => ReconciliationRecord
  | unresolvedCriticalFindings => Nat
  | latestSuccessfulReconciliation => Option Time
  | startBackup .. => Uuid
  | completeBackup .. => Unit
  | failBackup .. => Unit
  | failInterruptedBackups => Nat
  | pruneEvents => Nat
  | applyPaperTradeThrough .. => Nat

/-- A query: it answers and commits nothing. -/
def query {α : Type} (db : Db) (result : Except StoreError α) : Tx α :=
  result.map fun value => ⟨value, db, []⟩

/-- The transaction of an operation, run at the time `now`. -/
def run (config : StoreConfig) (now : Time) (db : Db) : (call : StoreCall) → Tx call.Value
  | replayIntent actorId key request =>
      query db (OddsfoxExecution.replayIntent actorId key request db)
  | idempotentResponse actorId key operation body =>
    query db (OddsfoxExecution.idempotentResponse actorId key operation body db)
  | admitIntent actorId key request => OddsfoxExecution.admitIntent actorId key request now db
  | getIntent id => query db (match db.intent? id with | none => .error .notFound | some i => .ok i)
  | transitionIntent id expected next rejection =>
    OddsfoxExecution.transitionIntent id expected next rejection db
  | recordRiskDecision intentId approved code version =>
    OddsfoxExecution.recordRiskDecision intentId approved code version db
  | evaluateAndReserveRisk intentId request market book policy =>
    OddsfoxExecution.evaluateAndReserveRisk intentId request market book policy now db
  | createPreparedOrder intentId request prepared version feeRate =>
    OddsfoxExecution.createPreparedOrder intentId request prepared version feeRate now db
  | rejectPreparation intentId code message =>
    OddsfoxExecution.rejectPreparation intentId code message db
  | beginSubmission intentId orderId => OddsfoxExecution.beginSubmission intentId orderId db
  | finishSubmission intentId orderId intentState orderState venueOrderId cls filled price ids =>
    OddsfoxExecution.finishSubmission intentId orderId intentState orderState venueOrderId cls
      filled price ids now db
  | recoverInterruptedSubmissions => OddsfoxExecution.recoverInterruptedSubmissions db
  | recoverPreSubmissionWork => OddsfoxExecution.recoverPreSubmissionWork db
  | preparedSubmission intentId => query db (OddsfoxExecution.preparedSubmission intentId db)
  | unknownSubmissions => query db (.ok db.unknownSubmissions)
  | resolveUnknownSubmission unknown venueOrderId state remaining filled price ids =>
    OddsfoxExecution.resolveUnknownSubmission unknown venueOrderId state remaining filled price
      ids now db
  | transitionOrder id next venueOrderId =>
    OddsfoxExecution.transitionOrder id next venueOrderId db
  | cancelPreparedOrder orderId => OddsfoxExecution.cancelPreparedOrder orderId db
  | getOrder id => query db (OddsfoxExecution.getOrder id db)
  | knownOrders => query db (.ok db.knownOrders)
  | deterministicOrderIds => query db (.ok db.deterministicOrderIds)
  | reconcileOrderProjection orderId state remaining total price ids =>
    OddsfoxExecution.reconcileOrderProjection orderId state remaining total price ids now db
  | orderIdForVenueId venueOrderId => query db (.ok (db.orderIdForVenueId venueOrderId))
  | recordVenueTradeFinality orderId venueTradeId status =>
    OddsfoxExecution.recordVenueTradeFinality orderId venueTradeId status db
  | reconcileVenuePositions observed => OddsfoxExecution.reconcileVenuePositions observed db
  | serviceState => query db (.ok db.controlState)
  | setServiceState actor next reason idempotency expected =>
    OddsfoxExecution.setServiceState config.mode actor next reason idempotency expected db
  | createCancellation actor request idempotency =>
    OddsfoxExecution.createCancellation config.mode actor request idempotency now db
  | finishCancellation id failed => OddsfoxExecution.finishCancellation id failed db
  | pendingCancellations => query db (.ok db.pendingCancellations)
  | startReconciliation trigger idempotency =>
    OddsfoxExecution.startReconciliation config.mode trigger idempotency now db
  | failInterruptedReconciliations => OddsfoxExecution.failInterruptedReconciliations now db
  | finishReconciliation id findings => OddsfoxExecution.finishReconciliation id findings now db
  | failReconciliation id error => OddsfoxExecution.failReconciliation id error now db
  | getReconciliation id => query db (OddsfoxExecution.getReconciliation id db)
  | unresolvedCriticalFindings => query db (.ok db.unresolvedCriticalFindings)
  | latestSuccessfulReconciliation => query db (.ok db.latestSuccessfulReconciliation)
  | startBackup actor idempotency => OddsfoxExecution.startBackup config.mode actor idempotency db
  | completeBackup id lastSequence => OddsfoxExecution.completeBackup id lastSequence db
  | failBackup id => OddsfoxExecution.failBackup id db
  | failInterruptedBackups => OddsfoxExecution.failInterruptedBackups db
  | pruneEvents => OddsfoxExecution.pruneEvents config db
  | applyPaperTradeThrough trade =>
    OddsfoxExecution.applyPaperTradeThrough config.mode trade now db

/-- What an operation answers with. -/
abbrev Response (call : StoreCall) : Type := Except StoreError call.Value

def answer (config : StoreConfig) (now : Time) (call : StoreCall) (db : Db) : call.Response :=
  (call.run config now db).map Committed.value

/-- The database an operation leaves: a failed transaction leaves the one it found. -/
def after (config : StoreConfig) (now : Time) (call : StoreCall) (db : Db) : Db :=
  match call.run config now db with
  | .ok committed => committed.db
  | .error _ => db

theorem answer_ok {config : StoreConfig} {now : Time} {call : StoreCall} {db : Db}
    {value : call.Value} (h : Except.ok value = call.answer config now db) :
    ∃ r, call.run config now db = .ok r ∧ r.value = value ∧ call.after config now db = r.db := by
  unfold answer at h
  cases hrun : call.run config now db with
  | error e =>
    rw [hrun] at h
    cases h
  | ok r =>
    rw [hrun] at h
    exact ⟨r, rfl, (Except.ok.inj h).symm, by simp [after, hrun]⟩

theorem query_ok {α : Type} {db : Db} {result : Except StoreError α} {r : Committed α}
    (h : query db result = .ok r) : result = .ok r.value ∧ r.db = db := by
  cases result <;> cases h
  exact ⟨rfl, rfl⟩

end StoreCall

end OddsfoxExecution
