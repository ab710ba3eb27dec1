import OddsfoxExecution.Coordinator.Intents

/-!
# The tasks of a process

`startup`, `resume` and `shutdown`, the bodies of the background tasks that
`start` spawns, and the API handlers that mutate.  `Task.program` gives each
task the program it runs.
-/

namespace OddsfoxExecution

namespace Coordinator

variable (self : Coordinator)

/-! ## Startup -/

def enqueueRecovered (intentId : Uuid) : Action Unit := do
  let intent ← Action.store (.getIntent intentId)
  if intent.state = .received ∨ intent.state = .prepared then
    Action.perform (.enqueue intentId)
  else pure ()

/-- The loops over recoverable intents. -/
def enqueueAllRecovered : List Uuid → Action Unit
  | [] => pure ()
  | intentId :: rest => do
    enqueueRecovered intentId
    enqueueAllRecovered rest

/-- The request of the cancellation a latched halt sets off at startup. -/
def startupRequest : CancellationRequest :=
  { orderId := none, intentId := none, conditionId := none, allOpenOrders := true,
    reason := "startup_recovery_for_latched_halt" }

/-- The first control writes of `startup`; the result says whether a halt is latched. -/
def startupControl : Action Bool := do
  let control ← Action.store .serviceState
  if control.state = .shuttingDown then do
    setServiceState "system" .halted
      "previous shutdown did not reach its durable completion marker"
    pure true
  else if control.state = .halted then pure true
  else do
    setServiceState "system" .reconciling "startup reconciliation"
    pure false

/-- The loop over `pending_cancellations`. -/
def replayCancellations : List CancellationRecord → Action Unit
  | [] => pure ()
  | cancellation :: rest => do
    self.executeCancellation cancellation.id cancellation.targetOrderIds
    replayCancellations rest

/-- The recovery of interrupted work; the result are the recoverable intents. -/
def startupRecovery : Action (List Uuid) := do
  let _ ← Action.store .failInterruptedReconciliations
  let _ ← Action.store .failInterruptedBackups
  let interrupted : Nat ← Action.store .recoverInterruptedSubmissions
  if 0 < interrupted then
    setServiceState "system" .halted
      "interrupted submission requires positive venue reconciliation"
  let recoverable ← Action.store .recoverPreSubmissionWork
  let pending ← Action.store .pendingCancellations
  self.replayCancellations pending
  pure recoverable

/-- The reconciliation and the heartbeat of `startup`. -/
def startupReconciliation : Action Unit := do
  let _ ← self.reconcileInner "startup"
  if self.requiresHeartbeat = true then do
    match ← Action.attempt supervisedHeartbeat with
    | .ok () => pure ()
    | .error _ => self.haltInner "system" "startup heartbeat failed"

/-- The checks of `startup` that need the venue. -/
def startupChecks (latched : Bool) : Action Unit := do
  if latched = true ∧ self.policy.cancelOnHalt = true then do
    let _ ← self.cancelInner "system" startupRequest
  self.startupReconciliation

/-- The end of `startup`: READY, unless the service is halted. -/
def startupDecision (recoverable : List Uuid) : Action Unit := do
  let control ← Action.store .serviceState
  if control.state = .halted then Action.perform (.setDeferred recoverable)
  else do
    setServiceState "system" .ready "startup checks passed"
    enqueueAllRecovered recoverable

/-- `startup`, under the safety gate. -/
def startupInner : Action Unit := do
  let latched ← startupControl
  let recoverable ← self.startupRecovery
  self.startupChecks latched
  startupDecision recoverable

def startup : Action Unit := Action.withGate .safety self.startupInner

/-! ## Resume and shutdown -/

def resumeCommit (actor reason : String) (idempotency : Option Idempotency)
    (initialRevision : Nat) : Action Unit := do
  Action.store (.setServiceState actor .ready reason idempotency (some initialRevision))
  let recoverable ← Action.perform .takeDeferred
  enqueueAllRecovered recoverable

/-- The body of `resume` and `resume_idempotent`, under the safety gate. -/
def resumeInner (actor reason : String) (idempotency : Option Idempotency) : Action Unit :=
  if trimIsEmpty reason then throw (.invalid "reason is required")
  else do
    let control ← Action.store .serviceState
    if control.state ≠ .halted then
      throw (.invalid "resume requires the service to be halted")
    else do
      let _ ← self.reconcileInner "pre_resume"
      supervisedHeartbeat
      let unresolved : Nat ← Action.store .unresolvedCriticalFindings
      if 0 < unresolved then
        throw (.invalid "unresolved critical reconciliation finding prevents resume")
      else resumeCommit actor reason idempotency control.revision

/-- `resume_idempotent`; `resume` makes no idempotency record. -/
def resumeIdempotent (actor idempotencyKey reason : String) : Action Unit :=
  Action.withGate .safety (self.resumeInner actor reason
    (some ⟨idempotencyKey, "control.resume", .reason reason⟩))

def shutdownRequest : CancellationRequest :=
  { orderId := none, intentId := none, conditionId := none, allOpenOrders := true,
    reason := "graceful_shutdown" }

/-- `shutdown`; the server passes `policy.cancel_on_halt`. -/
def shutdown (cancelOnHalt : Bool) : Action Unit := do
  setServiceState "system" .shuttingDown "signal received"
  if cancelOnHalt = true then do
    let _ ← self.cancel "system" shutdownRequest
  let _ ← self.reconcile "shutdown"
  setServiceState "system" .halted "graceful shutdown completed; explicit resume is required"

/-! ## Background tasks -/

def heartbeatTick : Action Unit := do
  match ← Action.venue .heartbeat with
  | .ok () => do
    Action.perform .markHealthyHeartbeat
    let required : Bool ← Action.perform .reconciliationRequired
    if required = true then do
      let _ ← Action.attempt (self.reconcile "user_stream_event")
  | .error _ => do
    let _ ← Action.attempt (self.halt "system" "venue heartbeat failed")
    let _ ← Action.attempt (self.reconcile "heartbeat_failure")
  | .timeout => do
    let _ ← Action.attempt (self.halt "system" "venue heartbeat deadline exceeded")
    let _ ← Action.attempt (self.reconcile "heartbeat_timeout")

/-! ## API handlers -/

def validateReason (reason : String) : Bool :=
  ¬ trimIsEmpty reason ∧ reason.utf8ByteSize ≤ 512

/-- `replay_operation`, then the mutation when nothing is replayed. -/
def unlessReplayed (actorId key operation : String) (body : RequestBody)
    (mutation : Action Unit) : Action Unit := do
  let replay : Option (Nat × ResponseBody) ←
    Action.store (.idempotentResponse actorId key operation body)
  match replay with
  | some _ => pure ()
  | none => mutation

/-- The handler of a submission; the permit is dropped when no intent is created. -/
def handleSubmitIntent (actorId key : String) (request : OrderIntentRequest) : Action Unit := do
  let replay : Option IntentRecord ← Action.store (.replayIntent actorId key request)
  match replay with
  | some _ => pure ()
  | none => do
    let reserved : Bool ← Action.perform .reserveQueue
    if reserved = true then
      match ← Action.perform (.store (.admitIntent actorId key request)) with
      | .ok (.created record) => Action.perform (.sendPermit record.id)
      | .ok (.existing _) => Action.perform .dropPermit
      | .error e => do
        Action.perform .dropPermit
        throw (.store e)
    else throw .queueFull

/-- The handler of a cancellation: `admit_cancellation`, then `spawn_cancellation`. -/
def handleCancel (actorId key : String) (request : CancellationRequest) : Action Unit :=
  unlessReplayed actorId key "cancellation" (.cancellation request)
    (match request.validate with
      | .error e => throw (.invalid e.text)
      | .ok () => do
        let created ← Action.store (.createCancellation actorId request
          (some ⟨key, "cancellation", .cancellation request⟩))
        Action.perform (.spawn (.cancellation created.1 created.2)))

def handleHalt (actorId key reason : String) : Action Unit :=
  if validateReason reason = true then
    unlessReplayed actorId key "control.halt" (.reason reason)
      (self.haltIdempotent actorId key reason)
  else throw (.invalid "reason must contain 1 to 512 characters")

def handleResume (actorId key reason : String) : Action Unit :=
  if validateReason reason = true then
    unlessReplayed actorId key "control.resume" (.reason reason)
      (self.resumeIdempotent actorId key reason)
  else throw (.invalid "reason must contain 1 to 512 characters")

/-- The handler of a reconciliation: `admit_reconciliation`, then `spawn_reconciliation`. -/
def handleReconcile (actorId key : String) : Action Unit :=
  unlessReplayed actorId key "reconciliation" .empty do
    let id ← Action.store
      (.startReconciliation "operator" (some (actorId, ⟨key, "reconciliation", .empty⟩)))
    Action.perform (.spawn (.reconciliation id))

/-! ## Tasks -/

def action : Task → Action Unit
  | .main => do
    self.startup
    Action.perform .serve
  | .worker intentId => do
    let _ ← Action.attempt (self.processIntent intentId)
    Action.perform .awaitNext
  | .scheduledReconciliation => do
    let _ ← self.reconcile "scheduled"
  | .heartbeat => self.heartbeatTick
  | .shutdown => self.shutdown self.policy.cancelOnHalt
  | .submitIntent actorId key request => handleSubmitIntent actorId key request
  | .cancel actorId key request => handleCancel actorId key request
  | .halt actorId key reason => self.handleHalt actorId key reason
  | .resume actorId key reason => self.handleResume actorId key reason
  | .reconcile actorId key => handleReconcile actorId key
  | .cancellation id targets =>
    Action.withGate .cancellation
      (Action.withGate .orderLifecycle (self.executeCancellation id targets))
  | .reconciliation id => do
    let _ ← Action.withGate .safety (self.reconcileStarted id)
  | .protectiveCancellation reason => do
    let _ ← self.cancel "system" (protectiveRequest reason)
  | .operation call => do
    let _ ← Action.store call

/-- The program of a task; its error is only logged. -/
def program (task : Task) : Prog Call Call.Answer (Except CoordinatorError Unit) :=
  (self.action task).run

end Coordinator

end OddsfoxExecution
