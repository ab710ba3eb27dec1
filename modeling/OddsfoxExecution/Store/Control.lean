import OddsfoxExecution.Store.Orders

/-!
# Control state, cancellations and reconciliation runs

The single control row and its revision, the durable requests an operator or
the executor itself makes (cancellations, reconciliations, backups), and the
idempotency records that accompany them.
-/

namespace OddsfoxExecution

/-! ## Idempotency records -/

/-- What a mutation made under an idempotency key records with its effect. -/
structure Idempotency where
  key : String
  operation : String
  requestBody : RequestBody
deriving DecidableEq

def insertIdempotencyRecord (actorId : String) (idempotency : Idempotency)
    (response : ResponseBody) (db : Db) : Except StoreError Db :=
  let row : IdempotencyKey :=
    { actorId, idempotencyKey := idempotency.key
      requestHash := .operation idempotency.operation idempotency.requestBody
      resourceType := idempotency.operation, responseStatus := 202, response }
  match Table.insertNew (fun k : IdempotencyKey => (k.actorId, k.idempotencyKey)) row
      db.idempotencyKeys with
  | none => .error .idempotencyConflict
  | some idempotencyKeys => .ok { db with idempotencyKeys }

/-- The record of a mutation that may carry an idempotency key. -/
def recordIdempotency (actorId : String) (response : ResponseBody) (db : Db) :
    Option Idempotency → Except StoreError Db
  | none => .ok db
  | some idempotency => insertIdempotencyRecord actorId idempotency response db

def replayIntent (actorId idempotencyKey : String) (request : OrderIntentRequest) (db : Db) :
    Except StoreError (Option IntentRecord) :=
  match db.idempotencyKeys.find? fun k => k.actorId = actorId ∧
      k.idempotencyKey = idempotencyKey ∧ k.resourceType = "intent" with
  | none => .ok none
  | some existing =>
    if existing.requestHash ≠ .intent request then .error .idempotencyConflict
    else
      match existing.response with
      | .intent record => .ok (some record)
      | _ => .error (.serialization "stored response is not an intent")

/-- `idempotent_response`: the stored status and body. -/
def idempotentResponse (actorId idempotencyKey operation : String) (body : RequestBody) (db : Db) :
    Except StoreError (Option (Nat × ResponseBody)) :=
  match db.idempotencyKeys.find? fun k => k.actorId = actorId ∧
      k.idempotencyKey = idempotencyKey with
  | none => .ok none
  | some row =>
    if row.requestHash ≠ .operation operation body ∨ row.resourceType ≠ operation then
      .error .idempotencyConflict
    else .ok (some (row.responseStatus, row.response))

/-! ## The control row -/

/-- `set_service_state_inner`. -/
def setServiceState (mode : Mode) (actor : String) (next : ServiceState) (reason : String)
    (idempotency : Option Idempotency) (expectedRevision : Option Nat) (db : Db) : Tx Unit :=
  if expectedRevision.any fun expected =>
      db.controlState.state ≠ .halted ∨ db.controlState.revision ≠ expected then
    .error (.identityMismatch "control state changed while resume checks were running")
  else
    let actionId := db.nextUuid
    let db : Db := { db with
      controlState := { state := next, reason, revision := db.controlState.revision + 1 }
      nextUuid := db.nextUuid + 2 }
    match recordIdempotency actor (.control next mode) db idempotency with
    | .error e => .error e
    | .ok db =>
      let (db, event) :=
        db.appendEvent "control.state_changed" "operator_action" (.uuid actionId)
      .ok ⟨(), db, [event]⟩

/-! ## Cancellation requests -/

/-- The orders a selector names: `create_cancellation` takes an order identifier as it is and
looks the other selectors up among the non-terminal orders. -/
def cancellationTargets (request : CancellationRequest) (db : Db) : List Uuid :=
  match request.orderId, request.intentId, request.conditionId with
  | some orderId, _, _ => [orderId]
  | none, some intentId, _ =>
    (db.orders.filter fun o => o.intentId = intentId ∧ ¬ o.state.terminal).map OrderRecord.id
  | none, none, some conditionId =>
    (db.orders.filter fun o => o.conditionId = conditionId ∧
      ¬ o.state.terminal).map OrderRecord.id
  | none, none, none => (db.orders.filter fun o => ¬ o.state.terminal).map OrderRecord.id

/-- `create_cancellation_inner`. -/
def createCancellation (mode : Mode) (actor : String) (request : CancellationRequest)
    (idempotency : Option Idempotency) (now : Time) (db : Db) : Tx (Uuid × List Uuid) :=
  let targets := cancellationTargets request db
  let id := db.nextUuid
  let row : CancellationRecord :=
    { id, actorId := actor, selector := request, targetOrderIds := targets, state := .pending
      createdAt := now }
  let db : Db := { db with
    cancellationRequests := db.cancellationRequests ++ [row], nextUuid := db.nextUuid + 1 }
  match recordIdempotency actor (.cancellation id targets mode) db idempotency with
  | .error e => .error e
  | .ok db =>
    let (db, event) := db.appendEvent "cancellation.pending" "cancellation" (.uuid id)
    .ok ⟨(id, targets), db, [event]⟩

/-- `id = ? AND state = 'PENDING'` on `cancellation_requests`. -/
def CancellationRecord.PendingAt (id : Uuid) (c : CancellationRecord) : Prop :=
  c.id = id ∧ c.state = .pending

instance (id : Uuid) : DecidablePred (CancellationRecord.PendingAt id) :=
  fun c => inferInstanceAs (Decidable (c.id = id ∧ c.state = .pending))

/-- The state `finish_cancellation` records. -/
def cancellationOutcome (failedOrderIds : List Uuid) : CancellationState :=
  if failedOrderIds.isEmpty then .complete else .reconciliationRequired

def finishCancellation (id : Uuid) (failedOrderIds : List Uuid) (db : Db) :
    Tx CancellationRecord :=
  if Table.rowsAffected (CancellationRecord.PendingAt id) db.cancellationRequests ≠ 1 then
    .error .notFound
  else
    let db : Db := { db with
      cancellationRequests := Table.updateWhere (CancellationRecord.PendingAt id)
        (fun c => { c with state := cancellationOutcome failedOrderIds })
        db.cancellationRequests }
    match db.cancellationRequests.find? fun c => c.id = id with
    | none => .error .notFound
    | some record =>
      let (db, event) := db.appendEvent "cancellation.completed" "cancellation" (.uuid id)
      .ok ⟨record, db, [event]⟩

def Db.pendingCancellations (db : Db) : List CancellationRecord :=
  (db.cancellationRequests.filter fun c => c.state = .pending).insertionSort
    fun a b => createdBefore (a.createdAt, a.id) (b.createdAt, b.id)

/-! ## Reconciliation runs -/

/-- `start_reconciliation_inner`; the idempotent form names the actor. -/
def startReconciliation (mode : Mode) (trigger : String)
    (idempotency : Option (String × Idempotency)) (now : Time) (db : Db) : Tx Uuid :=
  let id := db.nextUuid
  let row : ReconciliationRecord :=
    { id, trigger, state := .running, startedAt := now, completedAt := none }
  let db : Db := { db with
    reconciliationRuns := db.reconciliationRuns ++ [row], nextUuid := db.nextUuid + 1 }
  match recordIdempotency (idempotency.elim "" Prod.fst) (.reconciliation id mode) db
      (idempotency.map Prod.snd) with
  | .error e => .error e
  | .ok db =>
    let (db, event) := db.appendEvent "reconciliation.started" "reconciliation" (.uuid id)
    .ok ⟨id, db, [event]⟩

def Db.insertFinding (db : Db) (reconciliationId : Uuid) (code message : String) : Db :=
  { db with
    reconciliationFindings := db.reconciliationFindings ++
      [{ id := db.nextUuid, reconciliationId, code, message, resolvedAt := none }]
    nextUuid := db.nextUuid + 1 }

/-- `UPDATE reconciliation_runs SET state = ?, completed_at = ? WHERE id = ?`. -/
def Db.closeRun (db : Db) (id : Uuid) (state : ReconciliationState) (now : Time) : Db :=
  { db with
    reconciliationRuns := Table.updateWhere (fun r : ReconciliationRecord => r.id = id)
      (fun r => { r with state, completedAt := some now }) db.reconciliationRuns }

/-- The loop of `fail_interrupted_reconciliations`. -/
def failInterruptedRuns (now : Time) : List Uuid → Db → Db × List ExecutionEvent
  | [], db => (db, [])
  | id :: ids, db =>
    let db := (db.closeRun id .failed now).insertFinding id "RECONCILIATION_INTERRUPTED"
      "executor restarted before reconciliation completed"
    let (db, event) := db.appendEvent "reconciliation.failed" "reconciliation" (.uuid id)
    let (db, rest) := failInterruptedRuns now ids db
    (db, event :: rest)

def failInterruptedReconciliations (now : Time) (db : Db) : Tx Nat :=
  let rows := ((db.reconciliationRuns.filter fun r => r.state = .running).insertionSort
    fun a b => createdBefore (a.startedAt, a.id) (b.startedAt, b.id)).map ReconciliationRecord.id
  let (db, events) := failInterruptedRuns now rows db
  .ok ⟨rows.length, db, events⟩

def insertFindings (id : Uuid) : List String → Db → Db
  | [], db => db
  | finding :: findings, db =>
    insertFindings id findings (db.insertFinding id "RECONCILIATION_MISMATCH" finding)

/-- `finish_reconciliation`: a run without findings resolves every open one. -/
def finishReconciliation (id : Uuid) (criticalFindings : List String) (now : Time) (db : Db) :
    Tx Unit :=
  let db := db.closeRun id .complete now
  let db : Db :=
    if criticalFindings.isEmpty then
      { db with
        reconciliationFindings := Table.updateWhere
          (fun f : ReconciliationFinding => f.resolvedAt = none)
          (fun f => { f with resolvedAt := some now }) db.reconciliationFindings }
    else insertFindings id criticalFindings db
  let (db, event) := db.appendEvent "reconciliation.completed" "reconciliation" (.uuid id)
  .ok ⟨(), db, [event]⟩

def failReconciliation (id : Uuid) (error : String) (now : Time) (db : Db) : Tx Unit :=
  let db := (db.closeRun id .failed now).insertFinding id "RECONCILIATION_FAILED" error
  let (db, event) := db.appendEvent "reconciliation.failed" "reconciliation" (.uuid id)
  .ok ⟨(), db, [event]⟩

def getReconciliation (id : Uuid) (db : Db) : Except StoreError ReconciliationRecord :=
  match db.reconciliationRuns.find? fun r => r.id = id with
  | none => .error .notFound
  | some record => .ok record

def Db.unresolvedCriticalFindings (db : Db) : Nat :=
  Table.rowsAffected (fun f : ReconciliationFinding => f.resolvedAt = none)
    db.reconciliationFindings

def Db.latestSuccessfulReconciliation (db : Db) : Option Time :=
  ((db.reconciliationRuns.filter fun r => r.state = .complete).filterMap
    ReconciliationRecord.completedAt).max?

/-! ## Backups and event retention -/

/-- `start_backup_inner`. -/
def startBackup (mode : Mode) (actor : String) (idempotency : Option Idempotency) (db : Db) :
    Tx Uuid :=
  let id := db.nextUuid
  let db : Db := { db with
    backups := db.backups ++ [{ id, state := .running, lastEventSequence := none }]
    nextUuid := db.nextUuid + 1 }
  match recordIdempotency actor (.backup id mode) db idempotency with
  | .error e => .error e
  | .ok db =>
    let (db, event) := db.appendEvent "backup.started" "backup" (.uuid id)
    .ok ⟨id, db, [event]⟩

/-- `SELECT COALESCE(MAX(sequence), 0) FROM execution_events`. -/
def Db.lastSequence (db : Db) : Nat :=
  ((db.executionEvents.map ExecutionEvent.sequence).max?).getD 0

/-- The transaction that ends `create_backup_files`. -/
def completeBackup (id : Uuid) (lastSequence : Nat) (db : Db) : Tx Unit :=
  let db : Db := { db with
    backups := Table.updateWhere (fun b : BackupRow => b.id = id)
      (fun b => { b with state := .complete, lastEventSequence := some lastSequence })
      db.backups }
  let (db, event) := db.appendEvent "backup.completed" "backup" (.uuid id)
  .ok ⟨(), db, [event]⟩

/-- The transaction `run_backup` makes when the files cannot be written. -/
def failBackup (id : Uuid) (db : Db) : Tx Unit :=
  let db : Db := { db with
    backups := Table.updateWhere (fun b : BackupRow => b.id = id)
      (fun b => { b with state := .failed }) db.backups }
  let (db, event) := db.appendEvent "backup.failed" "backup" (.uuid id)
  .ok ⟨(), db, [event]⟩

/-- The loop of `fail_interrupted_backups`. -/
def failInterruptedBackupRows : List Uuid → Db → Db × List ExecutionEvent
  | [], db => (db, [])
  | id :: ids, db =>
    let db : Db := { db with
      backups := Table.updateWhere (fun b : BackupRow => b.id = id ∧ b.state = .running)
        (fun b => { b with state := .failed }) db.backups }
    let (db, event) := db.appendEvent "backup.failed" "backup" (.uuid id)
    let (db, rest) := failInterruptedBackupRows ids db
    (db, event :: rest)

/-- `fail_interrupted_backups`; rows are inserted in the order of their creation. -/
def failInterruptedBackups (db : Db) : Tx Nat :=
  let ids := (db.backups.filter fun b => b.state = .running).map BackupRow.id
  let (db, events) := failInterruptedBackupRows ids db
  .ok ⟨ids.length, db, events⟩

def pruneEvents (config : StoreConfig) (db : Db) : Tx Nat :=
  let cutoff := db.lastSequence - config.eventRetention
  let backedUpThrough := ((db.backups.filter fun b => b.state = .complete).filterMap
    BackupRow.lastEventSequence).max?.getD 0
  if cutoff = 0 then .ok ⟨0, db, []⟩
  else if config.mode = .live ∧ backedUpThrough < cutoff then .ok ⟨0, db, []⟩
  else
    let kept := db.executionEvents.filter fun e => cutoff < e.sequence
    .ok ⟨db.executionEvents.length - kept.length, { db with executionEvents := kept }, []⟩

end OddsfoxExecution
