import OddsfoxExecution.Store.Calls

/-!
# The operations that keep house

Decisions, control writes, cancellation requests, reconciliation runs, backups
and reads write their own tables, the idempotency keys and the event log.  What
is traded they leave alone.
-/

namespace OddsfoxExecution

/-- `db'` differs from `db` in the housekeeping tables, and may have drawn identifiers. -/
def Db.KeepsHouse (db db' : Db) : Prop :=
  ∃ idempotencyKeys riskDecisions cancellationRequests reconciliationRuns reconciliationFindings
      controlState backups executionEvents nextSequence nextUuid, db.nextUuid ≤ nextUuid ∧
    db' = { db with
      idempotencyKeys, riskDecisions, cancellationRequests, reconciliationRuns,
      reconciliationFindings, controlState, backups, executionEvents, nextSequence, nextUuid }

namespace Db.KeepsHouse

theorem refl (db : Db) : db.KeepsHouse db := ⟨_, _, _, _, _, _, _, _, _, _, le_rfl, rfl⟩

theorem trans {a b c : Db} (hab : a.KeepsHouse b) (hbc : b.KeepsHouse c) : a.KeepsHouse c := by
  obtain ⟨_, _, _, _, _, _, _, _, _, _, hle, rfl⟩ := hab
  obtain ⟨_, _, _, _, _, _, _, _, _, _, hle', rfl⟩ := hbc
  exact ⟨_, _, _, _, _, _, _, _, _, _, le_trans hle hle', rfl⟩

end Db.KeepsHouse

section Operations

variable {db : Db}

theorem recordIdempotency_frame {actorId : String} {response : ResponseBody}
    {idempotency : Option Idempotency} {db' : Db}
    (h : recordIdempotency actorId response db idempotency = .ok db') :
    ∃ idempotencyKeys, db' = { db with idempotencyKeys } := by
  cases idempotency with
  | none =>
    cases h
    exact ⟨_, rfl⟩
  | some idempotency =>
    simp only [recordIdempotency, insertIdempotencyRecord] at h
    split at h <;> cases h
    exact ⟨_, rfl⟩

theorem recordIdempotency_keepsHouse {actorId : String} {response : ResponseBody}
    {idempotency : Option Idempotency} {db' : Db}
    (h : recordIdempotency actorId response db idempotency = .ok db') : db.KeepsHouse db' := by
  obtain ⟨_, rfl⟩ := recordIdempotency_frame h
  exact ⟨_, _, _, _, _, _, _, _, _, _, le_rfl, rfl⟩

theorem recordRiskDecision_keepsHouse {intentId : Uuid} {approved : Bool} {code version : String}
    {r : Committed Unit} (h : recordRiskDecision intentId approved code version db = .ok r) :
    db.KeepsHouse r.db := by
  unfold recordRiskDecision at h
  split at h <;> cases h
  exact ⟨_, _, _, _, _, _, _, _, _, _, Nat.le_succ _, rfl⟩

theorem setServiceState_keepsHouse {mode : Mode} {actor : String} {next : ServiceState}
    {reason : String} {idempotency : Option Idempotency} {expected : Option Nat}
    {r : Committed Unit}
    (h : setServiceState mode actor next reason idempotency expected db = .ok r) :
    db.KeepsHouse r.db := by
  unfold setServiceState at h
  split at h
  · cases h
  · dsimp only at h
    split at h
    · cases h
    · rename_i hrecord
      cases h
      refine .trans ?_ (.trans (recordIdempotency_keepsHouse hrecord) ?_)
      · exact ⟨_, _, _, _, _, _, _, _, _, _, Nat.le_add_right _ 2, rfl⟩
      · exact ⟨_, _, _, _, _, _, _, _, _, _, le_rfl, rfl⟩

theorem createCancellation_keepsHouse {mode : Mode} {actor : String}
    {request : CancellationRequest} {idempotency : Option Idempotency} {now : Time}
    {r : Committed (Uuid × List Uuid)}
    (h : createCancellation mode actor request idempotency now db = .ok r) :
    db.KeepsHouse r.db := by
  unfold createCancellation at h
  dsimp only at h
  split at h
  · cases h
  · rename_i hrecord
    cases h
    refine .trans ?_ (.trans (recordIdempotency_keepsHouse hrecord) ?_)
    · exact ⟨_, _, _, _, _, _, _, _, _, _, Nat.le_succ _, rfl⟩
    · exact ⟨_, _, _, _, _, _, _, _, _, _, le_rfl, rfl⟩

theorem finishCancellation_keepsHouse {id : Uuid} {failed : List Uuid}
    {r : Committed CancellationRecord} (h : finishCancellation id failed db = .ok r) :
    db.KeepsHouse r.db := by
  unfold finishCancellation at h
  split at h
  · cases h
  · dsimp only at h
    split at h <;> cases h
    exact ⟨_, _, _, _, _, _, _, _, _, _, le_rfl, rfl⟩

theorem startReconciliation_keepsHouse {mode : Mode} {trigger : String}
    {idempotency : Option (String × Idempotency)} {now : Time} {r : Committed Uuid}
    (h : startReconciliation mode trigger idempotency now db = .ok r) : db.KeepsHouse r.db := by
  unfold startReconciliation at h
  dsimp only at h
  split at h
  · cases h
  · rename_i hrecord
    cases h
    refine .trans ?_ (.trans (recordIdempotency_keepsHouse hrecord) ?_)
    · exact ⟨_, _, _, _, _, _, _, _, _, _, Nat.le_succ _, rfl⟩
    · exact ⟨_, _, _, _, _, _, _, _, _, _, le_rfl, rfl⟩

theorem failInterruptedRuns_keepsHouse {now : Time} {ids : List Uuid} :
    db.KeepsHouse (failInterruptedRuns now ids db).1 := by
  induction ids generalizing db with
  | nil => exact .refl db
  | cons id ids ih =>
    refine .trans ?_ ih
    exact ⟨_, _, _, _, _, _, _, _, _, _, Nat.le_succ _, rfl⟩

theorem insertFindings_keepsHouse {id : Uuid} {findings : List String} :
    db.KeepsHouse (insertFindings id findings db) := by
  induction findings generalizing db with
  | nil => exact .refl db
  | cons finding findings ih =>
    refine .trans ?_ ih
    exact ⟨_, _, _, _, _, _, _, _, _, _, Nat.le_succ _, rfl⟩

theorem finishReconciliation_keepsHouse {id : Uuid} {findings : List String} {now : Time}
    {r : Committed Unit} (h : finishReconciliation id findings now db = .ok r) :
    db.KeepsHouse r.db := by
  have hclosed : db.KeepsHouse (db.closeRun id .complete now) :=
    ⟨_, _, _, _, _, _, _, _, _, _, le_rfl, rfl⟩
  unfold finishReconciliation at h
  dsimp only at h
  split at h
  · cases h
    exact ⟨_, _, _, _, _, _, _, _, _, _, le_rfl, rfl⟩
  · cases h
    refine (hclosed.trans (@insertFindings_keepsHouse _ id findings)).trans ?_
    exact ⟨_, _, _, _, _, _, _, _, _, _, le_rfl, rfl⟩

theorem startBackup_keepsHouse {mode : Mode} {actor : String} {idempotency : Option Idempotency}
    {r : Committed Uuid} (h : startBackup mode actor idempotency db = .ok r) :
    db.KeepsHouse r.db := by
  unfold startBackup at h
  dsimp only at h
  split at h
  · cases h
  · rename_i hrecord
    cases h
    refine .trans ?_ (.trans (recordIdempotency_keepsHouse hrecord) ?_)
    · exact ⟨_, _, _, _, _, _, _, _, _, _, Nat.le_succ _, rfl⟩
    · exact ⟨_, _, _, _, _, _, _, _, _, _, le_rfl, rfl⟩

theorem failInterruptedBackupRows_keepsHouse {ids : List Uuid} :
    db.KeepsHouse (failInterruptedBackupRows ids db).1 := by
  induction ids generalizing db with
  | nil => exact .refl db
  | cons id ids ih =>
    refine .trans ?_ ih
    exact ⟨_, _, _, _, _, _, _, _, _, _, le_rfl, rfl⟩

theorem pruneEvents_keepsHouse {config : StoreConfig} {r : Committed Nat}
    (h : pruneEvents config db = .ok r) : db.KeepsHouse r.db := by
  unfold pruneEvents at h
  dsimp only at h
  split at h
  · cases h
    exact .refl db
  · split at h <;> cases h
    · exact .refl db
    · exact ⟨_, _, _, _, _, _, _, _, _, _, le_rfl, rfl⟩

end Operations

/-- The operations on intents, orders, trades and positions. -/
def StoreCall.trades : StoreCall → Bool
  | admitIntent .. | transitionIntent .. | evaluateAndReserveRisk .. | createPreparedOrder ..
  | rejectPreparation .. | recoverPreSubmissionWork | beginSubmission .. | finishSubmission ..
  | recoverInterruptedSubmissions | resolveUnknownSubmission .. | transitionOrder ..
  | cancelPreparedOrder .. | reconcileOrderProjection .. | recordVenueTradeFinality ..
  | reconcileVenuePositions .. | applyPaperTradeThrough .. => true
  | _ => false

/-- Every other operation keeps house. -/
theorem StoreCall.run_keepsHouse {config : StoreConfig} {now : Time} {db : Db} {call : StoreCall}
    {r : Committed call.Value} (h : call.run config now db = .ok r)
    (hcall : call.trades = false) : db.KeepsHouse r.db := by
  cases call with
  | recordRiskDecision => exact recordRiskDecision_keepsHouse h
  | setServiceState => exact setServiceState_keepsHouse h
  | createCancellation => exact createCancellation_keepsHouse h
  | finishCancellation => exact finishCancellation_keepsHouse h
  | startReconciliation => exact startReconciliation_keepsHouse h
  | failInterruptedReconciliations =>
    cases h
    exact failInterruptedRuns_keepsHouse
  | finishReconciliation => exact finishReconciliation_keepsHouse h
  | failReconciliation =>
    cases h
    exact ⟨_, _, _, _, _, _, _, _, _, _, Nat.le_succ _, rfl⟩
  | startBackup => exact startBackup_keepsHouse h
  | completeBackup | failBackup =>
    cases h
    exact ⟨_, _, _, _, _, _, _, _, _, _, le_rfl, rfl⟩
  | failInterruptedBackups =>
    cases h
    exact failInterruptedBackupRows_keepsHouse
  | pruneEvents => exact pruneEvents_keepsHouse h
  | admitIntent | transitionIntent | evaluateAndReserveRisk | createPreparedOrder
  | rejectPreparation | recoverPreSubmissionWork | beginSubmission | finishSubmission
  | recoverInterruptedSubmissions | resolveUnknownSubmission | transitionOrder
  | cancelPreparedOrder | reconcileOrderProjection | recordVenueTradeFinality
  | reconcileVenuePositions | applyPaperTradeThrough => cases hcall
  | _ =>
    rw [(StoreCall.query_ok h).2]
    exact .refl db

end OddsfoxExecution
