import OddsfoxExecution.Store.Run

/-!
# What operations leave alone

The operations on intents, orders, trades and positions leave the office
alone: the tables of control, of requests and of their records.  The control
row changes by `set_service_state` only, and the cancellation requests by
`create_cancellation` and `finish_cancellation` only.
-/

namespace OddsfoxExecution

def Db.desk (db : Db) : ControlState × List CancellationRecord :=
  (db.controlState, db.cancellationRequests)

/-- The tables no trading operation is about; an admission records its key among them, an observed
finality its status. -/
structure Office where
  controlState : ControlState
  cancellationRequests : List CancellationRecord
  reconciliationRuns : List ReconciliationRecord
  reconciliationFindings : List ReconciliationFinding
  backups : List BackupRow
  idempotencyKeys : List IdempotencyKey
  venueTradeFinality : List VenueTradeFinality

def Db.office (db : Db) : Office where
  controlState := db.controlState
  cancellationRequests := db.cancellationRequests
  reconciliationRuns := db.reconciliationRuns
  reconciliationFindings := db.reconciliationFindings
  backups := db.backups
  idempotencyKeys := db.idempotencyKeys
  venueTradeFinality := db.venueTradeFinality

theorem Db.desk_of_office {db db' : Db} (h : db'.office = db.office) : db'.desk = db.desk :=
  congrArg (fun o : Office => (o.controlState, o.cancellationRequests)) h

theorem Db.PaperFrame.office_eq {db db' : Db} (h : db.PaperFrame db') :
    db'.office = db.office := by
  obtain ⟨_, _, _, _, _, _, rfl⟩ := h
  rfl

theorem Db.PaperFrame.desk_eq {db db' : Db} (h : db.PaperFrame db') : db'.desk = db.desk :=
  Db.desk_of_office h.office_eq

section Operations

variable {db : Db}

theorem applyMatchedFill_office {order : OrderRecord} {venueOrderId : Option String}
    {filled : Decimal} {price : Option Decimal} {ids : List String} {now : Time} :
    (applyMatchedFill db order venueOrderId filled price ids now).1.office = db.office := by
  obtain ⟨_, _, _, _, _, -, hframe⟩ := applyMatchedFill_frame db order venueOrderId filled price
    ids now
  rw [hframe]
  rfl

/-! ## Before submission -/

theorem admitIntent_office {actorId key : String} {request : OrderIntentRequest} {now : Time}
    {r : Committed Admission} (h : admitIntent actorId key request now db = .ok r) :
    r.db.office = { db.office with idempotencyKeys := r.db.idempotencyKeys } := by
  unfold admitIntent at h
  split at h
  · split at h
    · cases h
    · split at h
      · cases h
      · split at h
        · cases h
          rfl
        · cases h
  · split at h
    · cases h
    · dsimp only at h
      split at h
      · cases h
      · cases h
        rfl

theorem transitionIntent_office {id : Uuid} {expected next : IntentState}
    {rejection : Option (String × String)} {r : Committed IntentRecord}
    (h : transitionIntent id expected next rejection db = .ok r) : r.db.office = db.office := by
  unfold transitionIntent at h
  dsimp only at h
  split at h
  · cases h
  · split at h
    · cases h
    · cases h
      rfl

theorem recordRiskDecision_office {intentId : Uuid} {approved : Bool} {code version : String}
    {r : Committed Unit} (h : recordRiskDecision intentId approved code version db = .ok r) :
    r.db.office = db.office := by
  unfold recordRiskDecision at h
  split at h
  · cases h
  · cases h
    rfl

theorem concludeRisk_office {intentId : Uuid} {decision : RiskDecision}
    {events : List ExecutionEvent} {r : Committed RiskDecision}
    (h : concludeRisk intentId decision events db = .ok r) : r.db.office = db.office := by
  unfold concludeRisk at h
  dsimp only at h
  split at h
  · cases h
  · cases h
    rfl

theorem reserveRisk_office {intentId : Uuid} {request : OrderIntentRequest} {market : MarketRules}
    {db' : Db} {event : ExecutionEvent}
    (h : reserveRisk intentId request market db = .ok (db', event)) : db'.office = db.office := by
  unfold reserveRisk at h
  split at h
  · cases h
  · split at h
    · cases h
    · split at h
      · cases h
      · split at h
        · cases h
        · cases h
          rfl

theorem evaluateAndReserveRisk_office {intentId : Uuid} {request : OrderIntentRequest}
    {market : MarketRules} {book : OrderBook} {policy : RiskPolicy} {now : Time}
    {r : Committed RiskDecision}
    (h : evaluateAndReserveRisk intentId request market book policy now db = .ok r) :
    r.db.office = db.office := by
  unfold evaluateAndReserveRisk at h
  split at h
  · cases h
  · dsimp only at h
    split at h
    · cases h
    · split at h
      · split at h
        · cases h
        · rename_i hreserve
          exact (concludeRisk_office h).trans ((reserveRisk_office hreserve).trans rfl)
      · exact (concludeRisk_office h).trans rfl

theorem createPreparedOrder_office {intentId : Uuid} {request : OrderIntentRequest}
    {prepared : PreparedVenueOrder} {version : String} {feeRate : Decimal} {now : Time}
    {r : Committed OrderRecord}
    (h : createPreparedOrder intentId request prepared version feeRate now db = .ok r) :
    r.db.office = db.office := by
  unfold createPreparedOrder at h
  split at h
  · cases h
  · split at h
    · cases h
    · dsimp only at h
      split at h
      · cases h
      · split at h
        · cases h
        · split at h
          · cases h
          · split at h
            · cases h
            · cases h
              rfl

theorem rejectPreparation_office {intentId : Uuid} {code message : String} {r : Committed Unit}
    (h : rejectPreparation intentId code message db = .ok r) : r.db.office = db.office := by
  unfold rejectPreparation at h
  split at h
  · cases h
  · split at h
    · cases h
    · cases h
      rfl

theorem recoverIntents_office {rows : List IntentRecord} {db' : Db}
    {events events' : List ExecutionEvent}
    (h : recoverIntents rows db events = .ok (db', events')) : db'.office = db.office := by
  induction rows generalizing db events with
  | nil =>
    cases h
    rfl
  | cons row rows ih =>
    have hone : ∀ {db db' : Db} {events events' : List ExecutionEvent},
        recoverIntent row db events = .ok (db', events') → db'.office = db.office := by
      intro db db' events events' h
      unfold recoverIntent at h
      split at h
      · split at h
        · cases h
        · cases h
          rfl
      · split at h
        · cases h
          rfl
        · dsimp only at h
          split at h <;> cases h <;> rfl
    simp only [recoverIntents] at h
    split at h
    · cases h
    · rename_i hrow
      exact (ih h).trans (hone hrow)

theorem recoverPreSubmissionWork_office {r : Committed (List Uuid)}
    (h : recoverPreSubmissionWork db = .ok r) : r.db.office = db.office := by
  unfold recoverPreSubmissionWork at h
  dsimp only at h
  split at h
  · cases h
  · rename_i hrows
    cases h
    exact recoverIntents_office hrows

/-! ## Orders -/

theorem beginSubmission_office {intentId orderId : Uuid} {r : Committed Unit}
    (h : beginSubmission intentId orderId db = .ok r) : r.db.office = db.office := by
  unfold beginSubmission at h
  split at h
  · cases h
  · split at h
    · cases h
    · split at h
      · cases h
      · cases h
        rfl

theorem finishSubmission_office {intentId orderId : Uuid} {intentState : IntentState}
    {orderState : OrderState} {venueOrderId : Option String} {cls : String} {filled : Decimal}
    {price : Option Decimal} {ids : List String} {now : Time} {r : Committed Unit}
    (h : finishSubmission intentId orderId intentState orderState venueOrderId cls filled price ids
      now db = .ok r) : r.db.office = db.office := by
  unfold finishSubmission at h
  split at h
  · cases h
  · split at h
    · cases h
    · dsimp only at h
      split at h
      · cases h
      · split at h
        · cases h
        · split at h
          · generalize hfill : applyMatchedFill _ _ _ _ _ _ _ = result at h
            cases h
            have hoffice := congrArg (fun fill => fill.1.office) hfill.symm
            exact hoffice.trans applyMatchedFill_office
          · cases h
            rfl

theorem recoverInterruptedRows_office {rows : List UnknownSubmission} :
    (recoverInterruptedRows rows db).1.office = db.office := by
  induction rows generalizing db with
  | nil => rfl
  | cons row rows ih => exact ih

theorem resolveUnknownSubmission_office {unknown : UnknownSubmission} {venueOrderId : String}
    {state : OrderState} {remaining filled : Decimal} {price : Option Decimal} {ids : List String}
    {now : Time} {r : Committed Unit}
    (h : resolveUnknownSubmission unknown venueOrderId state remaining filled price ids now db =
      .ok r) : r.db.office = db.office := by
  unfold resolveUnknownSubmission at h
  split at h
  · cases h
    rfl
  · split at h
    · cases h
    · split at h
      · cases h
      · split at h
        · cases h
        · dsimp only at h
          generalize hfill : applyMatchedFill _ _ _ _ _ _ _ = result at h
          cases h
          have hoffice := congrArg (fun fill => fill.1.office) hfill.symm
          exact hoffice.trans applyMatchedFill_office

theorem transitionOrder_office {id : Uuid} {next : OrderState} {venueOrderId : Option String}
    {r : Committed OrderRecord} (h : transitionOrder id next venueOrderId db = .ok r) :
    r.db.office = db.office := by
  unfold transitionOrder at h
  split at h
  · cases h
  · split at h
    · cases h
      rfl
    · split at h
      · cases h
      · cases h
        rfl

theorem cancelPreparedOrder_office {orderId : Uuid} {r : Committed OrderRecord}
    (h : cancelPreparedOrder orderId db = .ok r) : r.db.office = db.office := by
  unfold cancelPreparedOrder at h
  split at h
  · cases h
  · cases h
    rfl

theorem reconcileOrderProjection_office {orderId : Uuid} {state : OrderState}
    {remaining total : Decimal} {price : Option Decimal} {ids : List String} {now : Time}
    {r : Committed Unit}
    (h : reconcileOrderProjection orderId state remaining total price ids now db = .ok r) :
    r.db.office = db.office := by
  unfold reconcileOrderProjection at h
  split at h
  · cases h
  · split at h
    · cases h
    · split at h
      · cases h
      · dsimp only at h
        split at h
        · cases h
          rfl
        · generalize hfill : applyMatchedFill _ _ _ _ _ _ _ = result at h
          cases h
          have hoffice := congrArg (fun fill => fill.1.office) hfill.symm
          exact hoffice.trans applyMatchedFill_office

theorem recordVenueTradeFinality_office {orderId : Uuid} {venueTradeId : String}
    {status : TradeState} {r : Committed Bool}
    (h : recordVenueTradeFinality orderId venueTradeId status db = .ok r) :
    r.db.office = { db.office with venueTradeFinality := r.db.venueTradeFinality } := by
  unfold recordVenueTradeFinality at h
  dsimp only at h
  split at h
  · cases h
    rfl
  · split at h <;> cases h <;> rfl

theorem reconcileVenuePositions_office {observed : List ObservedVenuePosition} {r : Committed Unit}
    (h : reconcileVenuePositions observed db = .ok r) : r.db.office = db.office := by
  have hupsert : ∀ {current : List PositionRecord} {observed : List ObservedVenuePosition}
      {tokens tokens' : List String} {db db' : Db} {events events' : List ExecutionEvent},
      upsertVenuePositions current observed tokens db events = .ok (tokens', db', events') →
      db'.office = db.office := by
    intro current observed
    induction observed with
    | nil =>
      intro tokens tokens' db db' events events' h
      cases h
      rfl
    | cons observed rest ih =>
      intro tokens tokens' db db' events events' h
      simp only [upsertVenuePositions] at h
      split at h
      · cases h
      · split at h
        · cases h
        · split at h
          · exact ih h
          · exact (ih h).trans rfl
  have hzero : ∀ {tokens : List String} {current : List PositionRecord} {db : Db}
      {events : List ExecutionEvent},
      (zeroMissingPositions tokens current db events).1.office = db.office := by
    intro tokens current
    induction current with
    | nil => exact rfl
    | cons prior rest ih =>
      intro db events
      simp only [zeroMissingPositions]
      split
      · exact ih
      · exact ih.trans rfl
  unfold reconcileVenuePositions at h
  dsimp only at h
  split at h
  · cases h
  · rename_i hrows
    cases h
    exact hzero.trans (hupsert hrows)

/-! ## Paper fills -/

theorem fillRestingOrder_office {trade : PaperTrade} {now : Time} {row : PaperVenueOrder}
    {fill : Decimal} {balances balances' : PaperBalances} {db' : Db}
    {events : List ExecutionEvent}
    (h : fillRestingOrder trade now row fill balances db = .ok (balances', db', events)) :
    db'.office = db.office := by
  have hcore : ∀ {db : Db} {venueOrderId venueTradeId : String} {fill nextRemaining : Decimal}
      {state : OrderState},
      (fillCoreOrder trade venueOrderId venueTradeId fill nextRemaining state now db).1.office =
        db.office := by
    intro db venueOrderId venueTradeId fill nextRemaining state
    unfold fillCoreOrder
    split
    · rfl
    · split
      · exact applyMatchedFill_office
      · rfl
  unfold fillRestingOrder at h
  dsimp only at h
  split at h
  · cases h
  · cases h
    exact hcore

theorem applyTradeThrough_office {trade : PaperTrade} {now : Time} {rows : List PaperVenueOrder}
    {size : Decimal} {count count' : Nat} {balances balances' : PaperBalances} {db' : Db}
    {events events' : List ExecutionEvent}
    (h : applyTradeThrough trade now rows size count balances db events =
      .ok (count', balances', db', events')) : db'.office = db.office := by
  induction rows generalizing db size count balances events with
  | nil =>
    cases h
    rfl
  | cons row rows ih =>
    simp only [applyTradeThrough] at h
    split at h
    · cases h
      rfl
    · split at h
      · exact ih h
      · split at h
        · cases h
        · rename_i hfill
          exact (ih h).trans (fillRestingOrder_office hfill)

theorem applyPaperTradeThrough_office {mode : Mode} {trade : PaperTrade} {now : Time}
    {r : Committed Nat} (h : applyPaperTradeThrough mode trade now db = .ok r) :
    r.db.office = db.office := by
  unfold applyPaperTradeThrough at h
  split at h
  · cases h
  · split at h
    · cases h
    · dsimp only at h
      split at h
      · cases h
        rfl
      · split at h
        · cases h
        · split at h
          · cases h
          · rename_i hloop
            cases h
            exact (applyTradeThrough_office hloop).trans rfl

/-! ## Event retention -/

theorem pruneEvents_office {config : StoreConfig} {r : Committed Nat}
    (h : pruneEvents config db = .ok r) : r.db.office = db.office := by
  unfold pruneEvents at h
  dsimp only at h
  split at h
  · cases h
    rfl
  · split at h <;> cases h <;> rfl

/-! ## Runs and backups -/

theorem recordIdempotency_desk {actorId : String} {response : ResponseBody}
    {idempotency : Option Idempotency} {db' : Db}
    (h : recordIdempotency actorId response db idempotency = .ok db') : db'.desk = db.desk := by
  obtain ⟨_, rfl⟩ := recordIdempotency_frame h
  rfl

theorem startReconciliation_desk {mode : Mode} {trigger : String}
    {idempotency : Option (String × Idempotency)} {now : Time} {r : Committed Uuid}
    (h : startReconciliation mode trigger idempotency now db = .ok r) : r.db.desk = db.desk := by
  unfold startReconciliation at h
  dsimp only at h
  split at h
  · cases h
  · rename_i hrecord
    cases h
    exact (recordIdempotency_desk hrecord).trans rfl

theorem failInterruptedRuns_desk {now : Time} {ids : List Uuid} :
    (failInterruptedRuns now ids db).1.desk = db.desk := by
  induction ids generalizing db with
  | nil => rfl
  | cons id ids ih => exact ih

theorem insertFindings_desk {id : Uuid} {findings : List String} :
    (insertFindings id findings db).desk = db.desk := by
  induction findings generalizing db with
  | nil => rfl
  | cons finding findings ih => exact ih

theorem finishReconciliation_desk {id : Uuid} {findings : List String} {now : Time}
    {r : Committed Unit} (h : finishReconciliation id findings now db = .ok r) :
    r.db.desk = db.desk := by
  unfold finishReconciliation at h
  dsimp only at h
  split at h
  · cases h
    rfl
  · cases h
    exact insertFindings_desk

theorem startBackup_desk {mode : Mode} {actor : String} {idempotency : Option Idempotency}
    {r : Committed Uuid} (h : startBackup mode actor idempotency db = .ok r) :
    r.db.desk = db.desk := by
  unfold startBackup at h
  dsimp only at h
  split at h
  · cases h
  · rename_i hrecord
    cases h
    exact (recordIdempotency_desk hrecord).trans rfl

theorem failInterruptedBackupRows_desk {ids : List Uuid} :
    (failInterruptedBackupRows ids db).1.desk = db.desk := by
  induction ids generalizing db with
  | nil => rfl
  | cons id ids ih => exact ih

end Operations

/-! ## The operations that write the office -/

def StoreCall.writesOffice : StoreCall → Bool
  | admitIntent .. | recordVenueTradeFinality .. | setServiceState .. | createCancellation ..
  | finishCancellation .. | startReconciliation .. | failInterruptedReconciliations
  | finishReconciliation .. | failReconciliation .. | startBackup .. | completeBackup ..
  | failBackup .. | failInterruptedBackups => true
  | _ => false

/-- Every other operation leaves the office alone. -/
theorem StoreCall.run_office {config : StoreConfig} {now : Time} {db : Db} {call : StoreCall}
    {r : Committed call.Value} (h : call.run config now db = .ok r)
    (hcall : call.writesOffice = false) : r.db.office = db.office := by
  cases call with
  | admitIntent | recordVenueTradeFinality | setServiceState | createCancellation
  | finishCancellation | startReconciliation | failInterruptedReconciliations
  | finishReconciliation | failReconciliation | startBackup | completeBackup | failBackup
  | failInterruptedBackups => cases hcall
  | transitionIntent => exact transitionIntent_office h
  | recordRiskDecision => exact recordRiskDecision_office h
  | evaluateAndReserveRisk => exact evaluateAndReserveRisk_office h
  | createPreparedOrder => exact createPreparedOrder_office h
  | rejectPreparation => exact rejectPreparation_office h
  | beginSubmission => exact beginSubmission_office h
  | finishSubmission => exact finishSubmission_office h
  | recoverInterruptedSubmissions =>
    cases h
    exact recoverInterruptedRows_office
  | recoverPreSubmissionWork => exact recoverPreSubmissionWork_office h
  | resolveUnknownSubmission => exact resolveUnknownSubmission_office h
  | transitionOrder => exact transitionOrder_office h
  | cancelPreparedOrder => exact cancelPreparedOrder_office h
  | reconcileOrderProjection => exact reconcileOrderProjection_office h
  | reconcileVenuePositions => exact reconcileVenuePositions_office h
  | pruneEvents => exact pruneEvents_office h
  | applyPaperTradeThrough => exact applyPaperTradeThrough_office h
  | _ => rw [(StoreCall.query_ok h).2]

/-! ## The operations that write the desk -/

/-- The operations that write the control row or the cancellation requests. -/
def StoreCall.writesDesk : StoreCall → Bool
  | setServiceState .. | createCancellation .. | finishCancellation .. => true
  | _ => false

theorem StoreCall.run_desk {config : StoreConfig} {now : Time} {db : Db} {call : StoreCall}
    {r : Committed call.Value} (h : call.run config now db = .ok r)
    (hcall : call.writesDesk = false) : r.db.desk = db.desk := by
  cases hoffice : call.writesOffice with
  | false => exact Db.desk_of_office (call.run_office h hoffice)
  | true =>
    cases call with
    | setServiceState | createCancellation | finishCancellation => cases hcall
    | admitIntent =>
      exact congrArg (fun o : Office => (o.controlState, o.cancellationRequests))
        (admitIntent_office h)
    | recordVenueTradeFinality =>
      exact congrArg (fun o : Office => (o.controlState, o.cancellationRequests))
        (recordVenueTradeFinality_office h)
    | startReconciliation => exact startReconciliation_desk h
    | failInterruptedReconciliations =>
      cases h
      exact failInterruptedRuns_desk
    | finishReconciliation => exact finishReconciliation_desk h
    | failReconciliation | completeBackup | failBackup =>
      cases h
      rfl
    | startBackup => exact startBackup_desk h
    | failInterruptedBackups =>
      cases h
      exact failInterruptedBackupRows_desk
    | _ => cases hoffice

/-- What a committed control write makes of the control row. -/
structure ControlWritten (db db' : Db) (next : ServiceState) (reason : String)
    (expected : Option Nat) : Prop where
  control : db'.controlState = ⟨next, reason, db.controlState.revision + 1⟩
  expected : ∀ revision, expected = some revision →
    db.controlState.state = .halted ∧ db.controlState.revision = revision
  requests : db'.cancellationRequests = db.cancellationRequests

theorem setServiceState_ok {mode : Mode} {actor : String} {next : ServiceState} {reason : String}
    {idempotency : Option Idempotency} {expected : Option Nat} {db : Db} {r : Committed Unit}
    (h : setServiceState mode actor next reason idempotency expected db = .ok r) :
    ControlWritten db r.db next reason expected := by
  unfold setServiceState at h
  split at h
  · cases h
  · rename_i hexpected
    dsimp only at h
    split at h
    · cases h
    · rename_i hrecord
      cases h
      have hdesk := recordIdempotency_desk hrecord
      refine ⟨congrArg Prod.fst hdesk, ?_, congrArg Prod.snd hdesk⟩
      rintro revision rfl
      simpa [not_or] using hexpected

theorem createCancellation_control {mode : Mode} {actor : String} {request : CancellationRequest}
    {idempotency : Option Idempotency} {now : Time} {db : Db} {r : Committed (Uuid × List Uuid)}
    (h : createCancellation mode actor request idempotency now db = .ok r) :
    r.db.controlState = db.controlState := by
  unfold createCancellation at h
  dsimp only at h
  split at h
  · cases h
  · rename_i hrecord
    cases h
    exact congrArg Prod.fst ((recordIdempotency_desk hrecord).trans rfl)

theorem finishCancellation_control {id : Uuid} {failed : List Uuid} {db : Db}
    {r : Committed CancellationRecord} (h : finishCancellation id failed db = .ok r) :
    r.db.controlState = db.controlState := by
  unfold finishCancellation at h
  split at h
  · cases h
  · dsimp only at h
    split at h
    · cases h
    · cases h
      rfl

/-- The control row changes by control writes only. -/
theorem StoreCall.after_control {config : StoreConfig} {now : Time} {db : Db} {call : StoreCall}
    (hcall : ∀ actor next reason idempotency expected,
      call ≠ .setServiceState actor next reason idempotency expected) :
    (call.after config now db).controlState = db.controlState := by
  unfold StoreCall.after
  cases hrun : call.run config now db with
  | error => rfl
  | ok r =>
    cases hdesk : call.writesDesk with
    | false => exact congrArg Prod.fst (call.run_desk hrun hdesk)
    | true =>
      cases call with
      | setServiceState => exact absurd rfl (hcall _ _ _ _ _)
      | createCancellation => exact createCancellation_control hrun
      | finishCancellation => exact finishCancellation_control hrun
      | _ => cases hdesk

end OddsfoxExecution
