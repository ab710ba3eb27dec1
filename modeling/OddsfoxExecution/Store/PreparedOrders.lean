import OddsfoxExecution.Store.OrderOps

/-!
# The journal of prepared orders

`create_prepared_order` adds one row with what the venue prepared; no other
operation writes the table.  None takes back an identifier it has drawn.
-/

namespace OddsfoxExecution

/-- The row holds what the venue prepared. -/
structure PreparedOrder.Journals (row : PreparedOrder) (prepared : PreparedVenueOrder) :
    Prop where
  normalized : prepared.normalizedJson.canonical = some row.normalizedJson
  signed : row.signedPayloadJson = prepared.signedPayloadJson
  orderId : row.deterministicOrderId = prepared.deterministicOrderId
  signer : row.signerAddress = prepared.signerAddress
  funder : row.funderAddress = prepared.funderAddress
  protocol : row.protocolVersion = prepared.protocolVersion
  sdk : row.sdkVersion = prepared.sdkVersion

theorem createPreparedOrder_row {db : Db} {intentId : Uuid} {request : OrderIntentRequest}
    {prepared : PreparedVenueOrder} {version : String} {feeRate : Decimal} {now : Time}
    {r : Committed OrderRecord}
    (h : createPreparedOrder intentId request prepared version feeRate now db = .ok r) :
    ∃ row, r.db.preparedOrders = db.preparedOrders ++ [row] ∧ row.intentId = intentId ∧
      row.Journals prepared := by
  unfold createPreparedOrder at h
  split at h
  · cases h
  · rename_i normalized hnormalized
    split at h
    · cases h
    · dsimp only at h
      split at h
      · cases h
      · split at h
        · cases h
        · split at h
          · cases h
          · split at h
            · cases h
            · cases h
              exact ⟨_, rfl, rfl, hnormalized, rfl, rfl, rfl, rfl, rfl, rfl⟩

/-- The prepared orders stay, and identifiers are only drawn. -/
structure Db.KeepsPrepared (db db' : Db) : Prop where
  prepared : db'.preparedOrders = db.preparedOrders
  drawn : db.nextUuid ≤ db'.nextUuid

theorem Db.KeepsPrepared.refl (db : Db) : db.KeepsPrepared db := ⟨rfl, le_rfl⟩

theorem Db.KeepsPrepared.trans {a b c : Db} (hab : a.KeepsPrepared b) (hbc : b.KeepsPrepared c) :
    a.KeepsPrepared c := ⟨hbc.prepared.trans hab.prepared, hab.drawn.trans hbc.drawn⟩

theorem KeepsPlans.prepared {db db' : Db} (h : KeepsPlans db db') : db.KeepsPrepared db' :=
  ⟨h.preparedOrders, h.drawn⟩

section Operations

variable {db : Db}

theorem concludeRisk_prepared {intentId : Uuid} {decision : RiskDecision}
    {events : List ExecutionEvent} {r : Committed RiskDecision}
    (h : concludeRisk intentId decision events db = .ok r) : db.KeepsPrepared r.db := by
  unfold concludeRisk at h
  dsimp only at h
  split at h
  · cases h
  · cases h
    exact ⟨rfl, le_rfl⟩

theorem reserveRisk_prepared {intentId : Uuid} {request : OrderIntentRequest}
    {market : MarketRules} {db' : Db} {event : ExecutionEvent}
    (h : reserveRisk intentId request market db = .ok (db', event)) : db.KeepsPrepared db' := by
  unfold reserveRisk at h
  split at h
  · cases h
  · split at h
    · cases h
    · split at h
      · cases h
      · split at h
        · cases h
        · cases h
          exact ⟨rfl, le_rfl⟩

theorem evaluateAndReserveRisk_prepared {intentId : Uuid} {request : OrderIntentRequest}
    {market : MarketRules} {book : OrderBook} {policy : RiskPolicy} {now : Time}
    {r : Committed RiskDecision}
    (h : evaluateAndReserveRisk intentId request market book policy now db = .ok r) :
    db.KeepsPrepared r.db := by
  unfold evaluateAndReserveRisk at h
  split at h
  · cases h
  · dsimp only at h
    split at h
    · cases h
    · split at h
      · split at h
        · cases h
        · rename_i hreserved
          have hrest := (reserveRisk_prepared hreserved).trans (concludeRisk_prepared h)
          exact ⟨hrest.prepared, (Nat.le_succ _).trans hrest.drawn⟩
      · have hrest := concludeRisk_prepared h
        exact ⟨hrest.prepared, (Nat.le_succ _).trans hrest.drawn⟩

theorem recoverIntents_prepared {rows : List IntentRecord} {events events' : List ExecutionEvent}
    {db' : Db} (h : recoverIntents rows db events = .ok (db', events')) :
    db.KeepsPrepared db' := by
  induction rows generalizing db events with
  | nil =>
    cases h
    exact .refl _
  | cons row rows ih =>
    unfold recoverIntents at h
    split at h
    · cases h
    · rename_i hrow
      refine .trans ?_ (ih h)
      unfold recoverIntent at hrow
      split at hrow
      · split at hrow
        · cases hrow
        · cases hrow
          exact .refl _
      · split at hrow
        · cases hrow
          exact .refl _
        · dsimp only at hrow
          split at hrow <;> cases hrow <;> exact ⟨rfl, le_rfl⟩

theorem recoverPreSubmissionWork_prepared {r : Committed (List Uuid)}
    (h : recoverPreSubmissionWork db = .ok r) : db.KeepsPrepared r.db := by
  unfold recoverPreSubmissionWork at h
  dsimp only at h
  split at h
  · cases h
  · rename_i hrows
    cases h
    exact recoverIntents_prepared hrows

theorem admitIntent_prepared {actorId key : String} {request : OrderIntentRequest} {now : Time}
    {r : Committed Admission} (h : admitIntent actorId key request now db = .ok r) :
    db.KeepsPrepared r.db := by
  unfold admitIntent at h
  split at h
  · split at h
    · cases h
    · split at h
      · cases h
      · split at h
        · cases h
          exact .refl db
        · cases h
  · split at h
    · cases h
    · dsimp only at h
      split at h
      · cases h
      · cases h
        exact ⟨rfl, Nat.le_succ _⟩

theorem transitionIntent_prepared {id : Uuid} {expected next : IntentState}
    {rejection : Option (String × String)} {r : Committed IntentRecord}
    (h : transitionIntent id expected next rejection db = .ok r) : db.KeepsPrepared r.db := by
  unfold transitionIntent at h
  dsimp only at h
  split at h
  · cases h
  · split at h
    · cases h
    · cases h
      exact ⟨rfl, le_rfl⟩

theorem rejectPreparation_prepared {intentId : Uuid} {code message : String} {r : Committed Unit}
    (h : rejectPreparation intentId code message db = .ok r) : db.KeepsPrepared r.db := by
  unfold rejectPreparation at h
  split at h
  · cases h
  · split at h
    · cases h
    · cases h
      exact ⟨rfl, le_rfl⟩

theorem applyPaperTradeThrough_prepared {mode : Mode} {trade : PaperTrade} {now : Time}
    {r : Committed Nat} (h : applyPaperTradeThrough mode trade now db = .ok r) :
    db.KeepsPrepared r.db := by
  unfold applyPaperTradeThrough at h
  split at h
  · cases h
  · split at h
    · cases h
    · dsimp only at h
      split at h
      · cases h
        exact .refl db
      · split at h
        · cases h
        · split at h
          · cases h
          · rename_i hloop
            cases h
            have hplans := applyTradeThrough_plans hloop
            exact ⟨hplans.preparedOrders, hplans.drawn⟩

end Operations

/-- The operation creates an order. -/
def StoreCall.creates : StoreCall → Bool
  | createPreparedOrder .. => true
  | _ => false

/-- No other operation writes the table of prepared orders. -/
theorem StoreCall.run_prepared {config : StoreConfig} {now : Time} {db : Db} {call : StoreCall}
    {r : Committed call.Value} (h : call.run config now db = .ok r)
    (hcall : call.creates = false) : db.KeepsPrepared r.db := by
  have hlifecycle : r.db.lifecycle = db.lifecycle → db.KeepsPrepared r.db := fun heq =>
    ⟨congrArg Lifecycle.preparedOrders heq, (congrArg Lifecycle.nextUuid heq).ge⟩
  cases htrades : call.trades with
  | false =>
    obtain ⟨_, _, _, _, _, _, _, _, _, _, hdrawn, hdb⟩ := call.run_keepsHouse h htrades
    rw [hdb]
    exact ⟨rfl, hdrawn⟩
  | true =>
    cases call with
    | createPreparedOrder => cases hcall
    | beginSubmission => exact (beginSubmission_keepsPlans h).2.prepared
    | finishSubmission => exact (finishSubmission_keepsPlans h).2.prepared
    | recoverInterruptedSubmissions =>
      cases h
      exact recoverInterruptedRows_keepsPlans.2.prepared
    | resolveUnknownSubmission => exact (resolveUnknownSubmission_keepsPlans h).2.prepared
    | transitionOrder => exact (transitionOrder_keepsPlans h).2.prepared
    | cancelPreparedOrder => exact (cancelPreparedOrder_keepsPlans h).2.prepared
    | reconcileOrderProjection => exact (reconcileOrderProjection_keepsPlans h).2.prepared
    | evaluateAndReserveRisk => exact evaluateAndReserveRisk_prepared h
    | admitIntent => exact admitIntent_prepared h
    | transitionIntent => exact transitionIntent_prepared h
    | rejectPreparation => exact rejectPreparation_prepared h
    | recoverPreSubmissionWork => exact recoverPreSubmissionWork_prepared h
    | recordVenueTradeFinality => exact hlifecycle (recordVenueTradeFinality_lifecycle h)
    | reconcileVenuePositions => exact hlifecycle (reconcileVenuePositions_lifecycle h)
    | applyPaperTradeThrough => exact applyPaperTradeThrough_prepared h
    | _ => cases htrades

theorem StoreCall.run_drawn {config : StoreConfig} {now : Time} {db : Db} {call : StoreCall}
    {r : Committed call.Value} (h : call.run config now db = .ok r) :
    db.nextUuid ≤ r.db.nextUuid := by
  cases hcreates : call.creates with
  | false => exact (call.run_prepared h hcreates).drawn
  | true =>
    cases call with
    | createPreparedOrder =>
      rw [(createPreparedOrder_opened h).drawn]
      exact Nat.le_add_right _ _
    | _ => cases hcreates

end OddsfoxExecution
