import OddsfoxExecution.Store.Decisions
import OddsfoxExecution.Store.Frames

/-!
# The terms of an intent

Who asked for an intent, under which key and for what never changes: the
operations update the state of a row and what explains it, and an admission is
the one operation that adds a row.
-/

namespace OddsfoxExecution

/-- The columns of an intent that no operation updates. -/
def IntentRecord.terms (i : IntentRecord) :
    Uuid × String × String × RequestHash × OrderIntentRequest :=
  (i.id, i.actorId, i.idempotencyKey, i.requestHash, i.request)

def Db.terms (db : Db) : List (Uuid × String × String × RequestHash × OrderIntentRequest) :=
  db.intents.map IntentRecord.terms

theorem Db.terms_of_intents {db db' : Db} (h : db'.intents = db.intents) : db'.terms = db.terms :=
  congrArg (List.map IntentRecord.terms) h

/-- Databases with the same terms hold the same intents, in whatever state. -/
theorem Db.exists_of_terms {db db' : Db} (h : db'.terms = db.terms) {i : IntentRecord}
    (hi : i ∈ db'.intents) : ∃ i₀ ∈ db.intents, i₀.id = i.id ∧ i₀.actorId = i.actorId ∧
      i₀.idempotencyKey = i.idempotencyKey ∧ i₀.requestHash = i.requestHash ∧
      i₀.request = i.request := by
  have hmem : i.terms ∈ db.terms := h ▸ List.mem_map_of_mem hi
  obtain ⟨i₀, hi₀, heq⟩ := List.mem_map.mp hmem
  simp only [IntentRecord.terms, Prod.mk.injEq] at heq
  exact ⟨i₀, hi₀, heq⟩

theorem Db.terms_of_update {db db' : Db} {p : IntentRecord → Prop} [DecidablePred p]
    {f : IntentRecord → IntentRecord} (h : db'.intents = Table.updateWhere p f db.intents)
    (hkeep : ∀ i, (f i).terms = i.terms) : db'.terms = db.terms := by
  unfold Db.terms
  rw [h]
  exact Table.map_updateWhere hkeep

theorem Db.KeepsHouse.terms_eq {db db' : Db} (h : db.KeepsHouse db') : db'.terms = db.terms := by
  obtain ⟨_, _, _, _, _, _, _, _, _, _, -, rfl⟩ := h
  rfl

theorem Db.PaperFrame.terms_eq {db db' : Db} (h : db.PaperFrame db') : db'.terms = db.terms := by
  obtain ⟨_, _, _, _, _, _, rfl⟩ := h
  rfl

section Operations

variable {db : Db}

theorem applyMatchedFill_terms {order : OrderRecord} {venueOrderId : Option String}
    {filled : Decimal} {price : Option Decimal} {ids : List String} {now : Time} :
    (applyMatchedFill db order venueOrderId filled price ids now).1.terms = db.terms := by
  obtain ⟨_, _, _, _, _, -, hframe⟩ := applyMatchedFill_frame db order venueOrderId filled price
    ids now
  rw [hframe]
  rfl

/-! ## Before submission -/

theorem transitionIntent_terms {id : Uuid} {expected next : IntentState}
    {rejection : Option (String × String)} {r : Committed IntentRecord}
    (h : transitionIntent id expected next rejection db = .ok r) : r.db.terms = db.terms := by
  unfold transitionIntent at h
  dsimp only at h
  split at h
  · cases h
  · split at h <;> cases h
    apply Db.terms_of_update rfl
    exact fun _ => rfl

theorem concludeRisk_terms {intentId : Uuid} {decision : RiskDecision}
    {events : List ExecutionEvent} {r : Committed RiskDecision}
    (h : concludeRisk intentId decision events db = .ok r) : r.db.terms = db.terms := by
  unfold concludeRisk at h
  dsimp only at h
  split at h <;> cases h
  apply Db.terms_of_update rfl
  exact fun _ => rfl

theorem evaluateAndReserveRisk_terms {intentId : Uuid} {request : OrderIntentRequest}
    {market : MarketRules} {book : OrderBook} {policy : RiskPolicy} {now : Time}
    {r : Committed RiskDecision}
    (h : evaluateAndReserveRisk intentId request market book policy now db = .ok r) :
    r.db.terms = db.terms := by
  unfold evaluateAndReserveRisk at h
  split at h
  · cases h
  · dsimp only at h
    split at h
    · cases h
    · split at h
      · split at h
        · cases h
        · rename_i hreserve
          obtain ⟨row, -, rfl⟩ := reserveRisk_ok hreserve
          exact (concludeRisk_terms h).trans rfl
      · exact (concludeRisk_terms h).trans rfl

theorem createPreparedOrder_terms {intentId : Uuid} {request : OrderIntentRequest}
    {prepared : PreparedVenueOrder} {version : String} {feeRate : Decimal} {now : Time}
    {r : Committed OrderRecord}
    (h : createPreparedOrder intentId request prepared version feeRate now db = .ok r) :
    r.db.terms = db.terms :=
  Db.terms_of_update (createPreparedOrder_ok h).intents fun _ => rfl

theorem rejectPreparation_terms {intentId : Uuid} {code message : String} {r : Committed Unit}
    (h : rejectPreparation intentId code message db = .ok r) : r.db.terms = db.terms := by
  unfold rejectPreparation at h
  split at h
  · cases h
  · split at h <;> cases h
    apply Db.terms_of_update rfl
    exact fun _ => rfl

theorem recoverIntents_terms {rows : List IntentRecord} {db' : Db}
    {events events' : List ExecutionEvent}
    (h : recoverIntents rows db events = .ok (db', events')) : db'.terms = db.terms := by
  induction rows generalizing db events with
  | nil =>
    cases h
    rfl
  | cons row rows ih =>
    simp only [recoverIntents] at h
    split at h
    · cases h
    · rename_i hrow
      refine (ih h).trans ?_
      unfold recoverIntent at hrow
      split at hrow
      · split at hrow <;> cases hrow
        rfl
      · split at hrow
        · cases hrow
          rfl
        · dsimp only at hrow
          split at hrow <;> cases hrow <;> exact Db.terms_of_update rfl fun _ => rfl

theorem recoverPreSubmissionWork_terms {r : Committed (List Uuid)}
    (h : recoverPreSubmissionWork db = .ok r) : r.db.terms = db.terms := by
  unfold recoverPreSubmissionWork at h
  dsimp only at h
  split at h
  · cases h
  · rename_i hrows
    cases h
    exact recoverIntents_terms hrows

/-! ## Orders -/

theorem beginSubmission_terms {intentId orderId : Uuid} {r : Committed Unit}
    (h : beginSubmission intentId orderId db = .ok r) : r.db.terms = db.terms := by
  unfold beginSubmission at h
  split at h
  · cases h
  · split at h
    · cases h
    · split at h <;> cases h
      apply Db.terms_of_update rfl
      exact fun _ => rfl

theorem finishSubmission_terms {intentId orderId : Uuid} {intentState : IntentState}
    {orderState : OrderState} {venueOrderId : Option String} {cls : String} {filled : Decimal}
    {price : Option Decimal} {ids : List String} {now : Time} {r : Committed Unit}
    (h : finishSubmission intentId orderId intentState orderState venueOrderId cls filled price ids
      now db = .ok r) : r.db.terms = db.terms := by
  unfold finishSubmission at h
  split at h
  · cases h
  · split at h
    · cases h
    · dsimp only at h
      split at h
      · cases h
      · split at h
        · cases h
        · split at h
          · generalize hfill : applyMatchedFill _ _ _ _ _ _ _ = result at h
            cases h
            have hterms := congrArg (fun fill => fill.1.terms) hfill.symm
            refine Eq.trans hterms (applyMatchedFill_terms.trans ?_)
            exact Db.terms_of_update rfl fun _ => rfl
          · cases h
            exact Db.terms_of_update rfl fun _ => rfl

theorem recoverInterruptedRows_terms {rows : List UnknownSubmission} :
    (recoverInterruptedRows rows db).1.terms = db.terms := by
  induction rows generalizing db with
  | nil => rfl
  | cons row rows ih => exact ih.trans (Db.terms_of_update rfl fun _ => rfl)

theorem resolveUnknownSubmission_terms {unknown : UnknownSubmission} {venueOrderId : String}
    {state : OrderState} {remaining filled : Decimal} {price : Option Decimal} {ids : List String}
    {now : Time} {r : Committed Unit}
    (h : resolveUnknownSubmission unknown venueOrderId state remaining filled price ids now db =
      .ok r) : r.db.terms = db.terms := by
  unfold resolveUnknownSubmission at h
  split at h
  · cases h
    rfl
  · split at h
    · cases h
    · split at h
      · cases h
      · split at h
        · cases h
        · dsimp only at h
          generalize hfill : applyMatchedFill _ _ _ _ _ _ _ = result at h
          cases h
          have hterms := congrArg (fun fill => fill.1.terms) hfill.symm
          refine Eq.trans hterms (applyMatchedFill_terms.trans ?_)
          exact Db.terms_of_update rfl fun _ => rfl

theorem transitionOrder_terms {id : Uuid} {next : OrderState} {venueOrderId : Option String}
    {r : Committed OrderRecord} (h : transitionOrder id next venueOrderId db = .ok r) :
    r.db.terms = db.terms := by
  unfold transitionOrder at h
  split at h
  · cases h
  · split at h
    · cases h
      rfl
    · split at h
      · cases h
      · dsimp only at h
        split at h <;> cases h
        · exact Db.terms_of_update rfl fun _ => rfl
        · rfl

theorem cancelPreparedOrder_terms {orderId : Uuid} {r : Committed OrderRecord}
    (h : cancelPreparedOrder orderId db = .ok r) : r.db.terms = db.terms := by
  unfold cancelPreparedOrder at h
  split at h <;> cases h
  apply Db.terms_of_update rfl
  exact fun _ => rfl

theorem reconcileOrderProjection_terms {orderId : Uuid} {state : OrderState}
    {remaining total : Decimal} {price : Option Decimal} {ids : List String} {now : Time}
    {r : Committed Unit}
    (h : reconcileOrderProjection orderId state remaining total price ids now db = .ok r) :
    r.db.terms = db.terms := by
  unfold reconcileOrderProjection at h
  split at h
  · cases h
  · split at h
    · cases h
    · split at h
      · cases h
      · dsimp only at h
        split at h
        · cases h
          rfl
        · generalize hfill : applyMatchedFill _ _ _ _ _ _ _ = result at h
          cases h
          have hterms := congrArg (fun fill => fill.1.terms) hfill.symm
          exact Eq.trans hterms applyMatchedFill_terms

theorem fillCoreOrder_terms {trade : PaperTrade} {venueOrderId venueTradeId : String}
    {fill nextRemaining : Decimal} {state : OrderState} {now : Time} :
    (fillCoreOrder trade venueOrderId venueTradeId fill nextRemaining state now db).1.terms =
      db.terms := by
  unfold fillCoreOrder
  split
  · rfl
  · split
    · exact applyMatchedFill_terms
    · rfl

theorem applyTradeThrough_terms {trade : PaperTrade} {now : Time} {rows : List PaperVenueOrder}
    {size : Decimal} {count count' : Nat} {balances balances' : PaperBalances} {db' : Db}
    {events events' : List ExecutionEvent}
    (h : applyTradeThrough trade now rows size count balances db events =
      .ok (count', balances', db', events')) : db'.terms = db.terms := by
  induction rows generalizing db size count balances events with
  | nil =>
    cases h
    rfl
  | cons row rows ih =>
    simp only [applyTradeThrough] at h
    split at h
    · cases h
      rfl
    · split at h
      · exact ih h
      · split at h
        · cases h
        · rename_i hfill
          refine (ih h).trans ?_
          unfold fillRestingOrder at hfill
          dsimp only at hfill
          split at hfill <;> cases hfill
          exact fillCoreOrder_terms

theorem applyPaperTradeThrough_terms {mode : Mode} {trade : PaperTrade} {now : Time}
    {r : Committed Nat} (h : applyPaperTradeThrough mode trade now db = .ok r) :
    r.db.terms = db.terms := by
  unfold applyPaperTradeThrough at h
  split at h
  · cases h
  · split at h
    · cases h
    · dsimp only at h
      split at h
      · cases h
        rfl
      · split at h
        · cases h
        · split at h
          · cases h
          · rename_i hloop
            cases h
            exact (applyTradeThrough_terms hloop).trans rfl

end Operations

/-! ## All operations -/

/-- Only an admission changes the terms of a database. -/
theorem StoreCall.run_terms {config : StoreConfig} {now : Time} {db : Db} {call : StoreCall}
    {r : Committed call.Value} (h : call.run config now db = .ok r)
    (hcall : ∀ actorId key request, call ≠ .admitIntent actorId key request) :
    r.db.terms = db.terms := by
  cases call with
  | admitIntent => exact absurd rfl (hcall _ _ _)
  | transitionIntent => exact transitionIntent_terms h
  | evaluateAndReserveRisk => exact evaluateAndReserveRisk_terms h
  | createPreparedOrder => exact createPreparedOrder_terms h
  | rejectPreparation => exact rejectPreparation_terms h
  | recoverPreSubmissionWork => exact recoverPreSubmissionWork_terms h
  | beginSubmission => exact beginSubmission_terms h
  | finishSubmission => exact finishSubmission_terms h
  | recoverInterruptedSubmissions =>
    cases h
    exact recoverInterruptedRows_terms
  | resolveUnknownSubmission => exact resolveUnknownSubmission_terms h
  | transitionOrder => exact transitionOrder_terms h
  | cancelPreparedOrder => exact cancelPreparedOrder_terms h
  | reconcileOrderProjection => exact reconcileOrderProjection_terms h
  | applyPaperTradeThrough => exact applyPaperTradeThrough_terms h
  | recordVenueTradeFinality =>
    exact Db.terms_of_intents (congrArg Lifecycle.intents (recordVenueTradeFinality_lifecycle h))
  | reconcileVenuePositions =>
    exact Db.terms_of_intents (congrArg Lifecycle.intents (reconcileVenuePositions_lifecycle h))
  | _ => exact (StoreCall.run_keepsHouse h rfl).terms_eq

end OddsfoxExecution
