import OddsfoxExecution.Store.Housekeeping
import OddsfoxExecution.Store.Lifecycle

/-!
# What each operation does to the lifecycle

One lemma for each transaction of the store: the lifecycle steps it is made of
and the moves of ordered intents it may make.  Later proofs cite these lemmas
and never unfold a transaction.
-/

namespace OddsfoxExecution

/-- The moves of ordered intents an operation may make. -/
def StoreCall.Moves : StoreCall → OrderMove → Prop
  | beginSubmission _ orderId, m =>
    m = ⟨orderId, (.prepared, .submitting), (.prepared, .submitting)⟩
  | finishSubmission _ orderId intentState orderState .., m =>
    m = ⟨orderId, (.submitting, intentState), (.submitting, orderState)⟩
  | recoverInterruptedSubmissions, m =>
    m.intent = (.submitting, .unknown) ∧ m.order = (.submitting, .unknown)
  | resolveUnknownSubmission unknown _ state .., m =>
    m.orderId = unknown.orderId ∧ m.order = (.unknown, state)
  | transitionOrder id next _, m =>
    m.orderId = id ∧ m.order.2 = next ∧ validOrderTransition m.order.1 next = true
  | cancelPreparedOrder orderId, m =>
    m = ⟨orderId, (.prepared, .rejected), (.prepared, .cancelled)⟩
  | reconcileOrderProjection orderId observedState .., m =>
    m.orderId = orderId ∧ m.order.2 = projectedState m.order.1 observedState
  | applyPaperTradeThrough _, m =>
    m.order.1.active = true ∧
      (m.order.2 = .filled ∨ m.order.2 = .partiallyFilled ∨ m.order.2 = .cancelPending)
  | _, _ => False

namespace MoveStep

variable {M : OrderMove → Prop} {s : Lifecycle}

/-- A move written as the two guarded updates a transaction makes. -/
theorem ofUpdates (hs : Coherent s) {i : IntentRecord} {o : OrderRecord} (hi : i ∈ s.intents)
    (ho : o ∈ s.orders) (howner : o.intentId = i.id)
    {pi : IntentRecord → Prop} [DecidablePred pi] {fi : IntentRecord → IntentRecord}
    {po : OrderRecord → Prop} [DecidablePred po] {fo : OrderRecord → OrderRecord}
    {attempts : List SubmissionAttempt} (hpi : pi i) (hpi' : ∀ row, pi row → row.id = i.id)
    (hfi : (fi i).id = i.id) (hpo : po o) (hpo' : ∀ row, po row → row.id = o.id)
    (hterms : o.SameTerms (fo o))
    (hremaining : (fo o).state.unsettled = true →
      (fo o).remainingQuantity = (fo o).originalQuantity)
    (hattempts : attempts.map SubmissionAttempt.preparedOrderId =
      s.submissionAttempts.map SubmissionAttempt.preparedOrderId)
    (hlegal : OrderMove.Legal ⟨o.id, (i.state, (fi i).state), (o.state, (fo o).state)⟩)
    (hmove : M ⟨o.id, (i.state, (fi i).state), (o.state, (fo o).state)⟩) :
    MoveStep M s
      { s with
        intents := Table.updateWhere pi fi s.intents
        orders := Table.updateWhere po fo s.orders
        submissionAttempts := attempts } := by
  rw [Table.updateWhere_eq_replace hs.intentIds hi hpi (fun row _ => hpi' row) hfi,
    Table.updateWhere_eq_replace hs.orderIds ho hpo (fun row _ => hpo' row) hterms.1]
  exact .move hi ho howner hfi hterms hremaining hattempts hlegal hmove

theorem ofOrderUpdate (hs : Coherent s) {i : IntentRecord} {o : OrderRecord} (hi : i ∈ s.intents)
    (ho : o ∈ s.orders) (howner : o.intentId = i.id) {po : OrderRecord → Prop} [DecidablePred po]
    {fo : OrderRecord → OrderRecord} (hpo : po o) (hpo' : ∀ row, po row → row.id = o.id)
    (hterms : o.SameTerms (fo o))
    (hremaining : (fo o).state.unsettled = true →
      (fo o).remainingQuantity = (fo o).originalQuantity)
    (hpaired : paired i.state (fo o).state = true)
    (hmove : M ⟨o.id, (i.state, i.state), (o.state, (fo o).state)⟩) :
    MoveStep M s { s with orders := Table.updateWhere po fo s.orders } := by
  have hstep : MoveStep M s _ :=
    .move hi ho howner rfl hterms hremaining rfl ⟨hpaired, id, id⟩ hmove
  rwa [Table.replace_self hs.intentIds hi,
    ← Table.updateWhere_eq_replace hs.orderIds ho hpo (fun row _ => hpo' row) hterms.1] at hstep

end MoveStep

/-! ## Before submission -/

section Intents

variable {M : OrderMove → Prop} {db : Db}

theorem admitIntent_steps {actorId key : String} {request : OrderIntentRequest} {now : Time}
    {r : Committed Admission} (h : admitIntent actorId key request now db = .ok r) :
    LifecycleSteps M db.lifecycle r.db.lifecycle := by
  unfold admitIntent at h
  split at h
  · split at h
    · cases h
    · split at h
      · cases h
      · split at h
        · cases h
          exact .refl
        · cases h
  · split at h
    · cases h
    · dsimp only at h
      split at h
      · cases h
      · cases h
        exact .single (.enroll rfl rfl)

/-- The four moves the coordinator asks `transition_intent` for. -/
def IntentState.advances : IntentState → IntentState → Bool
  | .received, .validating | .received, .rejected | .validating, .rejected => true
  | .approved, .preparing => true
  | _, _ => false

theorem transitionIntent_steps {id : Uuid} {expected next : IntentState}
    {rejection : Option (String × String)} {r : Committed IntentRecord}
    (hadvances : expected.advances next = true)
    (h : transitionIntent id expected next rejection db = .ok r) :
    LifecycleSteps M db.lifecycle r.db.lifecycle := by
  have hfrom : expected.unordered = true ∧ (next.unordered = true ∨ next = .rejected) := by
    cases expected <;> cases next <;> simp_all [IntentState.advances, IntentState.unordered]
  unfold transitionIntent at h
  dsimp only at h
  split at h
  · cases h
  · split at h
    · cases h
    · cases h
      exact .single (.advance hfrom.1 hfrom.2 fun _ => ⟨rfl, rfl⟩)

theorem concludeRisk_steps {intentId : Uuid} {decision : RiskDecision}
    {events : List ExecutionEvent} {r : Committed RiskDecision}
    (h : concludeRisk intentId decision events db = .ok r) :
    LifecycleSteps M db.lifecycle r.db.lifecycle := by
  unfold concludeRisk at h
  dsimp only at h
  split at h
  · cases h
  · cases h
    have hto : ∀ next : IntentState,
        next = (if decision.approved = true then IntentState.approved else .rejected) →
        next.unordered = true ∨ next = .rejected := by
      rintro _ rfl
      split
      · exact Or.inl rfl
      · exact Or.inr rfl
    exact .single (.advance rfl (hto _ rfl) fun _ => ⟨rfl, rfl⟩)

theorem reserveRisk_steps {intentId : Uuid} {request : OrderIntentRequest} {market : MarketRules}
    {db' : Db} {event : ExecutionEvent}
    (h : reserveRisk intentId request market db = .ok (db', event)) :
    LifecycleSteps M db.lifecycle db'.lifecycle := by
  unfold reserveRisk at h
  split at h
  · cases h
  · rename_i price hprice
    split at h
    · cases h
    · rename_i quantity hquantity
      split at h
      · cases h
      · rename_i shares quote hexposure
        split at h
        · cases h
        · rename_i reservations hinsert
          cases h
          obtain ⟨hfresh, rfl⟩ := Table.insertNew_eq_some.mp hinsert
          exact .single (.reserve (conservativeExposure_pos
            (OrderIntentRequest.quantityDecimal_pos hquantity)
            (OrderIntentRequest.protectionPrice_pos hprice).1 hexposure).1 hfresh)

theorem evaluateAndReserveRisk_steps {intentId : Uuid} {request : OrderIntentRequest}
    {market : MarketRules} {book : OrderBook} {policy : RiskPolicy} {now : Time}
    {r : Committed RiskDecision}
    (h : evaluateAndReserveRisk intentId request market book policy now db = .ok r) :
    LifecycleSteps M db.lifecycle r.db.lifecycle := by
  unfold evaluateAndReserveRisk at h
  split at h
  · cases h
  · dsimp only at h
    split at h
    · cases h
    · have hdraw : LifecycleStep M db.lifecycle { db.lifecycle with nextUuid := db.nextUuid + 1 } :=
        .draw (Nat.le_succ _)
      split at h
      · split at h
        · cases h
        · rename_i hreserve
          exact .head hdraw ((reserveRisk_steps hreserve).trans (concludeRisk_steps h))
      · exact .head hdraw (concludeRisk_steps h)

theorem createPreparedOrder_steps (hs : Coherent db.lifecycle) {intentId : Uuid}
    {request : OrderIntentRequest} {prepared : PreparedVenueOrder} {version : String}
    {feeRate : Decimal} {now : Time} {r : Committed OrderRecord}
    (h : createPreparedOrder intentId request prepared version feeRate now db = .ok r) :
    LifecycleSteps M db.lifecycle r.db.lifecycle := by
  unfold createPreparedOrder at h
  split at h
  · cases h
  · split at h
    · cases h
    · dsimp only at h
      split at h
      · cases h
      · split at h
        · cases h
        · rename_i reservation hreservation
          split at h
          · cases h
          · split at h
            · cases h
            · rename_i hone
              cases h
              obtain ⟨i, hi, hat⟩ := Table.exists_of_rowsAffected_eq_one (not_not.mp hone)
              have hpositive : 0 < reservation.quantity :=
                hs.reserved _ (List.mem_of_find?_eq_some hreservation)
              have hintents : Table.updateWhere (IntentRecord.At intentId .preparing)
                  (fun i => { i with state := .prepared }) db.intents =
                  Table.replace IntentRecord.id { i with state := .prepared } db.intents :=
                Table.updateWhere_eq_replace hs.intentIds hi hat
                  (fun row _ hrow => hrow.1.trans hat.1.symm) rfl
              refine .head (.closeReservation intentId .consumed) (.single ?_)
              simp only [Db.lifecycle, Db.appendEvent, hintents]
              exact .prepare hi hat.2 rfl rfl rfl hat.1.symm rfl rfl hat.1.symm rfl hpositive rfl

theorem rejectPreparation_steps {intentId : Uuid} {code message : String} {r : Committed Unit}
    (h : rejectPreparation intentId code message db = .ok r) :
    LifecycleSteps M db.lifecycle r.db.lifecycle := by
  unfold rejectPreparation at h
  split at h
  · cases h
  · split at h
    · cases h
    · cases h
      exact .head (.closeReservation intentId .released)
        (.single (.advance rfl (Or.inr rfl) fun _ => ⟨rfl, rfl⟩))

theorem recoverIntent_steps {row : IntentRecord} {db' : Db} {events events' : List ExecutionEvent}
    (hrow : row.state.preSubmission = true)
    (h : recoverIntent row db events = .ok (db', events')) :
    LifecycleSteps M db.lifecycle db'.lifecycle := by
  unfold recoverIntent at h
  split at h
  · split at h
    · cases h
    · cases h
      exact .refl
  · split at h
    · cases h
      exact .refl
    · rename_i hprepared _
      have hfrom : row.state.unordered = true := by
        revert hrow hprepared
        cases row.state <;> simp [IntentState.preSubmission, IntentState.unordered]
      dsimp only at h
      split at h <;> cases h <;>
        exact .head (.closeReservation row.id .released)
          (.single (.advance hfrom (Or.inl rfl) fun _ => ⟨rfl, rfl⟩))

theorem recoverIntents_steps {rows : List IntentRecord} {db' : Db}
    {events events' : List ExecutionEvent}
    (hrows : ∀ row ∈ rows, row.state.preSubmission = true)
    (h : recoverIntents rows db events = .ok (db', events')) :
    LifecycleSteps M db.lifecycle db'.lifecycle := by
  induction rows generalizing db events with
  | nil =>
    cases h
    exact .refl
  | cons row rows ih =>
    simp only [recoverIntents] at h
    split at h
    · cases h
    · rename_i hrow
      exact (recoverIntent_steps (hrows row List.mem_cons_self) hrow).trans
        (ih (fun other hother => hrows other (List.mem_cons_of_mem _ hother)) h)

theorem recoverPreSubmissionWork_steps {r : Committed (List Uuid)}
    (h : recoverPreSubmissionWork db = .ok r) : LifecycleSteps M db.lifecycle r.db.lifecycle := by
  unfold recoverPreSubmissionWork at h
  dsimp only at h
  split at h
  · cases h
  · rename_i hrows
    cases h
    refine recoverIntents_steps (fun row hrow => ?_) hrows
    rw [List.mem_insertionSort] at hrow
    simpa using (List.mem_filter.mp hrow).2

end Intents

/-! ## Submission -/

section Submission

variable {M : OrderMove → Prop} {db : Db}

/-- An order found among those of a coherent store, with the intent it belongs to. -/
theorem Coherent.owner {s : Lifecycle} (hs : Coherent s) {o : OrderRecord} (ho : o ∈ s.orders) :
    ∃ i ∈ s.intents, o.intentId = i.id ∧ OddsfoxExecution.paired i.state o.state = true := by
  obtain ⟨i, hi, hid, hpaired⟩ := hs.paired o ho
  exact ⟨i, hi, hid.symm, hpaired⟩

theorem find?_mem {α : Type} {p : α → Prop} [DecidablePred p] {t : List α} {row : α}
    (h : t.find? (fun other => decide (p other)) = some row) : row ∈ t ∧ p row :=
  ⟨List.mem_of_find?_eq_some h, by simpa using List.find?_some h⟩

theorem beginSubmission_steps (hs : Coherent db.lifecycle) {intentId orderId : Uuid}
    {r : Committed Unit} (h : beginSubmission intentId orderId db = .ok r) :
    MoveSteps (StoreCall.beginSubmission intentId orderId).Moves db.lifecycle
      r.db.lifecycle := by
  unfold beginSubmission at h
  split at h
  · cases h
  · split at h
    · cases h
    · rename_i hpair
      split at h
      · cases h
      · cases h
        obtain ⟨hintent, horder⟩ := not_or.mp hpair
        obtain ⟨i, hi, hat⟩ := Table.exists_of_rowsAffected_eq_one (not_not.mp hintent)
        obtain ⟨o, ho, hpairAt⟩ := Table.exists_of_rowsAffected_eq_one (not_not.mp horder)
        refine .single (.ofUpdates hs hi ho (hpairAt.2.1.trans hat.1.symm) hat
          (fun row hrow => hrow.1.trans hat.1.symm) rfl hpairAt
          (fun row hrow => hrow.1.trans hpairAt.1.symm) (.refl _) (fun _ => ?_)
          (Table.map_updateWhere ?_) ⟨rfl, fun _ => rfl, fun heq => ?_⟩ ?_)
        · exact hs.unsettled o ho (by rw [hpairAt.2.2]; rfl)
        · exact fun _ => rfl
        · exact absurd (hat.2.symm.trans heq) (by decide)
        · simp only [StoreCall.Moves, hat.2, hpairAt.1, hpairAt.2.2]

theorem finishSubmission_steps (hs : Coherent db.lifecycle) {intentId orderId : Uuid}
    {intentState : IntentState} {orderState : OrderState} {venueOrderId : Option String}
    {responseClass : String} {filled : Decimal} {price : Option Decimal} {ids : List String}
    {now : Time} {r : Committed Unit}
    (hintent : intentState = .submitted ∨ intentState = .unknown ∧ orderState = .unknown)
    (h : finishSubmission intentId orderId intentState orderState venueOrderId responseClass
      filled price ids now db = .ok r) :
    MoveSteps (StoreCall.finishSubmission intentId orderId intentState orderState
      venueOrderId responseClass filled price ids).Moves db.lifecycle r.db.lifecycle := by
  unfold finishSubmission at h
  split at h
  · cases h
  · split at h
    · cases h
    · rename_i prior hprior
      obtain ⟨hmem, hid, howner, hstate⟩ := find?_mem hprior
      dsimp only at h
      split at h
      · cases h
      · rename_i hevidence
        have haccepted := validateVenueOrderEvidence_ok hevidence
        split at h
        · cases h
        · rename_i hpair
          obtain ⟨i, hi, hat⟩ :=
            Table.exists_of_rowsAffected_eq_one (not_not.mp (not_or.mp hpair).1)
          have hlegal : OrderMove.Legal
              ⟨prior.id, (i.state, intentState), (prior.state, orderState)⟩ := by
            refine ⟨?_, fun _ => ?_, fun heq => ?_⟩
            · rcases hintent with rfl | ⟨rfl, rfl⟩
              · exact paired_submitted.mpr ⟨haccepted.reportable.1, haccepted.reportable.2.1⟩
              · rfl
            · rcases hintent with rfl | ⟨rfl, rfl⟩ <;> rfl
            · exact absurd (hat.2.symm.trans heq) (by decide)
          have hremaining : orderState.unsettled = true →
              submissionRemaining prior.originalQuantity orderState filled =
                prior.originalQuantity := by
            intro hunsettled
            have hunknown : orderState = .unknown := by
              have := haccepted.reportable
              cases orderState <;> simp_all [OrderState.unsettled]
            exact (haccepted.unknown hunknown).2
          -- the booking of a fill only draws an identifier
          have hsteps : ∀ db' : Db, ∀ n, db.nextUuid ≤ n →
              db'.lifecycle = { db.lifecycle with
                intents := Table.updateWhere (IntentRecord.At intentId .submitting)
                  (fun i => { i with state := intentState }) db.intents
                orders := Table.updateWhere (OrderRecord.AtPair orderId intentId .submitting)
                  (OrderRecord.settle orderState venueOrderId
                    (submissionRemaining prior.originalQuantity orderState filled)) db.orders
                submissionAttempts := db'.submissionAttempts
                nextUuid := n } →
              db'.submissionAttempts.map SubmissionAttempt.preparedOrderId =
                db.submissionAttempts.map SubmissionAttempt.preparedOrderId →
              MoveSteps (StoreCall.finishSubmission intentId orderId intentState orderState
                venueOrderId responseClass filled price ids).Moves db.lifecycle db'.lifecycle := by
            intro db' n hle hlifecycle hattempts
            rw [hlifecycle]
            refine .head (.draw hle) (.single ?_)
            refine .ofUpdates (hs.draw hle) hi hmem (howner.trans hat.1.symm) hat
              (fun row hrow => hrow.1.trans hat.1.symm) rfl ⟨hid, howner, hstate⟩
              (fun row hrow => hrow.1.trans hid.symm) (.refl _) hremaining hattempts hlegal ?_
            simp only [StoreCall.Moves, hat.2, hid, hstate, OrderRecord.settle]
          split at h
          · generalize hfill :
              applyMatchedFill _ prior venueOrderId filled price ids now = result at h
            obtain ⟨_, _, _, _, n, hle, hframe⟩ :=
              applyMatchedFill_frame _ prior venueOrderId filled price ids now
            rw [hfill] at hframe
            obtain ⟨db', event⟩ := result
            subst hframe
            cases h
            refine hsteps _ n hle rfl (Table.map_updateWhere ?_)
            exact fun _ => rfl
          · cases h
            refine hsteps _ _ le_rfl rfl (Table.map_updateWhere ?_)
            exact fun _ => rfl

/-- One row of the recovery: a SUBMITTING order and its intent become UNKNOWN. -/
theorem recoverInterrupted_steps (hs : Coherent db.lifecycle) {row : UnknownSubmission}
    {i : IntentRecord} {o : OrderRecord} (hi : i ∈ db.intents) (ho : o ∈ db.orders)
    (hrow : row.orderId = o.id ∧ row.intentId = i.id) (howner : o.intentId = i.id)
    (hstates : i.state = .submitting ∧ o.state = .submitting) :
    MoveSteps StoreCall.recoverInterruptedSubmissions.Moves db.lifecycle
      (recoverInterrupted row db).1.lifecycle := by
  refine .single (.ofUpdates hs hi ho howner hrow.2.symm
    (fun other hother => Eq.trans hother hrow.2) rfl hrow.1.symm
    (fun other hother => Eq.trans hother hrow.1) (.refl _) (fun _ => ?_) (Table.map_updateWhere ?_)
    ⟨rfl, fun _ => rfl, fun heq => ?_⟩ ?_)
  · exact hs.unsettled o ho (by rw [hstates.2]; rfl)
  · exact fun _ => rfl
  · exact absurd (hstates.1.symm.trans heq) (by decide)
  · simp only [StoreCall.Moves, hstates, and_self]

/-- The rows of the recovery that remain to be worked on: their pairs are SUBMITTING, and no
order comes twice. -/
structure RecoverableRows (rows : List UnknownSubmission) (s : Lifecycle) : Prop where
  distinct : (rows.map UnknownSubmission.orderId).Nodup
  submitting : ∀ row ∈ rows, ∃ i ∈ s.intents, ∃ o ∈ s.orders, row.orderId = o.id ∧
    row.intentId = i.id ∧ o.intentId = i.id ∧ i.state = .submitting ∧ o.state = .submitting

theorem RecoverableRows.next (hs : Coherent db.lifecycle) {row : UnknownSubmission}
    {rows : List UnknownSubmission} (hrows : RecoverableRows (row :: rows) db.lifecycle) :
    RecoverableRows rows (recoverInterrupted row db).1.lifecycle where
  distinct := (List.nodup_cons.mp hrows.distinct).2
  submitting := by
    obtain ⟨i, hi, o, ho, hrowO, hrowI, howner, hstates⟩ :=
      hrows.submitting row List.mem_cons_self
    intro other hother
    obtain ⟨i', hi', o', ho', hotherO, hotherI, howner', hstates'⟩ :=
      hrows.submitting other (List.mem_cons_of_mem _ hother)
    have hneO : ¬ o'.id = row.orderId := fun heq =>
      (List.nodup_cons.mp hrows.distinct).1 (List.mem_map.mpr ⟨other, hother, hotherO.trans heq⟩)
    have hneI : ¬ i'.id = row.intentId := fun heq => hneO (by
      have hsame : o' = o := Table.eq_of_key_eq hs.orderIntents ho' ho
        (howner'.trans (heq.trans (hrowI.trans howner.symm)))
      rw [hsame, hrowO])
    exact ⟨i', Table.mem_updateWhere.mpr ⟨i', hi', by rw [if_neg hneI]⟩,
      o', Table.mem_updateWhere.mpr ⟨o', ho', by rw [if_neg hneO]⟩,
      hotherO, hotherI, howner', hstates'⟩

theorem recoverInterruptedRows_steps {rows : List UnknownSubmission}
    (hs : Coherent db.lifecycle) (hrows : RecoverableRows rows db.lifecycle) :
    MoveSteps StoreCall.recoverInterruptedSubmissions.Moves db.lifecycle
      (recoverInterruptedRows rows db).1.lifecycle := by
  induction rows generalizing db with
  | nil => exact .refl
  | cons row rows ih =>
    obtain ⟨i, hi, o, ho, hrowO, hrowI, howner, hstates⟩ :=
      hrows.submitting row List.mem_cons_self
    have hstep := recoverInterrupted_steps hs hi ho ⟨hrowO, hrowI⟩ howner hstates
    exact hstep.trans (ih (hs.moves hstep) (hrows.next hs))

/-- In a coherent store the join of the recovery selects each SUBMITTING pair once. -/
theorem interruptedSubmissions_recoverable (hs : Coherent db.lifecycle) :
    RecoverableRows db.interruptedSubmissions db.lifecycle := by
  constructor
  case distinct =>
    have hintents : (db.intents.map IntentRecord.id).Nodup := hs.intentIds
    have hprepared : (db.preparedOrders.map PreparedOrder.intentId).Nodup :=
      hs.preparedIntents ▸ hs.orderIntents
    refine List.Nodup.sublist (Table.map_flatMap_sublist fun o _ => ?_) hs.orderIds
    have hjoin : List.Sublist ((db.preparedJoin o).map UnknownSubmission.orderId) [o.id] := by
      unfold Db.preparedJoin
      rcases Table.filter_key hprepared
        (fun (p : PreparedOrder) (hp : p.intentId = o.intentId) => hp) with hnone | ⟨p, -, -, hone⟩
      · rw [hnone]
        exact List.nil_sublist _
      · rw [hone]
        exact List.Sublist.refl _
    rcases Table.filter_key hintents (fun (i : IntentRecord) (hi : i.id = o.intentId ∧
      (o.state = .submitting ∨ i.state = .submitting)) => hi.1) with hnone | ⟨i, -, -, hone⟩
    · rw [hnone]
      exact List.nil_sublist _
    · rw [hone]
      simpa using hjoin
  case submitting =>
    intro row hrow
    simp only [Db.interruptedSubmissions, List.mem_flatMap, List.mem_filter,
      decide_eq_true_eq, Db.preparedJoin, List.mem_map] at hrow
    obtain ⟨o, ho, i, ⟨hi, hid, hstate⟩, p, -, rfl⟩ := hrow
    have hpaired := hs.paired_of_mem hi ho hid.symm
    refine ⟨i, hi, o, ho, rfl, hid.symm, hid.symm, ?_⟩
    rcases hstate with hstate | hstate
    · exact ⟨paired_submitting.mp (hstate ▸ hpaired), hstate⟩
    · exact ⟨hstate, paired_submitting_left.mp (hstate ▸ hpaired)⟩

theorem recoverInterruptedSubmissions_steps (hs : Coherent db.lifecycle) {r : Committed Nat}
    (h : recoverInterruptedSubmissions db = .ok r) :
    MoveSteps StoreCall.recoverInterruptedSubmissions.Moves db.lifecycle
      r.db.lifecycle := by
  cases h
  exact recoverInterruptedRows_steps hs (interruptedSubmissions_recoverable hs)

/-- Setting an UNKNOWN intent SUBMITTED, where it may be SUBMITTED already. -/
theorem submitUnknown_eq_replace {s : Lifecycle} (hs : Coherent s) {i : IntentRecord}
    (hi : i ∈ s.intents) (hstate : i.state = .unknown ∨ i.state = .submitted) :
    Table.updateWhere (IntentRecord.At i.id .unknown)
        (fun i => { i with state := .submitted }) s.intents =
      Table.replace IntentRecord.id { i with state := .submitted } s.intents := by
  rcases hstate with hunknown | hsubmitted
  · exact Table.updateWhere_eq_replace hs.intentIds hi ⟨rfl, hunknown⟩ (fun _ _ hrow => hrow.1) rfl
  · have hnone : ∀ row ∈ s.intents, ¬ IntentRecord.At i.id .unknown row := by
      intro row hrow hat
      rw [Table.eq_of_key_eq hs.intentIds hrow hi hat.1] at hat
      exact absurd (hsubmitted.symm.trans hat.2) (by decide)
    have hsame : { i with state := .submitted } = i := by rw [← hsubmitted]
    rw [Table.updateWhere_eq_self hnone, hsame, Table.replace_self hs.intentIds hi]

theorem resolveUnknownSubmission_steps (hs : Coherent db.lifecycle) {unknown : UnknownSubmission}
    {venueOrderId : String} {state : OrderState} {remaining filled : Decimal}
    {price : Option Decimal} {ids : List String} {now : Time} {r : Committed Unit}
    (hunknown : ∀ o ∈ db.orders, o.id = unknown.orderId → o.intentId = unknown.intentId)
    (h : resolveUnknownSubmission unknown venueOrderId state remaining filled price ids now db =
      .ok r) :
    MoveSteps (StoreCall.resolveUnknownSubmission unknown venueOrderId state remaining filled
      price ids).Moves db.lifecycle r.db.lifecycle := by
  unfold resolveUnknownSubmission at h
  split at h
  · cases h
    exact .refl
  · rename_i hresolved
    split at h
    · cases h
    · rename_i prior hprior
      obtain ⟨hmem, hid, hstate⟩ := find?_mem hprior
      split at h
      · cases h
      · rename_i hevidence
        have haccepted := validateVenueOrderEvidence_ok hevidence
        split at h
        · cases h
        · obtain ⟨i, hi, howner, hpaired⟩ := hs.owner hmem
          rw [hstate] at hpaired
          have hintent : unknown.intentId = i.id := (hunknown prior hmem hid).symm.trans howner
          have hsettled : state.unsettled = true → remaining = prior.originalQuantity := by
            have := haccepted.reportable
            cases state <;> simp_all [OrderState.unsettled]
          have horders : Table.updateWhere (OrderRecord.At unknown.orderId .unknown)
              (OrderRecord.settle state (some venueOrderId) remaining) db.orders =
              Table.replace OrderRecord.id (prior.settle state (some venueOrderId) remaining)
                db.orders :=
            Table.updateWhere_eq_replace hs.orderIds hmem ⟨hid, hstate⟩
              (fun row _ hrow => hrow.1.trans hid.symm) rfl
          have hlegal : OrderMove.Legal ⟨prior.id, (i.state, .submitted), (prior.state, state)⟩ :=
            ⟨paired_submitted.mpr ⟨haccepted.reportable.1, haccepted.reportable.2.1⟩,
              fun _ => rfl, fun _ => rfl⟩
          have hintents : Table.updateWhere (IntentRecord.At unknown.intentId .unknown)
              (fun i => { i with state := .submitted }) db.intents =
              Table.replace IntentRecord.id { i with state := .submitted } db.intents :=
            hintent ▸ submitUnknown_eq_replace hs hi (paired_unknown.mp hpaired)
          simp only [horders, hintents] at h
          generalize hfill : applyMatchedFill _ prior (some venueOrderId) filled price ids now =
            result at h
          obtain ⟨_, _, _, _, n, hle, hframe⟩ :=
            applyMatchedFill_frame _ prior (some venueOrderId) filled price ids now
          rw [hfill] at hframe
          obtain ⟨db', event⟩ := result
          subst hframe
          cases h
          refine .head (.draw hle) (.single ?_)
          refine .move hi hmem howner ?_ ?_ ?_ ?_ hlegal ?_
          · rfl
          · exact .refl _
          · exact hsettled
          · exact Table.map_updateWhere fun _ => rfl
          · exact ⟨hid, Prod.ext hstate rfl⟩

end Submission

/-! ## Orders the venue knows -/

section Orders

variable {M : OrderMove → Prop} {db : Db}

theorem validOrderTransition_unknown {next : OrderState}
    (h : validOrderTransition .unknown next = true) :
    next = .unknown ∨ (next = .filled ∨ next = .cancelled ∨ next = .expired) := by
  cases next <;> simp_all [validOrderTransition]

/-- What a transition leads to, when it is not from UNKNOWN: the pair stays in step. -/
theorem paired_transition {i : IntentState} {prior next : OrderState}
    (hpaired : paired i prior = true) (hvalid : validOrderTransition prior next = true)
    (hsettled : ¬ (prior = .unknown ∧ (next = .filled ∨ next = .cancelled ∨ next = .expired))) :
    paired i next = true := by
  by_cases hunknown : prior = .unknown
  · subst hunknown
    rcases validOrderTransition_unknown hvalid with rfl | hnext
    · exact hpaired
    · exact absurd ⟨rfl, hnext⟩ hsettled
  · cases prior <;> cases next <;> cases i <;> simp_all [validOrderTransition, paired]

theorem validOrderTransition_unsettled {prior next : OrderState}
    (hvalid : validOrderTransition prior next = true) (hnext : next.unsettled = true) :
    next = prior := by
  cases prior <;> cases next <;> simp_all [validOrderTransition, OrderState.unsettled]

theorem transitionOrder_steps (hs : Coherent db.lifecycle) {id : Uuid} {next : OrderState}
    {venueOrderId : Option String} {r : Committed OrderRecord}
    (h : transitionOrder id next venueOrderId db = .ok r) :
    MoveSteps (fun m => (StoreCall.transitionOrder id next venueOrderId).Moves m ∧ m.Honest)
      db.lifecycle r.db.lifecycle := by
  unfold transitionOrder at h
  split at h
  · cases h
  · rename_i prior hprior
    obtain ⟨hmem, hid⟩ := find?_mem hprior
    split at h
    · cases h
      exact .refl
    · split at h
      · cases h
      · rename_i hvalid
        have hvalid : validOrderTransition prior.state next = true := not_not.mp hvalid
        obtain ⟨i, hi, howner, hpaired⟩ := hs.owner hmem
        have hremaining : next.unsettled = true →
            prior.remainingQuantity = prior.originalQuantity := fun hnext =>
          hs.unsettled prior hmem (validOrderTransition_unsettled hvalid hnext ▸ hnext)
        have horders : Table.updateWhere (fun o : OrderRecord => o.id = id)
            (fun o => { o with state := next, venueOrderId := venueOrderId.or o.venueOrderId })
            db.orders =
            Table.replace OrderRecord.id
              { prior with state := next, venueOrderId := venueOrderId.or prior.venueOrderId }
              db.orders :=
          Table.updateWhere_eq_replace hs.orderIds hmem hid
            (fun row _ hrow => Eq.trans hrow hid.symm) rfl
        dsimp only at h
        split at h
        · -- the venue's answer settles an UNKNOWN order, and with it the intent
          rename_i hsettled
          rw [hsettled.1] at hpaired
          have hintents : Table.updateWhere (IntentRecord.At prior.intentId .unknown)
              (fun i => { i with state := .submitted }) db.intents =
              Table.replace IntentRecord.id { i with state := .submitted } db.intents :=
            howner ▸ submitUnknown_eq_replace hs hi (paired_unknown.mp hpaired)
          have hpaired' : paired .submitted next = true := by
            rcases hsettled.2 with rfl | rfl | rfl <;> rfl
          rw [horders, hintents] at h
          cases h
          refine .single (.move hi hmem howner ?_ ?_ ?_ rfl
            ⟨hpaired', fun _ => rfl, fun _ => rfl⟩ ?_)
          · rfl
          · exact .refl _
          · exact hremaining
          · refine ⟨⟨hid, rfl, hvalid⟩, fun hunknown => ?_⟩
            have hunknown : next = .unknown := hunknown
            simp [hunknown] at hsettled
        · rename_i hsettled
          cases h
          refine .single (.ofOrderUpdate hs hi hmem howner hid
            (fun row hrow => Eq.trans hrow hid.symm) ?_ ?_ ?_ ?_)
          · exact .refl _
          · exact hremaining
          · exact paired_transition hpaired hvalid hsettled
          · refine ⟨⟨hid, rfl, hvalid⟩, fun hunknown hsubmitted => ⟨?_, hsubmitted⟩⟩
            have hunknown : next = .unknown := hunknown
            rw [← validOrderTransition_unsettled hvalid (by rw [hunknown]; rfl), hunknown]

theorem cancelPreparedOrder_steps (hs : Coherent db.lifecycle) {orderId : Uuid}
    {r : Committed OrderRecord} (h : cancelPreparedOrder orderId db = .ok r) :
    MoveSteps (StoreCall.cancelPreparedOrder orderId).Moves db.lifecycle r.db.lifecycle := by
  unfold cancelPreparedOrder at h
  split at h
  · cases h
  · rename_i order horder
    obtain ⟨hmem, hid, hstate⟩ := find?_mem horder
    obtain ⟨i, hi, howner, hpaired⟩ := hs.owner hmem
    rw [hstate] at hpaired
    have hintent : i.state = .prepared := paired_prepared.mp hpaired
    cases h
    refine .single (.ofUpdates hs hi hmem howner ⟨howner.symm, hintent⟩
      (fun row hrow => hrow.1.trans howner) rfl hid (fun row hrow => Eq.trans hrow hid.symm)
      (.refl _) (fun hunsettled => ?_) (Table.map_updateWhere ?_)
      ⟨rfl, fun hbegun => ?_, fun heq => ?_⟩ ?_)
    · exact absurd hunsettled (show ¬ OrderState.cancelled.unsettled = true by decide)
    · exact fun _ => rfl
    · rw [hintent] at hbegun
      exact absurd hbegun (show ¬ IntentState.prepared.begun = true by decide)
    · exact absurd (hintent.symm.trans heq) (by decide)
    · simp only [StoreCall.Moves, hid, hintent, hstate]

theorem projectedState_cases (prior observed : OrderState) :
    projectedState prior observed = .cancelPending ∨ projectedState prior observed = observed := by
  unfold projectedState
  split
  · exact Or.inl rfl
  · exact Or.inr rfl

theorem reconcileOrderProjection_steps (hs : Coherent db.lifecycle) {orderId : Uuid}
    {state : OrderState} {remaining total : Decimal} {price : Option Decimal} {ids : List String}
    {now : Time} {r : Committed Unit}
    (hsubmitted : ∀ o ∈ db.orders, o.id = orderId →
      ∀ i ∈ db.intents, i.id = o.intentId → i.state = .submitted)
    (h : reconcileOrderProjection orderId state remaining total price ids now db = .ok r) :
    MoveSteps (StoreCall.reconcileOrderProjection orderId state remaining total price
      ids).Moves db.lifecycle r.db.lifecycle := by
  unfold reconcileOrderProjection at h
  split at h
  · cases h
  · rename_i order horder
    obtain ⟨hmem, hid⟩ := find?_mem horder
    split at h
    · cases h
    · rename_i hevidence
      have haccepted := validateVenueOrderEvidence_ok hevidence
      split at h
      · cases h
      · dsimp only at h
        split at h
        · cases h
          exact .refl
        · obtain ⟨i, hi, howner, -⟩ := hs.owner hmem
          have hsub : i.state = .submitted := hsubmitted order hmem hid i hi howner.symm
          have hpaired : paired i.state (projectedState order.state state) = true := by
            rw [hsub, paired_submitted]
            rcases projectedState_cases order.state state with heq | heq <;> rw [heq]
            · exact ⟨by decide, by decide⟩
            · exact ⟨haccepted.reportable.1, haccepted.reportable.2.1⟩
          have hremaining : (projectedState order.state state).unsettled = true →
              remaining = order.originalQuantity := by
            intro hunsettled
            rcases projectedState_cases order.state state with heq | heq <;> rw [heq] at hunsettled
            · exact absurd hunsettled (by decide)
            · have := haccepted.reportable
              have hunknown : state = .unknown := by
                cases state <;> simp_all [OrderState.unsettled]
              exact (haccepted.unknown hunknown).2
          generalize hfill : applyMatchedFill _ order order.venueOrderId
            (total - order.localFilled) price ids now = result at h
          obtain ⟨_, _, _, _, n, hle, hframe⟩ := applyMatchedFill_frame _ order
            order.venueOrderId (total - order.localFilled) price ids now
          rw [hfill] at hframe
          obtain ⟨db', event⟩ := result
          subst hframe
          cases h
          refine .head (.draw hle) (.single (.ofOrderUpdate (hs.draw hle) hi hmem howner hid
            (fun row hrow => Eq.trans hrow hid.symm) ?_ ?_ ?_ ?_))
          · exact .refl _
          · exact hremaining
          · exact hpaired
          · exact ⟨hid, rfl⟩

theorem recordVenueTradeFinality_lifecycle {orderId : Uuid} {venueTradeId : String}
    {status : TradeState} {r : Committed Bool}
    (h : recordVenueTradeFinality orderId venueTradeId status db = .ok r) :
    r.db.lifecycle = db.lifecycle := by
  unfold recordVenueTradeFinality at h
  dsimp only at h
  split at h
  · cases h
    rfl
  · split at h <;> cases h <;> rfl

theorem upsertVenuePositions_lifecycle {current : List PositionRecord}
    {observed : List ObservedVenuePosition} {tokens tokens' : List String} {db' : Db}
    {events events' : List ExecutionEvent}
    (h : upsertVenuePositions current observed tokens db events = .ok (tokens', db', events')) :
    db'.lifecycle = db.lifecycle := by
  induction observed generalizing tokens db events with
  | nil =>
    cases h
    rfl
  | cons observed rest ih =>
    simp only [upsertVenuePositions] at h
    split at h
    · cases h
    · split at h
      · cases h
      · split at h
        · exact (ih h).trans rfl
        · exact (ih h).trans rfl

theorem zeroMissingPositions_lifecycle {tokens : List String} {current : List PositionRecord}
    {events : List ExecutionEvent} :
    (zeroMissingPositions tokens current db events).1.lifecycle = db.lifecycle := by
  induction current generalizing db events with
  | nil => rfl
  | cons prior rest ih =>
    simp only [zeroMissingPositions]
    split
    · exact ih
    · exact ih.trans rfl

theorem reconcileVenuePositions_lifecycle {observed : List ObservedVenuePosition}
    {r : Committed Unit} (h : reconcileVenuePositions observed db = .ok r) :
    r.db.lifecycle = db.lifecycle := by
  unfold reconcileVenuePositions at h
  dsimp only at h
  split at h
  · cases h
  · rename_i hupsert
    cases h
    exact zeroMissingPositions_lifecycle.trans (upsertVenuePositions_lifecycle hupsert)

end Orders

/-! ## Housekeeping -/

/-- The operations that keep house at most draw identifiers. -/
theorem Db.KeepsHouse.steps {M : OrderMove → Prop} {db db' : Db} (h : db.KeepsHouse db') :
    MoveSteps M db.lifecycle db'.lifecycle := by
  obtain ⟨_, _, _, _, _, _, _, _, _, _, hle, rfl⟩ := h
  exact .single (.draw hle)

/-! ## Paper fills -/

section Paper

variable {s : Lifecycle} {db : Db}

theorem fillCoreOrder_steps (hs : Coherent s) (hdb : db.lifecycle = s) {trade : PaperTrade}
    {venueOrderId venueTradeId : String} {fill nextRemaining : Decimal} {state : OrderState}
    {now : Time} (hstate : state = .filled ∨ state = .partiallyFilled) :
    MoveSteps (StoreCall.applyPaperTradeThrough trade).Moves s
      (fillCoreOrder trade venueOrderId venueTradeId fill nextRemaining state now
        db).1.lifecycle := by
  subst hdb
  unfold fillCoreOrder
  split
  · exact .refl
  · rename_i core hcore
    obtain ⟨hmem, -⟩ := find?_mem hcore
    split
    · rename_i hactive
      obtain ⟨i, hi, howner, hpaired⟩ := hs.owner hmem
      have hsubmitted := paired_active hactive hpaired
      have hnext : paperFilledState core.state state = .filled ∨
          paperFilledState core.state state = .partiallyFilled ∨
          paperFilledState core.state state = .cancelPending := by
        unfold paperFilledState
        split
        · exact Or.inr (Or.inr rfl)
        · exact hstate.imp id Or.inl
      have hpaired' : paired i.state (paperFilledState core.state state) = true := by
        rw [hsubmitted]
        rcases hnext with heq | heq | heq <;> rw [heq] <;> rfl
      have hsettled : ¬ (paperFilledState core.state state).unsettled = true := by
        rcases hnext with heq | heq | heq <;> rw [heq] <;> decide
      dsimp only
      generalize hfill : applyMatchedFill _ core (some venueOrderId) fill (some trade.price)
        [venueTradeId] now = result
      obtain ⟨_, _, _, _, n, hle, hframe⟩ := applyMatchedFill_frame _ core (some venueOrderId)
        fill (some trade.price) [venueTradeId] now
      rw [hfill] at hframe
      obtain ⟨db', event⟩ := result
      subst hframe
      refine .head (.draw hle) (.single (.ofOrderUpdate (hs.draw hle) hi hmem howner rfl
        (fun row hrow => hrow) ?_ ?_ ?_ ?_))
      · exact .refl _
      · exact fun hunsettled => absurd hunsettled hsettled
      · exact hpaired'
      · exact ⟨hactive, hnext⟩
    · exact .refl

theorem fillRestingOrder_steps (hs : Coherent db.lifecycle) {trade : PaperTrade} {now : Time}
    {row : PaperVenueOrder} {fill : Decimal} {balances balances' : PaperBalances} {db' : Db}
    {events : List ExecutionEvent}
    (h : fillRestingOrder trade now row fill balances db = .ok (balances', db', events)) :
    MoveSteps (StoreCall.applyPaperTradeThrough trade).Moves db.lifecycle
      db'.lifecycle := by
  have hstate : ∀ remaining, paperFillState remaining = .filled ∨
      paperFillState remaining = .partiallyFilled := by
    intro remaining
    unfold paperFillState
    split
    · exact Or.inl rfl
    · exact Or.inr rfl
  unfold fillRestingOrder at h
  dsimp only at h
  split at h
  · cases h
  · cases h
    simp only [Db.appendEvent_lifecycle]
    refine fillCoreOrder_steps hs ?_ (hstate _)
    rfl

theorem applyTradeThrough_steps (hs : Coherent s) (hdb : db.lifecycle = s)
    {trade : PaperTrade} {now : Time}
    {rows : List PaperVenueOrder} {size : Decimal} {count count' : Nat}
    {balances balances' : PaperBalances} {db' : Db} {events events' : List ExecutionEvent}
    (h : applyTradeThrough trade now rows size count balances db events =
      .ok (count', balances', db', events')) :
    MoveSteps (StoreCall.applyPaperTradeThrough trade).Moves s db'.lifecycle := by
  subst hdb
  induction rows generalizing db size count balances events with
  | nil =>
    cases h
    exact .refl
  | cons row rows ih =>
    simp only [applyTradeThrough] at h
    split at h
    · cases h
      exact .refl
    · split at h
      · exact ih h hs
      · split at h
        · cases h
        · rename_i hfill
          have hsteps := fillRestingOrder_steps hs hfill
          exact hsteps.trans (ih h (hs.moves hsteps))

theorem applyPaperTradeThrough_steps (hs : Coherent db.lifecycle) {mode : Mode}
    {trade : PaperTrade} {now : Time} {r : Committed Nat}
    (h : applyPaperTradeThrough mode trade now db = .ok r) :
    MoveSteps (StoreCall.applyPaperTradeThrough trade).Moves db.lifecycle
      r.db.lifecycle := by
  unfold applyPaperTradeThrough at h
  split at h
  · cases h
  · split at h
    · cases h
    · dsimp only at h
      split at h
      · cases h
        exact .refl
      · split at h
        · cases h
        · split at h
          · cases h
          · rename_i hloop
            have hsteps := applyTradeThrough_steps hs (by rfl) hloop
            cases h
            exact hsteps

end Paper

end OddsfoxExecution
