import OddsfoxExecution.Store.Intents
import OddsfoxExecution.Store.Fills

/-!
# The submission of a prepared order

The transactions around `ExecutionVenue::submit`: `begin_submission` before the
venue sees a byte, `finish_submission` for its answer,
`recover_interrupted_submissions` for a process that died in between, and
`resolve_unknown_submission` for an outcome learnt later.
-/

namespace OddsfoxExecution

def beginSubmission (intentId orderId : Uuid) (db : Db) : Tx Unit :=
  if db.controlState.state ≠ .ready then .error (.newRiskDisabled db.controlState.state)
  else if Table.rowsAffected (IntentRecord.At intentId .prepared) db.intents ≠ 1 ∨
      Table.rowsAffected (OrderRecord.AtPair orderId intentId .prepared) db.orders ≠ 1 then
    .error (.identityMismatch "prepared intent/order pair changed before submission")
  else if Table.rowsAffected (SubmissionAttempt.At (db.preparedOrderId intentId) .prepared)
      db.submissionAttempts ≠ 1 then
    .error (.identityMismatch "submission attempt was not PREPARED")
  else
    let db : Db := { db with
      intents := Table.updateWhere (IntentRecord.At intentId .prepared)
        (fun i => { i with state := .submitting }) db.intents
      orders := Table.updateWhere (OrderRecord.AtPair orderId intentId .prepared)
        (fun o => { o with state := .submitting }) db.orders
      submissionAttempts := Table.updateWhere
        (SubmissionAttempt.At (db.preparedOrderId intentId) .prepared)
        (fun a => { a with state := .submitting }) db.submissionAttempts
      orderTransitions := db.orderTransitions ++ [⟨orderId, .prepared, .submitting⟩] }
    let (db, intentEvent) := db.appendEvent "intent.submitting" "intent" (.uuid intentId)
    let (db, orderEvent) := db.appendEvent "order.submitting" "order" (.uuid orderId)
    .ok ⟨(), db, [intentEvent, orderEvent]⟩

/-- The order columns `finish_submission` and `resolve_unknown_submission` set. -/
def OrderRecord.settle (state : OrderState) (venueOrderId : Option String)
    (remainingQuantity : Decimal) (o : OrderRecord) : OrderRecord :=
  { o with state, venueOrderId := venueOrderId.or o.venueOrderId, remainingQuantity }

/-- The remaining quantity `finish_submission` derives from the venue's answer. -/
def submissionRemaining (originalQuantity : Decimal) (orderState : OrderState)
    (filledQuantity : Decimal) : Decimal :=
  if orderState.terminal then 0 else max (originalQuantity - filledQuantity) 0

/-- The attempt state `finish_submission` records. -/
def submissionAttemptState (intentState : IntentState) (orderState : OrderState) : AttemptState :=
  if intentState = .unknown then .unknown
  else if orderState = .rejected then .rejected
  else .accepted

def finishSubmission (intentId orderId : Uuid) (intentState : IntentState)
    (orderState : OrderState) (venueOrderId : Option String) (responseClass : String)
    (filledQuantity : Decimal) (filledPrice : Option Decimal) (venueTradeIds : List String)
    (now : Time) (db : Db) : Tx Unit :=
  if intentState ≠ .submitted ∧ intentState ≠ .unknown then
    .error (.identityMismatch "invalid terminal submission intent state")
  else
    match db.orders.find? fun o => OrderRecord.AtPair orderId intentId .submitting o with
    | none => .error (.identityMismatch "submitting order changed before response commit")
    | some priorOrder =>
      let remainingQuantity :=
        submissionRemaining priorOrder.originalQuantity orderState filledQuantity
      match validateVenueOrderEvidence priorOrder.originalQuantity orderState remainingQuantity
          filledQuantity filledPrice with
      | .error e => .error e
      | .ok () =>
        if Table.rowsAffected (IntentRecord.At intentId .submitting) db.intents ≠ 1 ∨
            Table.rowsAffected (OrderRecord.AtPair orderId intentId .submitting) db.orders ≠ 1 then
          .error (.identityMismatch
            "submitting intent/order pair changed before response commit")
        else
          let db : Db := { db with
            intents := Table.updateWhere (IntentRecord.At intentId .submitting)
              (fun i => { i with state := intentState }) db.intents
            orders := Table.updateWhere (OrderRecord.AtPair orderId intentId .submitting)
              (OrderRecord.settle orderState venueOrderId remainingQuantity) db.orders }
          let (db, tradeEvent) :=
            if intentState = .submitted then
              applyMatchedFill db priorOrder venueOrderId filledQuantity filledPrice venueTradeIds
                now
            else (db, none)
          let db : Db := { db with
            submissionAttempts := Table.updateWhere
              (SubmissionAttempt.At (db.preparedOrderId intentId) .submitting)
              (fun a => { a with
                state := submissionAttemptState intentState orderState
                responseClass := some responseClass }) db.submissionAttempts
            orderTransitions := db.orderTransitions ++ [⟨orderId, .submitting, orderState⟩] }
          let (db, intentEvent) :=
            db.appendEvent ("intent." ++ intentState.lower) "intent" (.uuid intentId)
          let (db, orderEvent) :=
            db.appendEvent ("order." ++ orderState.lower) "order" (.uuid orderId)
          .ok ⟨(), db, [intentEvent, orderEvent] ++ tradeEvent.toList⟩

/-- An order joined with the identifier its prepared payload determines. -/
structure UnknownSubmission where
  orderId : Uuid
  intentId : Uuid
  deterministicOrderId : String
deriving DecidableEq

/-- The rows `orders JOIN prepared_orders` gives for one order. -/
def Db.preparedJoin (db : Db) (order : OrderRecord) : List UnknownSubmission :=
  (db.preparedOrders.filter fun p => p.intentId = order.intentId).map fun p =>
    { orderId := order.id, intentId := order.intentId
      deterministicOrderId := p.deterministicOrderId }

/-- The rows `recover_interrupted_submissions` selects. -/
def Db.interruptedSubmissions (db : Db) : List UnknownSubmission :=
  db.orders.flatMap fun o =>
    (db.intents.filter fun i => i.id = o.intentId ∧
      (o.state = .submitting ∨ i.state = .submitting)).flatMap fun _ => db.preparedJoin o

/-- One row of the loop of `recover_interrupted_submissions`. -/
def recoverInterrupted (row : UnknownSubmission) (db : Db) : Db × List ExecutionEvent :=
  let db : Db := { db with
    orders := Table.updateWhere (fun o : OrderRecord => o.id = row.orderId)
      (fun o => { o with
        state := .unknown
        venueOrderId := o.venueOrderId.or (some row.deterministicOrderId) }) db.orders
    intents := Table.updateWhere (fun i : IntentRecord => i.id = row.intentId)
      (fun i => { i with state := .unknown }) db.intents
    submissionAttempts := Table.updateWhere
      (SubmissionAttempt.At (db.preparedOrderId row.intentId) .submitting)
      (fun a => { a with
        state := .unknown, responseClass := some "PROCESS_INTERRUPTED" }) db.submissionAttempts
    orderTransitions := db.orderTransitions ++ [⟨row.orderId, .submitting, .unknown⟩] }
  let (db, intentEvent) := db.appendEvent "intent.unknown" "intent" (.uuid row.intentId)
  let (db, orderEvent) := db.appendEvent "order.unknown" "order" (.uuid row.orderId)
  (db, [intentEvent, orderEvent])

def recoverInterruptedRows : List UnknownSubmission → Db → Db × List ExecutionEvent
  | [], db => (db, [])
  | row :: rows, db =>
    let (db, events) := recoverInterrupted row db
    let (db, rest) := recoverInterruptedRows rows db
    (db, events ++ rest)

def recoverInterruptedSubmissions (db : Db) : Tx Nat :=
  let interrupted := db.interruptedSubmissions
  let (db, events) := recoverInterruptedRows interrupted db
  .ok ⟨interrupted.length, db, events⟩

structure PreparedSubmission where
  orderId : Uuid
  deterministicOrderId : String
  normalizedJson : String
  signedPayloadJson : Option String
  signerAddress : Option String
  funderAddress : Option String
  protocolVersion : Nat
  sdkVersion : String
deriving DecidableEq

/-- The rows of the join `prepared_submission` reads. -/
def Db.preparedSubmissions (db : Db) (intentId : Uuid) : List PreparedSubmission :=
  (db.orders.filter fun o => o.intentId = intentId ∧ o.state = .prepared).flatMap fun o =>
    (db.preparedOrders.filter fun p => p.intentId = o.intentId).flatMap fun p =>
      (db.submissionAttempts.filter fun a => a.preparedOrderId = p.id ∧
        a.state = .prepared).map fun _ =>
          { orderId := o.id
            deterministicOrderId := p.deterministicOrderId
            normalizedJson := p.normalizedJson
            signedPayloadJson := p.signedPayloadJson
            signerAddress := p.signerAddress
            funderAddress := p.funderAddress
            protocolVersion := p.protocolVersion
            sdkVersion := p.sdkVersion }

def preparedSubmission (intentId : Uuid) (db : Db) : Except StoreError PreparedSubmission :=
  match db.preparedSubmissions intentId with
  | [] => .error .notFound
  | row :: _ =>
    if 2 ^ 32 ≤ row.protocolVersion then
      .error (.identityMismatch "stored protocol version is outside u32")
    else .ok row

def Db.unknownSubmissions (db : Db) : List UnknownSubmission :=
  (db.orders.filter fun o => o.state = .unknown).flatMap db.preparedJoin

def resolveUnknownSubmission (unknown : UnknownSubmission) (venueOrderId : String)
    (state : OrderState) (remainingQuantity filledQuantity : Decimal)
    (filledPrice : Option Decimal) (venueTradeIds : List String) (now : Time) (db : Db) : Tx Unit :=
  if state = .unknown then .ok ⟨(), db, []⟩
  else
    match db.orders.find? fun o => OrderRecord.At unknown.orderId .unknown o with
    | none => .error (.identityMismatch "unknown order changed during reconciliation")
    | some priorOrder =>
      match validateVenueOrderEvidence priorOrder.originalQuantity state remainingQuantity
          filledQuantity filledPrice with
      | .error e => .error e
      | .ok () =>
        if Table.rowsAffected (OrderRecord.At unknown.orderId .unknown) db.orders ≠ 1 then
          .error (.identityMismatch "unknown order changed during reconciliation")
        else
          let db : Db := { db with
            orders := Table.updateWhere (OrderRecord.At unknown.orderId .unknown)
              (OrderRecord.settle state (some venueOrderId) remainingQuantity) db.orders
            intents := Table.updateWhere (IntentRecord.At unknown.intentId .unknown)
              (fun i => { i with state := .submitted }) db.intents }
          let (db, tradeEvent) := applyMatchedFill db priorOrder (some venueOrderId)
            filledQuantity filledPrice venueTradeIds now
          let db : Db := { db with
            submissionAttempts := Table.updateWhere
              (SubmissionAttempt.At (db.preparedOrderId unknown.intentId) .unknown)
              (fun a => { a with
                state := .resolved, responseClass := some "RECONCILED" }) db.submissionAttempts
            orderTransitions := db.orderTransitions ++ [⟨unknown.orderId, .unknown, state⟩] }
          let (db, orderEvent) :=
            db.appendEvent ("order." ++ state.lower) "order" (.uuid unknown.orderId)
          let (db, intentEvent) :=
            db.appendEvent "intent.submitted" "intent" (.uuid unknown.intentId)
          .ok ⟨(), db, [orderEvent, intentEvent] ++ tradeEvent.toList⟩

/-! ## What a begun submission was -/

/-- A submission begins in a READY service, for a PREPARED intent and its PREPARED order. -/
structure SubmissionBegun (db db' : Db) (intentId orderId : Uuid) : Prop where
  ready : db.controlState.state = .ready
  intent : ∃ i ∈ db.intents, IntentRecord.At intentId .prepared i
  order : ∃ o ∈ db.orders, OrderRecord.AtPair orderId intentId .prepared o
  intent' : ∃ i ∈ db'.intents, IntentRecord.At intentId .submitting i
  order' : ∃ o ∈ db'.orders, OrderRecord.AtPair orderId intentId .submitting o

theorem beginSubmission_ok {db : Db} {intentId orderId : Uuid} {r : Committed Unit}
    (h : beginSubmission intentId orderId db = .ok r) :
    SubmissionBegun db r.db intentId orderId := by
  unfold beginSubmission at h
  split at h
  · cases h
  · rename_i hready
    split at h
    · cases h
    · rename_i hpair
      split at h
      · cases h
      · cases h
        obtain ⟨hintent, horder⟩ := not_or.mp hpair
        obtain ⟨i, hi, hat⟩ := Table.exists_of_rowsAffected_eq_one (not_not.mp hintent)
        obtain ⟨o, ho, hpairAt⟩ := Table.exists_of_rowsAffected_eq_one (not_not.mp horder)
        exact ⟨not_not.mp hready, ⟨i, hi, hat⟩, ⟨o, ho, hpairAt⟩,
          ⟨_, Table.mem_updateWhere_of_mem hi hat, hat.1, rfl⟩,
          ⟨_, Table.mem_updateWhere_of_mem ho hpairAt, hpairAt.1, hpairAt.2.1, rfl⟩⟩

end OddsfoxExecution
