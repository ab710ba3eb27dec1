import OddsfoxExecution.Store.Effects

/-!
# What the operations before submission leave

One lemma for each operation on an intent that has no order yet: the rows it
found, the rows it wrote and the tables it left alone.
-/

namespace OddsfoxExecution

/-! ## The risk decision -/

/-- What an approved decision reserves. -/
structure Reserved (intentId : Uuid) (request : OrderIntentRequest) (market : MarketRules)
    (db : Db) (row : RiskReservation) : Prop where
  fresh : ∀ r ∈ db.riskReservations, r.intentId ≠ intentId
  row : ∃ quantity price shares quote, request.quantityDecimal = .ok quantity ∧
    request.protectionPrice = .ok price ∧
    conservativeExposure request market quantity price = some (shares, quote) ∧
    row = reservationFor intentId request market price shares quote

/-- An intent leaves VALIDATING with a decision on the exposure the database then has. -/
structure RiskDecided (intentId : Uuid) (request : OrderIntentRequest) (market : MarketRules)
    (book : OrderBook) (policy : RiskPolicy) (now : Time) (db db' : Db) : Prop where
  validating : ∃ i ∈ db.intents, IntentRecord.At intentId .validating i
  outcome : ∃ snapshot next f, db.riskSnapshot request.conditionId request.tokenId now =
      .ok snapshot ∧ (∀ i, (f i).id = i.id ∧ (f i).request = i.request ∧ (f i).state = next) ∧
    db'.intents = Table.updateWhere (IntentRecord.At intentId .validating) f db.intents ∧
    ((next = .approved ∧ (policy.evaluate request market book snapshot).approved = true ∧
        ∃ row, Reserved intentId request market db row ∧
          db'.riskReservations = db.riskReservations ++ [row]) ∨
      (next = .rejected ∧ db'.riskReservations = db.riskReservations))
  orders : db'.orders = db.orders
  trades : db'.trades = db.trades
  positions : db'.positions = db.positions

theorem reserveRisk_ok {intentId : Uuid} {request : OrderIntentRequest} {market : MarketRules}
    {db db' : Db} {event : ExecutionEvent}
    (h : reserveRisk intentId request market db = .ok (db', event)) :
    ∃ row, Reserved intentId request market db row ∧
      db' = (({ db with riskReservations := db.riskReservations ++ [row] } : Db).appendEvent
        "risk.reserved" "risk_reservation" (.uuid intentId)).1 := by
  unfold reserveRisk at h
  split at h
  · cases h
  · rename_i price hprice
    split at h
    · cases h
    · rename_i quantity hquantity
      split at h
      · cases h
      · rename_i shares quote hexposure
        split at h
        · cases h
        · rename_i reservations hinsert
          cases h
          obtain ⟨hfresh, rfl⟩ := Table.insertNew_eq_some.mp hinsert
          exact ⟨_, ⟨hfresh, _, _, _, _, hquantity, hprice, hexposure, rfl⟩, rfl⟩

theorem concludeRisk_ok {intentId : Uuid} {decision : RiskDecision} {events : List ExecutionEvent}
    {db : Db} {r : Committed RiskDecision}
    (h : concludeRisk intentId decision events db = .ok r) :
    (∃ i ∈ db.intents, IntentRecord.At intentId .validating i) ∧
      ∃ f, (∀ i, (f i).id = i.id ∧ (f i).request = i.request ∧
          (f i).state = if decision.approved = true then .approved else .rejected) ∧
        r.db.intents = Table.updateWhere (IntentRecord.At intentId .validating) f db.intents ∧
        r.db.riskReservations = db.riskReservations ∧ r.db.orders = db.orders ∧
        r.db.trades = db.trades ∧ r.db.positions = db.positions := by
  unfold concludeRisk at h
  dsimp only at h
  split at h
  · cases h
  · rename_i hone
    cases h
    refine ⟨Table.exists_of_rowsAffected_eq_one (not_not.mp hone), _, ?_, rfl, rfl, rfl, rfl, rfl⟩
    exact fun _ => ⟨rfl, rfl, rfl⟩

theorem evaluateAndReserveRisk_ok {intentId : Uuid} {request : OrderIntentRequest}
    {market : MarketRules} {book : OrderBook} {policy : RiskPolicy} {now : Time} {db : Db}
    {r : Committed RiskDecision}
    (h : evaluateAndReserveRisk intentId request market book policy now db = .ok r) :
    RiskDecided intentId request market book policy now db r.db := by
  unfold evaluateAndReserveRisk at h
  split at h
  · cases h
  · rename_i snapshot hsnapshot
    dsimp only at h
    split at h
    · cases h
    · split at h
      · rename_i happroved
        split at h
        · cases h
        · rename_i hreserve
          obtain ⟨row, hreserved, rfl⟩ := reserveRisk_ok hreserve
          obtain ⟨hvalidating, f, hset, hintents, hreservations, horders, htrades, hpositions⟩ :=
            concludeRisk_ok h
          refine ⟨hvalidating, ⟨snapshot, .approved, f, hsnapshot, fun i => ?_, hintents,
            Or.inl ⟨rfl, happroved, row, ⟨hreserved.fresh, hreserved.row⟩, hreservations⟩⟩,
            horders, htrades, hpositions⟩
          exact ⟨(hset i).1, (hset i).2.1, (hset i).2.2.trans (if_pos happroved)⟩
      · rename_i hrejected
        obtain ⟨hvalidating, f, hset, hintents, hreservations, horders, htrades, hpositions⟩ :=
          concludeRisk_ok h
        refine ⟨hvalidating, ⟨snapshot, .rejected, f, hsnapshot, fun i => ?_, hintents,
          Or.inr ⟨rfl, hreservations⟩⟩, horders, htrades, hpositions⟩
        exact ⟨(hset i).1, (hset i).2.1, (hset i).2.2.trans (if_neg hrejected)⟩

/-! ## Preparation -/

/-- The active reservation of a PREPARING intent becomes an order. -/
structure OrderPrepared (intentId : Uuid) (request : OrderIntentRequest) (feeRate : Decimal)
    (db db' : Db) : Prop where
  preparing : ∃ i ∈ db.intents, IntentRecord.At intentId .preparing i
  intents : db'.intents = Table.updateWhere (IntentRecord.At intentId .preparing)
    (fun i => { i with state := .prepared }) db.intents
  reservations : db'.riskReservations = Table.updateWhere (RiskReservation.At intentId .active)
    (fun r => { r with state := .consumed }) db.riskReservations
  order : ∃ reservation ∈ db.riskReservations, RiskReservation.At intentId .active reservation ∧
    ∃ price order, request.protectionPrice = .ok price ∧ db'.orders = db.orders ++ [order] ∧
      order.id = db.nextUuid + 2 ∧ order.intentId = intentId ∧ order.state = .prepared ∧
      order.conditionId = request.conditionId ∧ order.tokenId = request.tokenId ∧
      order.side = request.side ∧ order.price = price ∧ order.feeRate = feeRate ∧
      order.quoteExposure = reservation.quoteExposure ∧
      order.originalQuantity = reservation.quantity ∧
      order.remainingQuantity = reservation.quantity
  trades : db'.trades = db.trades
  positions : db'.positions = db.positions

theorem createPreparedOrder_ok {intentId : Uuid} {request : OrderIntentRequest}
    {prepared : PreparedVenueOrder} {version : String} {feeRate : Decimal} {now : Time} {db : Db}
    {r : Committed OrderRecord}
    (h : createPreparedOrder intentId request prepared version feeRate now db = .ok r) :
    OrderPrepared intentId request feeRate db r.db := by
  unfold createPreparedOrder at h
  split at h
  · cases h
  · split at h
    · cases h
    · dsimp only at h
      split at h
      · cases h
      · rename_i price hprice
        split at h
        · cases h
        · rename_i reservation hreservation
          split at h
          · cases h
          · split at h
            · cases h
            · rename_i hone
              cases h
              obtain ⟨hmem, hat⟩ := find?_mem hreservation
              exact ⟨Table.exists_of_rowsAffected_eq_one (not_not.mp hone), rfl, rfl,
                ⟨reservation, hmem, hat, price, _, hprice, rfl, rfl, rfl, rfl, rfl, rfl, rfl, rfl,
                  rfl, rfl, rfl, rfl⟩, rfl, rfl⟩

/-- The active reservation of a PREPARING intent is released and the intent REJECTED. -/
structure PreparationRejected (intentId : Uuid) (db db' : Db) : Prop where
  preparing : ∃ i ∈ db.intents, IntentRecord.At intentId .preparing i
  intents : ∃ f, (∀ i, (f i).id = i.id ∧ (f i).request = i.request ∧ (f i).state = .rejected) ∧
    db'.intents = Table.updateWhere (IntentRecord.At intentId .preparing) f db.intents
  reservations : db'.riskReservations = Table.updateWhere (RiskReservation.At intentId .active)
    (fun r => { r with state := .released }) db.riskReservations
  orders : db'.orders = db.orders
  trades : db'.trades = db.trades
  positions : db'.positions = db.positions

theorem rejectPreparation_ok {intentId : Uuid} {code message : String} {db : Db}
    {r : Committed Unit} (h : rejectPreparation intentId code message db = .ok r) :
    PreparationRejected intentId db r.db := by
  unfold rejectPreparation at h
  split at h
  · cases h
  · split at h
    · cases h
    · rename_i hone
      cases h
      refine ⟨Table.exists_of_rowsAffected_eq_one (not_not.mp hone), ⟨_, ?_, rfl⟩,
        rfl, rfl, rfl, rfl⟩
      exact fun _ => ⟨rfl, rfl, rfl⟩

/-! ## Recovery -/

/-- An intent before submission goes back to RECEIVED and its active reservation is released. -/
structure IntentRecovered (row : IntentRecord) (db db' : Db) : Prop where
  recoverable : row.state.preSubmission = true ∧ row.state ≠ .prepared
  intents : db'.intents = Table.updateWhere (IntentRecord.At row.id row.state)
    (fun i => { i with state := .received }) db.intents
  reservations : db'.riskReservations = Table.updateWhere (RiskReservation.At row.id .active)
    (fun r => { r with state := .released }) db.riskReservations
  orders : db'.orders = db.orders
  trades : db'.trades = db.trades
  positions : db'.positions = db.positions
  drawn : db'.nextUuid = db.nextUuid

theorem recoverIntent_ok {row : IntentRecord} {db db' : Db} {events events' : List ExecutionEvent}
    (hrow : row.state.preSubmission = true)
    (h : recoverIntent row db events = .ok (db', events')) :
    db' = db ∨ IntentRecovered row db db' := by
  unfold recoverIntent at h
  split at h
  · split at h
    · cases h
    · cases h
      exact Or.inl rfl
  · rename_i hprepared
    split at h
    · cases h
      exact Or.inl rfl
    · dsimp only at h
      split at h <;> cases h <;>
        exact Or.inr ⟨⟨hrow, hprepared⟩, rfl, rfl, rfl, rfl, rfl, rfl⟩

/-- What each recovered intent keeps, the whole recovery keeps: `I` is about the database and the
intents still to be recovered. -/
theorem recoverPreSubmissionWork_induction {db : Db} {r : Committed (List Uuid)}
    (hintents : (db.intents.map IntentRecord.id).Nodup) {I : Db → Prop} (hnow : I db)
    (hstep : ∀ row db db', row ∈ db.intents → (db.intents.map IntentRecord.id).Nodup →
      IntentRecovered row db db' → I db → I db')
    (h : recoverPreSubmissionWork db = .ok r) : I r.db := by
  unfold recoverPreSubmissionWork at h
  dsimp only at h
  split at h
  · cases h
  · rename_i db' events hrows
    cases h
    change I db'
    have hpre : ∀ row ∈ (db.intents.filter fun i => i.state.preSubmission).insertionSort
        fun a b => createdBefore (a.createdAt, a.id) (b.createdAt, b.id),
        row.state.preSubmission = true ∧ row ∈ db.intents := fun row hrow => by
      rw [List.mem_insertionSort, List.mem_filter] at hrow
      exact ⟨by simpa using hrow.2, hrow.1⟩
    have hdistinct : (((db.intents.filter fun i => i.state.preSubmission).insertionSort
        fun a b => createdBefore (a.createdAt, a.id) (b.createdAt, b.id)).map
          IntentRecord.id).Nodup := by
      refine ((List.perm_insertionSort _ _).map _).nodup_iff.mpr ?_
      exact hintents.sublist (List.filter_sublist.map _)
    generalize (db.intents.filter fun i => i.state.preSubmission).insertionSort
      (fun a b => createdBefore (a.createdAt, a.id) (b.createdAt, b.id)) =
        rows at hrows hpre hdistinct
    generalize ([] : List ExecutionEvent) = sent at hrows
    induction rows generalizing db sent with
    | nil =>
      cases hrows
      exact hnow
    | cons row rows ih =>
      obtain ⟨hfresh, hdistinct⟩ := List.nodup_cons.mp hdistinct
      simp only [recoverIntents] at hrows
      split at hrows
      · cases hrows
      · rename_i db₁ events₁ hrow
        obtain ⟨hstate, hmem⟩ := hpre row List.mem_cons_self
        have hrest := fun other hother => hpre other (List.mem_cons_of_mem row hother)
        rcases recoverIntent_ok hstate hrow with rfl | hrecovered
        · exact ih hintents hnow hrest hdistinct _ hrows
        · refine ih ?_ (hstep row db db₁ hmem hintents hrecovered hnow) (fun other hother => ?_)
            hdistinct _ hrows
          · rw [hrecovered.intents, Table.map_updateWhere]
            · exact hintents
            · exact fun _ => rfl
          · obtain ⟨hother', hmem'⟩ := hrest other hother
            refine ⟨hother', ?_⟩
            rw [hrecovered.intents]
            refine Table.mem_updateWhere.mpr ⟨other, hmem', (if_neg fun hat => ?_).symm⟩
            exact hfresh (List.mem_map.mpr ⟨other, hother, hat.1⟩)

end OddsfoxExecution
