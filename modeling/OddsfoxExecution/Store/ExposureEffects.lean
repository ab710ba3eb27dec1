import OddsfoxExecution.Store.Decisions
import OddsfoxExecution.Store.Exposure

/-!
# What the operations do to exposure

Every operation of the risk pipeline is a sequence of `ExposureStep`s, whatever
evidence it accepts.  What it enters was approved on the snapshot it found, what
it charges is a reservation's, and what it fills has the price it reports.
-/

namespace OddsfoxExecution

def OrderIntentRequest.commitment (request : OrderIntentRequest) (market : MarketRules) :
    Option Commitment :=
  match request.quantityDecimal, request.protectionPrice with
  | .ok quantity, .ok price =>
    (conservativeExposure request market quantity price).map fun exposure =>
      (reservationFor 0 request market price exposure.1 exposure.2).commitment
  | _, _ => none

theorem OrderIntentRequest.exposure_of_commitment {request : OrderIntentRequest}
    {market : MarketRules} {c : Commitment} (h : request.commitment market = some c) :
    ∃ quantity price shares quote, request.quantityDecimal = .ok quantity ∧
      request.protectionPrice = .ok price ∧
      conservativeExposure request market quantity price = some (shares, quote) ∧
      c = (reservationFor 0 request market price shares quote).commitment := by
  unfold commitment at h
  split at h
  · rename_i quantity price hquantity hprice
    obtain ⟨⟨shares, quote⟩, hexposure, rfl⟩ := Option.map_eq_some_iff.mp h
    exact ⟨quantity, price, shares, quote, hquantity, hprice, hexposure, rfl⟩
  · cases h

theorem OrderIntentRequest.commitment_sound {request : OrderIntentRequest} {market : MarketRules}
    {c : Commitment} (h : request.commitment market = some c) : c.Sound := by
  obtain ⟨quantity, price, shares, quote, hquantity, hprice, hexposure, rfl⟩ :=
    exposure_of_commitment h
  obtain ⟨hshares, hquote⟩ := conservativeExposure_pos (quantityDecimal_pos hquantity)
    (protectionPrice_pos hprice).1 hexposure
  exact ⟨(protectionPrice_pos hprice).1, hshares, hshares.le, hquote.le⟩

/-- The policy approves a request, which makes the commitment. -/
structure RiskPolicy.Approves (policy : RiskPolicy) (now : Time) (p : Portfolio)
    (request : OrderIntentRequest) (market : MarketRules) (book : OrderBook) (c : Commitment) :
    Prop where
  approved : (policy.evaluate request market book
    (p.snapshot request.conditionId request.tokenId now)).approved = true
  commitment : request.commitment market = some c

namespace StoreCall

/-- The price a call reports for the fills it books. -/
def fillPrice : StoreCall → Option Decimal
  | finishSubmission _ _ _ _ _ _ _ price _ => price
  | resolveUnknownSubmission _ _ _ _ _ price _ => price
  | reconcileOrderProjection _ _ _ _ price _ => price
  | applyPaperTradeThrough trade => some trade.price
  | _ => none

def Fills (db : Db) : StoreCall → OrderRecord → Prop
  | finishSubmission _ orderId .., o => o.id = orderId
  | resolveUnknownSubmission unknown .., o => o.id = unknown.orderId
  | reconcileOrderProjection orderId .., o => o.id = orderId
  | applyPaperTradeThrough trade, o =>
    ∃ row ∈ db.restingPaperOrders trade.tokenId trade.observedAt, row.crossedBy trade ∧
      o.venueOrderId = some row.venueOrderId
  | _, _ => False

/-- What a call found in a database at a time enters, charges and fills. -/
def conditions (now : Time) (db : Db) (call : StoreCall) : Conditions where
  enters p c := p = db.portfolio ∧ ∃ intentId request market book policy,
    call = .evaluateAndReserveRisk intentId request market book policy ∧
      policy.Approves now p request market book c
  charges c feeRate := ∃ intentId request prepared version,
    call = .createPreparedOrder intentId request prepared version feeRate ∧
      ∃ r ∈ db.riskReservations, RiskReservation.At intentId .active r ∧ c = r.commitment
  fills c f := call.fillPrice = some f.price ∧ f.createdAt = now ∧ 0 < f.price ∧ f.price < 1 ∧
    ∃ o ∈ db.orders, call.Fills db o ∧ c.side = o.side ∧ c.price = o.price

end StoreCall

/-! ## The snapshot -/

theorem coe_filter_map {α β : Type} (p : α → Prop) [DecidablePred p] (f : α → β) (t : List α) :
    ((t.filter fun row => decide (p row)).map f : Multiset β) =
      (t.map fun row => if p row then {f row} else 0).sum := by
  induction t with
  | nil => rfl
  | cons row rest ih =>
    rw [List.map_cons, List.sum_cons, ← ih, List.filter_cons]
    by_cases hp : p row
    · simp [hp]
    · simp [hp]

theorem foldl_addExposure (conditionId tokenId : String) (rows : List RiskExposureRow)
    (s : RiskSnapshot) :
    rows.foldl (addExposure conditionId tokenId) s =
      { s with
        marketOpenNotional := s.marketOpenNotional + (rows.map fun row =>
          if row.conditionId = conditionId then
            row.quoteExposure * row.quantity / row.originalQuantity else 0).sum
        tokenPendingBuys := s.tokenPendingBuys + (rows.map fun row =>
          if row.tokenId = tokenId ∧ row.side = .buy then row.quantity else 0).sum
        tokenPendingSells := s.tokenPendingSells + (rows.map fun row =>
          if row.tokenId = tokenId ∧ row.side = .sell then row.quantity else 0).sum
        grossExposure := s.grossExposure + (rows.map fun row =>
          if row.side = .buy then
            row.quoteExposure * row.quantity / row.originalQuantity * (1 + row.feeRate)
          else 0).sum } := by
  induction rows generalizing s with
  | nil => simp
  | cons row rest ih =>
    rw [List.foldl_cons, ih]
    simp only [addExposure, List.map_cons, List.sum_cons, add_assoc]

def Commitment.row (c : Commitment) : RiskExposureRow where
  conditionId := c.conditionId
  tokenId := c.tokenId
  side := c.side
  feeRate := c.feeRate
  quoteExposure := c.quoteExposure
  originalQuantity := c.originalQuantity
  quantity := c.quantity

/-- The commitments of the open orders and of the active reservations. -/
def Db.commitments (db : Db) : List Commitment :=
  (db.orders.filter fun o => o.state.exposed).map OrderRecord.commitment ++
    (db.riskReservations.filter fun r => r.state = .active).map RiskReservation.commitment

theorem Db.pending_portfolio (db : Db) : db.portfolio.pending = ↑db.commitments := by
  have horders := coe_filter_map (fun o : OrderRecord => o.state.exposed = true)
    OrderRecord.commitment db.orders
  have hreservations := coe_filter_map (fun r : RiskReservation => r.state = .active)
    RiskReservation.commitment db.riskReservations
  simp only [Bool.decide_eq_true] at horders
  rw [commitments, ← Multiset.coe_add, horders, hreservations]
  rfl

/-- The rows the snapshot reads are the commitments of the portfolio. -/
theorem Db.commitments_rows (db : Db) :
    db.commitments.map Commitment.row = db.orderExposures ++ db.reservationExposures := by
  rw [commitments, List.map_append, List.map_map, List.map_map]
  rfl

theorem Tracked.commitments_sound {db : Db} (h : Tracked db.exposures) {c : Commitment}
    (hc : c ∈ db.commitments) : c.Sound := by
  rcases List.mem_append.mp hc with hc | hc
  · obtain ⟨o, ho, rfl⟩ := List.mem_map.mp hc
    exact h.sound o (List.mem_filter.mp ho).1
  · obtain ⟨r, hr, rfl⟩ := List.mem_map.mp hc
    exact h.reserved r (List.mem_filter.mp hr).1

theorem Db.total_portfolio (db : Db) (quantity : Commitment → Decimal) :
    db.portfolio.total quantity = (db.commitments.map quantity).sum := by
  rw [Portfolio.total, db.pending_portfolio, Multiset.map_coe, Multiset.sum_coe]

theorem holdings_abs {positions : List PositionRecord}
    (hnodup : (positions.map PositionRecord.tokenId).Nodup) :
    (holdings positions).sum (fun _ shares => |shares|) =
      (positions.map fun p => |p.shares|).sum := by
  induction positions with
  | nil => rfl
  | cons p rest ih =>
    obtain ⟨hfresh, hrest⟩ := List.nodup_cons.mp hnodup
    have hcons : holdings (p :: rest) = Finsupp.single p.tokenId p.shares + holdings rest := by
      rw [holdings, List.map_cons, List.sum_cons, holdings]
    have hnone : holdings rest p.tokenId = 0 := by
      have hnone : rest.find? (fun q => decide (q.tokenId = p.tokenId)) = none := by
        rw [List.find?_eq_none]
        exact fun q hq heq => hfresh (List.mem_map.mpr ⟨q, hq, of_decide_eq_true heq⟩)
      rw [holdings_apply hrest, hnone]
      rfl
    have hdisjoint : Disjoint (Finsupp.single p.tokenId p.shares).support
        (holdings rest).support := by
      refine Disjoint.mono_left Finsupp.support_single_subset ?_
      rw [Finset.disjoint_singleton_left, Finsupp.notMem_support_iff]
      exact hnone
    rw [hcons, Finsupp.sum_add_index_of_disjoint hdisjoint,
      Finsupp.sum_single_index abs_zero, ih hrest, List.map_cons, List.sum_cons]

/-- The snapshot `build_risk_snapshot` builds is the portfolio's. -/
theorem Db.riskSnapshot_eq {db : Db} (h : Tracked db.exposures) (conditionId tokenId : String)
    (now : Time) :
    db.riskSnapshot conditionId tokenId now =
      .ok (db.portfolio.snapshot conditionId tokenId now) := by
  have hpositive : ¬ ((db.commitments.map Commitment.row).any
      fun row => decide (row.originalQuantity ≤ 0)) = true := by
    simp only [List.any_map, List.any_eq_true, Function.comp, decide_eq_true_eq, not_exists,
      not_and, not_le]
    exact fun c hc => (h.commitments_sound hc).original
  have hdaily : (db.trades.filter fun t => startOfDay now ≤ t.createdAt).map
        (fun t => t.price * t.size) =
      ((db.trades.map TradeRecord.fill).filter fun f => startOfDay now ≤ f.createdAt).map
        fun f => f.price * f.size := by
    rw [List.filter_map, List.map_map]
    rfl
  have htokens : (db.positions.map PositionRecord.tokenId).Nodup := h.tokens
  have hmatched : (((db.trades.map TradeRecord.fill).filter
        fun f => startOfDay now ≤ f.createdAt).map fun f => f.price * f.size).sum =
      (db.portfolio.booked.map fun f =>
        if startOfDay now ≤ f.createdAt then f.price * f.size else 0).sum := by
    rw [Table.sum_filter (fun f : Fill => startOfDay now ≤ f.createdAt) fun f => f.price * f.size]
    rfl
  unfold Db.riskSnapshot
  dsimp only
  rw [← db.commitments_rows, if_neg hpositive, foldl_addExposure, hdaily, hmatched]
  simp only [List.map_map, Function.comp_def, zero_add, List.length_map, Except.ok.injEq,
    Portfolio.snapshot, Db.total_portfolio, db.pending_portfolio, Multiset.coe_card,
    Db.positionShares_eq htokens, ← holdings_abs htokens]
  rfl

/-! ## Steps that only change intents -/

section Operations

variable {conditions : Conditions} {s : Exposures} {db : Db}

/-- An update of intents that keeps what they ask for is a step, if it turns none SUBMITTING whose
order is not. -/
theorem ExposureStep.update (h : Tracked s) {p : IntentRecord → Prop} [DecidablePred p]
    {f : IntentRecord → IntentRecord} (hask : ∀ i, (f i).ask = i.ask)
    (hsubmitting : ∀ i ∈ s.intents, p i → (f i).state = .submitting →
      ∀ o ∈ s.orders, o.intentId = i.id → o.state = .submitting) :
    ExposureStep conditions s { s with intents := Table.updateWhere p f s.intents } := by
  refine .intents (Table.map_updateWhere hask) fun i hi hstate o ho howner => ?_
  obtain ⟨old, hold, rfl⟩ := Table.mem_updateWhere.mp hi
  by_cases hp : p old
  · rw [if_pos hp] at hstate howner
    exact hsubmitting old hold hp hstate o ho (howner.trans (congrArg Prod.fst (hask old)))
  · rw [if_neg hp] at hstate howner
    exact h.submitting o ho old hold howner.symm hstate

/-- The intent of an order that is not SUBMITTING is not SUBMITTING. -/
theorem Tracked.idle (h : Tracked s) {o : OrderRecord} (ho : o ∈ s.orders)
    (hstate : o.state ≠ .submitting) :
    ∀ i ∈ s.intents, i.id = o.intentId → i.state ≠ .submitting :=
  fun i hi howner hsubmitting => hstate (h.submitting o ho i hi howner hsubmitting)

/-- The only intent with an identifier has the state it was found in. -/
theorem Tracked.state_of_at (h : Tracked s) {id : Uuid} {state : IntentState}
    (hat : ∃ i ∈ s.intents, IntentRecord.At id state i) :
    ∀ i ∈ s.intents, i.id = id → i.state = state := by
  obtain ⟨found, hfound, hid, hstate⟩ := hat
  intro i hi hid'
  rwa [Table.eq_of_key_eq h.intentIds hi hfound (hid'.trans hid.symm)]

theorem admitIntent_exposures {actorId key : String} {request : OrderIntentRequest} {now : Time}
    {r : Committed Admission} (hrun : admitIntent actorId key request now db = .ok r) :
    ExposureSteps conditions db.exposures r.db.exposures := by
  unfold admitIntent at hrun
  split at hrun
  · split at hrun
    · cases hrun
    · split at hrun
      · cases hrun
      · split at hrun <;> cases hrun
        exact .refl
  · split at hrun
    · cases hrun
    · dsimp only at hrun
      split at hrun <;> cases hrun
      exact .single (.enroll (fun h => by cases h) rfl)

theorem transitionIntent_exposures (h : Tracked db.exposures) {id : Uuid}
    {expected next : IntentState} {rejection : Option (String × String)}
    {r : Committed IntentRecord} (hadvances : expected.advances next = true)
    (hrun : transitionIntent id expected next rejection db = .ok r) :
    ExposureSteps conditions db.exposures r.db.exposures := by
  have hnext : next ≠ .submitting := by
    rintro rfl
    cases expected <;> cases hadvances
  unfold transitionIntent at hrun
  dsimp only at hrun
  split at hrun
  · cases hrun
  · split at hrun <;> cases hrun
    refine .single (.update h ?_ fun i _ _ hstate => absurd hstate hnext)
    exact fun _ => rfl

/-! ## Reservations -/

theorem concludeRisk_exposures (h : Tracked db.exposures) {intentId : Uuid}
    {decision : RiskDecision} {events : List ExecutionEvent} {r : Committed RiskDecision}
    (hrun : concludeRisk intentId decision events db = .ok r) :
    ExposureSteps conditions db.exposures r.db.exposures := by
  unfold concludeRisk at hrun
  dsimp only at hrun
  split at hrun <;> cases hrun
  refine .single (.update h ?_ fun i _ _ hstate => ?_)
  · exact fun _ => rfl
  · dsimp only at hstate
    split at hstate <;> cases hstate

theorem evaluateAndReserveRisk_exposures (h : Tracked db.exposures) {intentId : Uuid}
    {request : OrderIntentRequest} {market : MarketRules} {book : OrderBook}
    {policy : RiskPolicy} {now : Time} {r : Committed RiskDecision}
    (hown : ∀ i ∈ db.intents, i.id = intentId → i.request = request)
    (hrun : evaluateAndReserveRisk intentId request market book policy now db = .ok r) :
    ExposureSteps
      ((StoreCall.evaluateAndReserveRisk intentId request market book policy).conditions now db)
      db.exposures r.db.exposures := by
  unfold evaluateAndReserveRisk at hrun
  split at hrun
  · cases hrun
  · rename_i snapshot hsnapshot
    dsimp only at hrun
    split at hrun
    · cases hrun
    · rename_i hfound
      have hdrawn : ∀ {conditions : Conditions}, ExposureStep conditions db.exposures
          { db.exposures with nextUuid := db.nextUuid + 1 } := .draw (Nat.le_succ _)
      split at hrun
      · rename_i happroved
        split at hrun
        · cases hrun
        · rename_i hreserve
          obtain ⟨row, hreserved, rfl⟩ := reserveRisk_ok hreserve
          obtain ⟨quantity, price, shares, quote, hquantity, hprice, hexposure, rfl⟩ :=
            hreserved.row
          have hintent : intentId < db.nextUuid := by
            obtain ⟨i, hi⟩ := Option.ne_none_iff_exists'.mp hfound
            obtain ⟨hmem, hid⟩ := find?_mem hi
            exact hid ▸ h.intentsDrawn i hmem
          have hsnapshot := hsnapshot.symm.trans (Db.riskSnapshot_eq h _ _ _)
          rw [Except.ok.inj hsnapshot] at happroved
          have happroves : policy.Approves now db.portfolio request market book
              (reservationFor intentId request market price shares quote).commitment := by
            refine ⟨happroved, ?_⟩
            rw [OrderIntentRequest.commitment, hquantity, hprice]
            dsimp only
            rw [hexposure]
            rfl
          have hreserve : ExposureStep ((StoreCall.evaluateAndReserveRisk intentId request market
              book policy).conditions now db) { db.exposures with nextUuid := db.nextUuid + 1 }
                { db.exposures with
                  riskReservations := db.riskReservations ++
                    [reservationFor intentId request market price shares quote]
                  nextUuid := db.nextUuid + 1 } :=
            .reserve rfl hreserved.fresh (Nat.lt_succ_of_lt hintent)
              (OrderIntentRequest.commitment_sound happroves.commitment)
              (fun i hi hid => by
                rw [hown i hi hid]
                exact ⟨rfl, rfl, rfl, hprice⟩)
              ⟨rfl, intentId, request, market, book, policy, rfl, happroves⟩
          refine .trans (.head hdrawn (.single hreserve)) (concludeRisk_exposures ?_ hrun)
          exact (h.draw (Nat.le_succ _)).step hreserve
      · refine .trans (.single hdrawn) (concludeRisk_exposures ?_ hrun)
        exact h.draw (Nat.le_succ _)

theorem createPreparedOrder_exposures (h : Tracked db.exposures) {intentId : Uuid}
    {request : OrderIntentRequest} {prepared : PreparedVenueOrder} {version : String}
    {feeRate : Decimal} {now : Time} {r : Committed OrderRecord}
    (hown : ∀ i ∈ db.intents, i.id = intentId → i.request = request)
    (hrun : createPreparedOrder intentId request prepared version feeRate now db = .ok r) :
    ExposureSteps
      ((StoreCall.createPreparedOrder intentId request prepared version feeRate).conditions now db)
      db.exposures r.db.exposures := by
  unfold createPreparedOrder at hrun
  split at hrun
  · cases hrun
  · split at hrun
    · cases hrun
    · dsimp only at hrun
      split at hrun
      · cases hrun
      · rename_i price hprice
        split at hrun
        · cases hrun
        · rename_i reservation hreservation
          split at hrun
          · cases hrun
          · split at hrun
            · cases hrun
            · rename_i hone
              cases hrun
              obtain ⟨hmem, hat⟩ := find?_mem hreservation
              have hpreparing := Table.exists_of_rowsAffected_eq_one (not_not.mp hone)
              have hstate := h.state_of_at hpreparing
              obtain ⟨i, hi, hid, -⟩ := hpreparing
              have hmatches := h.matched reservation hmem hat.2 i hi (hid.trans hat.1.symm)
              rw [hown i hi hid] at hmatches
              have hsame : price = reservation.price :=
                Except.ok.inj (hprice.symm.trans hmatches.price)
              have hstep : ExposureStep ((StoreCall.createPreparedOrder intentId request prepared
                  version feeRate).conditions now db) db.exposures
                    { db.exposures with
                      orders := db.orders ++ [
                        { id := db.nextUuid + 2, intentId, venueOrderId := none
                          conditionId := request.conditionId, tokenId := request.tokenId
                          side := request.side, timeInForce := request.timeInForce
                          price, feeRate, quoteExposure := reservation.quoteExposure
                          originalQuantity := reservation.quantity
                          remainingQuantity := reservation.quantity
                          state := .prepared, createdAt := now }]
                      riskReservations := Table.updateWhere
                        (RiskReservation.At reservation.intentId .active)
                        (fun r => { r with state := .consumed }) db.riskReservations
                      nextUuid := db.nextUuid + 3 } :=
                .prepare hmem hat.2 rfl hat.1.symm rfl rfl
                  (by
                    simp only [OrderRecord.commitment, RiskReservation.commitment, hsame,
                      ← hmatches.conditionId, ← hmatches.tokenId, ← hmatches.side])
                  (fun i hi howner => by
                    rw [hstate i hi (howner.trans hat.1)]
                    exact fun heq => by cases heq)
                  ⟨intentId, request, prepared, version, rfl, reservation, hmem, hat, rfl⟩
              rw [hat.1] at hstep
              have hprepared := h.step hstep
              refine .head hstep (.single (.update hprepared ?_ fun i _ _ hstate => ?_))
              · exact fun _ => rfl
              · cases hstate

theorem rejectPreparation_exposures (h : Tracked db.exposures) {intentId : Uuid}
    {code message : String} {r : Committed Unit}
    (hrun : rejectPreparation intentId code message db = .ok r) :
    ExposureSteps conditions db.exposures r.db.exposures := by
  unfold rejectPreparation at hrun
  split at hrun
  · cases hrun
  · split at hrun
    · cases hrun
    · cases hrun
      have hclose : ExposureStep conditions db.exposures _ :=
        .close intentId (by decide : ReservationState.released ≠ .active)
      refine .head hclose (.single (.update (h.step hclose) ?_ fun i _ _ hstate => ?_))
      · exact fun _ => rfl
      · cases hstate

/-! ## Orders -/

theorem ExposureStep.moveWhere (h : Tracked s) {p : OrderRecord → Prop} [DecidablePred p]
    {f : OrderRecord → OrderRecord} {o : OrderRecord} (ho : o ∈ s.orders) (hp : p o)
    (honly : ∀ row, p row → row.id = o.id) (hfollows : o.Follows (f o))
    (hle : (f o).remainingQuantity ≤ o.remainingQuantity)
    (hsubmitting : (f o).state = .submitting ∨
      ∀ i ∈ s.intents, i.id = o.intentId → i.state ≠ .submitting) :
    ExposureStep conditions s { s with orders := Table.updateWhere p f s.orders } := by
  rw [Table.updateWhere_eq_replace h.orderIds ho hp (fun row _ hrow => honly row hrow) hfollows.id]
  exact .shrink ho hfollows hle hsubmitting

theorem applyMatchedFill_exposures (htokens : (db.positions.map PositionRecord.tokenId).Nodup)
    {order : OrderRecord} {venueOrderId : Option String} {filled : Decimal}
    {price : Option Decimal} {ids : List String} {now : Time} :
    ∃ n, db.nextUuid ≤ n ∧
      ((applyMatchedFill db order venueOrderId filled price ids now).1.exposures =
          { db.exposures with nextUuid := n } ∨
        0 < filled ∧ (applyMatchedFill db order venueOrderId filled price ids now).1.exposures =
          { db.exposures with
            positions := bookPosition order
              (order.side.apply (holdings db.positions order.tokenId) filled) db.positions
            fills := db.exposures.fills ++
              [{ price := price.getD order.price, size := filled, createdAt := now }]
            nextUuid := n }) := by
  unfold applyMatchedFill
  split
  · exact ⟨_, le_rfl, Or.inl rfl⟩
  · rename_i hpositive
    dsimp only
    split
    · exact ⟨_, Nat.le_succ _, Or.inl rfl⟩
    · rename_i trades hinsert
      obtain ⟨-, rfl⟩ := Table.insertNew_eq_some.mp hinsert
      refine ⟨_, Nat.le_succ _, Or.inr ⟨lt_of_not_ge hpositive, ?_⟩⟩
      rw [← Db.positionShares_eq htokens]
      simp only [Db.exposures, Db.appendEvent, List.map_append]
      rfl

theorem ExposureSteps.settle (h : Tracked s) {p : OrderRecord → Prop} [DecidablePred p]
    {f : OrderRecord → OrderRecord} {o : OrderRecord} (ho : o ∈ s.orders) (hp : p o)
    (honly : ∀ row, p row → row.id = o.id) (hfollows : o.Follows (f o)) {filled : Decimal}
    (hnonneg : 0 ≤ filled) (hexposed : o.state.exposed = true)
    (hle : (f o).remainingQuantity + filled ≤ o.remainingQuantity)
    (hsubmitting : (f o).state = .submitting ∨
      ∀ i ∈ s.intents, i.id = o.intentId → i.state ≠ .submitting)
    {price : Option Decimal} {now : Time}
    (hfills : 0 < filled → conditions.fills o.commitment
      { price := price.getD o.price, size := filled, createdAt := now })
    (hdb : db.exposures = { s with orders := Table.updateWhere p f s.orders })
    (venueOrderId : Option String) (ids : List String) :
    ExposureSteps conditions s
      (applyMatchedFill db o venueOrderId filled price ids now).1.exposures := by
  rw [Table.updateWhere_eq_replace h.orderIds ho hp (fun row _ hrow => honly row hrow)
    hfollows.id] at hdb
  have htables : db.positions = s.positions ∧ db.nextUuid = s.nextUuid :=
    ⟨congrArg Exposures.positions hdb, congrArg Exposures.nextUuid hdb⟩
  obtain ⟨hpositions, hdrawn⟩ := htables
  obtain ⟨n, hn, hfilled⟩ := @applyMatchedFill_exposures db (hpositions ▸ h.tokens) o venueOrderId
    filled price ids now
  rw [hdrawn] at hn
  rcases hfilled with hdropped | ⟨hpositive, hbooked⟩
  · have hshrink : ExposureStep conditions s
        { s with orders := Table.replace OrderRecord.id (f o) s.orders } :=
      .shrink ho hfollows (by linarith) hsubmitting
    rw [hdropped, hdb]
    exact .tail (.single hshrink) (.draw hn)
  · have hfill : ExposureStep conditions s _ :=
      .fill ho hfollows hexposed hpositive hle hsubmitting (hfills hpositive)
    rw [hbooked, hdb, hpositions]
    exact .tail (.single hfill) (.draw hn)

theorem beginSubmission_exposures (h : Tracked db.exposures) {intentId orderId : Uuid}
    {r : Committed Unit} (hrun : beginSubmission intentId orderId db = .ok r) :
    ExposureSteps conditions db.exposures r.db.exposures := by
  unfold beginSubmission at hrun
  split at hrun
  · cases hrun
  · split at hrun
    · cases hrun
    · rename_i hpair
      split at hrun
      · cases hrun
      · cases hrun
        obtain ⟨o, ho, hid, howner, hstate⟩ :=
          Table.exists_of_rowsAffected_eq_one (not_not.mp (not_or.mp hpair).2)
        have hremaining := h.unsettled o ho (by rw [hstate]; rfl)
        have hmove : ExposureStep conditions db.exposures _ :=
          .moveWhere (p := OrderRecord.AtPair orderId intentId .prepared)
            (f := fun o => { o with state := .submitting }) h ho ⟨hid, howner, hstate⟩
            (fun row hrow => hrow.1.trans hid.symm)
            ⟨rfl, rfl, rfl, fun _ => by rw [hstate]; rfl, (h.sound o ho).quantity,
              fun _ => hremaining⟩ le_rfl (Or.inl rfl)
        refine .head hmove (.single (.update (h.step hmove) ?_ fun i _ hat _ o' ho' howner' => ?_))
        · exact fun _ => rfl
        · -- the intent has one order, the one that moved
          obtain ⟨old, hold, rfl⟩ := Table.mem_updateWhere.mp ho'
          have hsame : old = o := Table.eq_of_key_eq h.orderIntents hold ho (by
            have hkept : old.intentId = i.id := by
              split at howner' <;> exact howner'
            rw [hkept, hat.1, howner])
          rw [if_pos (hsame ▸ ⟨hid, howner, hstate⟩)]

/-- The price of an accepted fill is strictly between zero and one. -/
theorem validateVenueOrderEvidence_price {originalQuantity : Decimal} {state : OrderState}
    {remaining filled : Decimal} {price : Option Decimal} (hfilled : 0 < filled)
    (h : validateVenueOrderEvidence originalQuantity state remaining filled price = .ok ()) :
    ∃ p, price = some p ∧ 0 < p ∧ p < 1 := by
  unfold validateVenueOrderEvidence at h
  split at h
  · cases h
  · split at h
    · cases h
    · split at h
      · cases h
      · split at h
        · cases h
        · rename_i p
          split at h
          · cases h
          · rename_i hbounds
            simp only [not_or, not_le] at hbounds
            exact ⟨p, rfl, hbounds⟩

/-- What accepted evidence leaves of an order whose submission was open. -/
theorem AcceptedEvidence.follows {o o' : OrderRecord} {state : OrderState}
    {remaining filled : Decimal} (h : AcceptedEvidence o.originalQuantity state remaining filled)
    (hexposed : o.state.exposed = true) (hid : o'.id = o.id) (howner : o'.intentId = o.intentId)
    (hstate : o'.state = state ∨ o'.state = .cancelPending)
    (hremaining : o'.remainingQuantity = remaining)
    (hcommitment : o'.commitment = { o.commitment with quantity := o'.remainingQuantity }) :
    o.Follows o' where
  id := hid
  intentId := howner
  commitment := hcommitment
  exposed := fun _ => hexposed
  nonneg := hremaining ▸ h.remaining_nonneg
  unsettled := fun hunsettled => by
    obtain ⟨hprepared, hsubmitting, -⟩ := h.reportable
    have horiginal : o'.originalQuantity = o.originalQuantity :=
      congrArg Commitment.originalQuantity hcommitment
    rcases hstate with hstate | hstate <;> rw [hstate] at hunsettled
    · have hunknown : state = .unknown := by
        cases state <;> simp_all [OrderState.unsettled]
      rw [hremaining, horiginal]
      exact (h.unknown hunknown).2
    · cases hunsettled

theorem finishSubmission_exposures (h : Tracked db.exposures) {intentId orderId : Uuid}
    {intentState : IntentState} {orderState : OrderState} {venueOrderId : Option String}
    {cls : String} {filled : Decimal} {price : Option Decimal} {ids : List String} {now : Time}
    {r : Committed Unit}
    (hrun : finishSubmission intentId orderId intentState orderState venueOrderId cls filled price
      ids now db = .ok r) :
    ExposureSteps
      ((StoreCall.finishSubmission intentId orderId intentState orderState venueOrderId cls filled
        price ids).conditions now db) db.exposures r.db.exposures := by
  unfold finishSubmission at hrun
  split at hrun
  · cases hrun
  · rename_i hintentState
    have hclosed : intentState ≠ .submitting := by
      rintro rfl
      exact hintentState ⟨fun h => (by cases h), fun h => (by cases h)⟩
    split at hrun
    · cases hrun
    · rename_i o hfound
      obtain ⟨ho, hid, howner, hstate⟩ := find?_mem hfound
      dsimp only at hrun
      split at hrun
      · cases hrun
      · rename_i hevidence
        split at hrun
        · cases hrun
        · have haccepted := validateVenueOrderEvidence_ok hevidence
          have hexposed : o.state.exposed = true := by rw [hstate]; rfl
          have hremaining := h.unsettled o ho (by rw [hstate]; rfl)
          have hfollows : o.Follows (OrderRecord.settle orderState venueOrderId
              (submissionRemaining o.originalQuantity orderState filled) o) :=
            haccepted.follows hexposed rfl rfl (Or.inl rfl) rfl rfl
          have hle := haccepted.within.trans hremaining.ge
          have hupdate : ExposureStep ((StoreCall.finishSubmission intentId orderId intentState
              orderState venueOrderId cls filled price ids).conditions now db) db.exposures
              { db.exposures with
                intents := Table.updateWhere (IntentRecord.At intentId .submitting)
                  (fun i => { i with state := intentState }) db.intents } :=
            .update h (fun _ => rfl) fun _ _ _ hsubmitting => absurd hsubmitting hclosed
          have hupdated := h.step hupdate
          have hidle : ∀ i ∈ Table.updateWhere (IntentRecord.At intentId .submitting)
              (fun i => { i with state := intentState }) db.intents, i.id = o.intentId →
                i.state ≠ .submitting := by
            intro i hi howner' hsubmitting
            obtain ⟨old, -, rfl⟩ := Table.mem_updateWhere.mp hi
            split at hsubmitting
            · exact hclosed hsubmitting
            · rename_i hother
              rw [if_neg hother] at howner'
              exact hother ⟨howner'.trans howner, hsubmitting⟩
          split at hrun
          · generalize hfill : applyMatchedFill _ o venueOrderId filled price ids now = booked
              at hrun
            subst hfill
            cases hrun
            refine .head hupdate (ExposureSteps.settle hupdated
              (p := OrderRecord.AtPair orderId intentId .submitting) ho ⟨hid, howner, hstate⟩
              (fun row hrow => hrow.1.trans hid.symm) hfollows haccepted.filled_nonneg hexposed hle
              (Or.inr hidle) (fun hfilled => ?_) rfl venueOrderId ids)
            obtain ⟨p, hprice, hbounds⟩ := validateVenueOrderEvidence_price hfilled hevidence
            rw [hprice]
            exact ⟨rfl, rfl, hbounds.1, hbounds.2, o, ho, hid, rfl, rfl⟩
          · cases hrun
            refine .head hupdate (.single (.moveWhere hupdated ho ⟨hid, howner, hstate⟩
              (fun row hrow => hrow.1.trans hid.symm) hfollows ?_ (Or.inr hidle)))
            exact le_trans (le_add_of_nonneg_right haccepted.filled_nonneg) hle

theorem recoverInterrupted_exposures (h : Tracked db.exposures) {row : UnknownSubmission}
    {o : OrderRecord} (ho : o ∈ db.orders) (hid : row.orderId = o.id)
    (howner : row.intentId = o.intentId) (hstate : o.state = .submitting ∨ o.state = .unknown) :
    ExposureSteps conditions db.exposures (recoverInterrupted row db).1.exposures := by
  have hremaining := h.unsettled o ho (by
    rcases hstate with hstate | hstate <;> rw [hstate] <;> rfl)
  have hupdate : ExposureStep conditions db.exposures
      { db.exposures with
        intents := Table.updateWhere (fun i : IntentRecord => i.id = row.intentId)
          (fun i => { i with state := .unknown }) db.intents } :=
    .update h (fun _ => rfl) fun _ _ _ hsubmitting => nomatch hsubmitting
  have hupdated := h.step hupdate
  refine .head hupdate (.single (.moveWhere hupdated ho (hid.symm : o.id = row.orderId)
    (fun row' hrow => hrow.trans hid) ⟨rfl, rfl, rfl, fun _ => ?_, (h.sound o ho).quantity,
      fun _ => hremaining⟩ le_rfl (Or.inr fun i hi howner' hsubmitting => ?_)))
  · rcases hstate with hstate | hstate <;> rw [hstate] <;> rfl
  · obtain ⟨old, hold, rfl⟩ := Table.mem_updateWhere.mp hi
    split at hsubmitting
    · cases hsubmitting
    · rename_i hother
      split at howner'
      · exact absurd ‹_› hother
      · exact hother (howner'.trans howner.symm)

/-- The rows a recovery works on: each names an order whose submission is open. -/
def OpenRows (rows : List UnknownSubmission) (s : Exposures) : Prop :=
  ∀ row ∈ rows, ∃ o ∈ s.orders, row.orderId = o.id ∧ row.intentId = o.intentId ∧
    (o.state = .submitting ∨ o.state = .unknown)

theorem recoverInterruptedRows_exposures {rows : List UnknownSubmission} (h : Tracked db.exposures)
    (hrows : OpenRows rows db.exposures) :
    ExposureSteps conditions db.exposures (recoverInterruptedRows rows db).1.exposures := by
  induction rows generalizing db with
  | nil => exact .refl
  | cons row rows ih =>
    obtain ⟨o, ho, hid, howner, hstate⟩ := hrows row List.mem_cons_self
    have hrow : ExposureSteps conditions db.exposures (recoverInterrupted row db).1.exposures :=
      recoverInterrupted_exposures h ho hid howner hstate
    refine hrow.trans (ih (h.steps hrow) fun other hother => ?_)
    obtain ⟨o', ho', hid', howner', hstate'⟩ := hrows other (List.mem_cons_of_mem row hother)
    refine ⟨_, Table.mem_updateWhere.mpr ⟨o', ho', rfl⟩, ?_, ?_, ?_⟩
    · split <;> exact hid'
    · split <;> exact howner'
    · split
      · exact Or.inr rfl
      · exact hstate'

theorem recoverInterruptedSubmissions_exposures (h : Tracked db.exposures) {r : Committed Nat}
    (hrun : recoverInterruptedSubmissions db = .ok r) :
    ExposureSteps conditions db.exposures r.db.exposures := by
  cases hrun
  refine recoverInterruptedRows_exposures h fun row hrow => ?_
  simp only [Db.interruptedSubmissions, List.mem_flatMap, List.mem_filter, Db.preparedJoin,
    List.mem_map] at hrow
  obtain ⟨o, ho, i, ⟨hi, hinterrupted⟩, p, -, rfl⟩ := hrow
  refine ⟨o, ho, rfl, rfl, Or.inl ?_⟩
  simp only [decide_eq_true_eq] at hinterrupted
  rcases hinterrupted.2 with hstate | hsubmitting
  · exact hstate
  · exact h.submitting o ho i hi hinterrupted.1 hsubmitting

theorem resolveUnknownSubmission_exposures (h : Tracked db.exposures) {unknown : UnknownSubmission}
    {venueOrderId : String} {state : OrderState} {remaining filled : Decimal}
    {price : Option Decimal} {ids : List String} {now : Time} {r : Committed Unit}
    (hrun : resolveUnknownSubmission unknown venueOrderId state remaining filled price ids now db =
      .ok r) :
    ExposureSteps
      ((StoreCall.resolveUnknownSubmission unknown venueOrderId state remaining filled price
        ids).conditions now db) db.exposures r.db.exposures := by
  unfold resolveUnknownSubmission at hrun
  split at hrun
  · cases hrun
    exact .refl
  · split at hrun
    · cases hrun
    · rename_i o hfound
      obtain ⟨ho, hid, hstate⟩ := find?_mem hfound
      split at hrun
      · cases hrun
      · rename_i hevidence
        split at hrun
        · cases hrun
        · have haccepted := validateVenueOrderEvidence_ok hevidence
          have hexposed : o.state.exposed = true := by rw [hstate]; rfl
          have hremaining := h.unsettled o ho (by rw [hstate]; rfl)
          have hfollows : o.Follows (OrderRecord.settle state (some venueOrderId) remaining o) :=
            haccepted.follows hexposed rfl rfl (Or.inl rfl) rfl rfl
          have hupdate : ExposureStep ((StoreCall.resolveUnknownSubmission unknown venueOrderId
              state remaining filled price ids).conditions now db) db.exposures
              { db.exposures with
                intents := Table.updateWhere (IntentRecord.At unknown.intentId .unknown)
                  (fun i => { i with state := .submitted }) db.intents } :=
            .update h (fun _ => rfl) fun _ _ _ hsubmitting => by cases hsubmitting
          have hupdated := h.step hupdate
          have hidle := hupdated.idle ho fun heq => by cases hstate.symm.trans heq
          dsimp only at hrun
          generalize hfill : applyMatchedFill _ o (some venueOrderId) filled price ids now = booked
            at hrun
          subst hfill
          cases hrun
          refine .head hupdate (ExposureSteps.settle hupdated
            (p := OrderRecord.At unknown.orderId .unknown) ho ⟨hid, hstate⟩
            (fun row hrow => hrow.1.trans hid.symm) hfollows haccepted.filled_nonneg hexposed
            (haccepted.within.trans hremaining.ge) (Or.inr hidle) (fun hfilled => ?_) rfl
            (some venueOrderId) ids)
          obtain ⟨p, hprice, hbounds⟩ := validateVenueOrderEvidence_price hfilled hevidence
          rw [hprice]
          exact ⟨rfl, rfl, hbounds.1, hbounds.2, o, ho, hid, rfl, rfl⟩

/-- A transition leaves an order open only if it was, and SUBMITTING only if it was. -/
theorem validOrderTransition_open {prior next : OrderState}
    (hvalid : validOrderTransition prior next = true) :
    (next.exposed = true → prior.exposed = true) ∧
      (next.unsettled = true → prior.unsettled = true) ∧
        (next = .submitting ∨ prior ≠ .submitting) := by
  cases prior <;> cases next <;>
    simp_all [validOrderTransition, OrderState.exposed, OrderState.unsettled]

theorem transitionOrder_exposures (h : Tracked db.exposures) {id : Uuid} {next : OrderState}
    {venueOrderId : Option String} {r : Committed OrderRecord}
    (hrun : transitionOrder id next venueOrderId db = .ok r) :
    ExposureSteps conditions db.exposures r.db.exposures := by
  unfold transitionOrder at hrun
  split at hrun
  · cases hrun
  · rename_i prior hfound
    obtain ⟨ho, hid⟩ := find?_mem hfound
    split at hrun
    · cases hrun
      exact .refl
    · split at hrun
      · cases hrun
      · rename_i hvalid
        obtain ⟨hexposed, hunsettled, hopen⟩ := validOrderTransition_open (not_not.mp hvalid)
        cases hrun
        have hmove : ExposureStep conditions db.exposures
            { db.exposures with
              orders := Table.updateWhere (fun o : OrderRecord => o.id = id)
                (fun o => { o with state := next, venueOrderId := venueOrderId.or o.venueOrderId })
                db.orders } :=
          .moveWhere h ho hid (fun row hrow => hrow.trans hid.symm)
            ⟨rfl, rfl, rfl, hexposed, (h.sound prior ho).quantity,
              fun hnext => h.unsettled prior ho (hunsettled hnext)⟩ le_rfl
            (hopen.imp_right fun hprior => h.idle ho hprior)
        refine .head hmove ?_
        change ExposureSteps conditions _ ({ db.exposures with intents := ite _ _ _, orders := _ } :
          Exposures)
        split
        · refine .single (.update (h.step hmove) ?_ fun _ _ _ hsubmitting => ?_)
          · exact fun _ => rfl
          · cases hsubmitting
        · exact .refl

theorem cancelPreparedOrder_exposures (h : Tracked db.exposures) {orderId : Uuid}
    {r : Committed OrderRecord} (hrun : cancelPreparedOrder orderId db = .ok r) :
    ExposureSteps conditions db.exposures r.db.exposures := by
  unfold cancelPreparedOrder at hrun
  split at hrun
  · cases hrun
  · rename_i order horder
    cases hrun
    obtain ⟨ho, hid, hstate⟩ := find?_mem horder
    have hmove : ExposureStep conditions db.exposures _ :=
      .moveWhere (p := fun o : OrderRecord => o.id = orderId)
        (f := fun o => { o with state := .cancelled }) h ho hid
        (fun row hrow => hrow.trans hid.symm)
        ⟨rfl, rfl, rfl, fun h => (nomatch h), (h.sound order ho).quantity, fun h => (nomatch h)⟩
        le_rfl
        (Or.inr (h.idle ho fun heq => nomatch hstate.symm.trans heq))
    refine .head hmove (.single (.update (h.step hmove) ?_ fun _ _ _ hsubmitting => ?_))
    · exact fun _ => rfl
    · cases hsubmitting

theorem reconcileOrderProjection_exposures (h : Tracked db.exposures) {orderId : Uuid}
    {state : OrderState} {remaining total : Decimal} {price : Option Decimal} {ids : List String}
    {now : Time} {r : Committed Unit}
    (hopen : ∀ o ∈ db.orders, o.id = orderId → o.state.exposed = true ∧ o.state ≠ .submitting)
    (hrun : reconcileOrderProjection orderId state remaining total price ids now db = .ok r) :
    ExposureSteps
      ((StoreCall.reconcileOrderProjection orderId state remaining total price ids).conditions now
        db) db.exposures r.db.exposures := by
  unfold reconcileOrderProjection at hrun
  split at hrun
  · cases hrun
  · rename_i o hfound
    obtain ⟨ho, hid⟩ := find?_mem hfound
    obtain ⟨hexposed, hsubmitted⟩ := hopen o ho hid
    split at hrun
    · cases hrun
    · rename_i hevidence
      have haccepted := validateVenueOrderEvidence_ok hevidence
      split at hrun
      · cases hrun
      · rename_i hregress
        dsimp only at hrun
        split at hrun
        · cases hrun
          exact .refl
        · have hlocal : o.originalQuantity - o.remainingQuantity ≤ o.localFilled := le_max_left _ _
          have hnonneg : 0 ≤ o.localFilled := le_max_right _ _
          have hfollows : o.Follows
              { o with state := projectedState o.state state, remainingQuantity := remaining } :=
            haccepted.follows hexposed rfl rfl (projectedState_cases o.state state).symm rfl rfl
          generalize hfill : applyMatchedFill _ o o.venueOrderId (total - o.localFilled) price ids
            now = booked at hrun
          subst hfill
          cases hrun
          refine ExposureSteps.settle h (p := fun o : OrderRecord => o.id = orderId) ho hid
            (fun row hrow => hrow.trans hid.symm) hfollows (sub_nonneg.mpr (not_lt.mp hregress))
            hexposed ?_ (Or.inr (h.idle ho hsubmitted)) (fun hfilled => ?_) rfl o.venueOrderId ids
          · have hwithin := haccepted.within
            change remaining + (total - o.localFilled) ≤ o.remainingQuantity
            linarith
          · obtain ⟨p, hprice, hbounds⟩ := validateVenueOrderEvidence_price (by linarith) hevidence
            rw [hprice]
            exact ⟨rfl, rfl, hbounds.1, hbounds.2, o, ho, hid, rfl, rfl⟩

theorem recoverPreSubmissionWork_exposures (h : Tracked db.exposures) {r : Committed (List Uuid)}
    (hrun : recoverPreSubmissionWork db = .ok r) :
    ExposureSteps conditions db.exposures r.db.exposures := by
  refine recoverPreSubmissionWork_induction h.intentIds
    (I := fun db' => ExposureSteps conditions db.exposures db'.exposures) .refl
    (fun row a b _ _ hrecovered hbefore => hbefore.trans ?_) hrun
  have hclose : ExposureStep conditions a.exposures _ :=
    .close row.id (by decide : ReservationState.released ≠ .active)
  have hclosed := (h.steps hbefore).step hclose
  have hupdate : ExposureStep conditions _ _ :=
    .update (p := IntentRecord.At row.id row.state)
      (f := fun i => { i with state := .received }) hclosed (fun _ => rfl)
      fun _ _ _ hsubmitting => (nomatch hsubmitting)
  have hafter : b.exposures =
      { a.exposures with
        intents := Table.updateWhere (IntentRecord.At row.id row.state)
          (fun i => { i with state := .received }) a.intents
        riskReservations := Table.updateWhere (RiskReservation.At row.id .active)
          (fun r => { r with state := .released }) a.riskReservations } := by
    simp only [Db.exposures, hrecovered.intents, hrecovered.reservations, hrecovered.orders,
      hrecovered.trades, hrecovered.positions, hrecovered.drawn]
  rw [hafter]
  exact .head hclose (.single hupdate)

theorem recordVenueTradeFinality_exposures {orderId : Uuid} {venueTradeId : String}
    {status : TradeState} {r : Committed Bool}
    (hrun : recordVenueTradeFinality orderId venueTradeId status db = .ok r) :
    r.db.exposures = db.exposures := by
  have hkept : ∀ (updates : Prop) [Decidable updates] (id : Uuid) (status : TradeState),
      (if updates then Table.updateWhere (fun t : TradeRecord => t.id = id)
        (fun t => { t with status }) db.trades else db.trades).map TradeRecord.fill =
          db.trades.map TradeRecord.fill := by
    intro updates _ id status
    split
    · rw [Table.map_updateWhere]
      exact fun _ => rfl
    · rfl
  unfold recordVenueTradeFinality at hrun
  dsimp only at hrun
  split at hrun
  · cases hrun
    rfl
  · split at hrun <;> cases hrun
    · rfl
    · refine congrArg (fun fills => { db.exposures with fills }) ?_
      apply hkept

/-! ## Paper fills -/

/-- The paper orders a trade may fill are distinct, and those it crosses have no more left than
their core orders. -/
structure PaperAgrees (db : Db) (trade : PaperTrade) : Prop where
  distinct : ((db.restingPaperOrders trade.tokenId trade.observedAt).map
    PaperVenueOrder.venueOrderId).Nodup
  covered : ∀ row ∈ db.restingPaperOrders trade.tokenId trade.observedAt, row.crossedBy trade →
    ∀ o ∈ db.orders, o.venueOrderId = some row.venueOrderId → o.state.active = true →
      row.remainingQuantity ≤ o.remainingQuantity

/-- The rows still to be filled have no more left than their core orders, which are as they were
`before`. -/
def CoveredRows (trade : PaperTrade) (before : Db) (rows : List PaperVenueOrder)
    (orders : List OrderRecord) : Prop :=
  ∀ row ∈ rows, row.crossedBy trade → ∀ o ∈ orders, o.venueOrderId = some row.venueOrderId →
    o.state.active = true → o ∈ before.orders ∧ row.remainingQuantity ≤ o.remainingQuantity

theorem fillCoreOrder_exposures (h : Tracked db.exposures) {trade : PaperTrade}
    {venueOrderId venueTradeId : String} {fill nextRemaining : Decimal} {state : OrderState}
    {now : Time} (hstate : state = .filled ∨ state = .partiallyFilled) (hnonneg : 0 ≤ nextRemaining)
    (hfill : 0 ≤ fill) (hcovered : ∀ o ∈ db.orders, o.venueOrderId = some venueOrderId →
      o.state.active = true → nextRemaining + fill ≤ o.remainingQuantity ∧
        conditions.fills o.commitment { price := trade.price, size := fill, createdAt := now }) :
    ExposureSteps conditions db.exposures
        (fillCoreOrder trade venueOrderId venueTradeId fill nextRemaining state now
          db).1.exposures ∧
      ∀ o ∈ (fillCoreOrder trade venueOrderId venueTradeId fill nextRemaining state now
          db).1.orders,
        o ∈ db.orders ∨ o.venueOrderId = some venueOrderId := by
  unfold fillCoreOrder
  split
  · exact ⟨.refl, fun o ho => Or.inl ho⟩
  · rename_i core hfound
    obtain ⟨hcore, hvenue⟩ := find?_mem hfound
    split
    · rename_i hactive
      have hexposed : core.state.exposed = true := by
        cases hcase : core.state <;> simp_all [OrderState.active, OrderState.exposed]
      have hsubmitted : core.state ≠ .submitting := fun heq => by
        rw [heq] at hactive
        cases hactive
      have hfollows : core.Follows { core with
          state := paperFilledState core.state state, remainingQuantity := nextRemaining } := by
        refine ⟨rfl, rfl, rfl, fun _ => hexposed, hnonneg, fun hunsettled => ?_⟩
        rcases hstate with rfl | rfl <;>
          cases hcase : core.state <;>
            simp_all [paperFilledState, OrderState.unsettled, OrderState.active]
      obtain ⟨hle, hfills⟩ := hcovered core hcore hvenue hactive
      have hbooked : 0 < fill → conditions.fills core.commitment
          { price := (some trade.price).getD core.price, size := fill, createdAt := now } :=
        fun _ => hfills
      refine ⟨?_, fun o ho => ?_⟩
      · exact ExposureSteps.settle h (p := fun o : OrderRecord => o.id = core.id) hcore rfl
          (fun row hrow => hrow) hfollows hfill hexposed hle
          (Or.inr (h.idle hcore hsubmitted)) hbooked rfl (some venueOrderId) [venueTradeId]
      · have ho : o ∈ (applyMatchedFill _ core (some venueOrderId) fill (some trade.price)
          [venueTradeId] now).1.orders := ho
        rw [applyMatchedFill_orders] at ho
        obtain ⟨old, hold, rfl⟩ := Table.mem_updateWhere.mp ho
        by_cases hid : old.id = core.id
        · rw [if_pos hid]
          rw [Table.eq_of_key_eq h.orderIds hold hcore hid]
          exact Or.inr hvenue
        · rw [if_neg hid]
          exact Or.inl hold
    · exact ⟨.refl, fun o ho => Or.inl ho⟩

theorem fillRestingOrder_exposures (h : Tracked db.exposures) {trade : PaperTrade} {now : Time}
    {row : PaperVenueOrder} {size : Decimal} {before : Db}
    (hprice : 0 < trade.price ∧ trade.price < 1)
    (hrow : row ∈ before.restingPaperOrders trade.tokenId trade.observedAt)
    (hcrossed : row.crossedBy trade) (hfill : 0 < min row.remainingQuantity size)
    (hcovered : ∀ o ∈ db.orders, o.venueOrderId = some row.venueOrderId →
      o.state.active = true → o ∈ before.orders ∧ row.remainingQuantity ≤ o.remainingQuantity)
    {b b' : PaperBalances} {db' : Db} {events : List ExecutionEvent}
    (hrun : fillRestingOrder trade now row (min row.remainingQuantity size) b db =
      .ok (b', db', events)) :
    ExposureSteps ((StoreCall.applyPaperTradeThrough trade).conditions now before) db.exposures
        db'.exposures ∧
      ∀ o ∈ db'.orders, o ∈ db.orders ∨ o.venueOrderId = some row.venueOrderId := by
  have hpaper : ∀ paperVenueOrders,
      Tracked ({ db with paperVenueOrders } : Db).exposures := fun _ => h
  unfold fillRestingOrder at hrun
  dsimp only at hrun
  split at hrun <;> cases hrun
  refine @fillCoreOrder_exposures _ _ (hpaper (Table.updateWhere
      (fun p : PaperVenueOrder => p.venueOrderId = row.venueOrderId)
      (fun _ => row.fill trade.price (min row.remainingQuantity size)
        (paperFillState (row.remainingQuantity - min row.remainingQuantity size))
        ("paper:" ++ trade.eventId ++ ":" ++ row.venueOrderId)
        (trade.evidence (min row.remainingQuantity size))) db.paperVenueOrders))
    trade row.venueOrderId
    ("paper:" ++ trade.eventId ++ ":" ++ row.venueOrderId) (min row.remainingQuantity size)
    (row.remainingQuantity - min row.remainingQuantity size)
    (paperFillState (row.remainingQuantity - min row.remainingQuantity size)) now ?_
    (sub_nonneg.mpr (min_le_left _ _)) hfill.le (fun o ho hvenue hactive => ?_)
  · unfold paperFillState
    split
    · exact Or.inl rfl
    · exact Or.inr rfl
  · obtain ⟨hbefore, hle⟩ := hcovered o ho hvenue hactive
    rw [sub_add_cancel]
    exact ⟨hle, rfl, rfl, hprice.1, hprice.2, o, hbefore, ⟨row, hrow, hcrossed, hvenue⟩, rfl, rfl⟩

/-- The loop of `apply_paper_trade_through` fills the core orders of the rows it fills. -/
theorem applyTradeThrough_exposures {trade : PaperTrade} {now : Time} {before : Db}
    (hprice : 0 < trade.price ∧ trade.price < 1) {rows : List PaperVenueOrder} {size : Decimal}
    {count count' : Nat} {b b' : PaperBalances} {db' : Db} {events events' : List ExecutionEvent}
    (hrun : applyTradeThrough trade now rows size count b db events =
      .ok (count', b', db', events'))
    (h : Tracked db.exposures) (hdistinct : (rows.map PaperVenueOrder.venueOrderId).Nodup)
    (hrows : ∀ row ∈ rows, row ∈ before.restingPaperOrders trade.tokenId trade.observedAt)
    (hcovered : CoveredRows trade before rows db.orders) :
    ExposureSteps ((StoreCall.applyPaperTradeThrough trade).conditions now before) db.exposures
      db'.exposures := by
  induction rows generalizing size count b db events with
  | nil =>
    cases hrun
    exact .refl
  | cons row rows ih =>
    obtain ⟨hfresh, hdistinct⟩ := List.nodup_cons.mp hdistinct
    obtain ⟨hrow, hothers⟩ := List.forall_mem_cons.mp hrows
    have hrest : CoveredRows trade before rows db.orders :=
      fun other hother => hcovered other (List.mem_cons_of_mem row hother)
    simp only [applyTradeThrough] at hrun
    split at hrun
    · cases hrun
      exact .refl
    · split at hrun
      · exact ih hrun h hdistinct hothers hrest
      · rename_i hfills
        obtain ⟨hcrossed, hfill⟩ := not_or.mp hfills
        split at hrun
        · cases hrun
        · rename_i hfilled
          obtain ⟨hsteps, horders⟩ := fillRestingOrder_exposures h hprice hrow
            (not_not.mp hcrossed) (lt_of_not_ge hfill)
            (hcovered row List.mem_cons_self (not_not.mp hcrossed)) hfilled
          refine .trans hsteps (ih hrun (h.steps hsteps) hdistinct hothers
            fun other hother hcrosses o ho hvenue => ?_)
          rcases horders o ho with ho | hfilled
          · exact hrest other hother hcrosses o ho hvenue
          · have hsame : other.venueOrderId = row.venueOrderId :=
              Option.some.inj (hvenue.symm.trans hfilled)
            exact absurd (List.mem_map.mpr ⟨other, hother, hsame⟩) hfresh

theorem applyPaperTradeThrough_exposures (h : Tracked db.exposures) {mode : Mode}
    {trade : PaperTrade} {now : Time} {r : Committed Nat} (hagrees : PaperAgrees db trade)
    (hrun : applyPaperTradeThrough mode trade now db = .ok r) :
    ExposureSteps ((StoreCall.applyPaperTradeThrough trade).conditions now db) db.exposures
      r.db.exposures := by
  unfold applyPaperTradeThrough at hrun
  split at hrun
  · cases hrun
  · split at hrun
    · cases hrun
    · rename_i hfields
      simp only [not_or, not_le] at hfields
      dsimp only at hrun
      split at hrun
      · cases hrun
        exact .refl
      · split at hrun
        · cases hrun
        · split at hrun
          · cases hrun
          · rename_i hloop
            cases hrun
            have hsteps := @applyTradeThrough_exposures _ trade now db
              ⟨hfields.2.2.1, hfields.2.2.2.1⟩ _ _ _ _ _ _ _ _ _ hloop h hagrees.distinct
              (fun _ => id)
            exact hsteps fun row hrow hcrossed o ho hvenue hactive =>
              ⟨ho, hagrees.covered row hrow hcrossed o ho hvenue hactive⟩

/-! ## Reports of the venue -/

theorem upsertVenuePositions_tokens {current : List PositionRecord}
    {observed : List ObservedVenuePosition} {tokens tokens' : List String} {db' : Db}
    {events events' : List ExecutionEvent}
    (h : upsertVenuePositions current observed tokens db events = .ok (tokens', db', events'))
    (hnodup : (db.positions.map PositionRecord.tokenId).Nodup) :
    db'.trades = db.trades ∧ (db'.positions.map PositionRecord.tokenId).Nodup := by
  induction observed generalizing tokens db events with
  | nil =>
    cases h
    exact ⟨rfl, hnodup⟩
  | cons p rest ih =>
    simp only [upsertVenuePositions] at h
    split at h
    · cases h
    · split at h
      · cases h
      · split at h
        · exact ih h hnodup
        · obtain ⟨htrades, htokens⟩ := ih h (Table.nodup_upsert (fun _ _ => rfl) hnodup)
          exact ⟨htrades, htokens⟩

theorem zeroMissingPositions_tokens {tokens : List String} {current : List PositionRecord}
    {events : List ExecutionEvent} :
    (zeroMissingPositions tokens current db events).1.trades = db.trades ∧
      (zeroMissingPositions tokens current db events).1.positions.map PositionRecord.tokenId =
        db.positions.map PositionRecord.tokenId := by
  induction current generalizing db events with
  | nil => exact ⟨rfl, rfl⟩
  | cons prior rest ih =>
    simp only [zeroMissingPositions]
    split
    · exact ih
    · exact ⟨ih.1, ih.2.trans (Table.map_updateWhere fun _ => rfl)⟩

/-- A report replaces positions and nothing else exposure is counted in. -/
theorem reconcileVenuePositions_exposures {observed : List ObservedVenuePosition}
    {r : Committed Unit} (h : reconcileVenuePositions observed db = .ok r)
    (hnodup : (db.positions.map PositionRecord.tokenId).Nodup) :
    r.db.exposures = { db.exposures with positions := r.db.positions } ∧
      (r.db.positions.map PositionRecord.tokenId).Nodup := by
  have hlifecycle := reconcileVenuePositions_lifecycle h
  unfold reconcileVenuePositions at h
  dsimp only at h
  split at h
  · cases h
  · rename_i hupserted
    cases h
    obtain ⟨htrades, htokens⟩ := upsertVenuePositions_tokens hupserted hnodup
    constructor
    · simp only [Db.lifecycle, Lifecycle.mk.injEq] at hlifecycle
      simp only [Db.exposures, Exposures.mk.injEq]
      exact ⟨hlifecycle.1, hlifecycle.2.1, hlifecycle.2.2.2.2.1, trivial,
        congrArg (List.map TradeRecord.fill) (zeroMissingPositions_tokens.1.trans htrades),
        hlifecycle.2.2.2.2.2⟩
    · rw [zeroMissingPositions_tokens.2]
      exact htokens

/-- The operations that keep house leave exposure alone. -/
theorem Db.KeepsHouse.exposures {db' : Db} (h : db.KeepsHouse db') :
    ExposureSteps conditions db.exposures db'.exposures := by
  obtain ⟨_, _, _, _, _, _, _, _, _, _, hle, rfl⟩ := h
  exact .single (.draw hle)

end Operations

end OddsfoxExecution
