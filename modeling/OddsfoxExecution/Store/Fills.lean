import OddsfoxExecution.Store.Schema

/-!
# Venue evidence and matched fills

`validate_venue_order_evidence`, `valid_order_transition` and
`apply_matched_fill` of `src/store.rs`: what the store accepts from the venue
about one order, and how a recognised fill becomes a trade row and a position.
-/

namespace OddsfoxExecution

def validateVenueOrderEvidence (originalQuantity : Decimal) (state : OrderState)
    (remainingQuantity filledQuantity : Decimal) (filledPrice : Option Decimal) :
    Except StoreError Unit :=
  if originalQuantity ≤ 0 ∨ remainingQuantity < 0 ∨ filledQuantity < 0 ∨
      originalQuantity < remainingQuantity ∨ originalQuantity < filledQuantity ∨
      originalQuantity < remainingQuantity + filledQuantity then
    .error (.identityMismatch "venue order quantities violate the persisted order bounds")
  else if state = .prepared ∨ state = .submitting ∨ state = .cancelPending then
    .error (.identityMismatch "venue evidence contains a local-only order state")
  else if (state = .filled ∧ remainingQuantity ≠ 0) ∨ (state = .live ∧ remainingQuantity = 0) ∨
      (state = .partiallyFilled ∧ (remainingQuantity = 0 ∨ filledQuantity = 0)) ∨
      (state = .rejected ∧ filledQuantity ≠ 0) ∨
      (state = .unknown ∧ (filledQuantity ≠ 0 ∨ remainingQuantity ≠ originalQuantity)) then
    .error (.identityMismatch "venue order state is inconsistent with reported quantities")
  else if 0 < filledQuantity then
    match filledPrice with
    | none => .error (.identityMismatch "venue fill is missing its execution price")
    | some price =>
      if price ≤ 0 ∨ 1 ≤ price then
        .error (.identityMismatch "venue fill price must be between zero and one")
      else .ok ()
  else .ok ()

def validOrderTransition (prior next : OrderState) : Bool :=
  prior = next ||
    match prior, next with
    | .live, .cancelPending | .partiallyFilled, .cancelPending => true
    | .cancelPending, .filled | .cancelPending, .cancelled | .cancelPending, .expired => true
    | .unknown, .filled | .unknown, .cancelled | .unknown, .expired => true
    | _, _ => false

/-- The key `apply_matched_fill` gives the trade of a fill. -/
def fillTradeId (order : OrderRecord) (venueOrderId : Option String) (venueTradeIds : List String) :
    String :=
  match venueTradeIds with
  | [] => "submission:" ++ venueOrderId.getD (toString order.id)
  | [venueTradeId] => venueTradeId
  | venueTradeIds => "submission:" ++ ",".intercalate venueTradeIds

/-- The position of a token after an order of one side fills `quantity`. -/
def Side.apply (side : Side) (position quantity : Decimal) : Decimal :=
  match side with
  | .buy => position + quantity
  | .sell => position - quantity

def applyMatchedFill (db : Db) (order : OrderRecord) (venueOrderId : Option String)
    (filledQuantity : Decimal) (filledPrice : Option Decimal) (venueTradeIds : List String)
    (now : Time) : Db × Option ExecutionEvent :=
  if filledQuantity ≤ 0 then (db, none)
  else
    let trade : TradeRecord :=
      { id := db.nextUuid
        orderId := order.id
        venueTradeId := fillTradeId order venueOrderId venueTradeIds
        price := filledPrice.getD order.price
        size := filledQuantity
        status := .matched
        createdAt := now }
    let db : Db := { db with nextUuid := db.nextUuid + 1 }
    match Table.insertNew TradeRecord.venueTradeId trade db.trades with
    | none => (db, none)
    | some trades =>
      let nextPosition := order.side.apply (db.positionShares order.tokenId) filledQuantity
      let position : PositionRecord :=
        { tokenId := order.tokenId, conditionId := order.conditionId, shares := nextPosition }
      let db : Db := { db with
        trades
        positions := Table.upsert PositionRecord.tokenId position
          (fun p => { p with conditionId := order.conditionId, shares := nextPosition })
          db.positions }
      let (db, event) := db.appendEvent "trade.matched" "trade" (.uuid trade.id)
      (db, some event)

/-- A fill that `apply_matched_fill` books: it is not empty, and its trade is not in the journal. -/
def Db.fillsAnew (db : Db) (order : OrderRecord) (venueOrderId : Option String)
    (filledQuantity : Decimal) (venueTradeIds : List String) : Bool :=
  decide (0 < filledQuantity) &&
    !(db.trades.any fun t => fillTradeId order venueOrderId venueTradeIds = t.venueTradeId)

/-! ## What they guarantee -/

/-- A fill that is empty or already in the journal appends no event. -/
theorem applyMatchedFill_silent {db : Db} {order : OrderRecord} {venueOrderId : Option String}
    {filled : Decimal} {price : Option Decimal} {ids : List String} {now : Time}
    (h : db.fillsAnew order venueOrderId filled ids = false) :
    (applyMatchedFill db order venueOrderId filled price ids now).2 = none := by
  unfold applyMatchedFill
  split
  · rfl
  · rename_i hpositive
    rw [Db.fillsAnew, decide_eq_true (not_le.mp hpositive), Bool.true_and, Bool.not_eq_false'] at h
    obtain ⟨other, hother, heq⟩ := List.any_eq_true.mp h
    dsimp only
    split
    · rfl
    · rename_i hinserted
      obtain ⟨hfresh, -⟩ := Table.insertNew_eq_some.mp hinserted
      exact absurd (of_decide_eq_true heq).symm (hfresh other hother)

/-- Accepted evidence fits the order and never names a local-only state. -/
structure AcceptedEvidence (originalQuantity : Decimal) (state : OrderState)
    (remainingQuantity filledQuantity : Decimal) : Prop where
  remaining_nonneg : 0 ≤ remainingQuantity
  filled_nonneg : 0 ≤ filledQuantity
  within : remainingQuantity + filledQuantity ≤ originalQuantity
  reportable : state ≠ .prepared ∧ state ≠ .submitting ∧ state ≠ .cancelPending
  unknown : state = .unknown → filledQuantity = 0 ∧ remainingQuantity = originalQuantity

theorem validateVenueOrderEvidence_ok {originalQuantity : Decimal} {state : OrderState}
    {remainingQuantity filledQuantity : Decimal} {filledPrice : Option Decimal}
    (h : validateVenueOrderEvidence originalQuantity state remainingQuantity filledQuantity
      filledPrice = .ok ()) :
    AcceptedEvidence originalQuantity state remainingQuantity filledQuantity := by
  unfold validateVenueOrderEvidence at h
  split at h
  · cases h
  · rename_i hbounds
    split at h
    · cases h
    · rename_i hlocal
      split at h
      · cases h
      · rename_i hconsistent
        simp only [not_or, not_le, not_lt] at hbounds hlocal hconsistent
        refine ⟨hbounds.2.1, hbounds.2.2.1, hbounds.2.2.2.2.2, hlocal, fun hunknown => ?_⟩
        have := hconsistent.2.2.2.2
        simp only [hunknown, true_and, not_or, not_not] at this
        exact this

/-- A matched fill touches the trades, the positions, the event log and the identifiers drawn. -/
theorem applyMatchedFill_frame (db : Db) (order : OrderRecord) (venueOrderId : Option String)
    (filledQuantity : Decimal) (filledPrice : Option Decimal) (venueTradeIds : List String)
    (now : Time) :
    ∃ trades positions executionEvents nextSequence nextUuid, db.nextUuid ≤ nextUuid ∧
      (applyMatchedFill db order venueOrderId filledQuantity filledPrice venueTradeIds now).1 =
        { db with trades, positions, executionEvents, nextSequence, nextUuid } := by
  unfold applyMatchedFill
  split
  · exact ⟨_, _, _, _, _, le_rfl, rfl⟩
  · dsimp only
    split
    · exact ⟨_, _, _, _, _, Nat.le_succ _, rfl⟩
    · exact ⟨_, _, _, _, _, Nat.le_succ _, rfl⟩

theorem applyMatchedFill_orders {db : Db} {order : OrderRecord} {venueOrderId : Option String}
    {filled : Decimal} {price : Option Decimal} {ids : List String} {now : Time} :
    (applyMatchedFill db order venueOrderId filled price ids now).1.orders = db.orders := by
  obtain ⟨_, _, _, _, _, -, hframe⟩ := applyMatchedFill_frame db order venueOrderId filled price
    ids now
  rw [hframe]

end OddsfoxExecution
