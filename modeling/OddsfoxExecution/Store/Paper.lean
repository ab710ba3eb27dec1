import OddsfoxExecution.Store.Control

/-!
# Paper trade-through

`apply_paper_trade_through`: a public market trade fills the resting paper
orders it crosses, and with each of them the executor's own order, in one
transaction.
-/

namespace OddsfoxExecution

/-- The balances the loop of `apply_paper_trade_through` carries. -/
structure PaperBalances where
  quoteBalance : Decimal
  reservedQuote : Decimal
  shares : Decimal
  reservedShares : Decimal
deriving DecidableEq

/-- The public trade under application. -/
structure PaperTrade where
  eventId : String
  tokenId : String
  price : Decimal
  size : Decimal
  observedAt : Time
deriving DecidableEq

/-- The evidence a trade-through writes for a fill. -/
def PaperTrade.evidence (trade : PaperTrade) (fill : Decimal) : PaperEvidence :=
  .tradeThrough trade.eventId trade.observedAt trade.price trade.size fill

/-- The balances after one resting order fills `fill` shares at the trade's price. -/
def PaperBalances.fill (balances : PaperBalances) (row : PaperVenueOrder) (price fill : Decimal) :
    PaperBalances :=
  let quote := fill * price
  let fee := quote * row.feeRate
  match row.side with
  | .buy =>
    let released := fill * row.price * (1 + row.feeRate)
    { balances with
      reservedQuote := max (balances.reservedQuote - released) 0
      quoteBalance := balances.quoteBalance - (quote + fee)
      shares := balances.shares + fill }
  | .sell =>
    { balances with
      reservedShares := max (balances.reservedShares - fill) 0
      shares := balances.shares - fill
      quoteBalance := balances.quoteBalance + (quote - fee) }

def PaperVenueOrder.fill (row : PaperVenueOrder) (price fill : Decimal) (state : OrderState)
    (venueTradeId : String) (evidence : PaperEvidence) : PaperVenueOrder :=
  let quote := fill * price
  let nextFilled := row.filledQuantity + fill
  let nextQuote := row.quoteAmount + quote
  { row with
    state
    remainingQuantity := row.remainingQuantity - fill
    filledQuantity := nextFilled
    filledPrice := some (nextQuote / nextFilled)
    quoteAmount := nextQuote
    feeAmount := row.feeAmount + quote * row.feeRate
    reservedQuote :=
      if row.side = .buy then max (row.reservedQuote - fill * row.price * (1 + row.feeRate)) 0
      else row.reservedQuote
    reservedShares :=
      if row.side = .sell then max (row.reservedShares - fill) 0 else row.reservedShares
    venueTradeIds := row.venueTradeIds ++ [venueTradeId]
    evidence }

/-- The state the trade-through gives the executor's own order. -/
def paperFilledState (core paper : OrderState) : OrderState :=
  if core = .cancelPending ∧ paper ≠ .filled then .cancelPending else paper

/-- The executor's own order follows a paper fill while it is active. -/
def fillCoreOrder (trade : PaperTrade) (venueOrderId venueTradeId : String)
    (fill nextRemaining : Decimal) (state : OrderState) (now : Time) (db : Db) :
    Db × List ExecutionEvent :=
  match db.orders.find? fun o => o.venueOrderId = some venueOrderId with
  | none => (db, [])
  | some core =>
    if core.state.active then
      let nextState := paperFilledState core.state state
      let db : Db := { db with
        orders := Table.updateWhere (fun o : OrderRecord => o.id = core.id)
          (fun o => { o with state := nextState, remainingQuantity := nextRemaining }) db.orders }
      let (db, tradeEvent) := applyMatchedFill db core (some venueOrderId) fill
        (some trade.price) [venueTradeId] now
      let db : Db := { db with
        orderTransitions := db.orderTransitions ++ [⟨core.id, core.state, nextState⟩] }
      let (db, event) := db.appendEvent "order.paper_filled" "order" (.uuid core.id)
      (db, tradeEvent.toList ++ [event])
    else (db, [])

/-- A trade crosses an order whose limit it is strictly through. -/
def PaperVenueOrder.crossedBy (row : PaperVenueOrder) (trade : PaperTrade) : Bool :=
  match row.side with
  | .buy => trade.price < row.price
  | .sell => row.price < trade.price

def paperFillState (nextRemaining : Decimal) : OrderState :=
  if nextRemaining = 0 then .filled else .partiallyFilled

/-- One filled order of the loop of `apply_paper_trade_through`. -/
def fillRestingOrder (trade : PaperTrade) (now : Time) (row : PaperVenueOrder) (fill : Decimal)
    (balances : PaperBalances) (db : Db) :
    Except StoreError (PaperBalances × Db × List ExecutionEvent) :=
  let balances := balances.fill row trade.price fill
  if balances.quoteBalance < 0 ∨ balances.shares < 0 then
    .error (.identityMismatch "paper trade-through would overdraw the account")
  else
    let nextRemaining := row.remainingQuantity - fill
    let state := paperFillState nextRemaining
    let venueTradeId := "paper:" ++ trade.eventId ++ ":" ++ row.venueOrderId
    let db : Db := { db with
      paperVenueOrders := Table.updateWhere
        (fun p : PaperVenueOrder => p.venueOrderId = row.venueOrderId)
        (fun _ => row.fill trade.price fill state venueTradeId (trade.evidence fill))
        db.paperVenueOrders }
    let (db, coreEvents) :=
      fillCoreOrder trade row.venueOrderId venueTradeId fill nextRemaining state now db
    let (db, event) :=
      db.appendEvent "paper.trade_through_fill" "paper_order" (.text row.venueOrderId)
    .ok (balances, db, coreEvents ++ [event])

/-- The loop of `apply_paper_trade_through`. -/
def applyTradeThrough (trade : PaperTrade) (now : Time) :
    List PaperVenueOrder → Decimal → Nat → PaperBalances → Db → List ExecutionEvent →
      Except StoreError (Nat × PaperBalances × Db × List ExecutionEvent)
  | [], _, count, balances, db, events => .ok (count, balances, db, events)
  | row :: rows, sizeRemaining, count, balances, db, events =>
    let fill := min row.remainingQuantity sizeRemaining
    if sizeRemaining ≤ 0 then .ok (count, balances, db, events)
    else if ¬ row.crossedBy trade ∨ fill ≤ 0 then
      applyTradeThrough trade now rows sizeRemaining count balances db events
    else
      match fillRestingOrder trade now row fill balances db with
      | .error e => .error e
      | .ok (balances, db, rowEvents) =>
        applyTradeThrough trade now rows (sizeRemaining - fill) (count + 1) balances db
          (events ++ rowEvents)

/-- `ORDER BY created_at, venue_order_id`. -/
def paperOrderBefore (a b : PaperVenueOrder) : Prop :=
  a.createdAt < b.createdAt ∨ (a.createdAt = b.createdAt ∧ a.venueOrderId ≤ b.venueOrderId)

instance : DecidableRel paperOrderBefore := fun a b => by
  unfold paperOrderBefore; infer_instance

/-- The resting orders a trade may fill, in the order they are filled. -/
def Db.restingPaperOrders (db : Db) (tokenId : String) (observedAt : Time) :
    List PaperVenueOrder :=
  (db.paperVenueOrders.filter fun p => p.tokenId = tokenId ∧
    (p.state = .live ∨ p.state = .partiallyFilled) ∧
    p.createdAt ≤ observedAt).insertionSort paperOrderBefore

def applyPaperTradeThrough (mode : Mode) (trade : PaperTrade) (now : Time) (db : Db) : Tx Nat :=
  if mode ≠ .paper then
    .error (.identityMismatch "paper market event cannot be applied in live mode")
  else if trade.eventId.isEmpty ∨ trade.tokenId.isEmpty ∨ trade.price ≤ 0 ∨ 1 ≤ trade.price ∨
      trade.size ≤ 0 then
    .error (.identityMismatch "paper market event contains invalid fields")
  else
    let row : PaperMarketEvent :=
      { eventId := trade.eventId, tokenId := trade.tokenId, price := trade.price
        size := trade.size, observedAt := trade.observedAt }
    match Table.insertNew PaperMarketEvent.eventId row db.paperMarketEvents with
    | none => .ok ⟨0, db, []⟩
    | some paperMarketEvents =>
      match db.paperAccount with
      | none => .error (.identityMismatch "paper account is not initialized")
      | some account =>
        let inventory := db.paperInventory.find? fun p => p.tokenId = trade.tokenId
        let balances : PaperBalances :=
          { quoteBalance := account.quoteBalance, reservedQuote := account.reservedQuote
            shares := inventory.elim 0 PaperInventory.shares
            reservedShares := inventory.elim 0 PaperInventory.reservedShares }
        match applyTradeThrough trade now (db.restingPaperOrders trade.tokenId trade.observedAt)
            trade.size 0 balances { db with paperMarketEvents } [] with
        | .error e => .error e
        | .ok (count, balances, db, events) =>
          let row : PaperInventory :=
            { tokenId := trade.tokenId, shares := balances.shares
              reservedShares := balances.reservedShares }
          let db : Db := { db with
            paperAccount := some { account with
              quoteBalance := balances.quoteBalance, reservedQuote := balances.reservedQuote }
            paperInventory := Table.upsert PaperInventory.tokenId row (fun _ => row)
              db.paperInventory }
          let (db, event) := db.appendEvent "paper.market_trade_observed" "paper_market_event"
            (.text trade.eventId)
          .ok ⟨count, db, events ++ [event]⟩

end OddsfoxExecution
