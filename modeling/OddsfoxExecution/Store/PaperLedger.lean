import OddsfoxExecution.Store.Paper

/-!
# The paper ledger

The other operations on the paper venue's own tables: the account is opened
from the paper configuration, `PaperVenue::submit` commits an order with its
immediate fill and its reservation, a cancellation releases what an open order
still reserves, and the reads a reconciliation makes.
-/

namespace OddsfoxExecution

/-! ## Opening the account -/

/-- `Decimal::from_str_exact` of a balance that must not be negative. -/
def parseBalance (raw : String) : Except StoreError Decimal :=
  match decimalFromStrExact raw with
  | none => .error (.invalidDecimal raw)
  | some (value, _) => if value < 0 then .error (.invalidDecimal raw) else .ok value

/-- The loop over `starting_positions`. -/
def insertStartingPositions : List PaperPosition → Db → Except StoreError Db
  | [], db => .ok db
  | position :: rest, db =>
    match parseBalance position.shares with
    | .error e => .error e
    | .ok shares =>
      match Table.insertNew PaperInventory.tokenId
          { tokenId := position.tokenId, shares, reservedShares := 0 } db.paperInventory with
      | none =>
        .error (.identityMismatch
          ("paper starting inventory contains duplicate token " ++ position.tokenId))
      | some paperInventory =>
        match Table.insertNew PositionRecord.tokenId
            { tokenId := position.tokenId, conditionId := position.conditionId, shares }
            db.positions with
        | none => .error (.database "UNIQUE constraint failed: positions.token_id")
        | some positions => insertStartingPositions rest { db with paperInventory, positions }

def initializePaperAccount (mode : Mode) (config : PaperConfig) (db : Db) : Tx Unit :=
  if mode ≠ .paper then
    .error (.identityMismatch "paper simulator state cannot be used by a live database")
  else
    match parseBalance config.startingQuoteBalance with
    | .error e => .error e
    | .ok quoteBalance =>
      match db.paperAccount with
      | some existing =>
        if existing.configuration ≠ config then
          .error (.identityMismatch
            "paper starting balance/inventory differs from the database binding")
        else .ok ⟨(), db, []⟩
      | none =>
        let account : PaperAccount := { configuration := config, quoteBalance, reservedQuote := 0 }
        match insertStartingPositions config.startingPositions
            { db with paperAccount := some account } with
        | .error e => .error e
        | .ok db =>
          let (db, event) :=
            db.appendEvent "paper.account_initialized" "paper_account" (.text "paper")
          .ok ⟨(), db, [event]⟩

/-! ## Orders of the paper venue -/

structure PaperOrderCommit where
  venueOrderId : String
  conditionId : String
  tokenId : String
  side : Side
  state : OrderState
  price : Decimal
  feeRate : Decimal
  originalQuantity : Decimal
  remainingQuantity : Decimal
  filledQuantity : Decimal
  filledPrice : Option Decimal
  quoteAmount : Decimal
  feeAmount : Decimal
  reservedQuote : Decimal
  reservedShares : Decimal
  venueTradeIds : List String
  evidence : PaperEvidence
deriving DecidableEq

/-- The row `commit_paper_order` inserts. -/
def PaperOrderCommit.row (order : PaperOrderCommit) (now : Time) : PaperVenueOrder where
  venueOrderId := order.venueOrderId
  conditionId := order.conditionId
  tokenId := order.tokenId
  side := order.side
  state := order.state
  price := order.price
  feeRate := order.feeRate
  originalQuantity := order.originalQuantity
  remainingQuantity := order.remainingQuantity
  filledQuantity := order.filledQuantity
  filledPrice := order.filledPrice
  quoteAmount := order.quoteAmount
  feeAmount := order.feeAmount
  reservedQuote := order.reservedQuote
  reservedShares := order.reservedShares
  venueTradeIds := order.venueTradeIds
  evidence := order.evidence
  createdAt := now

structure PaperOrderSnapshot where
  venueOrderId : String
  state : OrderState
  remainingQuantity : Decimal
  filledQuantity : Decimal
  filledPrice : Option Decimal
  venueTradeIds : List String
  evidence : PaperEvidence
deriving DecidableEq

def PaperVenueOrder.snapshot (row : PaperVenueOrder) : PaperOrderSnapshot where
  venueOrderId := row.venueOrderId
  state := row.state
  remainingQuantity := row.remainingQuantity
  filledQuantity := row.filledQuantity
  filledPrice := row.filledPrice
  venueTradeIds := row.venueTradeIds
  evidence := row.evidence

def Db.paperOrder? (db : Db) (venueOrderId : String) : Option PaperVenueOrder :=
  db.paperVenueOrders.find? fun p => p.venueOrderId = venueOrderId

/-- `load_paper_order`, which is `find_paper_order`. -/
def Db.findPaperOrder (db : Db) (venueOrderId : String) : Option PaperOrderSnapshot :=
  (db.paperOrder? venueOrderId).map PaperVenueOrder.snapshot

/-- The balances `commit_paper_order` and `apply_paper_trade_through` read: a token without an
inventory row has none. -/
def Db.paperBalances (db : Db) (account : PaperAccount) (tokenId : String) : PaperBalances :=
  let inventory := db.paperInventory.find? fun p => p.tokenId = tokenId
  { quoteBalance := account.quoteBalance, reservedQuote := account.reservedQuote
    shares := inventory.elim 0 PaperInventory.shares
    reservedShares := inventory.elim 0 PaperInventory.reservedShares }

def Db.withPaperBalances (db : Db) (account : PaperAccount) (tokenId : String)
    (balances : PaperBalances) : Db :=
  let row : PaperInventory :=
    { tokenId, shares := balances.shares, reservedShares := balances.reservedShares }
  { db with
    paperAccount := some { account with
      quoteBalance := balances.quoteBalance, reservedQuote := balances.reservedQuote }
    paperInventory := Table.upsert PaperInventory.tokenId row (fun _ => row) db.paperInventory }

/-- The balances after `commit_paper_order` has debited a fill and made a reservation. -/
def PaperBalances.commit (balances : PaperBalances) (order : PaperOrderCommit) :
    Except StoreError PaperBalances :=
  match order.side with
  | .buy =>
    let debit := order.quoteAmount + order.feeAmount
    if balances.quoteBalance - balances.reservedQuote < debit + order.reservedQuote then
      .error (.identityMismatch "paper quote balance is insufficient")
    else
      .ok { balances with
        quoteBalance := balances.quoteBalance - debit
        reservedQuote := balances.reservedQuote + order.reservedQuote
        shares := balances.shares + order.filledQuantity }
  | .sell =>
    if balances.shares - balances.reservedShares <
        order.filledQuantity + order.reservedShares then
      .error (.identityMismatch "paper share balance is insufficient")
    else
      .ok { balances with
        shares := balances.shares - order.filledQuantity
        reservedShares := balances.reservedShares + order.reservedShares
        quoteBalance := balances.quoteBalance + (order.quoteAmount - order.feeAmount) }

def commitPaperOrder (mode : Mode) (order : PaperOrderCommit) (now : Time) (db : Db) :
    Tx PaperOrderSnapshot :=
  if mode ≠ .paper then
    .error (.identityMismatch "paper order cannot be committed in live mode")
  else
    match db.findPaperOrder order.venueOrderId with
    | some existing =>
      if existing.evidence ≠ order.evidence then
        .error (.identityMismatch
          "paper deterministic order ID was reused with different evidence")
      else .ok ⟨existing, db, []⟩
    | none =>
      match db.paperAccount with
      | none => .error (.identityMismatch "paper account is not initialized")
      | some account =>
        match (db.paperBalances account order.tokenId).commit order with
        | .error e => .error e
        | .ok balances =>
          let db := db.withPaperBalances account order.tokenId balances
          let db : Db :=
            { db with paperVenueOrders := db.paperVenueOrders ++ [order.row now] }
          let (db, event) := db.appendEvent "paper.venue_order_committed" "paper_order"
            (.text order.venueOrderId)
          .ok ⟨(order.row now).snapshot, db, [event]⟩

/-- The row of an order `cancel_paper_order` closes. -/
def PaperVenueOrder.cancel (row : PaperVenueOrder) : PaperVenueOrder :=
  { row with state := .cancelled, remainingQuantity := 0, reservedQuote := 0, reservedShares := 0 }

/-- What `cancel_paper_order` does to the tables when the order is still open. -/
def Db.releasePaperOrder (db : Db) (account : PaperAccount) (row : PaperVenueOrder) : Db :=
  { db with
    paperAccount := some { account with
      reservedQuote := max (account.reservedQuote - row.reservedQuote) 0 }
    paperInventory := Table.updateWhere (fun p : PaperInventory => p.tokenId = row.tokenId)
      (fun p => { p with reservedShares := max (p.reservedShares - row.reservedShares) 0 })
      db.paperInventory
    paperVenueOrders := Table.updateWhere
      (fun p : PaperVenueOrder => p.venueOrderId = row.venueOrderId) PaperVenueOrder.cancel
      db.paperVenueOrders }

def cancelPaperOrder (mode : Mode) (venueOrderId : String) (db : Db) : Tx PaperOrderSnapshot :=
  if mode ≠ .paper then
    .error (.identityMismatch "paper cancellation cannot run in live mode")
  else
    match db.paperOrder? venueOrderId with
    | none => .error .notFound
    | some row =>
      if row.state.terminal then
        let (db, event) :=
          db.appendEvent "paper.venue_order_cancelled" "paper_order" (.text venueOrderId)
        .ok ⟨row.snapshot, db, [event]⟩
      else
        match db.paperAccount with
        | none =>
          .error (.database
            "no rows returned by a query that expected to return at least one row")
        | some account =>
          let (db, event) := (db.releasePaperOrder account row).appendEvent
            "paper.venue_order_cancelled" "paper_order" (.text venueOrderId)
          .ok ⟨row.cancel.snapshot, db, [event]⟩

end OddsfoxExecution
