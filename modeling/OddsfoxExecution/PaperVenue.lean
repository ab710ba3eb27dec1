import OddsfoxExecution.Store.PaperLedger

/-!
# The paper venue

What `PaperVenue::submit` of `src/venue/paper.rs` makes of a request, the order
book and the market rules it fetches: the walk through the book of an immediate
order, and the order it commits to the ledger.
-/

namespace OddsfoxExecution

structure PaperFill where
  shares : Decimal
  quote : Decimal
  fee : Decimal
  complete : Bool
deriving DecidableEq

/-- `PaperFill::default`. -/
def PaperFill.none : PaperFill := { shares := 0, quote := 0, fee := 0, complete := false }

def PaperFill.averagePrice (fill : PaperFill) : Option Decimal :=
  if 0 < fill.shares then some (fill.quote / fill.shares) else Option.none

/-- `fill` with one level's shares and quote added. -/
def PaperFill.add (fill : PaperFill) (shares quote feeRate : Decimal) : PaperFill :=
  { fill with
    shares := fill.shares + shares, quote := fill.quote + quote, fee := fill.fee + quote * feeRate }

/-- The loop of `walk_book` over the asks of a buy; nothing where a division panics. -/
def walkAsks (feeRate : Decimal) : List PriceLevel → Decimal → PaperFill → Option PaperFill
  | [], _, fill => some fill
  | level :: rest, quoteRemaining, fill =>
    let quotePerShare := level.price * (1 + feeRate)
    if quotePerShare = 0 then Option.none
    else
      let shares := min level.size (quoteRemaining / quotePerShare)
      let quote := shares * level.price
      let fill := fill.add shares quote feeRate
      let quoteRemaining := quoteRemaining - (quote + quote * feeRate)
      if quoteRemaining ≤ 1 / 1000000 then some { fill with complete := true }
      else walkAsks feeRate rest quoteRemaining fill

/-- The loop of `walk_book` over the bids of a sell. -/
def walkBids (feeRate : Decimal) : List PriceLevel → Decimal → PaperFill → PaperFill
  | [], _, fill => fill
  | level :: rest, sharesRemaining, fill =>
    let shares := min level.size sharesRemaining
    let fill := fill.add shares (shares * level.price) feeRate
    let sharesRemaining := sharesRemaining - shares
    if sharesRemaining ≤ 1 / 1000000 then { fill with complete := true }
    else walkBids feeRate rest sharesRemaining fill

/-- The levels `walk_book` visits: best first, within the worst price. -/
def OrderBook.eligible (book : OrderBook) (side : Side) (worstPrice : Decimal) : List PriceLevel :=
  match side with
  | .buy => (book.asks.insertionSort fun a b => a.price ≤ b.price).filter
      fun level => level.price ≤ worstPrice
  | .sell => (book.bids.insertionSort fun a b => b.price ≤ a.price).filter
      fun level => worstPrice ≤ level.price

def walkBook (book : OrderBook) (side : Side) (requested worstPrice feeRate : Decimal) :
    Option PaperFill :=
  match side with
  | .buy => walkAsks feeRate (book.eligible .buy worstPrice) requested .none
  | .sell => some (walkBids feeRate (book.eligible .sell worstPrice) requested .none)

namespace PaperVenue

/-- `market.maker_fee_rate.max(market.taker_fee_rate)`. -/
def feeRate (market : MarketRules) : Decimal := max market.makerFeeRate market.takerFeeRate

/-- The walk through the book of an immediate order; a resting one fills nothing yet. -/
def fill (request : OrderIntentRequest) (book : OrderBook) (market : MarketRules)
    (quantity price : Decimal) : Option PaperFill :=
  if request.timeInForce.immediate then
    walkBook book request.side quantity price (feeRate market)
  else some .none

/-- The fill that counts: a FOK order that does not fill completely fills nothing. -/
def appliedFill (request : OrderIntentRequest) (fill : PaperFill) : PaperFill :=
  if request.timeInForce = .fok ∧ fill.complete = false then .none else fill

/-- The state the order is committed in. -/
def orderState (request : OrderIntentRequest) (fill : PaperFill) : OrderState :=
  if request.timeInForce.immediate then if fill.complete then .filled else .cancelled else .live

/-- The order `submit` commits for a fill of the book. -/
def commitOf (deterministicOrderId : String) (request : OrderIntentRequest) (market : MarketRules)
    (quantity price : Decimal) (fill : PaperFill) : PaperOrderCommit :=
  let immediate := request.timeInForce.immediate
  let applied := appliedFill request fill
  let originalQuantity :=
    if request.side = .buy ∧ immediate then quantity / market.tickSize else quantity
  { venueOrderId := deterministicOrderId
    conditionId := request.conditionId
    tokenId := request.tokenId
    side := request.side
    state := orderState request fill
    price
    feeRate := feeRate market
    originalQuantity
    remainingQuantity := if immediate then 0 else originalQuantity
    filledQuantity := applied.shares
    filledPrice := applied.averagePrice
    quoteAmount := applied.quote
    feeAmount := applied.fee
    reservedQuote :=
      if ¬ immediate ∧ request.side = .buy then quantity * price * (1 + feeRate market) else 0
    reservedShares := if ¬ immediate ∧ request.side = .sell then quantity else 0
    venueTradeIds :=
      if 0 < applied.shares then ["paper_trade_" ++ deterministicOrderId] else []
    evidence :=
      if request.timeInForce = .fok ∧ fill.complete = false then .insufficientDepth
      else .filled applied.shares applied.quote applied.fee applied.averagePrice }

/-- The order `submit` commits, or nothing where the request is refused or a division panics. -/
def order (deterministicOrderId : String) (request : OrderIntentRequest) (book : OrderBook)
    (market : MarketRules) : Option PaperOrderCommit :=
  match request.protectionPrice, request.quantityDecimal with
  | .ok price, .ok quantity =>
    match fill request book market quantity price with
    | Option.none => Option.none
    | some fill =>
      if request.side = .buy ∧ request.timeInForce.immediate ∧ market.tickSize = 0 then Option.none
      else some (commitOf deterministicOrderId request market quantity price fill)
  | _, _ => Option.none

end PaperVenue

end OddsfoxExecution
