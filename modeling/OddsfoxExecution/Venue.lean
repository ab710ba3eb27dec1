import OddsfoxExecution.Domain
import Mathlib.Algebra.BigOperators.Group.List.Basic
import Mathlib.Algebra.Field.Rat
import Mathlib.Algebra.Order.Field.Basic
import Mathlib.Algebra.Order.Ring.Rat

/-!
# The venue boundary

The data that crosses `ExecutionVenue` (`src/venue/mod.rs`): market rules and
order books on the way in, prepared orders on the way out, and the answers a
venue can give.  The JSON evidence attached to an answer is only stored by the
executor and is left out.
-/

namespace OddsfoxExecution

structure MarketRules where
  conditionId : String
  tokenId : String
  active : Bool
  closed : Bool
  acceptingOrders : Bool
  tickSize : Decimal
  minimumOrderSize : Decimal
  negativeRisk : Bool
  makerFeeRate : Decimal
  takerFeeRate : Decimal
  observedAt : Time
deriving DecidableEq

structure PriceLevel where
  price : Decimal
  size : Decimal
deriving DecidableEq

structure OrderBook where
  bids : List PriceLevel
  asks : List PriceLevel
  observedAt : Time
  hash : Option String
deriving DecidableEq

namespace OrderBook

def bestBid (book : OrderBook) : Option Decimal := (book.bids.map PriceLevel.price).max?

def bestAsk (book : OrderBook) : Option Decimal := (book.asks.map PriceLevel.price).min?

def askDepthThrough (book : OrderBook) (price : Decimal) : Decimal :=
  ((book.asks.filter fun level => decide (level.price ≤ price)).map PriceLevel.size).sum

def bidDepthThrough (book : OrderBook) (price : Decimal) : Decimal :=
  ((book.bids.filter fun level => decide (price ≤ level.price)).map PriceLevel.size).sum

end OrderBook

/-- A JSON text with what `serde_json` and `serde_jcs` make of it: its canonical form, or
nothing when it does not parse. -/
structure JsonText where
  raw : String
  canonical : Option String
deriving DecidableEq, Repr

structure PreparedVenueOrder where
  deterministicOrderId : String
  normalizedJson : JsonText
  signedPayloadJson : Option String
  signerAddress : Option String
  funderAddress : Option String
  protocolVersion : Nat
  sdkVersion : String
deriving DecidableEq, Repr

structure VenueSubmission where
  venueOrderId : String
  state : OrderState
  filledQuantity : Decimal
  filledPrice : Option Decimal
  venueTradeIds : List String
deriving DecidableEq

structure VenueCancellation where
  state : OrderState
deriving DecidableEq

structure ObservedVenueOrder where
  venueOrderId : String
  state : OrderState
  remainingQuantity : Decimal
  filledQuantity : Decimal
  filledPrice : Option Decimal
  venueTradeIds : List String
deriving DecidableEq

structure ObservedVenueTrade where
  venueTradeId : String
  venueOrderIds : List String
  status : TradeState
deriving DecidableEq

structure ObservedVenuePosition where
  conditionId : String
  tokenId : String
  shares : Decimal
deriving DecidableEq

structure ReconciliationResult where
  observedOrders : List ObservedVenueOrder
  observedTrades : List ObservedVenueTrade
  observedPositions : List ObservedVenuePosition
  criticalFindings : List String
deriving DecidableEq

inductive VenueError where
  | market (message : String)
  | stale (message : String)
  | rejected (message : String)
  | ambiguous (message : String)
  | unavailable (message : String)
  | matchingEngineRestart (message : String)
  | protocolMismatch (message : String)
  | geographicRestricted (message : String)
  | liveNotCompiled
  | liveNotConfigured (message : String)
deriving DecidableEq, Repr

namespace VenueError

def text : VenueError → String
  | .market message => "market validation failed: " ++ message
  | .stale message => "venue is stale: " ++ message
  | .rejected message => "venue rejected request: " ++ message
  | .ambiguous message => "venue response is ambiguous: " ++ message
  | .unavailable message => "venue temporarily unavailable: " ++ message
  | .matchingEngineRestart message => "matching engine is restarting: " ++ message
  | .protocolMismatch message => "venue protocol mismatch: " ++ message
  | .geographicRestricted message => "geographic policy prohibits new orders: " ++ message
  | .liveNotCompiled => "live support is not compiled into this binary"
  | .liveNotConfigured message => "live trading is not configured: " ++ message

def isAmbiguous : VenueError → Bool
  | .ambiguous _ => true
  | _ => false

def requiresHalt : VenueError → Bool
  | .ambiguous _ | .matchingEngineRestart _ | .protocolMismatch _ | .geographicRestricted _ => true
  | _ => false

end VenueError

end OddsfoxExecution
