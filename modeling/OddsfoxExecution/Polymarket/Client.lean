import OddsfoxExecution.Coordinator.Calls
import OddsfoxExecution.PriceChanges
import Mathlib.Data.List.Infix

/-!
# The venue client

What `PolymarketVenue` of `src/venue/polymarket.rs` asks its clients for and
what it makes of their answers: the requests, the errors and how they are
classified, and the mapping of statuses.  The clients themselves are not part
of the repository; a request may be answered with anything of its type.
-/

namespace OddsfoxExecution

/-! ## Errors -/

/-- `SdkStatus`: an HTTP answer that is not a success, with its `Display` text. -/
structure SdkStatus where
  statusCode : Nat
  message : String
  text : String
deriving DecidableEq, Repr

inductive SdkErrorKind where
  | geoblock
  | validation
  | other
deriving DecidableEq, Repr

/-- An error of a client; `status` is what `downcast_ref::<SdkStatus>` finds. -/
structure SdkError where
  status : Option SdkStatus
  kind : SdkErrorKind
  text : String
deriving DecidableEq, Repr

def containsText (text part : String) : Bool := part.toList <:+: text.toList

def classifyPreSubmitError (error : SdkError) : VenueError :=
  match error.status with
  | some status =>
    if status.statusCode = 425 then .matchingEngineRestart status.message
    else if containsText status.message "order_version_mismatch" then
      .protocolMismatch status.message
    else .rejected status.text
  | none =>
    match error.kind with
    | .geoblock => .geographicRestricted error.text
    | .validation => .rejected error.text
    | .other => .unavailable error.text

/-- `status_code.is_server_error()`. -/
def SdkStatus.isServerError (status : SdkStatus) : Bool :=
  500 ≤ status.statusCode && status.statusCode < 600

def classifySubmissionError (error : SdkError) : VenueError :=
  match error.status with
  | some status =>
    if status.statusCode = 425 then .matchingEngineRestart status.message
    else if containsText status.message "order_version_mismatch" then
      .protocolMismatch status.message
    else if status.isServerError then .ambiguous status.text
    else .rejected status.text
  | none =>
    match error.kind with
    | .validation | .geoblock => classifyPreSubmitError error
    | .other => .ambiguous error.text

def isNotFound (error : SdkError) : Bool :=
  error.status.any fun status => status.statusCode = 404

/-! ## Statuses -/

inductive OrderStatusType where
  | live
  | unmatched
  | delayed
  | matched
  | canceled
  | other (text : String)
deriving DecidableEq, Repr

def mapOrderStatus : OrderStatusType → OrderState
  | .live | .unmatched | .delayed => .live
  | .matched => .filled
  | .canceled => .cancelled
  | .other _ => .unknown

inductive TradeStatusType where
  | matched
  | mined
  | confirmed
  | retrying
  | failed
  | other (text : String)
deriving DecidableEq, Repr

def mapTradeStatus : TradeStatusType → Option TradeState
  | .matched => some .matched
  | .mined => some .mined
  | .confirmed => some .confirmed
  | .retrying => some .retrying
  | .failed => some .failed
  | .other _ => none

inductive TraderSide where
  | taker
  | maker
  | other
deriving DecidableEq, Repr

/-! ## Answers -/

structure Geoblock where
  blocked : Bool
  country : String
  region : String
deriving DecidableEq

structure SdkMarket where
  tokens : List Nat
  active : Bool
  closed : Bool
  acceptingOrders : Bool
  minimumTickSize : Decimal
  minimumOrderSize : Decimal
  negRisk : Bool
  makerBaseFee : Decimal
  takerBaseFee : Decimal
deriving DecidableEq

structure SdkOrderBook where
  bids : List PriceLevel
  asks : List PriceLevel
  timestamp : Time
  hash : Option String
deriving DecidableEq

structure SdkOrder where
  id : String
  assetId : Nat
  status : OrderStatusType
  originalSize : Decimal
  sizeMatched : Decimal
  price : Decimal
  associateTrades : List String
deriving DecidableEq

/-- A trade; of the maker orders only their identifiers are read. -/
structure SdkTrade where
  id : String
  takerOrderId : String
  makerOrderIds : List String
  traderSide : TraderSide
  status : TradeStatusType
  statusText : String
deriving DecidableEq

structure SdkPosition where
  conditionId : String
  asset : Nat
  size : Decimal
deriving DecidableEq

structure Page (α : Type) where
  data : List α
  nextCursor : String
deriving DecidableEq

structure BalanceAllowance where
  balance : Decimal
  allowances : List (String × String)
deriving DecidableEq

/-- What `sign_order` gives the order builders. -/
inductive SignableOrder where
  | limit (tokenId : Nat) (size price : Decimal) (side : Side) (orderType : TimeInForce)
      (postOnly deferExec : Bool) (expiration : Option Time)
  | market (tokenId : Nat) (amount price : Decimal) (unit : QuantityUnit) (side : Side)
      (orderType : TimeInForce) (postOnly deferExec : Bool)
deriving DecidableEq

/-- A signed order: the token it names and its canonical JSON texts, or the serializer's error. -/
structure SignedOrder where
  tokenId : Nat
  order : String ⊕ JsonText
  payload : String ⊕ String
deriving DecidableEq

structure PostOrderResponse where
  success : Bool
  errorMsg : Option String
  orderId : String
  status : OrderStatusType
  statusText : String
  takingAmount : Decimal
  makingAmount : Decimal
  tradeIds : List String
deriving DecidableEq

structure CancelOrderResponse where
  canceled : List String
  notCanceled : List (String × String)
deriving DecidableEq

structure HeartbeatResponse where
  heartbeatId : Uuid
  error : Option String
deriving DecidableEq

/-- `asset_type`, with the token of a conditional balance. -/
inductive AssetType where
  | collateral
  | conditional (tokenId : Nat)
deriving DecidableEq

/-- The requests to the CLOB, data and WebSocket clients. -/
inductive ClientCall where
  | version
  | checkGeoblock
  | closedOnlyMode
  | market (conditionId : String)
  | orderBook (tokenId : Nat)
  | sign (order : SignableOrder)
  | negRisk (tokenId : Nat)
  | balanceAllowance (asset : AssetType)
  | postOrder (order : SignedOrder)
  | cancelOrder (venueOrderId : String)
  | order (venueOrderId : String)
  | orders (cursor : Option String)
  | trades (cursor : Option String)
  | positions (user : String) (offset : Nat)
  | postHeartbeat (heartbeatId : Option Uuid)
  | subscribeOrderbook (tokenId : Nat)
  | subscribePrices (tokenId : Nat)
deriving DecidableEq

abbrev ClientCall.Value : ClientCall → Type
  | version => Nat
  | checkGeoblock => Geoblock
  | closedOnlyMode => Bool
  | market _ => SdkMarket
  | orderBook _ => SdkOrderBook
  | sign _ => SignedOrder
  | negRisk _ => Bool
  | balanceAllowance _ => BalanceAllowance
  | postOrder _ => PostOrderResponse
  | cancelOrder _ => CancelOrderResponse
  | order _ => SdkOrder
  | orders _ => Page SdkOrder
  | trades _ => Page SdkTrade
  | positions .. => List SdkPosition
  | postHeartbeat _ => HeartbeatResponse
  | subscribeOrderbook _ | subscribePrices _ => Unit

end OddsfoxExecution
