import OddsfoxExecution.Polymarket.Client

/-!
# The live venue

`PolymarketVenue` of `src/venue/polymarket.rs` as programs over the calls at
which its tasks can be interrupted: the requests of its clients, the two
generation counters, the book cache, the two mutexes and the clock.  A message
of a stream is handled by a task of its own.
-/

namespace OddsfoxExecution

/-- The counters of what the streams saw: `user_event_generation` and `stream_gap_generation`. -/
inductive Generation where
  | userEvents
  | streamGaps
deriving DecidableEq

inductive VenueLock where
  | marketSubscriptions
  | heartbeatId
deriving DecidableEq

inductive Channel where
  | user
  | market
deriving DecidableEq

/-- The `Debug` text of a `ChannelType`. -/
def Channel.text : Channel → String
  | .user => "User"
  | .market => "Market"

/-- What a message of a market stream does to the book cache. -/
inductive BookUpdate where
  | snapshot (assetId : String) (book : OrderBook)
  | priceChanges (observedAt : Time) (entries : List PriceChangeEntry)
  | lost (assetId : String)
deriving DecidableEq

/-- What a task does under the write lock of the cache. -/
def BookUpdate.apply (cache : BookCache) : BookUpdate → BookCache
  | .snapshot assetId next =>
    if ((cache.books assetId).any fun prior => decide (next.observedAt < prior.observedAt)) ∨
        bookIsConsistent next = false then
      cache.lose assetId
    else { cache with books := Function.update cache.books assetId (some next) }
  | .priceChanges observedAt entries => cache.applyPriceChanges observedAt entries
  | .lost assetId => cache.lose assetId

/-- What a method of the venue gave its caller. -/
inductive VenueReply where
  | method (call : VenueCall) (result : Except VenueError call.Value)
  | reconciliationRequired (required : Bool)

/-- The calls of a task.  `updateBooks` is answered with the gaps it makes; `hashOrder` is the order
in which a hash set is iterated. -/
inductive PolymarketCall where
  | client (call : ClientCall)
  | now
  | sleep
  | isConnected (channel : Channel)
  | lock (mutex : VenueLock)
  | unlock (mutex : VenueLock)
  | subscriptions
  | insertSubscription (tokenId : String)
  | removeSubscription (tokenId : String)
  | heartbeatId
  | setHeartbeatId (heartbeatId : Uuid)
  | bump (generation : Generation)
  | load (generation : Generation)
  | loadReconciled (generation : Generation)
  | storeReconciled (generation : Generation) (value : Nat)
  | updateBooks (update : BookUpdate)
  | cachedBook (tokenId : String)
  | spawnStreams (tokenId : String)
  | hashOrder (tokens : List Nat)
  | reply (reply : VenueReply)

abbrev PolymarketCall.Answer : PolymarketCall → Type
  | client call => Except SdkError call.Value
  | now => Time
  | isConnected _ => Bool
  | subscriptions => List String
  | heartbeatId => Option Uuid
  | load _ | loadReconciled _ | updateBooks _ => Nat
  | cachedBook _ => Option OrderBook
  | hashOrder _ => List Nat
  | _ => Unit

/-- A method of the venue: a program over the calls that may fail. -/
abbrev VenueAction (α : Type) : Type :=
  ExceptT VenueError (Prog PolymarketCall PolymarketCall.Answer) α

namespace VenueAction

variable {α : Type}

def perform (call : PolymarketCall) : VenueAction call.Answer := ExceptT.lift (Prog.perform call)

def attempt (action : VenueAction α) : VenueAction (Except VenueError α) := ExceptT.lift action.run

/-- A request followed by `.map_err(classify_pre_submit_error)?`. -/
def client (call : ClientCall) : VenueAction call.Value := do
  match ← perform (.client call) with
  | .ok value => pure value
  | .error e => throw (classifyPreSubmitError e)

/-- `map_err(|error| ..)?` on a value. -/
def orThrow {ε : Type} (wrap : ε → VenueError) : Except ε α → VenueAction α
  | .ok value => pure value
  | .error e => throw (wrap e)

/-- An action under a mutex; the guard is dropped however the action ends. -/
def withLock (mutex : VenueLock) (action : VenueAction α) : VenueAction α := do
  perform (.lock mutex)
  let result ← attempt action
  perform (.unlock mutex)
  match result with
  | .ok value => pure value
  | .error e => throw e

end VenueAction

open VenueAction

/-- The parts of a `PolymarketVenue` that never change, and the functions of other packages it
uses: the parsers, `contract_config`, the EIP-712 hash and the texts of values. -/
structure PolymarketVenue where
  expectedProtocol : Nat
  chainId : Nat
  signerAddress : Option String
  funderAddress : Option String
  parseU256 : String → Except String Nat
  parseAddress : String → Except String String
  amount : QuantityUnit → Decimal → Except String Decimal
  exchange : Bool → Option String
  signingHash : SignedOrder → String → String
  reconstructSignedOrder : String → Except String SignedOrder
  decimalErrorText : String → String

/-- The loop over the pages of a listing, for at most that many pages. -/
def readPages {α : Type} (request : Option String → VenueAction (Page α)) :
    Nat → Option String → VenueAction (List α)
  | 0, _ => pure []
  | pages + 1, cursor => do
    let page ← request cursor
    if page.nextCursor.isEmpty ∨ page.nextCursor = "LTE=" then pure page.data
    else do
      let rest ← readPages request pages (some page.nextCursor)
      pure (page.data ++ rest)

def waitForWs (channel : Channel) : Nat → VenueAction Unit
  | 0 => throw (.stale (channel.text ++ " WebSocket did not connect within 10 seconds"))
  | attempts + 1 => do
    let connected : Bool ← perform (.isConnected channel)
    if connected = true then pure ()
    else do
      perform .sleep
      waitForWs channel attempts

/-- `fetch_add(1)` on the gaps, so many times. -/
def bumpGaps : Nat → VenueAction Unit
  | 0 => pure ()
  | gaps + 1 => do
    perform (.bump .streamGaps)
    bumpGaps gaps

/-- What an order of a listing is observed as. -/
def SdkOrder.observed (order : SdkOrder) : ObservedVenueOrder where
  venueOrderId := order.id
  state := mapOrderStatus order.status
  remainingQuantity := max (order.originalSize - order.sizeMatched) 0
  filledQuantity := order.sizeMatched
  filledPrice := some order.price
  venueTradeIds := order.associateTrades

/-- The orders a trade is for, as the account traded it. -/
def SdkTrade.venueOrderIds (trade : SdkTrade) : List String :=
  match trade.traderSide with
  | .taker => [trade.takerOrderId]
  | .maker => trade.makerOrderIds
  | .other => trade.takerOrderId :: trade.makerOrderIds

/-- A trade of a listing, or the finding on one whose status is not known. -/
def SdkTrade.observed (trade : SdkTrade) : String ⊕ ObservedVenueTrade :=
  match mapTradeStatus trade.status with
  | some status => .inr ⟨trade.id, trade.venueOrderIds, status⟩
  | none => .inl ("venue trade " ++ trade.id ++ " has an unrecognized status " ++ trade.statusText)

def SdkPosition.observed (position : SdkPosition) : ObservedVenuePosition :=
  ⟨position.conditionId, toString position.asset, position.size⟩

namespace PolymarketVenue

variable (self : PolymarketVenue)

def ensureTradingAllowed : VenueAction Unit := do
  let version : Nat ← client .version
  if version ≠ self.expectedProtocol then
    throw (.protocolMismatch s!"expected {self.expectedProtocol}, venue reports {version}")
  else do
    let geoblock : Geoblock ← client .checkGeoblock
    if geoblock.blocked = true then
      throw (.geographicRestricted s!"blocked from {geoblock.country}/{geoblock.region}")
    else do
      let closedOnly : Bool ← client .closedOnlyMode
      if closedOnly = true then
        throw (.geographicRestricted "account is in close-only mode")
      else pure ()

/-! ## Market data -/

/-- The end of `ensure_market_subscription`: new streams for the token. -/
def subscribe (tokenId : String) : VenueAction Bool := do
  let token ← orThrow .market (self.parseU256 tokenId)
  client (.subscribeOrderbook token)
  client (.subscribePrices token)
  perform (.spawnStreams tokenId)
  perform (.insertSubscription tokenId)
  pure true

def cacheIsHealthy (tokenId : String) : VenueAction Bool := do
  let book : Option OrderBook ← perform (.cachedBook tokenId)
  if book.any bookIsConsistent = true then perform (.isConnected .market) else pure false

/-- `ensure_market_subscription` under the mutex; the result says whether to wait for the
channel. -/
def subscribeUnlessHealthy (tokenId : String) : VenueAction Bool := do
  let subscriptions : List String ← perform .subscriptions
  if tokenId ∈ subscriptions then do
    let healthy ← cacheIsHealthy tokenId
    if healthy = true then pure false
    else do
      perform (.removeSubscription tokenId)
      self.subscribe tokenId
  else self.subscribe tokenId

def ensureMarketSubscription (tokenId : String) : VenueAction Unit := do
  let subscribed ← withLock .marketSubscriptions (self.subscribeUnlessHealthy tokenId)
  if subscribed = true then waitForWs .market 100 else pure ()

def marketRules (conditionId tokenId : String) : VenueAction MarketRules := do
  self.ensureTradingAllowed
  self.ensureMarketSubscription tokenId
  let market : SdkMarket ← client (.market conditionId)
  if (market.tokens.any fun token => toString token = tokenId) = true then do
    let observedAt ← perform .now
    pure
      { conditionId, tokenId
        active := market.active
        closed := market.closed
        acceptingOrders := market.acceptingOrders
        tickSize := market.minimumTickSize
        minimumOrderSize := market.minimumOrderSize
        negativeRisk := market.negRisk
        makerFeeRate := market.makerBaseFee
        takerFeeRate := market.takerBaseFee
        observedAt }
  else throw (.market "token does not belong to condition")

/-- `order_book` without the cache. -/
def fetchOrderBook (tokenId : String) : VenueAction OrderBook := do
  let token ← orThrow .market (self.parseU256 tokenId)
  let book : SdkOrderBook ← client (.orderBook token)
  let book : OrderBook := ⟨book.bids, book.asks, book.timestamp, book.hash⟩
  if bookIsConsistent book = true then pure book
  else throw (.stale "REST order book failed consistency checks")

def orderBook (tokenId : String) : VenueAction OrderBook := do
  let cached : Option OrderBook ← perform (.cachedBook tokenId)
  match cached with
  | some book => do
    let now : Time ← perform .now
    if (now - book.observedAt).tdiv 1000 ≤ 2 then pure book else self.fetchOrderBook tokenId
  | none => self.fetchOrderBook tokenId

/-! ## Orders -/

/-- The order `sign_order` builds. -/
def signable (request : OrderIntentRequest) (tokenId : Nat) (price quantity : Decimal) :
    Except VenueError SignableOrder :=
  match request.timeInForce with
  | .gtc => .ok (.limit tokenId quantity price request.side .gtc request.postOnly false none)
  | .gtd =>
    match request.expiresAt with
    | some expiration =>
      .ok (.limit tokenId quantity price request.side .gtd request.postOnly false (some expiration))
    | none => .error (.rejected "GTD expiration is required")
  | .fok | .fak =>
    let unit := match request.side with
      | .buy => QuantityUnit.quote
      | .sell => QuantityUnit.shares
    match self.amount unit quantity with
    | .ok amount =>
      .ok (.market tokenId amount price unit request.side request.timeInForce false false)
    | .error e => .error (.rejected e)

def signOrder (request : OrderIntentRequest) : VenueAction SignedOrder := do
  let tokenId ← orThrow .rejected (self.parseU256 request.tokenId)
  let price ← orThrow (fun e => .rejected e.text) request.protectionPrice
  let quantity ← orThrow (fun e => .rejected e.text) request.quantityDecimal
  let order ← orThrow id (self.signable request tokenId price quantity)
  client (.sign order)

/-- The amount the account must hold and have allowed. -/
def required (request : OrderIntentRequest) (quantity price : Decimal) : Decimal :=
  match request.side with
  | .buy => if request.timeInForce.immediate then quantity else quantity * price
  | .sell => quantity

/-- What the account pays with. -/
def asset (request : OrderIntentRequest) (tokenId : Nat) : AssetType :=
  match request.side with
  | .buy => .collateral
  | .sell => .conditional tokenId

def allowanceFor (balance : BalanceAllowance) (exchange : String) : Except VenueError Decimal :=
  match balance.allowances.find? fun allowance => allowance.1 = exchange with
  | none => .error (.rejected s!"no venue allowance is recorded for exchange {exchange}")
  | some (_, raw) =>
    match decimalFromStrExact raw with
    | some (allowance, _) => .ok allowance
    | none => .error (.rejected s!"invalid venue allowance: {self.decimalErrorText raw}")

def ensureBalanceAndAllowance (request : OrderIntentRequest) (exchange : String) :
    VenueAction Unit := do
  let tokenId ← orThrow .rejected (self.parseU256 request.tokenId)
  let balance : BalanceAllowance ← client (.balanceAllowance (asset request tokenId))
  let quantity ← orThrow (fun e => .rejected e.text) request.quantityDecimal
  let price ← orThrow (fun e => .rejected e.text) request.protectionPrice
  let required := required request quantity price
  if balance.balance < required then
    throw (.rejected s!"venue balance {decimalText balance.balance} is below required {
      decimalText required}")
  else do
    let allowance ← orThrow id (self.allowanceFor balance exchange)
    if allowance < required then
      throw (.rejected s!"venue allowance {decimalText allowance} is below required {
        decimalText required}")
    else pure ()

def prepare (request : OrderIntentRequest) : VenueAction PreparedVenueOrder := do
  self.ensureTradingAllowed
  let signed ← self.signOrder request
  let negRisk : Bool ← client (.negRisk signed.tokenId)
  match self.exchange negRisk with
  | none =>
    throw (.protocolMismatch
      s!"V2 exchange is not configured for chain {self.chainId} and neg_risk={negRisk}")
  | some exchange => do
    self.ensureBalanceAndAllowance request exchange
    match signed.payload, signed.order with
    | .inl e, _ => throw (.rejected e)
    | .inr _, .inl e => throw (.rejected e)
    | .inr payload, .inr order =>
      pure
        { deterministicOrderId := self.signingHash signed exchange
          normalizedJson := order
          signedPayloadJson := some payload
          signerAddress := self.signerAddress
          funderAddress := self.funderAddress
          protocolVersion := self.expectedProtocol
          sdkVersion := "0.7.0" }

/-- What a response to a posted order says, given the side of the order. -/
def submission (side : Side) (response : PostOrderResponse) : Except VenueError VenueSubmission :=
  if response.success = false then
    .error (.rejected (response.errorMsg.getD "venue rejected the order"))
  else if mapOrderStatus response.status = .unknown then
    .error (.ambiguous s!"venue returned unrecognized order status {response.statusText} for {
      response.orderId}")
  else
    let (filledQuantity, quote) := match side with
      | .buy => (response.takingAmount, response.makingAmount)
      | .sell => (response.makingAmount, response.takingAmount)
    .ok
      { venueOrderId := response.orderId
        state := mapOrderStatus response.status
        filledQuantity
        filledPrice := if 0 < filledQuantity then some (quote / filledQuantity) else none
        venueTradeIds := response.tradeIds }

def submit (prepared : PreparedVenueOrder) (request : OrderIntentRequest) :
    VenueAction VenueSubmission := do
  match prepared.signedPayloadJson with
  | none => throw (.rejected "signed payload is required in live mode")
  | some payload => do
    let signed ← orThrow .rejected (self.reconstructSignedOrder payload)
    match ← perform (.client (.postOrder signed)) with
    | .ok response => orThrow id (submission request.side response)
    | .error e => throw (classifySubmissionError e)

def cancel (venueOrderId : String) : VenueAction VenueCancellation := do
  let response : CancelOrderResponse ← client (.cancelOrder venueOrderId)
  if venueOrderId ∈ response.canceled then pure ⟨.cancelled⟩
  else
    let reason := (response.notCanceled.find? fun entry => entry.1 = venueOrderId).map Prod.snd
    throw (.ambiguous (reason.getD "venue did not positively acknowledge cancellation"))

def findOrder (deterministicOrderId : String) : VenueAction (Option ObservedVenueOrder) := do
  match ← perform (.client (.order deterministicOrderId)) with
  | .ok order => pure (some (SdkOrder.observed order))
  | .error e => if isNotFound e then pure none else throw (classifyPreSubmitError e)

/-! ## Reconciliation -/

/-- The loop over the pages of positions: `left` more pages after this one.  The second result says
whether the last page the API serves was full. -/
def readPositions (user : String) : Nat → Nat → VenueAction (List SdkPosition × Bool)
  | 0, pageIndex => do
    let page : List SdkPosition ← client (.positions user (pageIndex * 500))
    pure (page, decide (500 ≤ page.length))
  | left + 1, pageIndex => do
    let page : List SdkPosition ← client (.positions user (pageIndex * 500))
    if page.length < 500 then pure (page, false)
    else do
      let rest ← readPositions user left (pageIndex + 1)
      pure (page ++ rest.1, rest.2)

/-- The loop over the tokens of the account; the result are its findings. -/
def checkAllowances : List Nat → VenueAction (List String)
  | [] => pure []
  | tokenId :: rest => do
    let conditional : BalanceAllowance ← client (.balanceAllowance (.conditional tokenId))
    let findings ← checkAllowances rest
    if conditional.allowances.isEmpty = true then
      pure (s!"venue returned no conditional-token allowances for {tokenId}" :: findings)
    else pure findings

/-- The tokens of the observed orders and positions, from their texts. -/
def tokenIds (orders : List SdkOrder) (positions : List SdkPosition) : List Nat :=
  (orders.map SdkOrder.assetId ++ positions.map SdkPosition.asset).filterMap
    fun token => (self.parseU256 (toString token)).toOption

structure AccountRead where
  orders : List SdkOrder
  trades : List SdkTrade
  collateral : BalanceAllowance
  positions : List SdkPosition
  exceeded : Bool
  allowanceFindings : List String

/-- The requests of `reconcile`. -/
def readAccount : VenueAction AccountRead := do
  let orders ← readPages (fun cursor => client (.orders cursor)) 100 none
  let trades ← readPages (fun cursor => client (.trades cursor)) 100 none
  let collateral : BalanceAllowance ← client (.balanceAllowance .collateral)
  match self.funderAddress with
  | none => throw (.liveNotConfigured "funder_address is required")
  | some raw => do
    let funder ← orThrow .liveNotConfigured (self.parseAddress raw)
    let positions ← readPositions funder 20 0
    let tokens : List Nat ← perform (.hashOrder (self.tokenIds orders positions.1))
    let allowanceFindings ← checkAllowances tokens
    pure ⟨orders, trades, collateral, positions.1, positions.2, allowanceFindings⟩

/-- The findings of a reconciliation, in the order they are pushed. -/
def AccountRead.criticalFindings (read : AccountRead) : List String :=
  (read.trades.filterMap fun trade => trade.observed.getLeft?) ++
    (if read.collateral.allowances.isEmpty then
      ["venue returned no collateral allowances for the configured account"] else []) ++
    (if read.exceeded then
      ["position reconciliation exceeded the Data API pagination bound"] else []) ++
    read.allowanceFindings

def AccountRead.result (read : AccountRead) : ReconciliationResult where
  observedOrders := read.orders.map SdkOrder.observed
  observedTrades := read.trades.filterMap fun trade => trade.observed.getRight?
  observedPositions := read.positions.map SdkPosition.observed
  criticalFindings := read.criticalFindings

/-- The market stream is there, or nothing is subscribed to. -/
def marketStreamAlive : VenueAction Bool := do
  let subscriptions ← withLock .marketSubscriptions (perform .subscriptions)
  if subscriptions.isEmpty = true then pure true else perform (.isConnected .market)

def reconcile : VenueAction ReconciliationResult := do
  let userGenerationAtStart : Nat ← perform (.load .userEvents)
  let gapGenerationAtStart : Nat ← perform (.load .streamGaps)
  self.ensureTradingAllowed
  let connected : Bool ← perform (.isConnected .user)
  if connected = true then do
    let read ← self.readAccount
    let alive ← marketStreamAlive
    if alive = true then do
      perform (.storeReconciled .streamGaps gapGenerationAtStart)
      perform (.storeReconciled .userEvents userGenerationAtStart)
      pure read.result
    else throw (.stale "market stream is disconnected during reconciliation")
  else throw (.stale "authenticated user stream is disconnected")

/-- The end of `heartbeat`, under the mutex. -/
def postHeartbeat : VenueAction Unit := do
  let heartbeatId : Option Uuid ← perform .heartbeatId
  let response : HeartbeatResponse ← client (.postHeartbeat heartbeatId)
  match response.error with
  | some e => throw (.unavailable e)
  | none => perform (.setHeartbeatId response.heartbeatId)

def heartbeat : VenueAction Unit := do
  let connected : Bool ← perform (.isConnected .user)
  if connected = true then do
    let alive ← marketStreamAlive
    if alive = true then do
      let gaps : Nat ← perform (.load .streamGaps)
      let reconciled : Nat ← perform (.loadReconciled .streamGaps)
      if gaps = reconciled then withLock .heartbeatId postHeartbeat
      else throw (.stale "a WebSocket gap requires reconciliation")
    else throw (.stale "market stream is disconnected")
  else throw (.stale "authenticated user stream is disconnected")

def reconciliationRequired : VenueAction Bool := do
  let events : Nat ← perform (.load .userEvents)
  let reconciled : Nat ← perform (.loadReconciled .userEvents)
  pure (decide (events ≠ reconciled))

/-- The methods of `ExecutionVenue` that are awaited. -/
def method : (call : VenueCall) → VenueAction call.Value
  | .marketRules conditionId tokenId => self.marketRules conditionId tokenId
  | .orderBook tokenId => self.orderBook tokenId
  | .prepare _ request => self.prepare request
  | .submit prepared request => self.submit prepared request
  | .cancel venueOrderId => cancel venueOrderId
  | .reconcile => self.reconcile
  | .findOrder venueOrderId => findOrder venueOrderId
  | .heartbeat => heartbeat

end PolymarketVenue

/-! ## Streams -/

/-- What a stream yields next; an error is only logged. -/
inductive StreamMessage (α : Type) where
  | ok (value : α)
  | error
  | ended
deriving DecidableEq

/-- `DateTime::from_timestamp_millis(..).unwrap_or_else(Utc::now)`; nothing is a timestamp out of
range. -/
def observedAtOrNow : Option Time → VenueAction Time
  | some observedAt => pure observedAt
  | none => perform .now

structure BookMessage where
  assetId : Nat
  bids : List PriceLevel
  asks : List PriceLevel
  timestamp : Option Time
  hash : Option String
deriving DecidableEq

structure PriceMessage where
  timestamp : Option Time
  priceChanges : List PriceChangeEntry
deriving DecidableEq

/-- The user stream task on one message. -/
def onUserMessage : StreamMessage Unit → VenueAction Unit
  | .ok _ => perform (.bump .userEvents)
  | .error | .ended => perform (.bump .streamGaps)

/-- What a task does to the cache, with the gaps it makes. -/
def changeBooks (update : BookUpdate) : VenueAction Unit := do
  let gaps : Nat ← perform (.updateBooks update)
  bumpGaps gaps

/-- The book stream task of a token on one message. -/
def onBookMessage (tokenId : String) : StreamMessage BookMessage → VenueAction Unit
  | .ok book => do
    let observedAt ← observedAtOrNow book.timestamp
    changeBooks (.snapshot (toString book.assetId) ⟨book.bids, book.asks, observedAt, book.hash⟩)
  | .error | .ended => changeBooks (.lost tokenId)

/-- The price stream task of a token on one message. -/
def onPriceMessage (tokenId : String) : StreamMessage PriceMessage → VenueAction Unit
  | .ok change => do
    let observedAt ← observedAtOrNow change.timestamp
    changeBooks (.priceChanges observedAt change.priceChanges)
  | .error | .ended => changeBooks (.lost tokenId)

end OddsfoxExecution
