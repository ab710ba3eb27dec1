import OddsfoxExecution.Polymarket.Account

/-!
# What the tasks of the live venue promise

For each call of a task, what the task's calls before it guarantee: a
reconciliation loads both generations before its first request and stores what
it loaded, a heartbeat is posted after a check that passed, and a reply follows
from the answers before it.
-/

namespace OddsfoxExecution

/-- The last call compared the counter with the reconciled one, and found them equal. -/
def Checked (g : Generation) (made : VenueCalls) : Prop :=
  ∃ value between before, made = between ++ ⟨.loadReconciled g, value⟩ :: ⟨.load g, value⟩ :: before

/-- A book that `order_book` serves: a cached one of at most two seconds, or a consistent one
fetched. -/
def Served (self : PolymarketVenue) (tokenId : String) (made : VenueCalls) (book : OrderBook) :
    Prop :=
  (∃ now, made = [⟨.now, now⟩, ⟨.cachedBook tokenId, some book⟩] ∧
    (now - book.observedAt).tdiv 1000 ≤ 2) ∨
  ∃ token fetched, self.parseU256 tokenId = .ok token ∧
    answered (.orderBook token) fetched ∈ made ∧ bookIsConsistent book = true ∧
    book = ⟨fetched.bids, fetched.asks, fetched.timestamp, fetched.hash⟩

/-- New orders are allowed: the venue said so. -/
structure TradingAllowed (venue : PolymarketVenue) (made : VenueCalls) : Prop where
  version : answered .version venue.expectedProtocol ∈ made
  geoblock : ∃ geoblock, answered .checkGeoblock geoblock ∈ made ∧ geoblock.blocked = false
  closedOnly : answered .closedOnlyMode false ∈ made

/-- The account holds what the order needs and has allowed the exchange to take it. -/
def Covered (self : PolymarketVenue) (request : OrderIntentRequest) (exchange : String)
    (made : VenueCalls) : Prop :=
  ∃ tokenId quantity price balance allowance, self.parseU256 request.tokenId = .ok tokenId ∧
    request.quantityDecimal = .ok quantity ∧ request.protectionPrice = .ok price ∧
    answered (.balanceAllowance (PolymarketVenue.asset request tokenId)) balance ∈ made ∧
    PolymarketVenue.required request quantity price ≤ balance.balance ∧
    self.allowanceFor balance exchange = .ok allowance ∧
    PolymarketVenue.required request quantity price ≤ allowance

/-- How `prepare` comes to its order. -/
def PreparedFrom (self : PolymarketVenue) (request : OrderIntentRequest) (made : VenueCalls)
    (prepared : PreparedVenueOrder) : Prop :=
  TradingAllowed self made ∧ ∃ order signed negRisk exchange payload,
    answered (.sign order) signed ∈ made ∧ answered (.negRisk signed.tokenId) negRisk ∈ made ∧
    self.exchange negRisk = some exchange ∧ Covered self request exchange made ∧
    prepared.deterministicOrderId = self.signingHash signed exchange ∧
    signed.payload = .inr payload ∧ prepared.signedPayloadJson = some payload

/-- Nobody can tell from the answer to a posted order whether the venue took it. -/
def OutcomeUnknown : Except SdkError PostOrderResponse → Prop
  | .ok response => response.success = true ∧ mapOrderStatus response.status = .unknown
  | .error e => match e.status with
    | some status => status.statusCode ≠ 425 ∧
        containsText status.message "order_version_mismatch" = false ∧ status.isServerError = true
    | none => e.kind = .other

def posted (made : VenueCalls) : List (Except SdkError PostOrderResponse) :=
  made.filterMap fun e =>
    match e with
    | ⟨.client (.postOrder _), r⟩ => some r
    | _ => none

/-- How `submit` comes to its result: it posts at most one order, an ambiguous error is one whose
outcome is not known, and what it returns is what the response says. -/
structure SubmittedAs (request : OrderIntentRequest) (made : VenueCalls)
    (result : Except VenueError VenueSubmission) : Prop where
  once : (posted made).length ≤ 1
  sent : posted made = [] → ∃ reason, result = .error (.rejected reason)
  ok : ∀ submission, result = .ok submission → ∃ response, posted made = [.ok response] ∧
    PolymarketVenue.submission request.side response = .ok submission
  ambiguous : (∃ reason, result = .error (.ambiguous reason)) ↔
    ∃ answer ∈ posted made, OutcomeUnknown answer

/-- What the result of a method follows from. -/
def MethodPromise (self : PolymarketVenue) (made : VenueCalls) :
    (call : VenueCall) → Except VenueError call.Value → Prop
  | .orderBook tokenId, .ok book => Served self tokenId made book
  | .prepare _ request, .ok prepared => PreparedFrom self request made prepared
  | .submit _ request, result => SubmittedAs request made result
  | .cancel venueOrderId, .ok _ =>
    ∃ response, answered (.cancelOrder venueOrderId) response ∈ made ∧
      venueOrderId ∈ response.canceled
  | .reconcile, .ok result => ∃ answers : AccountAnswers, ReadAs self answers made ∧
      result = answers.result
  | _, _ => True

/-- What a task guarantees of a call, given its calls before. -/
def PolymarketPromise (self : PolymarketVenue) (task : PolymarketTask) (made : VenueCalls) :
    PolymarketCall → Prop
  | .load g => task = .method .reconcile → ∀ value, ⟨.load g, value⟩ ∉ made
  | .storeReconciled g value => task = .method .reconcile ∧ ⟨.load g, value⟩ ∈ made ∧
      ∃ answers : AccountAnswers, ReadAs self answers made
  | .client call => (task = .method .reconcile → ∀ g, ∃ value, ⟨.load g, value⟩ ∈ made) ∧
      ∀ heartbeatId, call = .postHeartbeat heartbeatId → Checked .streamGaps made
  | .reply (.method call result) => task = .method call ∧ MethodPromise self made call result
  | .reply (.reconciliationRequired required) => ∃ value value',
      made = [⟨.loadReconciled .userEvents, value'⟩, ⟨.load .userEvents, value⟩] ∧
        required = decide (value ≠ value')
  | _ => True

end OddsfoxExecution
