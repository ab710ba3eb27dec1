import OddsfoxExecution.BookWalk
import OddsfoxExecution.Store.Run

/-!
# The divisions of a paper submission

`PaperVenue::submit` fetches the market rules and the book anew and checks
nothing of what it parses.  A buy that fills at once divides by what a share of
each ask costs and by the tick size, so an ask for nothing or no tick makes it
panic.
-/

namespace OddsfoxExecution

/-! ## The documents of the venue -/

/-- A `serde_json::Value`; a number is kept as its text. -/
inductive Json where
  | null
  | bool (value : Bool)
  | number (text : String)
  | string (text : String)
  | array (items : List Json)
  | object (fields : List (String × Json))

namespace Json

def get (name : String) : Json → Option Json
  | .object fields => (fields.find? fun field => field.1 == name).map Prod.snd
  | _ => none

/-- `value.get(name).or_else(|| value.get(other))`. -/
def getEither (name other : String) (value : Json) : Option Json :=
  (value.get name).or (value.get other)

def asStr : Json → Option String
  | .string text => some text
  | _ => none

def asBool : Json → Option Bool
  | .bool value => some value
  | _ => none

def asU64 : Json → Option Nat
  | .number text => text.toNat?.filter (· < 2 ^ 64)
  | _ => none

def asArray : Json → Option (List Json)
  | .array items => some items
  | _ => none

end Json

/-- `raw.trim_matches('"')`. -/
def trimQuotes (raw : String) : String :=
  let quote := Char.ofNat 34
  String.ofList (((raw.toList.dropWhile (· == quote)).reverse.dropWhile (· == quote)).reverse)

namespace PaperVenue

/-- `Decimal::from_str` and `Value::to_string`. -/
structure Codec where
  fromStr : String → Except String Decimal
  toText : Json → String

/-- `parse_decimal`: any decimal, whatever its sign. -/
def parseDecimal (codec : Codec) (value : Option Json) (field : String) :
    Except VenueError Decimal :=
  match value with
  | none => .error (.market ("missing " ++ field))
  | some value =>
    match codec.fromStr (trimQuotes (value.asStr.getD (codec.toText value))) with
    | .ok decimal => .ok decimal
    | .error e => .error (.market ("invalid " ++ field ++ ": " ++ e))

/-- `parse_decimal(..).unwrap_or(Decimal::ZERO)`. -/
def parseFee (codec : Codec) (value : Option Json) (field : String) : Decimal :=
  (parseDecimal codec value field).toOption.getD 0

/-- Whether an entry of `tokens` names the token. -/
def tokenMatches (tokenId : String) (token : Json) : Bool :=
  (token.getEither "token_id" "tokenId").any fun value =>
    value.asStr == some tokenId || (value.asU64.map toString) == some tokenId

/-- `market_rules`, from the document the venue answers with. -/
def marketRules (codec : Codec) (conditionId tokenId : String) (value : Json) (now : Time) :
    Except VenueError MarketRules := do
  if ((value.get "tokens").bind Json.asArray).any fun tokens =>
      tokens.any (tokenMatches tokenId) then
    let tickSize ← parseDecimal codec (value.getEither "minimum_tick_size" "minimumTickSize")
      "minimum_tick_size"
    let minimumOrderSize ← parseDecimal codec
      (value.getEither "minimum_order_size" "minimumOrderSize") "minimum_order_size"
    return {
      conditionId
      tokenId
      active := ((value.get "active").bind Json.asBool).getD false
      closed := ((value.get "closed").bind Json.asBool).getD true
      acceptingOrders :=
        ((value.getEither "accepting_orders" "acceptingOrders").bind Json.asBool).getD false
      tickSize
      minimumOrderSize
      negativeRisk := ((value.getEither "neg_risk" "negRisk").bind Json.asBool).getD false
      makerFeeRate := parseFee codec (value.getEither "maker_base_fee" "makerBaseFee")
        "maker_base_fee"
      takerFeeRate := parseFee codec (value.getEither "taker_base_fee" "takerBaseFee")
        "taker_base_fee"
      observedAt := now }
  else throw (.market "token does not belong to condition")

def parseLevel (codec : Codec) (level : Json) : Except VenueError PriceLevel := do
  let price ← parseDecimal codec (level.get "price") "price"
  let size ← parseDecimal codec (level.get "size") "size"
  return { price, size }

/-- `parse_levels` of `order_book`. -/
def parseLevels (codec : Codec) (value : Json) (name : String) :
    Except VenueError (List PriceLevel) :=
  match (value.get name).bind Json.asArray with
  | none => throw (.market ("missing " ++ name))
  | some levels => levels.mapM (parseLevel codec)

/-- `order_book`, from the document the venue answers with. -/
def orderBook (codec : Codec) (value : Json) (now : Time) : Except VenueError OrderBook := do
  let bids ← parseLevels codec value "bids"
  let asks ← parseLevels codec value "asks"
  return { bids, asks, observedAt := now, hash := (value.get "hash").bind Json.asStr }

end PaperVenue

/-! ## The divisions of the walk -/

variable {feeRate requested : Decimal} {levels rest : List PriceLevel} {level : PriceLevel}

/-- Whatever comes for free comes after the request is used up. -/
def FreeComesLate (feeRate requested : Decimal) (asks : List PriceLevel) : Prop :=
  ∀ before free after, asks = before ++ free :: after → free.unitCost .buy feeRate = 0 →
    UsesUp .buy feeRate requested before

theorem freeComesLate_cons : FreeComesLate feeRate requested (level :: rest) ↔
    level.unitCost .buy feeRate ≠ 0 ∧
      ((level.unitCost .buy feeRate < 0 ∨
          requested - level.unitCost .buy feeRate * level.size ≤ tolerance) ∨
        FreeComesLate feeRate (requested - level.unitCost .buy feeRate * level.size) rest) := by
  constructor
  · intro h
    have hfirst : level.unitCost .buy feeRate ≠ 0 := by
      intro hfree
      exact not_usesUp_nil (h [] level rest rfl hfree)
    refine ⟨hfirst, or_iff_not_imp_left.mpr fun hhead before free after hsplit hfree => ?_⟩
    have huse := h (level :: before) free after (by rw [hsplit]; rfl) hfree
    exact (usesUp_cons.mp huse).resolve_left hhead
  · rintro ⟨hfirst, h⟩ before free after hsplit hfree
    cases before with
    | nil =>
      obtain ⟨rfl, rfl⟩ := List.cons.inj hsplit
      exact absurd hfree hfirst
    | cons first before =>
      obtain ⟨rfl, rfl⟩ := List.cons.inj hsplit
      exact usesUp_cons.mpr (h.imp_right fun hrest => hrest before free after rfl hfree)

/-- Where the walk stops at a level: it costs less than nothing, or all but the tolerance of
what is left. -/
theorem walk_stops {remaining : Decimal} (hremaining : 0 < remaining)
    (hunit : level.unitCost .buy feeRate ≠ 0) :
    remaining - level.unitCost .buy feeRate *
        min level.size (remaining / level.unitCost .buy feeRate) ≤ tolerance ↔
      level.unitCost .buy feeRate < 0 ∨
        remaining - level.unitCost .buy feeRate * level.size ≤ tolerance := by
  have hpos := tolerance_pos
  have hmul : level.unitCost .buy feeRate * (remaining / level.unitCost .buy feeRate) =
      remaining := by
    field_simp
  rcases lt_or_gt_of_ne hunit with hneg | hunit
  · have hle := mul_le_mul_of_nonpos_left
      (min_le_right level.size (remaining / level.unitCost .buy feeRate)) hneg.le
    rw [hmul] at hle
    refine iff_of_true ?_ (.inl hneg)
    linarith
  · rw [or_iff_right hunit.not_gt]
    rcases le_total level.size (remaining / level.unitCost .buy feeRate) with hle | hle
    · rw [min_eq_left hle]
    · rw [min_eq_right hle, hmul]
      have hall := mul_le_mul_of_nonneg_left hle hunit.le
      rw [hmul] at hall
      refine iff_of_true ?_ ?_
      · linarith
      · linarith

/-- The loop over the asks divides by nothing exactly when what comes for free comes late. -/
theorem walkAsks_isSome (hrequested : 0 < requested) (fill : PaperFill) :
    (walkAsks feeRate levels requested fill).isSome = true ↔
      FreeComesLate feeRate requested levels := by
  induction levels generalizing requested fill with
  | nil => simp [walkAsks, FreeComesLate]
  | cons level rest ih =>
    rw [freeComesLate_cons]
    by_cases hunit : level.unitCost .buy feeRate = 0
    · have hpanics : walkAsks feeRate (level :: rest) requested fill = none := if_pos hunit
      simp [hpanics, hunit]
    · rw [walkAsks_cons hunit, and_iff_right hunit]
      dsimp only
      split
      · rename_i hstop
        exact iff_of_true rfl (.inl ((walk_stops hrequested hunit).mp hstop))
      · rename_i hgo
        have hhead := mt (walk_stops hrequested hunit).mpr hgo
        have hwhole := walk_whole hunit hgo
        rw [hwhole] at hgo ⊢
        rw [or_iff_right hhead]
        exact ih (tolerance_pos.trans (not_le.mp hgo)) _

/-! ## The divisions of a submission -/

/-- An immediate buy meets a tick, and is used up before what the book offers for free. -/
def BuyPays (request : OrderIntentRequest) (book : OrderBook) (market : MarketRules) : Prop :=
  request.side = .buy → request.timeInForce.immediate = true →
    market.tickSize ≠ 0 ∧ ∀ price quantity, request.protectionPrice = .ok price →
      request.quantityDecimal = .ok quantity →
      FreeComesLate (PaperVenue.feeRate market) quantity (book.eligible .buy price)

namespace PaperVenue

/-- With a valid request only a division by nothing keeps `submit` from its commit. -/
theorem order_isSome {deterministicOrderId : String} {request : OrderIntentRequest}
    {book : OrderBook} {market : MarketRules} {price quantity : Decimal}
    (hprice : request.protectionPrice = .ok price)
    (hquantity : request.quantityDecimal = .ok quantity) :
    (order deterministicOrderId request book market).isSome = true ↔
      (fill request book market quantity price).isSome = true ∧
        ¬ (request.side = .buy ∧ request.timeInForce.immediate ∧ market.tickSize = 0) := by
  simp only [order, hprice, hquantity]
  cases fill request book market quantity price with
  | none => simp
  | some fill =>
    simp only [Option.isSome_some, true_and]
    split
    · simp [*]
    · simp [*]

theorem fill_isSome {request : OrderIntentRequest} {book : OrderBook} {market : MarketRules}
    {price quantity : Decimal} (hquantity : 0 < quantity) :
    (fill request book market quantity price).isSome = true ↔
      (request.side = .buy → request.timeInForce.immediate = true →
        FreeComesLate (PaperVenue.feeRate market) quantity (book.eligible .buy price)) := by
  unfold fill
  split
  · rename_i himmediate
    cases hside : request.side with
    | buy => simpa [walkBook, himmediate] using walkAsks_isSome hquantity _
    | sell => simp [walkBook]
  · rename_i himmediate
    simp [himmediate]

/-- Whatever documents the venue fetches, `submit` comes to its commit without dividing by nothing
exactly when an immediate buy pays; the average price is never a division by nothing. -/
theorem order_divides (codec : Codec) (deterministicOrderId : String)
    (request : OrderIntentRequest) (bookDocument marketDocument : Json) (book : OrderBook)
    (market : MarketRules) (admitted fetched : Time) (hvalid : request.validate admitted = .ok ())
    (_hbook : orderBook codec bookDocument fetched = .ok book)
    (_hmarket : marketRules codec request.conditionId request.tokenId marketDocument fetched =
      .ok market) :
    ((order deterministicOrderId request book market).isSome = true ↔
      BuyPays request book market) ∧
    ∀ fill : PaperFill, fill.averagePrice.isSome = true → fill.shares ≠ 0 := by
  refine ⟨?_, fun fill hprice => ?_⟩
  · obtain ⟨quantity, price, hquantity, hprice⟩ := request.amounts_of_validate hvalid
    rw [order_isSome hprice hquantity,
      fill_isSome (OrderIntentRequest.quantityDecimal_pos hquantity)]
    constructor
    · rintro ⟨hwalk, htick⟩ hside himmediate
      refine ⟨fun hzero => htick ⟨hside, himmediate, hzero⟩, fun price' quantity' h h' => ?_⟩
      rw [hprice] at h
      rw [hquantity] at h'
      cases h
      cases h'
      exact hwalk hside himmediate
    · intro hpays
      refine ⟨fun hside himmediate => (hpays hside himmediate).2 _ _ hprice hquantity, ?_⟩
      rintro ⟨hside, himmediate, hzero⟩
      exact (hpays hside himmediate).1 hzero
  · unfold PaperFill.averagePrice at hprice
    split at hprice
    · exact ne_of_gt ‹_›
    · cases hprice

/-! ## A book with an ask for nothing -/

/-- A codec that reads decimals as `from_str_exact` does. -/
def sampleCodec : Codec where
  fromStr raw :=
    match decimalFromStrExact raw with
    | some (value, _) => .ok value
    | none => .error "Invalid decimal"
  toText _ := "null"

def bookDocument (price : String) : Json :=
  .object [("bids", .array []),
    ("asks", .array [.object [("price", .string price), ("size", .string "1000")]])]

def marketDocument : Json :=
  .object [("tokens", .array [.object [("token_id", .string "7")]]), ("active", .bool true),
    ("closed", .bool false), ("accepting_orders", .bool true),
    ("minimum_tick_size", .string "0.01"), ("minimum_order_size", .string "1")]

def samplePurchase : OrderIntentRequest :=
  { sampleRequest with
    timeInForce := .fak, quantity := { unit := .quote, value := "10" }
    limitPrice := none, worstPrice := some "0.6" }

theorem order_divides_sample :
    ∃ book market, orderBook sampleCodec (bookDocument "0.5") 0 = .ok book ∧
      ((order "paper_1" samplePurchase book market).isSome = true ↔
        BuyPays samplePurchase book market) := by
  refine ⟨{ bids := [], asks := [⟨1 / 2, 1000⟩], observedAt := 0, hash := none }, sampleMarket,
    by decide +kernel, ?_⟩
  exact (order_divides sampleCodec "paper_1" samplePurchase (bookDocument "0.5") marketDocument _
    sampleMarket 0 0 (by decide +kernel) (by decide +kernel) (by decide +kernel)).1

/-- An ask for nothing parses, and the walk of a valid request divides by its price. -/
theorem order_divides_by_zero :
    ∃ codec request bookDocument marketDocument book market,
      request.validate 0 = .ok () ∧ orderBook codec bookDocument 0 = .ok book ∧
      marketRules codec request.conditionId request.tokenId marketDocument 0 = .ok market ∧
      order "paper_1" request book market = none :=
  ⟨sampleCodec, samplePurchase, bookDocument "0", marketDocument,
    { bids := [], asks := [⟨0, 1000⟩], observedAt := 0, hash := none },
    sampleMarket, by decide +kernel, by decide +kernel,
    by decide +kernel, by decide +kernel⟩

end PaperVenue

end OddsfoxExecution
