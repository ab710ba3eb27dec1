import Mathlib.Data.Rat.Defs
import Mathlib.Algebra.Order.Ring.Unbundled.Rat
import Mathlib.Data.String.Basic

/-!
# The domain types of the executor

The enumerations of `src/domain.rs`, the order-intent request with its
validation, and the cancellation request with its validation.  Amounts are
exact decimals and are modelled as rationals; time is a count of milliseconds.
-/

namespace OddsfoxExecution

/-- `rust_decimal::Decimal` under exact arithmetic. -/
abbrev Decimal := ℚ

/-- `Uuid::now_v7`: fresh identifiers are drawn from a counter. -/
abbrev Uuid := Nat

/-- `DateTime<Utc>`, in milliseconds. -/
abbrev Time := Int

/-- `now.signed_duration_since(then).num_seconds().max(0).cast_unsigned()`. -/
def ageSeconds (now observedAt : Time) : Nat := ((now - observedAt).tdiv 1000).toNat

inductive Mode where
  | paper
  | live
deriving DecidableEq, Repr

inductive ServiceState where
  | starting
  | reconciling
  | ready
  | degraded
  | halted
  | shuttingDown
deriving DecidableEq, Repr

inductive IntentState where
  | received
  | validating
  | rejected
  | approved
  | preparing
  | prepared
  | submitting
  | submitted
  | unknown
deriving DecidableEq, Repr

inductive OrderState where
  | prepared
  | submitting
  | live
  | partiallyFilled
  | filled
  | cancelPending
  | cancelled
  | expired
  | rejected
  | unknown
deriving DecidableEq, Repr

/-- The terminal order states: the code matches these four wherever it stops working an order. -/
def OrderState.terminal : OrderState → Bool
  | .filled | .cancelled | .expired | .rejected => true
  | _ => false

/-- The states `reconciliation_orders` and `apply_paper_trade_through` work on. -/
def OrderState.active : OrderState → Bool
  | .live | .partiallyFilled | .cancelPending => true
  | _ => false

inductive TradeState where
  | matched
  | mined
  | confirmed
  | retrying
  | failed
deriving DecidableEq, Repr

inductive Side where
  | buy
  | sell
deriving DecidableEq, Repr

inductive TimeInForce where
  | gtc
  | gtd
  | fok
  | fak
deriving DecidableEq, Repr

/-- `matches!(time_in_force, TimeInForce::Fok | TimeInForce::Fak)`. -/
def TimeInForce.immediate : TimeInForce → Bool
  | .fok | .fak => true
  | .gtc | .gtd => false

inductive QuantityUnit where
  | shares
  | quote
deriving DecidableEq, Repr

structure Quantity where
  unit : QuantityUnit
  value : String
deriving DecidableEq, Repr

structure ClientContext where
  strategy : Option String
  strategyOrderId : Option String
  correlationId : Option String
deriving DecidableEq, Repr

structure OrderIntentRequest where
  conditionId : String
  tokenId : String
  side : Side
  timeInForce : TimeInForce
  quantity : Quantity
  limitPrice : Option String
  worstPrice : Option String
  expiresAt : Option Time
  postOnly : Bool
  clientContext : ClientContext
deriving DecidableEq, Repr

inductive DomainError where
  | invalidField (field message : String)
  | invalidCombination (message : String)
deriving DecidableEq, Repr

def DomainError.text : DomainError → String
  | .invalidField field message => s!"invalid {field}: {message}"
  | .invalidCombination message => s!"invalid order combination: {message}"

/-! ## Decimal text -/

/-- The digits of a decimal literal, read after `mantissa`; `scale` counts those that follow the
point once it has been seen.  An underscore follows a digit, and nothing the 28th digit after the
point. -/
def readDigits : List Char → Nat → Bool → Option Nat → Option (Nat × Nat)
  | [], mantissa, seen, scale => if seen = true then some (mantissa, scale.getD 0) else none
  | c :: rest, mantissa, seen, scale =>
    if scale = some 28 then none
    else if c.isDigit = true then
      readDigits rest (mantissa * 10 + (c.toNat - '0'.toNat)) true (scale.map (· + 1))
    else if c = '.' ∧ scale = none then readDigits rest mantissa seen (some 0)
    else if c = '_' ∧ seen = true then readDigits rest mantissa seen scale
    else none

/-- `Decimal::from_str_exact`: a signed decimal literal of at most 28 fractional digits and a
mantissa below 2^96, with its scale. -/
def decimalFromStrExact (raw : String) : Option (Decimal × Nat) :=
  let (negative, digits) : Bool × List Char :=
    match raw.toList with
    | '-' :: rest => (true, rest)
    | '+' :: rest => (false, rest)
    | chars => (false, chars)
  match readDigits digits 0 false none with
  | some (mantissa, scale) =>
    if mantissa < 2 ^ 96 then
      let magnitude : Decimal := (mantissa : Decimal) / (10 ^ scale : Nat)
      some (if negative then -magnitude else magnitude, scale)
    else none
  | none => none

/-- The fractional digits of `n` over ten to the `digits`, up to the last one that is not zero. -/
def fractionText : Nat → Nat → List Char
  | 0, _ => []
  | digits + 1, n =>
    if n = 0 then [] else Nat.digitChar (n / 10 ^ digits) :: fractionText digits (n % 10 ^ digits)

/-- The `Display` text of a decimal, without the trailing zeros of its scale. -/
def decimalText (x : Decimal) : String :=
  let scaled := (|x| * 10 ^ 28).floor.toNat
  let fraction := fractionText 28 (scaled % 10 ^ 28)
  (if x < 0 then "-" else "") ++ toString (scaled / 10 ^ 28) ++
    (if fraction = [] then "" else "." ++ String.ofList fraction)

example : decimalText (-101 / 40) = "-2.525" := by decide +kernel

def parsePositiveDecimal (field raw : String) : Except DomainError Decimal :=
  match decimalFromStrExact raw with
  | none => .error (.invalidField field "must be an exact decimal string")
  | some (value, scale) =>
    if value ≤ 0 then .error (.invalidField field "must be greater than zero")
    else if 6 < scale then
      .error (.invalidField field "supports at most six decimal places")
    else .ok value

theorem parsePositiveDecimal_pos {field raw : String} {value : Decimal}
    (h : parsePositiveDecimal field raw = .ok value) : 0 < value := by
  unfold parsePositiveDecimal at h
  split at h
  · cases h
  · split at h
    · cases h
    · split at h
      · cases h
      · cases h; exact lt_of_not_ge ‹_›

/-! ## Order-intent requests -/

namespace OrderIntentRequest

def quantityDecimal (request : OrderIntentRequest) : Except DomainError Decimal :=
  parsePositiveDecimal "quantity.value" request.quantity.value

/-- `protection_price`: the limit price of a resting order, the worst price of an immediate one. -/
def protectionPrice (request : OrderIntentRequest) : Except DomainError Decimal :=
  let raw := match request.timeInForce with
    | .gtc | .gtd => request.limitPrice
    | .fok | .fak => request.worstPrice
  match raw with
  | none => .error (.invalidField "price" "required for the selected time_in_force")
  | some raw =>
    match parsePositiveDecimal "price" raw with
    | .error e => .error e
    | .ok price =>
      if 1 ≤ price then .error (.invalidField "price" "must be less than 1") else .ok price

/-- The combinations `validate` allows for a time in force. -/
def validateCombination (request : OrderIntentRequest) (now : Time) : Except DomainError Unit :=
  match request.timeInForce with
  | .gtc =>
    if request.worstPrice.isSome ∨ request.expiresAt.isSome then
      .error (.invalidCombination "GTC accepts limit_price and no expiration")
    else .ok ()
  | .gtd =>
    if request.worstPrice.isSome then
      .error (.invalidCombination "GTD does not accept worst_price")
    else
      match request.expiresAt with
      | none => .error (.invalidField "expires_at" "required for GTD")
      | some expiresAt =>
        if expiresAt < now + 3 * 60000 then
          .error (.invalidField "expires_at" "must be at least three minutes in the future")
        else .ok ()
  | .fok | .fak =>
    if request.limitPrice.isSome ∨ request.expiresAt.isSome ∨ request.postOnly then
      .error (.invalidCombination
        "FOK/FAK accept worst_price and cannot be post_only or expiring")
    else
      let expectedUnit := match request.side with
        | .buy => QuantityUnit.quote
        | .sell => QuantityUnit.shares
      if request.quantity.unit ≠ expectedUnit then
        .error (.invalidCombination "immediate buys use quote; immediate sells use shares")
      else .ok ()

def validate (request : OrderIntentRequest) (now : Time) : Except DomainError Unit :=
  if request.conditionId.isEmpty ∨ 128 < request.conditionId.utf8ByteSize then
    .error (.invalidField "condition_id" "must contain 1 to 128 characters")
  else if request.tokenId.isEmpty ∨ 128 < request.tokenId.utf8ByteSize ∨
      ¬ request.tokenId.toList.all Char.isDigit then
    .error (.invalidField "token_id" "must be a decimal token identifier")
  else
    match request.quantityDecimal, request.protectionPrice with
    | .error e, _ => .error e
    | .ok _, .error e => .error e
    | .ok _, .ok _ =>
      match request.validateCombination now with
      | .error e => .error e
      | .ok () =>
        if ¬ request.timeInForce.immediate ∧ request.quantity.unit ≠ .shares then
          .error (.invalidCombination "resting orders use share quantity")
        else .ok ()

theorem quantityDecimal_pos {request : OrderIntentRequest} {quantity : Decimal}
    (h : request.quantityDecimal = .ok quantity) : 0 < quantity :=
  parsePositiveDecimal_pos h

theorem protectionPrice_pos {request : OrderIntentRequest} {price : Decimal}
    (h : request.protectionPrice = .ok price) : 0 < price ∧ price < 1 := by
  unfold protectionPrice at h
  dsimp only at h
  split at h
  · cases h
  · split at h
    · cases h
    · split at h
      · cases h
      · cases h
        exact ⟨parsePositiveDecimal_pos ‹_›, lt_of_not_ge ‹_›⟩

theorem amounts_of_validate {request : OrderIntentRequest} {now : Time}
    (h : request.validate now = .ok ()) :
    ∃ quantity price, request.quantityDecimal = .ok quantity ∧
      request.protectionPrice = .ok price := by
  unfold validate at h
  split at h
  · cases h
  · split at h
    · cases h
    · split at h
      · cases h
      · cases h
      · exact ⟨_, _, ‹_›, ‹_›⟩

end OrderIntentRequest

/-! ## Cancellation requests -/

/-- The Unicode `White_Space` property, as `char::is_whitespace` decides it. -/
def isWhitespace (c : Char) : Bool :=
  let code := c.toNat
  (9 ≤ code && code ≤ 13) || code == 32 || code == 0x85 || code == 0xA0 || code == 0x1680 ||
    (0x2000 ≤ code && code ≤ 0x200A) || code == 0x2028 || code == 0x2029 || code == 0x202F ||
    code == 0x205F || code == 0x3000

/-- `text.trim().is_empty()`. -/
def trimIsEmpty (text : String) : Bool := text.toList.all isWhitespace

structure CancellationRequest where
  orderId : Option Uuid
  intentId : Option Uuid
  conditionId : Option String
  allOpenOrders : Bool
  reason : String
deriving DecidableEq, Repr

/-- `CancellationRequest::validate`; `len` counts bytes. -/
def CancellationRequest.validate (request : CancellationRequest) : Except DomainError Unit :=
  let selectors := request.orderId.isSome.toNat + request.intentId.isSome.toNat +
    request.conditionId.isSome.toNat + request.allOpenOrders.toNat
  if selectors ≠ 1 then
    .error (.invalidCombination "exactly one cancellation selector is required")
  else if trimIsEmpty request.reason ∨ 512 < request.reason.utf8ByteSize then
    .error (.invalidField "reason" "must contain 1 to 512 characters")
  else .ok ()

end OddsfoxExecution
