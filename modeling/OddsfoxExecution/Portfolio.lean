import OddsfoxExecution.Library.Potential
import OddsfoxExecution.Store.Fills
import OddsfoxExecution.Store.Intents

/-!
# The portfolio

An abstract view of what the risk engine counts: the commitments of open orders
and active reservations, the shares held and the fills matched.  A commitment is
charged another fee rate, released, shrunk or filled; nothing else happens to
it.
-/

namespace OddsfoxExecution

/-- What an open order or an active reservation still commits. -/
structure Commitment where
  conditionId : String
  tokenId : String
  side : Side
  price : Decimal
  feeRate : Decimal
  quoteExposure : Decimal
  originalQuantity : Decimal
  quantity : Decimal
deriving DecidableEq

structure Fill where
  price : Decimal
  size : Decimal
  createdAt : Time
deriving DecidableEq

/-- The part of the quote exposure that is still open. -/
def Commitment.notional (c : Commitment) : Decimal :=
  c.quoteExposure * c.quantity / c.originalQuantity

structure Commitment.Sound (c : Commitment) : Prop where
  price : 0 < c.price
  original : 0 < c.originalQuantity
  quantity : 0 ≤ c.quantity
  quote : 0 ≤ c.quoteExposure

def Side.signed (side : Side) (size : Decimal) : Decimal :=
  match side with
  | .buy => size
  | .sell => -size

theorem Side.apply_eq (side : Side) (position size : Decimal) :
    side.apply position size = position + side.signed size := by
  cases side
  · rfl
  · exact sub_eq_add_neg position size

abbrev Portfolio := Holdings Commitment String Fill Decimal

/-- What a commitment may turn into; `charges` are the fee rates it may be charged, `fills` the
fills it may have. -/
inductive Turns (charges : Commitment → Decimal → Prop) (fills : Commitment → Fill → Prop)
    (c : Commitment) : Multiset Commitment → (String →₀ Decimal) → Multiset Fill → Prop
  | charge {feeRate : Decimal} (hsound : c.Sound) (hcharges : charges c feeRate) :
      Turns charges fills c {{ c with feeRate }} 0 0
  | release (hsound : c.Sound) : Turns charges fills c 0 0 0
  | shrink {quantity : Decimal} (hsound : c.Sound) (hnonneg : 0 ≤ quantity)
      (hle : quantity ≤ c.quantity) : Turns charges fills c {{ c with quantity }} 0 0
  | fill {quantity : Decimal} {f : Fill} (hsound : c.Sound) (hnonneg : 0 ≤ quantity)
      (hpositive : 0 < f.size) (hle : quantity + f.size ≤ c.quantity) (hfills : fills c f) :
      Turns charges fills c {{ c with quantity }}
        (Finsupp.single c.tokenId (c.side.signed f.size)) {f}

/-- What the history of a portfolio is made of. -/
structure Conditions where
  enters : Portfolio → Commitment → Prop
  charges : Commitment → Decimal → Prop
  fills : Commitment → Fill → Prop

/-- The changes of a portfolio under conditions. -/
abbrev PortfolioSteps (conditions : Conditions) : Portfolio → Portfolio → Prop :=
  Holdings.Steps conditions.enters (Turns conditions.charges conditions.fills)

theorem PortfolioSteps.release {conditions : Conditions} {p : Portfolio} {c : Commitment}
    {rest : Multiset Commitment} (hpending : p.pending = c ::ₘ rest) (hsound : c.Sound) :
    PortfolioSteps conditions p { p with pending := rest } := by
  have hstep : Holdings.Step conditions.enters (Turns conditions.charges conditions.fills) _ _ :=
    .turn hpending (.release hsound)
  rw [zero_add, add_zero, add_zero] at hstep
  exact .single hstep

namespace Portfolio

def total (p : Portfolio) (quantity : Commitment → Decimal) : Decimal :=
  (p.pending.map quantity).sum

/-- The snapshot of a portfolio, as `build_risk_snapshot` sums it up. -/
noncomputable def snapshot (p : Portfolio) (conditionId tokenId : String) (now : Time) :
    RiskSnapshot where
  openOrderCount := p.pending.card
  marketOpenNotional := p.total fun c => if c.conditionId = conditionId then c.notional else 0
  tokenPosition := p.held tokenId
  tokenPendingBuys := p.total fun c => if c.tokenId = tokenId ∧ c.side = .buy then c.quantity else 0
  tokenPendingSells :=
    p.total fun c => if c.tokenId = tokenId ∧ c.side = .sell then c.quantity else 0
  grossExposure := p.total (fun c => if c.side = .buy then c.notional * (1 + c.feeRate) else 0) +
    p.held.sum fun _ shares => |shares|
  dailyMatchedNotional :=
    (p.booked.map fun f => if startOfDay now ≤ f.createdAt then f.price * f.size else 0).sum

end Portfolio

/-! ## Potentials of a portfolio -/

abbrev PortfolioPotential := Potential Commitment String Fill Decimal

/-- What a potential has to show of each turn of a commitment to drain. -/
theorem PortfolioPotential.drains {φ : PortfolioPotential} {charges : Commitment → Decimal → Prop}
    {fills : Commitment → Fill → Prop}
    (hcharge : ∀ c feeRate, c.Sound → charges c feeRate →
      φ.claim { c with feeRate } ≤ φ.claim c)
    (hnonneg : ∀ c : Commitment, c.Sound → 0 ≤ φ.claim c)
    (hshrink : ∀ (c : Commitment) quantity, c.Sound → 0 ≤ quantity → quantity ≤ c.quantity →
      φ.claim { c with quantity } ≤ φ.claim c)
    (hfill : ∀ (c : Commitment) (f : Fill) quantity, c.Sound → 0 ≤ quantity → 0 < f.size →
      quantity + f.size ≤ c.quantity → fills c f →
      φ.claim { c with quantity } + φ.weight c.tokenId * c.side.signed f.size + φ.record f ≤
        φ.claim c) : φ.Drains (Turns charges fills) := by
  intro c left moved records hturn
  cases hturn with
  | charge hsound hcharges => simpa [Potential.worth] using hcharge c _ hsound hcharges
  | release hsound => simpa [Potential.worth] using hnonneg c hsound
  | shrink hsound hquantity hle => simpa [Potential.worth] using hshrink c _ hsound hquantity hle
  | fill hsound hquantity hpositive hle hfills =>
    simpa [Potential.worth] using hfill c _ _ hsound hquantity hpositive hle hfills

theorem Commitment.Sound.notional_nonneg {c : Commitment} (h : c.Sound) : 0 ≤ c.notional :=
  div_nonneg (mul_nonneg h.quote h.quantity) h.original.le

/-- What is left of a commitment has the notional of its quantity. -/
theorem Commitment.Sound.notional_le {c : Commitment} (h : c.Sound) {quantity : Decimal}
    (hle : quantity ≤ c.quantity) : ({ c with quantity } : Commitment).notional ≤ c.notional :=
  div_le_div_of_nonneg_right (mul_le_mul_of_nonneg_left hle h.quote) h.original.le

end OddsfoxExecution
