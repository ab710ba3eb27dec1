import OddsfoxExecution.BookWalk
import OddsfoxExecution.PaperConservation
import Mathlib.Tactic.Ring
import Mathlib.Tactic.Linarith
import Mathlib.Tactic.Positivity

/-!
# The paper ledger stays solvent

What the account and the inventory reserve is what the resting orders reserve,
and the balances cover it.  Every step keeps that as long as what
`PaperVenue::submit` commits is sound, which it is when the walk takes no level
with a price of zero or less or with a negative size.
-/

namespace OddsfoxExecution

/-- The quote a resting order keeps from the account. -/
def PaperVenueOrder.openQuote (row : PaperVenueOrder) : Decimal :=
  if row.resting = true then row.reservedQuote else 0

/-- The shares a resting order keeps from a token's inventory. -/
def PaperVenueOrder.openShares (tokenId : String) (row : PaperVenueOrder) : Decimal :=
  if row.tokenId = tokenId ∧ row.resting = true then row.reservedShares else 0

/-- A resting order reserves what it can still cost. -/
structure PaperVenueOrder.Reserves (row : PaperVenueOrder) : Prop where
  price : 0 < row.price
  feeRate : 0 ≤ row.feeRate ∧ row.feeRate ≤ 1
  remaining : 0 ≤ row.remainingQuantity
  buy : row.side = .buy →
    row.reservedQuote = row.remainingQuantity * row.price * (1 + row.feeRate) ∧
      row.reservedShares = 0
  sell : row.side = .sell → row.reservedShares = row.remainingQuantity ∧ row.reservedQuote = 0

namespace PaperVenueOrder.Reserves

variable {row : PaperVenueOrder}

theorem quote_nonneg (h : row.Reserves) : 0 ≤ row.reservedQuote := by
  have hprice := h.price
  have hfee := h.feeRate.1
  have hremaining := h.remaining
  cases hside : row.side with
  | buy =>
    rw [(h.buy hside).1]
    positivity
  | sell => rw [(h.sell hside).2]

theorem shares_nonneg (h : row.Reserves) : 0 ≤ row.reservedShares := by
  cases hside : row.side with
  | buy => rw [(h.buy hside).2]
  | sell =>
    rw [(h.sell hside).1]
    exact h.remaining

/-- What a fill of a buy frees is part of what the order reserves. -/
theorem released_le (h : row.Reserves) (hside : row.side = .buy) {fill : Decimal}
    (hle : fill ≤ row.remainingQuantity) :
    fill * row.price * (1 + row.feeRate) ≤ row.reservedQuote := by
  have hprice := h.price
  have hfee := h.feeRate.1
  rw [(h.buy hside).1]
  gcongr

theorem cost_le (h : row.Reserves) {fill price : Decimal} (hfill : 0 < fill)
    (hprice : price < row.price) :
    fill * price + fill * price * row.feeRate ≤ fill * row.price * (1 + row.feeRate) := by
  have hfee := h.feeRate.1
  calc fill * price + fill * price * row.feeRate = fill * price * (1 + row.feeRate) := by ring
    _ ≤ fill * row.price * (1 + row.feeRate) := by gcongr

/-- A resting order that fills keeps reserving what it can still cost, until nothing is left. -/
theorem openQuote_fill (h : row.Reserves) (hresting : row.resting = true) {price fill : Decimal}
    (hle : fill ≤ row.remainingQuantity) (venueTradeId : String)
    (evidence : PaperEvidence) :
    (row.fill price fill (paperFillState (row.remainingQuantity - fill)) venueTradeId
        evidence).openQuote = row.openQuote -
        if row.side = .buy then fill * row.price * (1 + row.feeRate) else 0 := by
  have hopen : row.openQuote = row.reservedQuote := if_pos hresting
  rw [hopen]
  unfold PaperVenueOrder.openQuote paperFillState
  cases hside : row.side with
  | buy =>
    have hreleased := h.released_le hside hle
    by_cases hdone : row.remainingQuantity - fill = 0
    · have hsame : fill = row.remainingQuantity := by linarith
      simp [PaperVenueOrder.fill, PaperVenueOrder.resting, (h.buy hside).1, hsame]
    · simp [PaperVenueOrder.fill, PaperVenueOrder.resting, hdone, hside, hreleased]
  | sell =>
    have hnone := (h.sell hside).2
    split <;> simp [PaperVenueOrder.fill, hside, hnone]

theorem openShares_fill (h : row.Reserves) (hresting : row.resting = true) {price fill : Decimal}
    (hle : fill ≤ row.remainingQuantity) (venueTradeId : String)
    (evidence : PaperEvidence) :
    (row.fill price fill (paperFillState (row.remainingQuantity - fill)) venueTradeId
        evidence).openShares row.tokenId =
      row.openShares row.tokenId - if row.side = .sell then fill else 0 := by
  have hopen : row.openShares row.tokenId = row.reservedShares := if_pos ⟨rfl, hresting⟩
  rw [hopen]
  unfold PaperVenueOrder.openShares paperFillState
  cases hside : row.side with
  | buy =>
    have hnone := (h.buy hside).2
    split <;> simp [PaperVenueOrder.fill, hside, hnone]
  | sell =>
    by_cases hdone : row.remainingQuantity - fill = 0
    · simp [PaperVenueOrder.fill, PaperVenueOrder.resting, hdone, (h.sell hside).1]
    · simp [PaperVenueOrder.fill, PaperVenueOrder.resting, hdone, hside, (h.sell hside).1, hle]

theorem fill (h : row.Reserves) {price fill : Decimal} (hle : fill ≤ row.remainingQuantity)
    (state : OrderState) (venueTradeId : String) (evidence : PaperEvidence) :
    (row.fill price fill state venueTradeId evidence).Reserves where
  price := h.price
  feeRate := h.feeRate
  remaining := by
    change 0 ≤ row.remainingQuantity - fill
    linarith
  buy := fun hside => by
    have hside : row.side = .buy := hside
    have hreleased := h.released_le hside hle
    have hnone := (h.buy hside).2
    simp only [PaperVenueOrder.fill, hside, if_true, max_eq_left (sub_nonneg.mpr hreleased)]
    refine ⟨?_, by simpa using hnone⟩
    rw [(h.buy hside).1]
    ring
  sell := fun hside => by
    have hside : row.side = .sell := hside
    have hnone := (h.sell hside).2
    simp [PaperVenueOrder.fill, hside, hnone, (h.sell hside).1, hle]

end PaperVenueOrder.Reserves

/-- The ledger covers what its resting orders reserve. -/
structure Ledger.Solvent (l : Ledger) : Prop where
  orderIds : (l.orders.map PaperVenueOrder.venueOrderId).Nodup
  closed : ∀ o ∈ l.orders, o.resting = true ∨ o.state.terminal = true
  reserves : ∀ o ∈ l.orders, o.resting = true → o.Reserves
  quoteReserved : l.reservedQuote = (l.orders.map PaperVenueOrder.openQuote).sum
  sharesReserved : ∀ tokenId,
    l.reservedShares tokenId = (l.orders.map (PaperVenueOrder.openShares tokenId)).sum
  quoteCovered : l.reservedQuote ≤ l.quoteBalance
  sharesCovered : ∀ tokenId, l.reservedShares tokenId ≤ l.shares tokenId

/-- What a sound order commits: an executed part that costs nothing less than nothing, and a
reservation exactly when it rests. -/
structure PaperOrderCommit.Sound (order : PaperOrderCommit) : Prop where
  closed : ∀ now, (order.row now).resting = true ∨ (order.row now).state.terminal = true
  reserves : ∀ now, (order.row now).resting = true → (order.row now).Reserves
  released : ∀ now, (order.row now).resting = false →
    order.reservedQuote = 0 ∧ order.reservedShares = 0
  filled : 0 ≤ order.filledQuantity
  fee : order.feeAmount ≤ order.quoteAmount

namespace Ledger.Solvent

variable {l l' : Ledger}

theorem openQuote_nonneg (h : l.Solvent) : ∀ o ∈ l.orders, 0 ≤ o.openQuote := fun o ho => by
  unfold PaperVenueOrder.openQuote
  split
  · exact (h.reserves o ho ‹_›).quote_nonneg
  · exact le_refl _

theorem openShares_nonneg (h : l.Solvent) (tokenId : String) :
    ∀ o ∈ l.orders, 0 ≤ o.openShares tokenId := fun o ho => by
  unfold PaperVenueOrder.openShares
  split
  · rename_i hopen
    exact (h.reserves o ho hopen.2).shares_nonneg
  · exact le_refl _

theorem reservedQuote_nonneg (h : l.Solvent) : 0 ≤ l.reservedQuote := by
  rw [h.quoteReserved]
  exact Table.sum_nonneg h.openQuote_nonneg

theorem reservedShares_nonneg (h : l.Solvent) (tokenId : String) :
    0 ≤ l.reservedShares tokenId := by
  rw [h.sharesReserved]
  exact Table.sum_nonneg (h.openShares_nonneg tokenId)

/-- What one resting order reserves is part of what the ledger reserves. -/
theorem quote_le (h : l.Solvent) {row : PaperVenueOrder} (hrow : row ∈ l.orders)
    (hresting : row.resting = true) : row.reservedQuote ≤ l.reservedQuote := by
  have hle := Table.le_sum h.openQuote_nonneg hrow
  rwa [← h.quoteReserved, PaperVenueOrder.openQuote, if_pos hresting] at hle

theorem shares_le (h : l.Solvent) {row : PaperVenueOrder} (hrow : row ∈ l.orders)
    (hresting : row.resting = true) : row.reservedShares ≤ l.reservedShares row.tokenId := by
  have hle := Table.le_sum (h.openShares_nonneg row.tokenId) hrow
  rwa [← h.sharesReserved, PaperVenueOrder.openShares, if_pos ⟨rfl, hresting⟩] at hle

theorem resting_of_open (h : l.Solvent) {row : PaperVenueOrder} (hrow : row ∈ l.orders)
    (hopen : row.state.terminal = false) : row.resting = true :=
  (h.closed row hrow).resolve_right fun hterminal => by
    rw [hopen] at hterminal
    cases hterminal

/-- An order changes, and with it what the balances of its token reserve. -/
theorem replaced (h : l.Solvent) {row row' : PaperVenueOrder} (hrow : row ∈ l.orders)
    (hid : row'.venueOrderId = row.venueOrderId) (htoken : row'.tokenId = row.tokenId)
    (hclosed : row'.resting = true ∨ row'.state.terminal = true)
    (hreserves : row'.resting = true → row'.Reserves) {b : PaperBalances}
    (hquote : b.reservedQuote = l.reservedQuote + (row'.openQuote - row.openQuote))
    (hshares : b.reservedShares = l.reservedShares row.tokenId +
      (row'.openShares row.tokenId - row.openShares row.tokenId))
    (hcovered : b.reservedQuote ≤ b.quoteBalance ∧ b.reservedShares ≤ b.shares) :
    Ledger.Solvent { l.settle row.tokenId b with
      orders := Table.replace PaperVenueOrder.venueOrderId row' l.orders } where
  orderIds := by
    rw [Table.map_key_replace]
    exact h.orderIds
  closed := fun o ho => by
    rcases Table.mem_replace.mp ho with ⟨ho, -⟩ | ⟨rfl, -⟩
    · exact h.closed o ho
    · exact hclosed
  reserves := fun o ho => by
    rcases Table.mem_replace.mp ho with ⟨ho, -⟩ | ⟨rfl, -⟩
    · exact h.reserves o ho
    · exact hreserves
  quoteReserved := by
    rw [Table.sum_replace h.orderIds hrow hid]
    change b.reservedQuote = _
    rw [hquote, h.quoteReserved]
    ring
  sharesReserved := fun tokenId => by
    rw [Table.sum_replace h.orderIds hrow hid]
    change Function.update l.reservedShares row.tokenId b.reservedShares tokenId = _
    rw [Function.update_apply]
    split
    · rename_i heq
      subst heq
      rw [hshares, h.sharesReserved]
      ring
    · rename_i hne
      have hother : ∀ other : PaperVenueOrder, other.tokenId = row.tokenId →
          other.openShares tokenId = 0 := fun other heq =>
        if_neg fun hopen => hne (hopen.1.symm.trans heq)
      rw [h.sharesReserved, hother row rfl, hother row' htoken, sub_zero, add_zero]
  quoteCovered := hcovered.1
  sharesCovered := fun tokenId => by
    change Function.update l.reservedShares row.tokenId b.reservedShares tokenId ≤
      Function.update l.shares row.tokenId b.shares tokenId
    rw [Function.update_apply, Function.update_apply]
    split
    · exact hcovered.2
    · exact h.sharesCovered tokenId

end Ledger.Solvent

/-- A fill of an order finds reserved what it frees and available what it costs: no clamp changes
a value, and nothing is overdrawn. -/
structure FillCovered (b : PaperBalances) (row : PaperVenueOrder)
    (price fill : Decimal) : Prop where
  buy : row.side = .buy → fill * row.price * (1 + row.feeRate) ≤ b.reservedQuote ∧
    fill * row.price * (1 + row.feeRate) ≤ row.reservedQuote
  sell : row.side = .sell → fill ≤ b.reservedShares ∧ fill ≤ row.reservedShares
  quote : 0 ≤ (b.fill row price fill).quoteBalance
  shares : 0 ≤ (b.fill row price fill).shares

namespace Ledger.Solvent

variable {l l' : Ledger} {row : PaperVenueOrder} {price fill : Decimal}

theorem fillCovered_of (h : l.Solvent) (hrow : row ∈ l.orders) (hresting : row.resting = true)
    (hprice : 0 < price) (hcrossed : row.side = .buy → price < row.price) (hfill : 0 < fill)
    (hle : fill ≤ row.remainingQuantity) :
    FillCovered (l.balances row.tokenId) row price fill ∧
      ((l.balances row.tokenId).fill row price fill).reservedQuote ≤
        ((l.balances row.tokenId).fill row price fill).quoteBalance ∧
      ((l.balances row.tokenId).fill row price fill).reservedShares ≤
        ((l.balances row.tokenId).fill row price fill).shares := by
  have hreserves := h.reserves row hrow hresting
  have hquote := h.quote_le hrow hresting
  have hshares := h.shares_le hrow hresting
  have hcoveredQuote := h.quoteCovered
  have hcoveredShares := h.sharesCovered row.tokenId
  have hquoteNonneg := h.reservedQuote_nonneg
  have hsharesNonneg := h.reservedShares_nonneg row.tokenId
  cases hside : row.side with
  | buy =>
    have hreleased := hreserves.released_le hside hle
    have hcost := hreserves.cost_le hfill (hcrossed hside)
    have hfit : 0 ≤ l.reservedQuote - fill * row.price * (1 + row.feeRate) := by linarith
    refine ⟨⟨fun _ => ⟨hreleased.trans hquote, hreleased⟩, fun h => ?_, ?_, ?_⟩, ?_, ?_⟩
    · rw [hside] at h
      cases h
    all_goals simp only [PaperBalances.fill, Ledger.balances, hside, max_eq_left hfit]
    all_goals linarith
  | sell =>
    have hreserved := (hreserves.sell hside).1
    have hfit : 0 ≤ l.reservedShares row.tokenId - fill := by linarith
    have hfee : 0 ≤ fill * price - fill * price * row.feeRate := by
      have hrate := hreserves.feeRate.2
      have hproceeds : 0 ≤ fill * price := by positivity
      nlinarith
    refine ⟨⟨fun h => ?_, fun _ => ⟨sub_nonneg.mp hfit, by linarith⟩, ?_, ?_⟩, ?_, ?_⟩
    · rw [hside] at h
      cases h
    all_goals simp only [PaperBalances.fill, Ledger.balances, hside, max_eq_left hfit]
    all_goals linarith

theorem filled (h : l.Solvent) (hrow : row ∈ l.orders) (hresting : row.resting = true)
    (hprice : 0 < price) (hcrossed : row.side = .buy → price < row.price) (hfill : 0 < fill)
    (hle : fill ≤ row.remainingQuantity) (venueTradeId : String) (evidence : PaperEvidence) :
    Ledger.Solvent { l.settle row.tokenId ((l.balances row.tokenId).fill row price fill) with
      orders := Table.replace PaperVenueOrder.venueOrderId
        (row.fill price fill (paperFillState (row.remainingQuantity - fill)) venueTradeId evidence)
        l.orders } := by
  obtain ⟨hcovered, hbalances⟩ := h.fillCovered_of hrow hresting hprice hcrossed hfill hle
  have hreserves := h.reserves row hrow hresting
  have hid : (row.fill price fill (paperFillState (row.remainingQuantity - fill))
      venueTradeId evidence).venueOrderId = row.venueOrderId := rfl
  refine h.replaced hrow hid rfl ?_ (fun _ => hreserves.fill hle _ _ _) ?_ ?_ hbalances
  · unfold paperFillState
    split
    · exact Or.inr rfl
    · exact Or.inl rfl
  · rw [hreserves.openQuote_fill hresting hle]
    cases hside : row.side with
    | buy =>
      have hfit := sub_nonneg.mpr (hcovered.buy hside).1
      simp only [PaperBalances.fill, hside, max_eq_left hfit, if_true]
      simp only [Ledger.balances]
      ring
    | sell => simp [PaperBalances.fill, Ledger.balances, hside]
  · rw [hreserves.openShares_fill hresting hle]
    cases hside : row.side with
    | buy => simp [PaperBalances.fill, Ledger.balances, hside]
    | sell =>
      have hfit := sub_nonneg.mpr (hcovered.sell hside).1
      simp only [PaperBalances.fill, hside, max_eq_left hfit, if_true]
      simp only [Ledger.balances]
      ring

theorem cancelled (h : l.Solvent) (hrow : row ∈ l.orders) (hopen : row.state.terminal = false) :
    Ledger.Solvent { l with
      reservedQuote := max (l.reservedQuote - row.reservedQuote) 0
      reservedShares := Function.update l.reservedShares row.tokenId
        (max (l.reservedShares row.tokenId - row.reservedShares) 0)
      orders := Table.replace PaperVenueOrder.venueOrderId row.cancel l.orders } := by
  have hresting := h.resting_of_open hrow hopen
  have hquote := sub_nonneg.mpr (h.quote_le hrow hresting)
  have hshares := sub_nonneg.mpr (h.shares_le hrow hresting)
  have hreserves := h.reserves row hrow hresting
  have hid : row.cancel.venueOrderId = row.venueOrderId := rfl
  have hnone : row.cancel.resting = false := rfl
  have hfreed := h.replaced hrow hid rfl (Or.inr rfl) (fun h => by rw [hnone] at h; cases h)
    (b := { l.balances row.tokenId with
      reservedQuote := max (l.reservedQuote - row.reservedQuote) 0
      reservedShares := max (l.reservedShares row.tokenId - row.reservedShares) 0 })
    (by
      rw [max_eq_left hquote]
      simp [PaperVenueOrder.openQuote, hnone, hresting, sub_eq_add_neg])
    (by
      rw [max_eq_left hshares]
      simp [PaperVenueOrder.openShares, hnone, hresting, sub_eq_add_neg])
    ⟨by
      rw [max_eq_left hquote]
      have hcovered := h.quoteCovered
      have hpart := hreserves.quote_nonneg
      exact (sub_le_self _ hpart).trans hcovered, by
      rw [max_eq_left hshares]
      exact (sub_le_self _ hreserves.shares_nonneg).trans (h.sharesCovered row.tokenId)⟩
  have hsame : Function.update l.shares row.tokenId (l.shares row.tokenId) = l.shares :=
    Function.update_eq_self _ _
  simp only [Ledger.settle, Ledger.balances, hsame] at hfreed
  exact hfreed

theorem committed (h : l.Solvent) {order : PaperOrderCommit} {now : Time} {b : PaperBalances}
    (hsound : order.Sound) (hfresh : ∀ o ∈ l.orders, o.venueOrderId ≠ order.venueOrderId)
    (hcommit : (l.balances order.tokenId).commit order = .ok b) :
    Ledger.Solvent
      { l.settle order.tokenId b with orders := l.orders ++ [order.row now] } := by
  have hquote : (order.row now).openQuote = order.reservedQuote ∧
      ∀ tokenId, (order.row now).openShares tokenId =
        if order.tokenId = tokenId then order.reservedShares else 0 := by
    unfold PaperVenueOrder.openQuote PaperVenueOrder.openShares
    cases hresting : (order.row now).resting with
    | true => simp [PaperOrderCommit.row]
    | false =>
      obtain ⟨hquote, hshares⟩ := hsound.released now hresting
      simp [hquote, hshares]
  obtain ⟨hquote, hshares⟩ := hquote
  -- one side of the order reserves nothing
  have hreserved : 0 ≤ order.reservedQuote ∧ 0 ≤ order.reservedShares ∧
      (order.side = .buy → order.reservedShares = 0) ∧
      (order.side = .sell → order.reservedQuote = 0) := by
    cases hresting : (order.row now).resting with
    | true =>
      have hreserves := hsound.reserves now hresting
      exact ⟨hreserves.quote_nonneg, hreserves.shares_nonneg, fun hside => (hreserves.buy hside).2,
        fun hside => (hreserves.sell hside).2⟩
    | false =>
      obtain ⟨hquote, hshares⟩ := hsound.released now hresting
      exact ⟨hquote.ge, hshares.ge, fun _ => hshares, fun _ => hquote⟩
  obtain ⟨hquoteNonneg, hsharesNonneg, hbuy, hsell⟩ := hreserved
  have hfilled := hsound.filled
  have hfee := hsound.fee
  have hcoveredQuote := h.quoteCovered
  have hcoveredShares := h.sharesCovered order.tokenId
  have hbalances : b.reservedQuote = l.reservedQuote + order.reservedQuote ∧
      b.reservedShares = l.reservedShares order.tokenId + order.reservedShares ∧
      b.reservedQuote ≤ b.quoteBalance ∧ b.reservedShares ≤ b.shares := by
    rcases PaperBalances.commit_frame hcommit with ⟨hside, henough, rfl⟩ | ⟨hside, henough, rfl⟩
    · simp only [Ledger.balances] at henough ⊢
      rw [hbuy hside]
      refine ⟨trivial, (add_zero _).symm, ?_, ?_⟩ <;> linarith
    · simp only [Ledger.balances] at henough ⊢
      rw [hsell hside]
      refine ⟨(add_zero _).symm, trivial, ?_, ?_⟩ <;> linarith
  obtain ⟨hquoteAfter, hsharesAfter, hcovered⟩ := hbalances
  constructor
  case orderIds => exact Table.nodup_append_row h.orderIds hfresh
  case closed =>
    intro o ho
    rcases List.mem_append.mp ho with ho | ho
    · exact h.closed o ho
    · rw [List.mem_singleton.mp ho]
      exact hsound.closed now
  case reserves =>
    intro o ho hresting
    rcases List.mem_append.mp ho with ho | ho
    · exact h.reserves o ho hresting
    · rw [List.mem_singleton.mp ho] at hresting ⊢
      exact hsound.reserves now hresting
  case quoteReserved =>
    rw [Table.sum_append_row, hquote, ← h.quoteReserved]
    exact hquoteAfter
  case sharesReserved =>
    intro tokenId
    rw [Table.sum_append_row, hshares, ← h.sharesReserved]
    change Function.update l.reservedShares order.tokenId b.reservedShares tokenId = _
    rw [Function.update_apply]
    split
    · rename_i heq
      subst heq
      rw [hsharesAfter, if_pos rfl]
    · rename_i hne
      rw [if_neg fun heq => hne heq.symm, add_zero]
  case quoteCovered => exact hcovered.1
  case sharesCovered =>
    intro tokenId
    change Function.update l.reservedShares order.tokenId b.reservedShares tokenId ≤
      Function.update l.shares order.tokenId b.shares tokenId
    rw [Function.update_apply, Function.update_apply]
    split
    · exact hcovered.2
    · exact h.sharesCovered tokenId

theorem step {built : PaperOrderCommit → Prop} (hbuilt : ∀ order, built order → order.Sound)
    (h : l.Solvent) (hstep : LedgerStep built l l') : l'.Solvent := by
  cases hstep with
  | commit hsound hfresh hcommit => exact h.committed (hbuilt _ hsound) hfresh hcommit
  | fill hrow hresting hprice hcrossed hfill hle =>
    exact h.filled hrow hresting hprice hcrossed hfill hle _ _
  | cancel hrow hopen => exact h.cancelled hrow hopen

theorem steps {built : PaperOrderCommit → Prop} (hbuilt : ∀ order, built order → order.Sound)
    (h : l.Solvent) (hsteps : LedgerSteps built l l') : l'.Solvent := by
  induction hsteps with
  | refl => exact h
  | tail _ hstep ih => exact ih.step hbuilt hstep

end Ledger.Solvent

/-! ## What the venue commits is sound -/

/-- A part of the book that was executed: no negative shares, and a fee within the quote. -/
structure PaperFill.Sound (fill : PaperFill) : Prop where
  shares : 0 ≤ fill.shares
  quote : 0 ≤ fill.quote
  fee : fill.fee ≤ fill.quote

theorem PaperFill.Sound.none : PaperFill.none.Sound := ⟨le_refl _, le_refl _, le_refl _⟩

theorem PaperFill.Sound.add {fill : PaperFill} (h : fill.Sound) {shares quote feeRate : Decimal}
    (hshares : 0 ≤ shares) (hquote : 0 ≤ quote) (hfee : feeRate ≤ 1) :
    (fill.add shares quote feeRate).Sound where
  shares := add_nonneg h.shares hshares
  quote := add_nonneg h.quote hquote
  fee := add_le_add h.fee (mul_le_of_le_one_right hquote hfee)

/-- A level that can be sold or bought: a positive price and no negative size. -/
def PriceLevel.Sound (level : PriceLevel) : Prop := 0 < level.price ∧ 0 ≤ level.size

instance : DecidablePred PriceLevel.Sound := fun level =>
  inferInstanceAs (Decidable (0 < level.price ∧ 0 ≤ level.size))

/-- Every level is sound that the levels before it leave something of the request for. -/
def SoundUntilUsedUp (side : Side) (feeRate requested : Decimal) (levels : List PriceLevel) :
    Prop :=
  ∀ before level after, levels = before ++ level :: after →
    ¬ UsesUp side feeRate requested before → level.Sound

namespace SoundUntilUsedUp

variable {side : Side} {feeRate remaining : Decimal} {level : PriceLevel}
  {levels rest : List PriceLevel} {fill : PaperFill}

theorem cons_iff (hfee : 0 ≤ feeRate) :
    SoundUntilUsedUp side feeRate remaining (level :: rest) ↔
      level.Sound ∧ (tolerance < remaining - level.unitCost side feeRate * level.size →
        SoundUntilUsedUp side feeRate (remaining - level.unitCost side feeRate * level.size)
          rest) := by
  constructor
  · intro h
    have hlevel : level.Sound := h [] level rest rfl not_usesUp_nil
    refine ⟨hlevel, fun hleft before other after hsplit hunused => ?_⟩
    refine h (level :: before) other after (by rw [hsplit]; rfl) fun hused => ?_
    rcases usesUp_cons.mp hused with (hneg | hdone) | hused
    · exact hneg.not_gt (level.unitCost_pos side hfee hlevel.1)
    · exact hdone.not_gt hleft
    · exact hunused hused
  · rintro ⟨hlevel, hrest⟩ before other after hsplit hunused
    cases before with
    | nil =>
      obtain ⟨rfl, rfl⟩ := List.cons.inj hsplit
      exact hlevel
    | cons first before =>
      obtain ⟨rfl, rfl⟩ := List.cons.inj hsplit
      rw [usesUp_cons, not_or, not_or, not_le] at hunused
      exact hrest hunused.1.2 before other after rfl hunused.2

/-- The walk takes sound levels only: where it goes on, the levels behind it did not use the
request up. -/
theorem walkLevels_sound (h : SoundUntilUsedUp side feeRate remaining levels)
    (hfee : 0 ≤ feeRate ∧ feeRate ≤ 1) (hremaining : 0 ≤ remaining) (hfill : fill.Sound) :
    (walkLevels (PriceLevel.unitCost side feeRate) feeRate levels remaining fill).Sound := by
  induction levels generalizing remaining fill with
  | nil => exact hfill
  | cons level rest ih =>
    obtain ⟨⟨hprice, hsize⟩, hrest⟩ := (cons_iff hfee.1).mp h
    have hunit := level.unitCost_pos side hfee.1 hprice
    have hshares : 0 ≤ min level.size (remaining / level.unitCost side feeRate) :=
      le_min hsize (div_nonneg hremaining hunit.le)
    have hadded := hfill.add hshares (mul_nonneg hshares hprice.le) hfee.2
    simp only [walkLevels]
    split
    · exact ⟨hadded.shares, hadded.quote, hadded.fee⟩
    · rename_i hgo
      have hwhole := walk_whole hunit.ne' hgo
      rw [hwhole] at hgo hadded ⊢
      have hleft := not_le.mp hgo
      exact ih (hrest hleft) (tolerance_pos.trans hleft).le hadded

end SoundUntilUsedUp

/-- The levels an immediate order takes are sound. -/
def SoundBook (request : OrderIntentRequest) (book : OrderBook) (market : MarketRules) : Prop :=
  request.timeInForce.immediate = true → ∀ price quantity,
    request.protectionPrice = .ok price → request.quantityDecimal = .ok quantity →
    SoundUntilUsedUp request.side (PaperVenue.feeRate market) quantity
      (book.eligible request.side price)

theorem PaperVenue.fill_sound {request : OrderIntentRequest} {book : OrderBook}
    {market : MarketRules} {quantity price : Decimal} {fill : PaperFill}
    (hfee : 0 ≤ feeRate market ∧ feeRate market ≤ 1) (hbook : SoundBook request book market)
    (hrequested : request.quantityDecimal = .ok quantity)
    (hprice : request.protectionPrice = .ok price)
    (h : PaperVenue.fill request book market quantity price = some fill) : fill.Sound := by
  have hquantity := (OrderIntentRequest.quantityDecimal_pos hrequested).le
  unfold PaperVenue.fill at h
  split at h
  · rename_i himmediate
    have hlevels := hbook himmediate price quantity hprice hrequested
    have hsound := hlevels.walkLevels_sound hfee hquantity .none
    cases hside : request.side with
    | buy =>
      rw [hside] at h hsound
      exact eq_of_walkAsks h ▸ hsound
    | sell =>
      rw [hside] at h hsound
      rw [walkBook, walkBids_eq] at h
      exact Option.some.inj h ▸ hsound
  · cases h
    exact .none

theorem PaperVenue.commitOf_sound {deterministicOrderId : String} {request : OrderIntentRequest}
    {market : MarketRules} {quantity price : Decimal} {fill : PaperFill}
    (hfee : 0 ≤ feeRate market ∧ feeRate market ≤ 1) (hquantity : 0 < quantity)
    (hprice : 0 < price) (happlied : (appliedFill request fill).Sound) :
    (commitOf deterministicOrderId request market quantity price fill).Sound := by
  have hstate : ∀ now, ((commitOf deterministicOrderId request market quantity price fill).row
      now).resting = !request.timeInForce.immediate := by
    intro now
    cases himmediate : request.timeInForce.immediate <;>
      simp only [PaperVenueOrder.resting, PaperOrderCommit.row, commitOf, orderState, himmediate]
    · simp
    · by_cases hcomplete : fill.complete = true <;> simp [hcomplete]
  refine ⟨fun now => ?_, fun now hresting => ?_, fun now hresting => ?_, happlied.shares,
    happlied.fee⟩
  · rw [hstate]
    cases himmediate : request.timeInForce.immediate
    · exact Or.inl rfl
    · refine Or.inr ?_
      simp only [PaperOrderCommit.row, commitOf, orderState, himmediate, if_true]
      split <;> rfl
  · rw [hstate, Bool.not_eq_true'] at hresting
    constructor
    case price => exact hprice
    case feeRate => exact hfee
    all_goals simp only [PaperOrderCommit.row, commitOf, hresting]
    case remaining => simpa using hquantity.le
    case buy =>
      intro hside
      simp [hside]
    case sell =>
      intro hside
      simp [hside]
  · rw [hstate, Bool.not_eq_false'] at hresting
    simp [commitOf, hresting]

theorem PaperVenue.order_sound {deterministicOrderId : String} {request : OrderIntentRequest}
    {book : OrderBook} {market : MarketRules} {order : PaperOrderCommit}
    (hfee : 0 ≤ feeRate market ∧ feeRate market ≤ 1) (hbook : SoundBook request book market)
    (h : PaperVenue.order deterministicOrderId request book market = some order) :
    order.Sound := by
  unfold PaperVenue.order at h
  split at h
  · rename_i price quantity hprice hquantity
    split at h
    · cases h
    · rename_i fill hfill
      split at h
      · cases h
      · cases h
        have hpositive := OrderIntentRequest.quantityDecimal_pos hquantity
        have hsound := fill_sound hfee hbook hquantity hprice hfill
        have happlied : (appliedFill request fill).Sound := by
          unfold appliedFill
          split
          · exact .none
          · exact hsound
        exact commitOf_sound hfee hpositive (OrderIntentRequest.protectionPrice_pos hprice).1
          happlied
  · cases h

/-- An order `PaperVenue::submit` commits for a valid request when the fee rate is a fraction and
the request and what it fetches meet a condition. -/
def BuiltByVenue (condition : OrderIntentRequest → OrderBook → MarketRules → Prop)
    (order : PaperOrderCommit) : Prop :=
  ∃ deterministicOrderId request book market now, request.validate now = .ok () ∧
    0 ≤ PaperVenue.feeRate market ∧ PaperVenue.feeRate market ≤ 1 ∧ condition request book market ∧
    PaperVenue.order deterministicOrderId request book market = some order

theorem BuiltByVenue.sound {order : PaperOrderCommit} (h : BuiltByVenue SoundBook order) :
    order.Sound := by
  obtain ⟨id, request, book, market, now, -, hfee, hfee', hbook, horder⟩ := h
  exact PaperVenue.order_sound ⟨hfee, hfee'⟩ hbook horder

/-! ## The loop of a trade-through -/

/-- One order the loop of `apply_paper_trade_through` fills: the balances it finds and the shares
it fills. -/
structure TradeFill where
  row : PaperVenueOrder
  balances : PaperBalances
  fill : Decimal

def tradeFills (trade : PaperTrade) :
    List PaperVenueOrder → Decimal → PaperBalances → List TradeFill
  | [], _, _ => []
  | row :: rows, sizeRemaining, balances =>
    let fill := min row.remainingQuantity sizeRemaining
    if sizeRemaining ≤ 0 then []
    else if ¬ row.crossedBy trade ∨ fill ≤ 0 then tradeFills trade rows sizeRemaining balances
    else ⟨row, balances, fill⟩ ::
      tradeFills trade rows (sizeRemaining - fill) (balances.fill row trade.price fill)

theorem applyTradeThrough_returns {trade : PaperTrade} {now : Time} {rows : List PaperVenueOrder}
    {size : Decimal} {count : Nat} {b : PaperBalances} {db : Db} {events : List ExecutionEvent}
    (h : ∀ f ∈ tradeFills trade rows size b, FillCovered f.balances f.row trade.price f.fill) :
    ∃ out, applyTradeThrough trade now rows size count b db events = .ok out := by
  induction rows generalizing size count b db events with
  | nil => exact ⟨_, rfl⟩
  | cons row rows ih =>
    simp only [applyTradeThrough]
    simp only [tradeFills] at h
    split
    · exact ⟨_, rfl⟩
    · rename_i hsize
      rw [if_neg hsize] at h
      split
      · rename_i hskip
        rw [if_pos hskip] at h
        exact ih h
      · rename_i hfills
        rw [if_neg hfills] at h
        have hcovered := h _ List.mem_cons_self
        have hfill : ¬ ((b.fill row trade.price (min row.remainingQuantity size)).quoteBalance < 0 ∨
            (b.fill row trade.price (min row.remainingQuantity size)).shares < 0) :=
          not_or.mpr ⟨hcovered.quote.not_gt, hcovered.shares.not_gt⟩
        simp only [fillRestingOrder, if_neg hfill]
        exact ih fun f hf => h f (List.mem_cons_of_mem _ hf)

theorem Ledger.Solvent.tradeFills_covered {l : Ledger} (h : l.Solvent) {trade : PaperTrade}
    (hprice : 0 < trade.price) {rows : List PaperVenueOrder} {size : Decimal}
    (hrows : ∀ row ∈ rows, row ∈ l.orders ∧ row.tokenId = trade.tokenId ∧ row.resting = true)
    (hdistinct : (rows.map PaperVenueOrder.venueOrderId).Nodup) :
    ∀ f ∈ tradeFills trade rows size (l.balances trade.tokenId),
      FillCovered f.balances f.row trade.price f.fill := by
  induction rows generalizing size l with
  | nil => exact fun f hf => nomatch hf
  | cons row rows ih =>
    obtain ⟨hfresh, hdistinct⟩ := List.nodup_cons.mp hdistinct
    obtain ⟨hrow, htoken, hresting⟩ := hrows row List.mem_cons_self
    have hrest := fun other hother => hrows other (List.mem_cons_of_mem _ hother)
    simp only [tradeFills]
    split
    · exact fun f hf => nomatch hf
    · split
      · exact ih h hrest hdistinct
      · rename_i hfills
        have hcrossed : row.side = .buy → trade.price < row.price := fun hside => by
          have hcrossed := (not_or.mp hfills).1
          simpa [PaperVenueOrder.crossedBy, hside] using hcrossed
        have hfill := lt_of_not_ge (not_or.mp hfills).2
        have hcovered := (h.fillCovered_of hrow hresting hprice hcrossed hfill
          (min_le_left _ _)).1
        have hfilled := h.filled hrow hresting hprice hcrossed hfill (min_le_left _ size) ""
          (trade.evidence 0)
        rw [htoken] at hcovered hfilled
        intro f hf
        rcases List.mem_cons.mp hf with rfl | hf
        · exact hcovered
        · have hlater := @ih (l.during trade.tokenId _ _) hfilled
            (size - min row.remainingQuantity size)
            (fun other hother => ⟨Table.mem_replace.mpr (Or.inl ⟨(hrest other hother).1,
              fun heq => hfresh (List.mem_map.mpr ⟨other, hother, heq⟩)⟩), (hrest other hother).2⟩)
            hdistinct
          rw [Ledger.balances_during] at hlater
          exact hlater f hf

/-! ## Every run -/

/-- The paper tables cover what the open orders reserve, and so no fill overdraws them and no
clamp of a fill or a cancellation changes a value. -/
structure Db.PaperSolvent (db : Db) (account : PaperAccount) : Prop where
  quoteReserved : account.reservedQuote =
    db.paperSum (fun o => o.state.terminal = false) PaperVenueOrder.reservedQuote
  sharesReserved : ∀ tokenId, db.paperColumn PaperInventory.reservedShares tokenId =
    db.paperSum (fun o => o.tokenId = tokenId ∧ o.state.terminal = false)
      PaperVenueOrder.reservedShares
  buy : ∀ o ∈ db.paperVenueOrders, o.state.terminal = false → o.side = .buy →
    o.reservedQuote = o.remainingQuantity * o.price * (1 + o.feeRate)
  sell : ∀ o ∈ db.paperVenueOrders, o.state.terminal = false → o.side = .sell →
    o.reservedShares = o.remainingQuantity
  quoteCovered : 0 ≤ account.reservedQuote ∧ account.reservedQuote ≤ account.quoteBalance
  sharesCovered : ∀ tokenId, 0 ≤ db.paperColumn PaperInventory.reservedShares tokenId ∧
    db.paperColumn PaperInventory.reservedShares tokenId ≤
      db.paperColumn PaperInventory.shares tokenId
  fillsCovered : ∀ trade, 0 < trade.price →
    ∀ f ∈ tradeFills trade (db.restingPaperOrders trade.tokenId trade.observedAt) trade.size
        (db.paperBalances account trade.tokenId),
      FillCovered f.balances f.row trade.price f.fill
  neverOverdrawn : ∀ trade now, applyPaperTradeThrough .paper trade now db ≠
    .error (.identityMismatch "paper trade-through would overdraw the account")
  cancelCovered : ∀ o ∈ db.paperVenueOrders, o.state.terminal = false →
    o.reservedQuote ≤ account.reservedQuote ∧
      o.reservedShares ≤ db.paperColumn PaperInventory.reservedShares o.tokenId

/-- The error of an overdrawn account comes from the loop alone. -/
theorem applyPaperTradeThrough_overdrawn {trade : PaperTrade} {now : Time} {db : Db}
    {account : PaperAccount} (haccount : db.paperAccount = some account)
    (h : 0 < trade.price → ∀ (count : Nat) (start : Db) (events : List ExecutionEvent), ∃ out,
      applyTradeThrough trade now (db.restingPaperOrders trade.tokenId trade.observedAt)
        trade.size count (db.paperBalances account trade.tokenId) start events = .ok out) :
    applyPaperTradeThrough .paper trade now db ≠
      .error (.identityMismatch "paper trade-through would overdraw the account") := by
  intro hoverdrawn
  unfold applyPaperTradeThrough at hoverdrawn
  rw [if_neg (fun h => h rfl), haccount] at hoverdrawn
  split at hoverdrawn
  · simp at hoverdrawn
  · rename_i hvalid
    have hprice : 0 < trade.price := lt_of_not_ge fun hle => hvalid (by simp [hle])
    dsimp only at hoverdrawn
    split at hoverdrawn
    · cases hoverdrawn
    · split at hoverdrawn
      · rename_i hloop
        obtain ⟨out, hout⟩ := h hprice 0 _ []
        cases hloop.symm.trans hout
      · cases hoverdrawn

theorem Ledger.Solvent.paperSolvent {db : Db} {account : PaperAccount} (hkeys : PaperKeys db)
    (haccount : db.paperAccount = some account) (h : (db.paperLedger account).Solvent) :
    db.PaperSolvent account := by
  have hopen : ∀ o ∈ db.paperVenueOrders, (o.state.terminal = false ↔ o.resting = true) := by
    refine fun o ho => ⟨h.resting_of_open ho, fun hresting => ?_⟩
    cases hstate : o.state <;> simp [PaperVenueOrder.resting, hstate] at hresting <;> rfl
  have hfills : ∀ trade : PaperTrade, 0 < trade.price →
      ∀ f ∈ tradeFills trade (db.restingPaperOrders trade.tokenId trade.observedAt) trade.size
          (db.paperBalances account trade.tokenId),
        FillCovered f.balances f.row trade.price f.fill := fun trade hprice =>
    h.tradeFills_covered hprice (fun _ hrow => Db.resting_mem hrow)
      (Db.resting_nodup hkeys.orderIds trade.tokenId trade.observedAt)
  constructor
  case quoteReserved =>
    have hreserved : account.reservedQuote = _ := h.quoteReserved
    rw [hreserved, Db.paperSum, Table.sum_filter]
    refine congrArg List.sum (List.map_congr_left fun o ho => ?_)
    simp [PaperVenueOrder.openQuote, hopen o ho]
  case sharesReserved =>
    intro tokenId
    have hreserved : db.paperColumn PaperInventory.reservedShares tokenId = _ :=
      h.sharesReserved tokenId
    rw [hreserved, Db.paperSum, Table.sum_filter]
    refine congrArg List.sum (List.map_congr_left fun o ho => ?_)
    simp [PaperVenueOrder.openShares, hopen o ho]
  case buy =>
    exact fun o ho hstate hside => ((h.reserves o ho ((hopen o ho).mp hstate)).buy hside).1
  case sell =>
    exact fun o ho hstate hside => ((h.reserves o ho ((hopen o ho).mp hstate)).sell hside).1
  case quoteCovered => exact ⟨h.reservedQuote_nonneg, h.quoteCovered⟩
  case sharesCovered =>
    exact fun tokenId => ⟨h.reservedShares_nonneg tokenId, h.sharesCovered tokenId⟩
  case fillsCovered => exact hfills
  case neverOverdrawn =>
    exact fun trade now => applyPaperTradeThrough_overdrawn haccount fun hprice _ _ _ =>
      applyTradeThrough_returns (hfills trade hprice)
  case cancelCovered =>
    exact fun o ho hstate => ⟨h.quote_le ho ((hopen o ho).mp hstate),
      h.shares_le ho ((hopen o ho).mp hstate)⟩

/-- In every run of paper operations whose immediate orders take no level with a price of zero or
less or a negative size, the paper ledger is solvent. -/
theorem paper_ledger_solvent {config : PaperConfig} {db : Db}
    (h : PaperRun config (BuiltByVenue SoundBook) db) :
    ∃ account, db.paperAccount = some account ∧ db.PaperSolvent account := by
  obtain ⟨hkeys, hbalance, hshares, account, haccount, -, hsteps⟩ := h.ledger
  have hstart : config.ledger.Solvent := by
    constructor
    case quoteCovered => exact hbalance
    case sharesCovered => exact hshares
    all_goals simp [PaperConfig.ledger]
  exact ⟨account, haccount,
    (hstart.steps (fun _ => BuiltByVenue.sound) hsteps).paperSolvent hkeys haccount⟩

/-- A sale of ten shares at once at two fifths or better. -/
def sampleSale : OrderIntentRequest :=
  { sampleRequest with
    side := .sell, timeInForce := .fak, limitPrice := none, worstPrice := some "0.4" }

/-- A book whose best bid takes the whole sale before one of a negative size. -/
def deepBook : OrderBook := { sampleBook with bids := [⟨1 / 2, 10⟩, ⟨9 / 20, -5⟩] }

theorem deepBook_sound : SoundBook sampleSale deepBook sampleMarket := by
  intro _ price quantity hprice hquantity
  obtain rfl : 2 / 5 = price :=
    Except.ok.inj ((by decide +kernel : sampleSale.protectionPrice = .ok (2 / 5)).symm.trans hprice)
  obtain rfl : 10 = quantity :=
    Except.ok.inj ((by decide +kernel : sampleSale.quantityDecimal = .ok 10).symm.trans hquantity)
  have hlevels : deepBook.eligible .sell (2 / 5) = deepBook.bids := by decide +kernel
  rw [show sampleSale.side = .sell from rfl, hlevels, deepBook,
    SoundUntilUsedUp.cons_iff (by decide +kernel)]
  refine ⟨by decide +kernel, fun hleft => ?_⟩
  norm_num [tolerance, PriceLevel.unitCost] at hleft

def deepFill : PaperFill := { shares := 10, quote := 5, fee := 0, complete := true }

/-- A resting buy filled in part and cancelled, and then the sale. -/
def sampleSaleOps : List PaperOp :=
  samplePaperOps ++
    [.commit (PaperVenue.commitOf "paper_2" sampleSale sampleMarket 10 (2 / 5) deepFill)]

theorem paper_ledger_solvent_after_fill : ∃ db,
    playPaper samplePaperConfig 0 sampleSaleOps = some db ∧
      ∃ account, db.paperAccount = some account ∧ db.PaperSolvent account := by
  have hresting : BuiltByVenue SoundBook
      (PaperVenue.commitOf "paper_1" sampleRequest sampleMarket 10 (1 / 2) .none) :=
    ⟨"paper_1", sampleRequest, sampleBook, sampleMarket, 0, by decide +kernel, by decide +kernel,
      by decide +kernel, fun himmediate => (nomatch himmediate), by decide +kernel⟩
  have hsale : BuiltByVenue SoundBook
      (PaperVenue.commitOf "paper_2" sampleSale sampleMarket 10 (2 / 5) deepFill) :=
    ⟨"paper_2", sampleSale, deepBook, sampleMarket, 0, by decide +kernel, by decide +kernel,
      by decide +kernel, deepBook_sound, by decide +kernel⟩
  obtain ⟨db, hplay, hrun, -⟩ := exists_of_playPaper samplePaperConfig sampleSaleOps
    (BuiltByVenue SoundBook) 0 (fun _ => true)
    (fun op hop order hcommit => by
      subst hcommit
      simp only [sampleSaleOps, samplePaperOps, List.cons_append, List.nil_append, List.mem_cons,
        PaperOp.commit.injEq, reduceCtorEq, List.not_mem_nil, or_false, false_or] at hop
      rcases hop with rfl | rfl
      · exact hresting
      · exact hsale)
    (by decide +kernel)
  exact ⟨db, hplay, paper_ledger_solvent hrun⟩

def negativeBook : OrderBook := { sampleBook with bids := [⟨1 / 2, -5⟩] }

/-- The fill the venue finds in that book: less than no shares for less than no quote. -/
def negativeFill : PaperFill := { shares := -5, quote := -5 / 2, fee := 0, complete := false }

/-- A sale against a bid of negative size takes the quote balance below zero: the venue checks no
level of the book it fetches. -/
theorem paper_ledger_insolvent : ∃ db,
    PaperRun { startingQuoteBalance := "0", startingPositions := [⟨"condition", "7", "10"⟩] }
        (BuiltByVenue fun _ _ _ => True) db ∧
      ¬ ∃ account, db.paperAccount = some account ∧ db.PaperSolvent account := by
  have horder : PaperVenue.order "paper_1" sampleSale negativeBook sampleMarket =
      some (PaperVenue.commitOf "paper_1" sampleSale sampleMarket 10 (2 / 5) negativeFill) := by
    decide +kernel
  have hbuilt : BuiltByVenue (fun _ _ _ => True)
      (PaperVenue.commitOf "paper_1" sampleSale sampleMarket 10 (2 / 5) negativeFill) :=
    ⟨_, sampleSale, negativeBook, sampleMarket, 0, by decide +kernel, by decide +kernel,
      by decide +kernel, trivial, horder⟩
  obtain ⟨db, -, hrun, hcheck⟩ := exists_of_playPaper
    { startingQuoteBalance := "0", startingPositions := [⟨"condition", "7", "10"⟩] }
    [.commit (PaperVenue.commitOf "paper_1" sampleSale sampleMarket 10 (2 / 5) negativeFill)]
    (BuiltByVenue fun _ _ _ => True) 0
    (fun db => (db.paperAccount.map PaperAccount.quoteBalance) = some (-5 / 2))
    (fun op hop order hcommit => by
      subst hcommit
      rw [List.mem_singleton, PaperOp.commit.injEq] at hop
      exact hop ▸ hbuilt)
    (by decide +kernel)
  refine ⟨db, hrun, ?_⟩
  rintro ⟨account, haccount, hsolvent⟩
  have hbalance := of_decide_eq_true hcheck
  rw [haccount] at hbalance
  have hquote : account.quoteBalance = -5 / 2 := Option.some.inj hbalance
  have hcovered := hsolvent.quoteCovered.1.trans hsolvent.quoteCovered.2
  rw [hquote] at hcovered
  norm_num at hcovered

end OddsfoxExecution
