import OddsfoxExecution.PaperVenue
import OddsfoxExecution.Store.Ledger
import OddsfoxExecution.Store.Run
import Mathlib.Tactic.Ring
import Mathlib.Tactic.Linarith

/-!
# The paper ledger conserves money and shares

Each step of the ledger changes the quote account by what it adds to the quote
and fee amounts of one order, and the token's shares by what it adds to that
order's filled quantity.  So both are accounted for by the orders in every
ledger reached.
-/

namespace OddsfoxExecution

/-- What an order has brought to the quote account. -/
def PaperVenueOrder.quoteFlow (row : PaperVenueOrder) : Decimal :=
  match row.side with
  | .buy => -(row.quoteAmount + row.feeAmount)
  | .sell => row.quoteAmount - row.feeAmount

/-- What an order has brought to its token's shares. -/
def PaperVenueOrder.shareFlow (row : PaperVenueOrder) : Decimal :=
  match row.side with
  | .buy => row.filledQuantity
  | .sell => -row.filledQuantity

def PaperVenueOrder.shareFlowTo (tokenId : String) (row : PaperVenueOrder) : Decimal :=
  if row.tokenId = tokenId then row.shareFlow else 0

/-- The orders account for what the ledger holds over what it started with. -/
structure Ledger.Conserves (start l : Ledger) : Prop where
  orderIds : (l.orders.map PaperVenueOrder.venueOrderId).Nodup
  quote : l.quoteBalance = start.quoteBalance + (l.orders.map PaperVenueOrder.quoteFlow).sum
  shares : ∀ tokenId, l.shares tokenId =
    start.shares tokenId + (l.orders.map (PaperVenueOrder.shareFlowTo tokenId)).sum

namespace Ledger.Conserves

variable {built : PaperOrderCommit → Prop} {start l l' : Ledger}

/-- An order changes and the balances with it by the same amounts. -/
theorem replaced (h : start.Conserves l) {row row' : PaperVenueOrder} (hrow : row ∈ l.orders)
    (hid : row'.venueOrderId = row.venueOrderId) (htoken : row'.tokenId = row.tokenId)
    {b : PaperBalances}
    (hquote : b.quoteBalance = l.quoteBalance + (row'.quoteFlow - row.quoteFlow))
    (hshares : b.shares = l.shares row.tokenId + (row'.shareFlow - row.shareFlow)) :
    start.Conserves { l.settle row.tokenId b with
      orders := Table.replace PaperVenueOrder.venueOrderId row' l.orders } where
  orderIds := by
    rw [Table.map_key_replace]
    exact h.orderIds
  quote := by
    rw [Table.sum_replace h.orderIds hrow hid]
    change b.quoteBalance = _
    rw [hquote, h.quote]
    ring
  shares := fun tokenId => by
    rw [Table.sum_replace h.orderIds hrow hid]
    change Function.update l.shares row.tokenId b.shares tokenId = _
    rw [Function.update_apply, PaperVenueOrder.shareFlowTo, PaperVenueOrder.shareFlowTo, htoken]
    split
    · rename_i heq
      subst heq
      rw [hshares, h.shares, if_pos rfl, if_pos rfl]
      ring
    · rename_i hne
      rw [h.shares, if_neg fun heq => hne heq.symm, if_neg fun heq => hne heq.symm]
      ring

theorem step (h : start.Conserves l) (hstep : LedgerStep built l l') : start.Conserves l' := by
  cases hstep with
  | @commit order now b _ hfresh hcommit =>
    have hflow : b.quoteBalance = l.quoteBalance + (order.row now).quoteFlow ∧
        b.shares = l.shares order.tokenId + (order.row now).shareFlow := by
      rcases PaperBalances.commit_frame hcommit with ⟨hside, -, rfl⟩ | ⟨hside, -, rfl⟩ <;>
        simp [Ledger.balances, PaperVenueOrder.quoteFlow, PaperVenueOrder.shareFlow,
          PaperOrderCommit.row, hside, sub_eq_add_neg]
    refine ⟨Table.nodup_append_row h.orderIds hfresh, ?_, fun tokenId => ?_⟩
    · rw [Table.sum_append_row]
      change b.quoteBalance = _
      rw [hflow.1, h.quote, add_assoc]
    · rw [Table.sum_append_row]
      change Function.update l.shares order.tokenId b.shares tokenId = _
      rw [Function.update_apply, PaperVenueOrder.shareFlowTo, h.shares, ← add_assoc]
      change _ = _ + if order.tokenId = tokenId then _ else _
      split
      · rename_i heq
        subst heq
        rw [hflow.2, h.shares, if_pos rfl]
      · rename_i hne
        rw [if_neg fun heq => hne heq.symm, add_zero]
  | @fill row price fill venueTradeId evidence hrow _ _ _ _ _ =>
    have hid : (row.fill price fill (paperFillState (row.remainingQuantity - fill))
        venueTradeId evidence).venueOrderId = row.venueOrderId := rfl
    refine h.replaced hrow hid rfl ?_ ?_ <;> cases hside : row.side <;>
      simp only [PaperBalances.fill, PaperVenueOrder.fill, PaperVenueOrder.quoteFlow,
        PaperVenueOrder.shareFlow, Ledger.balances, hside] <;> ring
  | @cancel row hrow _ =>
    have hid : row.cancel.venueOrderId = row.venueOrderId := rfl
    refine ⟨?_, ?_, fun tokenId => ?_⟩
    · rw [Table.map_key_replace]
      exact h.orderIds
    · have hflow : row.cancel.quoteFlow = row.quoteFlow := rfl
      rw [Table.sum_replace h.orderIds hrow hid, hflow, sub_add_cancel]
      exact h.quote
    · have hflow : row.cancel.shareFlowTo tokenId = row.shareFlowTo tokenId := rfl
      rw [Table.sum_replace h.orderIds hrow hid, hflow, sub_add_cancel]
      exact h.shares tokenId

theorem steps (h : start.Conserves l) (hsteps : LedgerSteps built l l') : start.Conserves l' := by
  induction hsteps with
  | refl => exact h
  | tail _ hstep ih => exact ih.step hstep

end Ledger.Conserves

/-- The flows of all orders are what the sells brought less what the buys cost. -/
theorem quoteFlow_sum (db : Db) : (db.paperVenueOrders.map PaperVenueOrder.quoteFlow).sum =
    db.paperSum (fun o => o.side = .sell) (fun o => o.quoteAmount - o.feeAmount) -
      db.paperSum (fun o => o.side = .buy) fun o => o.quoteAmount + o.feeAmount := by
  unfold Db.paperSum
  rw [Table.sum_filter, Table.sum_filter]
  induction db.paperVenueOrders with
  | nil => simp
  | cons row rest ih =>
    simp only [List.map_cons, List.sum_cons, ih]
    cases hside : row.side <;> simp [PaperVenueOrder.quoteFlow, hside] <;> ring

theorem shareFlow_sum (db : Db) (tokenId : String) :
    (db.paperVenueOrders.map (PaperVenueOrder.shareFlowTo tokenId)).sum =
      db.paperSum (fun o => o.tokenId = tokenId ∧ o.side = .buy) PaperVenueOrder.filledQuantity -
        db.paperSum (fun o => o.tokenId = tokenId ∧ o.side = .sell)
          PaperVenueOrder.filledQuantity := by
  unfold Db.paperSum
  rw [Table.sum_filter, Table.sum_filter]
  induction db.paperVenueOrders with
  | nil => simp
  | cons row rest ih =>
    simp only [List.map_cons, List.sum_cons, ih]
    by_cases htoken : row.tokenId = tokenId <;> cases hside : row.side <;>
      simp [PaperVenueOrder.shareFlowTo, PaperVenueOrder.shareFlow, htoken, hside] <;> ring

/-- In every database of a run of paper operations, however their orders are built, the quote
balance is the starting one less the cost of the buys plus the proceeds of the sells, and each
token's shares are the starting ones plus what was bought less what was sold; an operation that
fails changes nothing. -/
theorem paper_ledger_conserved {config : PaperConfig} {db : Db}
    (h : PaperRun config (fun _ => True) db) :
    (∃ account, db.paperAccount = some account ∧
      account.quoteBalance = configuredAmount config.startingQuoteBalance -
        db.paperSum (fun o => o.side = .buy) (fun o => o.quoteAmount + o.feeAmount) +
        db.paperSum (fun o => o.side = .sell) fun o => o.quoteAmount - o.feeAmount) ∧
    (∀ tokenId, db.paperColumn PaperInventory.shares tokenId = config.startingShares tokenId +
      db.paperSum (fun o => o.tokenId = tokenId ∧ o.side = .buy) PaperVenueOrder.filledQuantity -
      db.paperSum (fun o => o.tokenId = tokenId ∧ o.side = .sell)
        PaperVenueOrder.filledQuantity) ∧
    ∀ op now e, PaperOp.run now op db = .error e → PaperOp.after now op db = db := by
  obtain ⟨-, -, -, account, haccount, -, hsteps⟩ := h.ledger
  have hstart : config.ledger.Conserves config.ledger := by
    constructor <;> simp [PaperConfig.ledger]
  have hconserves := hstart.steps hsteps
  have hquote : account.quoteBalance = configuredAmount config.startingQuoteBalance +
      (db.paperVenueOrders.map PaperVenueOrder.quoteFlow).sum := hconserves.quote
  refine ⟨⟨account, haccount, ?_⟩, fun tokenId => ?_, fun op now e hfailed => ?_⟩
  · rw [hquote, quoteFlow_sum]
    ring
  · have hshares : db.paperColumn PaperInventory.shares tokenId = config.startingShares tokenId +
        (db.paperVenueOrders.map (PaperVenueOrder.shareFlowTo tokenId)).sum :=
      hconserves.shares tokenId
    rw [hshares, shareFlow_sum]
    ring
  · rw [PaperOp.after, hfailed]
    rfl

/-- A resting buy that a trade fills in part, seen twice, and that is cancelled then. -/
def samplePaperOps : List PaperOp :=
  [.commit (PaperVenue.commitOf "paper_1" sampleRequest sampleMarket 10 (1 / 2) .none),
    .tradeThrough ⟨"event", "7", 2 / 5, 4, 0⟩, .tradeThrough ⟨"event", "7", 2 / 5, 4, 0⟩,
    .cancel "paper_1", .cancel "missing"]

theorem paper_ledger_conserved_after_fill : ∃ db,
    playPaper samplePaperConfig 0 samplePaperOps = some db ∧
      ∃ account, db.paperAccount = some account ∧ account.quoteBalance = 100 - 8 / 5 ∧
        db.paperColumn PaperInventory.shares "7" = 24 := by
  obtain ⟨db, hplay, hrun, hcheck⟩ := exists_of_playPaper samplePaperConfig samplePaperOps
    (fun _ => True) 0
    (fun db =>
      db.paperSum (fun o => o.side = .buy) (fun o => o.quoteAmount + o.feeAmount) = 8 / 5 ∧
      db.paperSum (fun o => o.side = .sell) (fun o => o.quoteAmount - o.feeAmount) = 0 ∧
      db.paperSum (fun o => o.tokenId = "7" ∧ o.side = .buy) PaperVenueOrder.filledQuantity = 4 ∧
      db.paperSum (fun o => o.tokenId = "7" ∧ o.side = .sell) PaperVenueOrder.filledQuantity = 0)
    (fun _ _ _ _ => trivial) (by decide +kernel)
  obtain ⟨hbuys, hsells, hbought, hsold⟩ := of_decide_eq_true hcheck
  obtain ⟨⟨account, haccount, hquote⟩, hshares, -⟩ := paper_ledger_conserved hrun
  have hstart : configuredAmount samplePaperConfig.startingQuoteBalance = 100 ∧
      samplePaperConfig.startingShares "7" = 20 := by decide +kernel
  refine ⟨db, hplay, account, haccount, ?_, ?_⟩
  · rw [hquote, hbuys, hsells, hstart.1]
    norm_num
  · rw [hshares, hbought, hsold, hstart.2]
    norm_num

end OddsfoxExecution
