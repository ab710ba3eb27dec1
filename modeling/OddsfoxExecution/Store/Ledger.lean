import OddsfoxExecution.Library.Sums
import OddsfoxExecution.Store.PaperLedger
import Mathlib.Logic.Relation
import Mathlib.Logic.Function.Basic

/-!
# The paper ledger as accounts

An abstract view of the paper tables: one quote account, one share account for
each token, and the orders.  Every paper operation is a sequence of
`LedgerStep`s: an order is committed, filled, or cancelled.  A failed one is no
step at all.
-/

namespace OddsfoxExecution

/-- The paper tables, with the inventory as a function of the token. -/
structure Ledger where
  quoteBalance : Decimal
  reservedQuote : Decimal
  shares : String → Decimal
  reservedShares : String → Decimal
  orders : List PaperVenueOrder

namespace Ledger

/-- The balances an operation on one token works with. -/
def balances (l : Ledger) (tokenId : String) : PaperBalances where
  quoteBalance := l.quoteBalance
  reservedQuote := l.reservedQuote
  shares := l.shares tokenId
  reservedShares := l.reservedShares tokenId

def settle (l : Ledger) (tokenId : String) (b : PaperBalances) : Ledger :=
  { l with
    quoteBalance := b.quoteBalance
    reservedQuote := b.reservedQuote
    shares := Function.update l.shares tokenId b.shares
    reservedShares := Function.update l.reservedShares tokenId b.reservedShares }

@[simp] theorem balances_settle (l : Ledger) (tokenId : String) (b : PaperBalances) :
    (l.settle tokenId b).balances tokenId = b := by
  simp [balances, settle]

@[simp] theorem settle_balances (l : Ledger) (tokenId : String) :
    l.settle tokenId (l.balances tokenId) = l := by
  simp [balances, settle]

end Ledger

/-- A paper order the market can still fill. -/
def PaperVenueOrder.resting (row : PaperVenueOrder) : Bool :=
  row.state = .live ∨ row.state = .partiallyFilled

/-- One change of the paper tables; `built` holds of the orders that are committed. -/
inductive LedgerStep (built : PaperOrderCommit → Prop) (l : Ledger) : Ledger → Prop
  | commit {order : PaperOrderCommit} {now : Time} {b : PaperBalances} (hbuilt : built order)
      (hfresh : ∀ o ∈ l.orders, o.venueOrderId ≠ order.venueOrderId)
      (hcommit : (l.balances order.tokenId).commit order = .ok b) :
      LedgerStep built l
        { l.settle order.tokenId b with orders := l.orders ++ [order.row now] }
  | fill {row : PaperVenueOrder} {price fill : Decimal} {venueTradeId : String}
      {evidence : PaperEvidence} (hrow : row ∈ l.orders) (hresting : row.resting = true)
      (hprice : 0 < price)
      (hcrossed : row.side = .buy → price < row.price) (hfill : 0 < fill)
      (hle : fill ≤ row.remainingQuantity) :
      LedgerStep built l
        { l.settle row.tokenId ((l.balances row.tokenId).fill row price fill) with
          orders := Table.replace PaperVenueOrder.venueOrderId
            (row.fill price fill (paperFillState (row.remainingQuantity - fill)) venueTradeId
              evidence) l.orders }
  | cancel {row : PaperVenueOrder} (hrow : row ∈ l.orders) (hopen : row.state.terminal = false) :
      LedgerStep built l
        { l with
          reservedQuote := max (l.reservedQuote - row.reservedQuote) 0
          reservedShares := Function.update l.reservedShares row.tokenId
            (max (l.reservedShares row.tokenId - row.reservedShares) 0)
          orders := Table.replace PaperVenueOrder.venueOrderId row.cancel l.orders }

abbrev LedgerSteps (built : PaperOrderCommit → Prop) : Ledger → Ledger → Prop :=
  Relation.ReflTransGen (LedgerStep built)

/-! ## The ledger of a database -/

/-- The inventory column of a token, zero where it has no row. -/
def Db.paperColumn (db : Db) (column : PaperInventory → Decimal) (tokenId : String) : Decimal :=
  (db.paperInventory.find? fun p => p.tokenId = tokenId).elim 0 column

def Db.paperLedger (db : Db) (account : PaperAccount) : Ledger where
  quoteBalance := account.quoteBalance
  reservedQuote := account.reservedQuote
  shares := db.paperColumn PaperInventory.shares
  reservedShares := db.paperColumn PaperInventory.reservedShares
  orders := db.paperVenueOrders

/-- The sum of a column over the paper orders that satisfy a condition. -/
def Db.paperSum (db : Db) (p : PaperVenueOrder → Prop) [DecidablePred p]
    (column : PaperVenueOrder → Decimal) : Decimal :=
  ((db.paperVenueOrders.filter fun o => decide (p o)).map column).sum

/-- The inventory has one row for each token and one for each token traded, and no two orders
share an identifier. -/
structure PaperKeys (db : Db) : Prop where
  orderIds : (db.paperVenueOrders.map PaperVenueOrder.venueOrderId).Nodup
  held : ∀ o ∈ db.paperVenueOrders, ∃ p ∈ db.paperInventory, p.tokenId = o.tokenId

theorem paperColumn_upsert {inventory : List PaperInventory} {row : PaperInventory}
    {column : PaperInventory → Decimal} (tokenId : String) :
    (((Table.upsert PaperInventory.tokenId row (fun _ => row) inventory).find?
        fun p => p.tokenId = tokenId).elim 0 column : Decimal) =
      if tokenId = row.tokenId then column row
      else (inventory.find? fun p => p.tokenId = tokenId).elim 0 column := by
  rw [Table.find?_upsert_row]
  split <;> rfl

theorem Db.paperLedger_withPaperBalances (db : Db) (account : PaperAccount) (tokenId : String)
    (b : PaperBalances) :
    (db.withPaperBalances account tokenId b).paperLedger
        { account with quoteBalance := b.quoteBalance, reservedQuote := b.reservedQuote } =
      (db.paperLedger account).settle tokenId b := by
  have hcolumn : ∀ column, (db.withPaperBalances account tokenId b).paperColumn column =
      Function.update (db.paperColumn column) tokenId
        (column { tokenId, shares := b.shares, reservedShares := b.reservedShares }) := by
    intro column
    funext t
    rw [Function.update_apply]
    exact paperColumn_upsert t
  simp only [paperLedger, Ledger.settle, hcolumn]
  rfl

/-! ## What the operations do -/

/-- `db'` is `db` as far as the paper tables go. -/
structure SamePaper (db db' : Db) : Prop where
  account : db'.paperAccount = db.paperAccount
  inventory : db'.paperInventory = db.paperInventory
  orders : db'.paperVenueOrders = db.paperVenueOrders

theorem SamePaper.refl (db : Db) : SamePaper db db := ⟨rfl, rfl, rfl⟩

theorem SamePaper.trans {a b c : Db} (hab : SamePaper a b) (hbc : SamePaper b c) :
    SamePaper a c :=
  ⟨hbc.account.trans hab.account, hbc.inventory.trans hab.inventory,
    hbc.orders.trans hab.orders⟩

theorem Db.paperLedger_of_inventory {db db' : Db} (h : db'.paperInventory = db.paperInventory)
    (account : PaperAccount) :
    db'.paperLedger account = { db.paperLedger account with orders := db'.paperVenueOrders } := by
  have hcolumn : db'.paperColumn = db.paperColumn := by
    funext column tokenId
    rw [paperColumn, paperColumn, h]
  rw [paperLedger, paperLedger, hcolumn]

theorem SamePaper.ledger_eq {db db' : Db} (h : SamePaper db db') (account : PaperAccount) :
    db'.paperLedger account = db.paperLedger account := by
  rw [Db.paperLedger_of_inventory h.inventory, h.orders]
  rfl

theorem SamePaper.keys {db db' : Db} (h : SamePaper db db') (hkeys : PaperKeys db) :
    PaperKeys db' where
  orderIds := h.orders ▸ hkeys.orderIds
  held := by
    rw [h.orders, h.inventory]
    exact hkeys.held

theorem applyMatchedFill_paper {db : Db} {order : OrderRecord} {venueOrderId : Option String}
    {filled : Decimal} {price : Option Decimal} {ids : List String} {now : Time} :
    SamePaper db (applyMatchedFill db order venueOrderId filled price ids now).1 := by
  unfold applyMatchedFill
  split
  · exact .refl db
  · dsimp only
    split <;> exact ⟨rfl, rfl, rfl⟩

theorem fillCoreOrder_paper {db : Db} {trade : PaperTrade} {venueOrderId venueTradeId : String}
    {fill remaining : Decimal} {state : OrderState} {now : Time} :
    SamePaper db (fillCoreOrder trade venueOrderId venueTradeId fill remaining state now db).1 := by
  unfold fillCoreOrder
  split
  · exact .refl db
  · split
    · exact ⟨applyMatchedFill_paper.account, applyMatchedFill_paper.inventory,
        applyMatchedFill_paper.orders⟩
    · exact .refl db

/-- The ledger in the middle of an operation on one token. -/
def Ledger.during (l : Ledger) (tokenId : String) (b : PaperBalances)
    (orders : List PaperVenueOrder) : Ledger :=
  { l.settle tokenId b with orders }

@[simp] theorem Ledger.balances_during (l : Ledger) (tokenId : String) (b : PaperBalances)
    (orders : List PaperVenueOrder) : (l.during tokenId b orders).balances tokenId = b :=
  l.balances_settle tokenId b

@[simp] theorem Ledger.settle_during (l : Ledger) (tokenId : String) (b b' : PaperBalances)
    (orders : List PaperVenueOrder) :
    (l.during tokenId b orders).settle tokenId b' = l.during tokenId b' orders := by
  simp [during, settle]

/-- What identifies a paper order and the inventory row it draws on. -/
def PaperVenueOrder.traded (row : PaperVenueOrder) : String × String :=
  (row.venueOrderId, row.tokenId)

theorem fillRestingOrder_ok {trade : PaperTrade} {now : Time} {row : PaperVenueOrder}
    {fill : Decimal} {b b' : PaperBalances} {db db' : Db} {events : List ExecutionEvent}
    (hkeys : (db.paperVenueOrders.map PaperVenueOrder.venueOrderId).Nodup)
    (hrow : row ∈ db.paperVenueOrders)
    (h : fillRestingOrder trade now row fill b db = .ok (b', db', events)) :
    b' = b.fill row trade.price fill ∧ db'.paperAccount = db.paperAccount ∧
      db'.paperInventory = db.paperInventory ∧
      db'.paperVenueOrders = Table.replace PaperVenueOrder.venueOrderId
        (row.fill trade.price fill (paperFillState (row.remainingQuantity - fill))
          ("paper:" ++ trade.eventId ++ ":" ++ row.venueOrderId) (trade.evidence fill))
        db.paperVenueOrders := by
  unfold fillRestingOrder at h
  dsimp only at h
  split at h
  · cases h
  · cases h
    refine ⟨rfl, fillCoreOrder_paper.account, fillCoreOrder_paper.inventory,
      fillCoreOrder_paper.orders.trans ?_⟩
    exact Table.updateWhere_eq_replace hkeys hrow rfl (fun _ _ heq => heq) rfl

/-- The loop of `apply_paper_trade_through` fills one order after another. -/
theorem applyTradeThrough_ledger (built : PaperOrderCommit → Prop) (l : Ledger)
    {trade : PaperTrade} (hprice : 0 < trade.price) {now : Time} {rows : List PaperVenueOrder}
    {size : Decimal} {count count' : Nat} {b b' : PaperBalances} {db db' : Db}
    {events events' : List ExecutionEvent}
    (hkeys : (db.paperVenueOrders.map PaperVenueOrder.venueOrderId).Nodup)
    (hrows : ∀ row ∈ rows, row ∈ db.paperVenueOrders ∧ row.tokenId = trade.tokenId ∧
      row.resting = true)
    (hdistinct : (rows.map PaperVenueOrder.venueOrderId).Nodup)
    (h : applyTradeThrough trade now rows size count b db events =
      .ok (count', b', db', events')) :
    LedgerSteps built (l.during trade.tokenId b db.paperVenueOrders)
        (l.during trade.tokenId b' db'.paperVenueOrders) ∧
      db'.paperAccount = db.paperAccount ∧ db'.paperInventory = db.paperInventory ∧
      db'.paperVenueOrders.map PaperVenueOrder.traded =
        db.paperVenueOrders.map PaperVenueOrder.traded := by
  induction rows generalizing size count b db events with
  | nil =>
    cases h
    exact ⟨.refl, rfl, rfl, rfl⟩
  | cons row rows ih =>
    obtain ⟨hfresh, hdistinct⟩ := List.nodup_cons.mp hdistinct
    obtain ⟨hrow, htoken, hresting⟩ := hrows row List.mem_cons_self
    have hrest := fun other hother => hrows other (List.mem_cons_of_mem _ hother)
    simp only [applyTradeThrough] at h
    split at h
    · cases h
      exact ⟨.refl, rfl, rfl, rfl⟩
    · split at h
      · exact ih hkeys hrest hdistinct h
      · rename_i hfills
        split at h
        · cases h
        · rename_i hfill
          obtain ⟨rfl, haccount, hinventory, horders⟩ := fillRestingOrder_ok hkeys hrow hfill
          obtain ⟨hsteps, haccount', hinventory', htraded⟩ := ih
            (by rw [horders, Table.map_key_replace]; exact hkeys)
            (fun other hother => by
              refine ⟨?_, (hrest other hother).2⟩
              rw [horders]
              exact Table.mem_replace.mpr (Or.inl ⟨(hrest other hother).1, fun heq =>
                hfresh (List.mem_map.mpr ⟨other, hother, heq⟩)⟩))
            hdistinct h
          refine ⟨.head ?_ hsteps, haccount'.trans haccount, hinventory'.trans hinventory,
            htraded.trans ?_⟩
          · have hcrossed : row.side = .buy → trade.price < row.price := fun hside => by
              have hcrossed := (not_or.mp hfills).1
              simpa [PaperVenueOrder.crossedBy, hside] using hcrossed
            have hstep := @LedgerStep.fill built (l.during trade.tokenId b db.paperVenueOrders) row
              trade.price _ ("paper:" ++ trade.eventId ++ ":" ++ row.venueOrderId)
              (trade.evidence (min row.remainingQuantity size)) hrow hresting hprice hcrossed
              (lt_of_not_ge (not_or.mp hfills).2) (min_le_left _ _)
            rw [← htoken] at hstep ⊢
            rw [Ledger.balances_during, Ledger.settle_during] at hstep
            rw [horders]
            exact hstep
          · rw [horders]
            exact Table.map_replace fun old hold heq => by
              rw [Table.eq_of_key_eq hkeys hold hrow heq]
              rfl

theorem Db.resting_mem {db : Db} {tokenId : String} {observedAt : Time} {row : PaperVenueOrder}
    (h : row ∈ db.restingPaperOrders tokenId observedAt) :
    row ∈ db.paperVenueOrders ∧ row.tokenId = tokenId ∧ row.resting = true := by
  rw [restingPaperOrders, List.mem_insertionSort, List.mem_filter] at h
  obtain ⟨hrow, hfilter⟩ := h
  simp only [decide_eq_true_eq] at hfilter
  exact ⟨hrow, hfilter.1, decide_eq_true hfilter.2.1⟩

theorem Db.resting_nodup {db : Db}
    (hkeys : (db.paperVenueOrders.map PaperVenueOrder.venueOrderId).Nodup) (tokenId : String)
    (observedAt : Time) :
    ((db.restingPaperOrders tokenId observedAt).map PaperVenueOrder.venueOrderId).Nodup := by
  refine ((List.perm_insertionSort paperOrderBefore _).map _).nodup_iff.mpr ?_
  exact hkeys.sublist (List.filter_sublist.map _)

theorem PaperKeys.of_traded {db db' : Db} (h : PaperKeys db)
    (hinventory : ∀ p ∈ db.paperInventory, ∃ p' ∈ db'.paperInventory, p'.tokenId = p.tokenId)
    (htraded : db'.paperVenueOrders.map PaperVenueOrder.traded =
      db.paperVenueOrders.map PaperVenueOrder.traded) : PaperKeys db' where
  orderIds := by
    have hids : ∀ orders : List PaperVenueOrder, orders.map PaperVenueOrder.venueOrderId =
        (orders.map PaperVenueOrder.traded).map Prod.fst := fun orders => by
      rw [List.map_map]
      rfl
    rw [hids, htraded, ← hids]
    exact h.orderIds
  held := fun o ho => by
    have hmem : o.traded ∈ db.paperVenueOrders.map PaperVenueOrder.traded :=
      htraded ▸ List.mem_map_of_mem ho
    obtain ⟨o₀, ho₀, heq⟩ := List.mem_map.mp hmem
    obtain ⟨p, hp, htoken⟩ := h.held o₀ ho₀
    obtain ⟨p', hp', htoken'⟩ := hinventory p hp
    exact ⟨p', hp', htoken'.trans (htoken.trans (congrArg Prod.snd heq))⟩

theorem inventory_upsert (row : PaperInventory) (inventory : List PaperInventory) :
    ∀ p ∈ inventory, ∃ p' ∈ Table.upsert PaperInventory.tokenId row (fun _ => row) inventory,
      p'.tokenId = p.tokenId := by
  intro p hp
  unfold Table.upsert
  split
  · refine ⟨_, Table.mem_updateWhere.mpr ⟨p, hp, rfl⟩, ?_⟩
    split
    · exact Eq.symm ‹_›
    · rfl
  · exact ⟨p, List.mem_append_left _ hp, rfl⟩

theorem inventory_upsert_self (row : PaperInventory) (inventory : List PaperInventory) :
    row ∈ Table.upsert PaperInventory.tokenId row (fun _ => row) inventory := by
  unfold Table.upsert
  split
  · rename_i htaken
    obtain ⟨p, hp, heq⟩ := List.any_eq_true.mp htaken
    exact Table.mem_updateWhere.mpr ⟨p, hp, by rw [if_pos (of_decide_eq_true heq)]⟩
  · exact List.mem_append_right _ (List.mem_singleton.mpr rfl)

/-! ## Each operation is a sequence of steps -/

/-- The paper tables of `db'` follow from those of `db`. -/
def LedgerFollows (built : PaperOrderCommit → Prop) (db db' : Db) : Prop :=
  PaperKeys db' ∧ ∀ account, db.paperAccount = some account → ∃ account',
    db'.paperAccount = some account' ∧ account'.configuration = account.configuration ∧
      LedgerSteps built (db.paperLedger account) (db'.paperLedger account')

theorem LedgerFollows.same {built : PaperOrderCommit → Prop} {db db' : Db} (hkeys : PaperKeys db)
    (h : SamePaper db db') : LedgerFollows built db db' :=
  ⟨h.keys hkeys, fun account haccount => ⟨account, h.account.trans haccount, rfl,
    h.ledger_eq account ▸ .refl⟩⟩

theorem applyPaperTradeThrough_ledger {built : PaperOrderCommit → Prop} {mode : Mode}
    {trade : PaperTrade} {now : Time} {db : Db} {r : Committed Nat} (hkeys : PaperKeys db)
    (h : applyPaperTradeThrough mode trade now db = .ok r) : LedgerFollows built db r.db := by
  unfold applyPaperTradeThrough at h
  split at h
  · cases h
  · split at h
    · cases h
    · rename_i hfields
      dsimp only at h
      split at h
      · cases h
        exact .same hkeys (.refl db)
      · rename_i paperMarketEvents _
        split at h
        · cases h
        · rename_i account haccount
          split at h
          · cases h
          · rename_i count b db₁ events hloop
            cases h
            have hkeys₀ : PaperKeys { db with paperMarketEvents } := ⟨hkeys.orderIds, hkeys.held⟩
            have hprice : 0 < trade.price := by
              simp only [not_or, not_le] at hfields
              exact hfields.2.2.1
            obtain ⟨hsteps, haccount₁, hinventory₁, htraded⟩ := applyTradeThrough_ledger
              built (db.paperLedger account) hprice hkeys₀.orderIds
              (fun row hrow => Db.resting_mem hrow)
              (Db.resting_nodup hkeys₀.orderIds trade.tokenId trade.observedAt) hloop
            have hsame : (db₁.withPaperBalances account trade.tokenId b).paperLedger
                { account with quoteBalance := b.quoteBalance, reservedQuote := b.reservedQuote } =
                (db.paperLedger account).during trade.tokenId b db₁.paperVenueOrders := by
              rw [Db.paperLedger_withPaperBalances, Db.paperLedger_of_inventory hinventory₁]
              rfl
            refine ⟨hkeys₀.of_traded (fun p hp => ?_) htraded, fun account' haccount' => ?_⟩
            · rw [hinventory₁]
              exact inventory_upsert _ _ p hp
            · obtain rfl : account = account' := Option.some.inj (haccount.symm.trans haccount')
              refine ⟨_, rfl, rfl, ?_⟩
              change LedgerSteps built _
                ((db₁.withPaperBalances account trade.tokenId b).paperLedger _)
              rw [hsame]
              have hstart : (db.paperLedger account).during trade.tokenId
                  ((db.paperLedger account).balances trade.tokenId) db.paperVenueOrders =
                  db.paperLedger account := by
                rw [Ledger.during, Ledger.settle_balances]
                rfl
              have hsteps : LedgerSteps built ((db.paperLedger account).during trade.tokenId
                  ((db.paperLedger account).balances trade.tokenId) db.paperVenueOrders) _ := hsteps
              rw [hstart] at hsteps
              exact hsteps

theorem PaperBalances.commit_frame {b b' : PaperBalances} {order : PaperOrderCommit}
    (h : b.commit order = .ok b') :
    (order.side = .buy ∧ order.quoteAmount + order.feeAmount + order.reservedQuote ≤
        b.quoteBalance - b.reservedQuote ∧
      b' = { b with
        quoteBalance := b.quoteBalance - (order.quoteAmount + order.feeAmount)
        reservedQuote := b.reservedQuote + order.reservedQuote
        shares := b.shares + order.filledQuantity }) ∨
    (order.side = .sell ∧ order.filledQuantity + order.reservedShares ≤
        b.shares - b.reservedShares ∧
      b' = { b with
        shares := b.shares - order.filledQuantity
        reservedShares := b.reservedShares + order.reservedShares
        quoteBalance := b.quoteBalance + (order.quoteAmount - order.feeAmount) }) := by
  unfold commit at h
  dsimp only at h
  split at h
  · split at h
    · cases h
    · cases h
      exact Or.inl ⟨‹_›, le_of_not_gt ‹_›, rfl⟩
  · split at h
    · cases h
    · cases h
      exact Or.inr ⟨‹_›, le_of_not_gt ‹_›, rfl⟩

theorem commitPaperOrder_ledger {built : PaperOrderCommit → Prop} {mode : Mode}
    {order : PaperOrderCommit} {now : Time} {db : Db} {r : Committed PaperOrderSnapshot}
    (hbuilt : built order) (hkeys : PaperKeys db)
    (h : commitPaperOrder mode order now db = .ok r) : LedgerFollows built db r.db := by
  unfold commitPaperOrder at h
  split at h
  · cases h
  · split at h
    · split at h
      · cases h
      · cases h
        exact .same hkeys (.refl db)
    · rename_i hnew
      have hfresh : ∀ o ∈ db.paperVenueOrders, o.venueOrderId ≠ order.venueOrderId := by
        have hnone : db.paperOrder? order.venueOrderId = none := by
          simpa [Db.findPaperOrder] using hnew
        simpa [Db.paperOrder?, List.find?_eq_none] using hnone
      split at h
      · cases h
      · rename_i account haccount
        split at h
        · cases h
        · rename_i b hcommit
          cases h
          refine ⟨⟨Table.nodup_append_row hkeys.orderIds hfresh, fun o ho => ?_⟩,
            fun account' haccount' => ?_⟩
          · rcases List.mem_append.mp ho with ho | ho
            · obtain ⟨p, hp, htoken⟩ := hkeys.held o ho
              obtain ⟨p', hp', htoken'⟩ := inventory_upsert _ _ p hp
              exact ⟨p', hp', htoken'.trans htoken⟩
            · exact ⟨_, inventory_upsert_self _ _, by rw [List.mem_singleton.mp ho]; rfl⟩
          · obtain rfl : account = account' := Option.some.inj (haccount.symm.trans haccount')
            refine ⟨_, rfl, rfl, .single ?_⟩
            have hsettle := db.paperLedger_withPaperBalances account order.tokenId b
            have hstep : LedgerStep built (db.paperLedger account)
                { (db.paperLedger account).settle order.tokenId b with
                  orders := db.paperVenueOrders ++ [order.row now] } :=
              .commit hbuilt hfresh hcommit
            rw [← hsettle] at hstep
            exact hstep

/-- The inventory row of the order's token gives up what the order reserved. -/
theorem Db.paperLedger_releasePaperOrder (db : Db) (account : PaperAccount) {row : PaperVenueOrder}
    (hheld : ∃ p ∈ db.paperInventory, p.tokenId = row.tokenId) :
    (db.releasePaperOrder account row).paperLedger
        { account with reservedQuote := max (account.reservedQuote - row.reservedQuote) 0 } =
      { db.paperLedger account with
        reservedQuote := max (account.reservedQuote - row.reservedQuote) 0
        reservedShares := Function.update (db.paperLedger account).reservedShares row.tokenId
          (max ((db.paperLedger account).reservedShares row.tokenId - row.reservedShares) 0)
        orders := (db.releasePaperOrder account row).paperVenueOrders } := by
  have hfind : ∀ tokenId, ((db.releasePaperOrder account row).paperInventory.find?
      fun p => p.tokenId = tokenId) = (db.paperInventory.find? fun p => p.tokenId = tokenId).map
        fun p => if p.tokenId = row.tokenId then
          { p with reservedShares := max (p.reservedShares - row.reservedShares) 0 } else p :=
    Table.find?_updateWhere fun _ => rfl
  have hshares : (db.releasePaperOrder account row).paperColumn PaperInventory.shares =
      db.paperColumn PaperInventory.shares := by
    funext tokenId
    rw [paperColumn, hfind, paperColumn]
    cases db.paperInventory.find? fun p => p.tokenId = tokenId with
    | none => rfl
    | some p =>
      simp only [Option.map_some, Option.elim_some]
      split <;> rfl
  have hreserved : (db.releasePaperOrder account row).paperColumn PaperInventory.reservedShares =
      Function.update (db.paperColumn PaperInventory.reservedShares) row.tokenId
        (max (db.paperColumn PaperInventory.reservedShares row.tokenId - row.reservedShares)
          0) := by
    funext tokenId
    rw [paperColumn, hfind, Function.update_apply, paperColumn, paperColumn]
    split
    · rename_i htoken
      subst htoken
      cases hrow : db.paperInventory.find? fun p => p.tokenId = row.tokenId with
      | none =>
        obtain ⟨p, hp, heq⟩ := hheld
        exact absurd heq (by simpa using List.find?_eq_none.mp hrow p hp)
      | some p =>
        have htoken : p.tokenId = row.tokenId := by simpa using List.find?_some hrow
        simp [htoken]
    · rename_i hne
      cases hrow : db.paperInventory.find? fun p => p.tokenId = tokenId with
      | none => rfl
      | some p =>
        have htoken : p.tokenId = tokenId := by simpa using List.find?_some hrow
        simp [htoken, hne]
  rw [paperLedger, hshares, hreserved]
  rfl

theorem cancelPaperOrder_ledger {built : PaperOrderCommit → Prop} {mode : Mode}
    {venueOrderId : String} {db : Db} {r : Committed PaperOrderSnapshot} (hkeys : PaperKeys db)
    (h : cancelPaperOrder mode venueOrderId db = .ok r) : LedgerFollows built db r.db := by
  unfold cancelPaperOrder at h
  split at h
  · cases h
  · split at h
    · cases h
    · rename_i row hfind
      have hrow : row ∈ db.paperVenueOrders := List.mem_of_find?_eq_some hfind
      split at h
      · cases h
        exact .same hkeys ⟨rfl, rfl, rfl⟩
      · rename_i hopen
        split at h
        · cases h
        · rename_i account haccount
          cases h
          have horders : (db.releasePaperOrder account row).paperVenueOrders =
              Table.replace PaperVenueOrder.venueOrderId row.cancel db.paperVenueOrders :=
            Table.updateWhere_eq_replace hkeys.orderIds hrow rfl (fun _ _ heq => heq) rfl
          refine ⟨hkeys.of_traded (fun p hp => ?_) ?_, fun account' haccount' => ?_⟩
          · refine ⟨_, Table.mem_updateWhere.mpr ⟨p, hp, rfl⟩, ?_⟩
            split <;> rfl
          · change (db.releasePaperOrder account row).paperVenueOrders.map _ = _
            rw [horders]
            exact Table.map_replace fun old hold heq => by
              rw [Table.eq_of_key_eq hkeys.orderIds hold hrow heq]
              rfl
          · obtain rfl : account = account' := Option.some.inj (haccount.symm.trans haccount')
            refine ⟨_, rfl, rfl, .single ?_⟩
            have hstep : LedgerStep built (db.paperLedger account) _ :=
              .cancel hrow (Bool.eq_false_iff.mpr hopen)
            change LedgerStep built _ ((db.releasePaperOrder account row).paperLedger _)
            rw [db.paperLedger_releasePaperOrder account (hkeys.held row hrow), horders]
            exact hstep

/-! ## Opening the account -/

def configuredAmount (raw : String) : Decimal := (decimalFromStrExact raw).elim 0 Prod.fst

def PaperConfig.startingShares (config : PaperConfig) (tokenId : String) : Decimal :=
  (config.startingPositions.find? fun p => p.tokenId = tokenId).elim 0
    fun p => configuredAmount p.shares

theorem parseBalance_ok {raw : String} {value : Decimal} (h : parseBalance raw = .ok value) :
    value = configuredAmount raw ∧ 0 ≤ value := by
  unfold parseBalance at h
  split at h
  · cases h
  · split at h
    · cases h
    · cases h
      rename_i hparse hneg
      exact ⟨by simp [configuredAmount, hparse], le_of_not_gt hneg⟩

/-- What the inventory holds once the starting positions are inserted. -/
theorem insertStartingPositions_ok {positions : List PaperPosition} {db db' : Db}
    (h : insertStartingPositions positions db = .ok db') :
    db'.paperAccount = db.paperAccount ∧ db'.paperVenueOrders = db.paperVenueOrders ∧
      (∀ tokenId, (db'.paperInventory.find? fun p => p.tokenId = tokenId) =
        (db.paperInventory.find? fun p => p.tokenId = tokenId).or
          ((positions.find? fun p => p.tokenId = tokenId).map fun p =>
            { tokenId := p.tokenId, shares := configuredAmount p.shares, reservedShares := 0 })) ∧
      ∀ p ∈ positions, 0 ≤ configuredAmount p.shares := by
  induction positions generalizing db with
  | nil =>
    cases h
    exact ⟨rfl, rfl, by simp, fun _ hp => nomatch hp⟩
  | cons position rest ih =>
    simp only [insertStartingPositions] at h
    split at h
    · cases h
    · rename_i shares hparse
      obtain ⟨rfl, hshares⟩ := parseBalance_ok hparse
      split at h
      · cases h
      · rename_i inventory hinsert
        obtain ⟨hfresh, rfl⟩ := Table.insertNew_eq_some.mp hinsert
        split at h
        · cases h
        · obtain ⟨haccount, horders, hfind, hrest⟩ := ih h
          refine ⟨haccount, horders, fun tokenId => ?_, fun p hp => ?_⟩
          · rw [hfind, List.find?_append, List.find?_cons, Option.or_assoc]
            congr 1
            by_cases htoken : position.tokenId = tokenId <;> simp [htoken]
          · rcases List.mem_cons.mp hp with rfl | hp
            · exact hshares
            · exact hrest p hp

/-- The ledger an account is opened with. -/
def PaperConfig.ledger (config : PaperConfig) : Ledger where
  quoteBalance := configuredAmount config.startingQuoteBalance
  reservedQuote := 0
  shares := config.startingShares
  reservedShares := fun _ => 0
  orders := []

theorem initializePaperAccount_ledger {mode : Mode} {config : PaperConfig} {db : Db}
    {r : Committed Unit} (haccount : db.paperAccount = none) (hinventory : db.paperInventory = [])
    (horders : db.paperVenueOrders = []) (h : initializePaperAccount mode config db = .ok r) :
    PaperKeys r.db ∧ 0 ≤ configuredAmount config.startingQuoteBalance ∧
      (∀ tokenId, 0 ≤ config.startingShares tokenId) ∧ ∃ account,
        r.db.paperAccount = some account ∧ account.configuration = config ∧
          r.db.paperLedger account = config.ledger := by
  unfold initializePaperAccount at h
  split at h
  · cases h
  · split at h
    · cases h
    · rename_i quoteBalance hparse
      obtain ⟨rfl, hbalance⟩ := parseBalance_ok hparse
      split at h
      · rename_i existing hexisting
        cases haccount.symm.trans hexisting
      · dsimp only at h
        split at h
        · cases h
        · rename_i db' hinsert
          cases h
          obtain ⟨haccount', horders', hfind, hpositions⟩ := insertStartingPositions_ok hinsert
          have horders' : db'.paperVenueOrders = [] := horders'.trans horders
          have hfind' : ∀ tokenId, (db'.paperInventory.find? fun p => p.tokenId = tokenId) =
              (config.startingPositions.find? fun p => p.tokenId = tokenId).map fun p =>
                { tokenId := p.tokenId, shares := configuredAmount p.shares,
                  reservedShares := 0 } := fun tokenId => by
            rw [hfind]
            simp [hinventory]
          refine ⟨⟨?_, ?_⟩, hbalance, fun tokenId => ?_, _, haccount', rfl, ?_⟩
          · change (db'.paperVenueOrders.map _).Nodup
            simp [horders']
          · change ∀ o ∈ db'.paperVenueOrders, _
            simp [horders']
          · unfold PaperConfig.startingShares
            cases hposition : config.startingPositions.find? fun p => p.tokenId = tokenId with
            | none => exact le_refl _
            | some p => exact hpositions p (List.mem_of_find?_eq_some hposition)
          · change db'.paperLedger _ = _
            have hcolumns : db'.paperColumn PaperInventory.shares = config.startingShares ∧
                db'.paperColumn PaperInventory.reservedShares = fun _ => 0 := by
              refine ⟨funext fun tokenId => ?_, funext fun tokenId => ?_⟩ <;>
                rw [Db.paperColumn, hfind']
              · unfold PaperConfig.startingShares
                cases config.startingPositions.find? fun p => p.tokenId = tokenId <;> rfl
              · cases config.startingPositions.find? fun p => p.tokenId = tokenId <;> rfl
            rw [Db.paperLedger, hcolumns.1, hcolumns.2, horders']
            rfl

/-! ## Runs of the paper ledger -/

/-- The operations on the paper ledger. -/
inductive PaperOp where
  | commit (order : PaperOrderCommit)
  | tradeThrough (trade : PaperTrade)
  | cancel (venueOrderId : String)

/-- The database a transaction leaves: one that fails leaves what it found. -/
def leaves {α : Type} (db : Db) : Tx α → Db
  | .ok r => r.db
  | .error _ => db

def forget {α : Type} : Tx α → Tx Unit
  | .ok r => .ok ⟨(), r.db, r.broadcast⟩
  | .error e => .error e

def PaperOp.run (now : Time) (op : PaperOp) (db : Db) : Tx Unit :=
  match op with
  | .commit order => forget (commitPaperOrder .paper order now db)
  | .tradeThrough trade => forget (applyPaperTradeThrough .paper trade now db)
  | .cancel venueOrderId => forget (cancelPaperOrder .paper venueOrderId db)

def PaperOp.after (now : Time) (op : PaperOp) (db : Db) : Db := leaves db (op.run now db)

/-- The databases reached from the account a configuration opens, by paper operations with
anything that leaves the paper tables alone between them; `built` holds of the orders that are
committed. -/
inductive PaperRun (config : PaperConfig) (built : PaperOrderCommit → Prop) : Db → Prop
  | opened {db : Db} {r : Committed Unit} (haccount : db.paperAccount = none)
      (hinventory : db.paperInventory = []) (horders : db.paperVenueOrders = [])
      (h : initializePaperAccount .paper config db = .ok r) : PaperRun config built r.db
  | step {db : Db} (op : PaperOp) (now : Time) (hrun : PaperRun config built db)
      (hbuilt : ∀ order, op = .commit order → built order) :
      PaperRun config built (op.after now db)
  | core {db db' : Db} (hrun : PaperRun config built db) (hsame : SamePaper db db') :
      PaperRun config built db'

theorem LedgerFollows.of_tx {α : Type} {built : PaperOrderCommit → Prop} {db : Db} {tx : Tx α}
    (hkeys : PaperKeys db) (h : ∀ r, tx = .ok r → LedgerFollows built db r.db) :
    LedgerFollows built db (leaves db (forget tx)) := by
  cases tx with
  | error e => exact .same hkeys (.refl db)
  | ok r => exact h r rfl

theorem PaperOp.after_ledger {built : PaperOrderCommit → Prop} {now : Time} {op : PaperOp}
    {db : Db} (hbuilt : ∀ order, op = .commit order → built order) (hkeys : PaperKeys db) :
    LedgerFollows built db (op.after now db) := by
  cases op with
  | commit order => exact .of_tx hkeys fun r => commitPaperOrder_ledger (hbuilt order rfl) hkeys
  | tradeThrough trade => exact .of_tx hkeys fun r => applyPaperTradeThrough_ledger hkeys
  | cancel venueOrderId => exact .of_tx hkeys fun r => cancelPaperOrder_ledger hkeys

/-- A database of a run carries a ledger that steps lead to from the opening one. -/
theorem PaperRun.ledger {config : PaperConfig} {built : PaperOrderCommit → Prop} {db : Db}
    (h : PaperRun config built db) :
    PaperKeys db ∧ 0 ≤ configuredAmount config.startingQuoteBalance ∧
      (∀ tokenId, 0 ≤ config.startingShares tokenId) ∧ ∃ account,
        db.paperAccount = some account ∧ account.configuration = config ∧
          LedgerSteps built config.ledger (db.paperLedger account) := by
  induction h with
  | opened haccount hinventory horders h =>
    obtain ⟨hkeys, hbalance, hshares, account, hfound, hconfig, hledger⟩ :=
      initializePaperAccount_ledger haccount hinventory horders h
    exact ⟨hkeys, hbalance, hshares, account, hfound, hconfig, hledger ▸ .refl⟩
  | step op now _ hbuilt ih =>
    obtain ⟨hkeys, hbalance, hshares, account, hfound, hconfig, hsteps⟩ := ih
    obtain ⟨hkeys', hfollows⟩ := PaperOp.after_ledger hbuilt hkeys
    obtain ⟨account', hfound', hconfig', hsteps'⟩ := hfollows account hfound
    exact ⟨hkeys', hbalance, hshares, account', hfound', hconfig'.trans hconfig,
      hsteps.trans hsteps'⟩
  | core _ hsame ih =>
    obtain ⟨hkeys, hbalance, hshares, account, hfound, hconfig, hsteps⟩ := ih
    exact ⟨hsame.keys hkeys, hbalance, hshares, account, hsame.account.trans hfound, hconfig,
      hsame.ledger_eq account ▸ hsteps⟩

/-! ## Playing paper operations -/

/-- The database a list of operations leads to from a fresh account. -/
def playPaper (config : PaperConfig) (now : Time) (ops : List PaperOp) : Option Db :=
  match initializePaperAccount .paper config Db.initial with
  | .ok r => some (ops.foldl (fun db op => op.after now db) r.db)
  | .error _ => none

theorem playPaper_run {config : PaperConfig} {built : PaperOrderCommit → Prop} {now : Time}
    {ops : List PaperOp} {db : Db}
    (hbuilt : ∀ op ∈ ops, ∀ order, op = .commit order → built order)
    (h : playPaper config now ops = some db) : PaperRun config built db := by
  unfold playPaper at h
  split at h
  · rename_i r hinit
    cases h
    have hfold : ∀ start, PaperRun config built start → PaperRun config built
        (ops.foldl (fun db op => op.after now db) start) := by
      clear hinit
      induction ops with
      | nil => exact fun _ hstart => hstart
      | cons op ops ih =>
        exact fun start hstart => ih (fun other hother => hbuilt other
          (List.mem_cons_of_mem _ hother))
          _ (.step op now hstart (hbuilt op List.mem_cons_self))
    exact hfold _ (.opened rfl rfl rfl hinit)
  · cases h

/-- What a check of the database a list of operations leads to shows. -/
theorem exists_of_playPaper (config : PaperConfig) (ops : List PaperOp)
    (built : PaperOrderCommit → Prop) (now : Time) (check : Db → Bool)
    (hbuilt : ∀ op ∈ ops, ∀ order, op = .commit order → built order)
    (h : (playPaper config now ops).any check = true) :
    ∃ db, playPaper config now ops = some db ∧ PaperRun config built db ∧ check db = true := by
  obtain ⟨db, hplay, hcheck⟩ := (Option.any_eq_true _ _).mp h
  exact ⟨db, hplay, playPaper_run hbuilt hplay, hcheck⟩

/-- An account of a hundred, with twenty shares of token 7. -/
def samplePaperConfig : PaperConfig where
  startingQuoteBalance := "100"
  startingPositions := [⟨"condition", "7", "20"⟩]

end OddsfoxExecution
