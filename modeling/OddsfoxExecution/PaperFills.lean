import OddsfoxExecution.PaperSolvency

/-!
# The fills of public trades

A public trade fills resting paper orders until its size is used up, and its
event counts once.  Over every history of trades, commits and cancellations the
fills of an order stay within the trades through its limit, and the fills of an
event within its size.
-/

namespace OddsfoxExecution

/-! ## One trade -/

def Db.paperFilled (db : Db) : Decimal :=
  (db.paperVenueOrders.map PaperVenueOrder.filledQuantity).sum

/-- A trade leaves an order of `rows` alone, or fills some of what remains of one it crosses. -/
def PaperVenueOrder.FilledBy (trade : PaperTrade) (size : Decimal) (rows : List PaperVenueOrder)
    (row row' : PaperVenueOrder) : Prop :=
  row' = row ∨ (row ∈ rows ∧ row.crossedBy trade = true ∧
    ∃ fill, 0 < fill ∧ fill ≤ row.remainingQuantity ∧ fill ≤ size ∧
      row' = row.fill trade.price fill (paperFillState (row.remainingQuantity - fill))
        ("paper:" ++ trade.eventId ++ ":" ++ row.venueOrderId) (trade.evidence fill))

theorem PaperVenueOrder.FilledBy.mono {trade : PaperTrade} {size size' : Decimal}
    {rows rows' : List PaperVenueOrder} {row row' : PaperVenueOrder} (hsize : size ≤ size')
    (hrows : rows ⊆ rows') (h : row.FilledBy trade size rows row') :
    row.FilledBy trade size' rows' row' := by
  rcases h with heq | ⟨hrow, hcrossed, fill, hfill, hremaining, hle, heq⟩
  · exact .inl heq
  · exact .inr ⟨hrows hrow, hcrossed, fill, hfill, hremaining, hle.trans hsize, heq⟩

/-- What the loop of `apply_paper_trade_through` does to the orders: it fills some of its rows, and
all fills together fit in the size of the trade. -/
theorem applyTradeThrough_fills {trade : PaperTrade} {now : Time} {rows : List PaperVenueOrder}
    {size : Decimal} {count count' : Nat} {b b' : PaperBalances} {db db' : Db}
    {events events' : List ExecutionEvent}
    (hkeys : (db.paperVenueOrders.map PaperVenueOrder.venueOrderId).Nodup)
    (hrows : ∀ row ∈ rows, row ∈ db.paperVenueOrders)
    (hdistinct : (rows.map PaperVenueOrder.venueOrderId).Nodup) (hsize : 0 ≤ size)
    (h : applyTradeThrough trade now rows size count b db events =
      .ok (count', b', db', events')) :
    db'.paperFilled ≤ db.paperFilled + size ∧
      ∀ row' ∈ db'.paperVenueOrders, ∃ row ∈ db.paperVenueOrders,
        row.FilledBy trade size rows row' := by
  induction rows generalizing size count b db events with
  | nil =>
    cases h
    exact ⟨le_add_of_nonneg_right hsize, fun row hrow => ⟨row, hrow, .inl rfl⟩⟩
  | cons row rows ih =>
    obtain ⟨hfresh, hdistinct⟩ := List.nodup_cons.mp hdistinct
    have hrow := hrows row List.mem_cons_self
    have hrest := fun other hother => hrows other (List.mem_cons_of_mem _ hother)
    simp only [applyTradeThrough] at h
    split at h
    · cases h
      exact ⟨le_add_of_nonneg_right hsize, fun row hrow => ⟨row, hrow, .inl rfl⟩⟩
    · split at h
      · obtain ⟨htotal, hfilled⟩ := ih hkeys hrest hdistinct hsize h
        refine ⟨htotal, fun row' hrow' => ?_⟩
        obtain ⟨old, hold, hby⟩ := hfilled row' hrow'
        exact ⟨old, hold, hby.mono le_rfl (List.subset_cons_self _ _)⟩
      · rename_i hfills
        obtain ⟨hcrossed, hfill⟩ := not_or.mp hfills
        rw [not_not] at hcrossed
        split at h
        · cases h
        · rename_i b₁ db₁ _ hfilled
          obtain ⟨-, -, -, horders⟩ := fillRestingOrder_ok hkeys hrow hfilled
          have hkeys₁ : (db₁.paperVenueOrders.map PaperVenueOrder.venueOrderId).Nodup := by
            rw [horders, Table.map_key_replace]
            exact hkeys
          have hrest₁ : ∀ other ∈ rows, other ∈ db₁.paperVenueOrders := by
            intro other hother
            rw [horders]
            exact Table.mem_replace.mpr (.inl ⟨hrest other hother, fun heq =>
              hfresh (List.mem_map.mpr ⟨other, hother, heq⟩)⟩)
          obtain ⟨htotal, hlater⟩ := ih hkeys₁ hrest₁ hdistinct
            (sub_nonneg.mpr (min_le_right row.remainingQuantity size)) h
          refine ⟨?_, fun row' hrow' => ?_⟩
          · have hsum : db₁.paperFilled =
                db.paperFilled + min row.remainingQuantity size := by
              have hid : (row.fill trade.price (min row.remainingQuantity size)
                  (paperFillState (row.remainingQuantity - min row.remainingQuantity size))
                  ("paper:" ++ trade.eventId ++ ":" ++ row.venueOrderId)
                  (trade.evidence (min row.remainingQuantity size))).venueOrderId =
                row.venueOrderId := rfl
              unfold Db.paperFilled
              rw [horders, Table.sum_replace hkeys hrow hid]
              simp only [PaperVenueOrder.fill]
              ring
            rw [hsum] at htotal
            linarith
          · obtain ⟨mid, hmid, hby⟩ := hlater row' hrow'
            have hby := hby.mono (sub_le_self size (not_le.mp hfill).le) (List.Subset.refl rows)
            rw [horders] at hmid
            rcases Table.mem_replace.mp hmid with ⟨hmid, -⟩ | ⟨rfl, -⟩
            · exact ⟨mid, hmid, hby.mono le_rfl (List.subset_cons_self _ _)⟩
            -- the row just filled is not met again
            · rcases hby with rfl | ⟨hagain, -⟩
              · exact ⟨row, hrow, .inr ⟨List.mem_cons_self, hcrossed, _, not_le.mp hfill,
                  min_le_left _ _, min_le_right _ _, rfl⟩⟩
              · exact absurd (List.mem_map.mpr ⟨_, hagain, rfl⟩) hfresh

theorem applyMatchedFill_marketEvents {db : Db} {order : OrderRecord} {venueOrderId : Option String}
    {filled : Decimal} {price : Option Decimal} {ids : List String} {now : Time} :
    (applyMatchedFill db order venueOrderId filled price ids now).1.paperMarketEvents =
      db.paperMarketEvents := by
  unfold applyMatchedFill
  split
  · rfl
  · dsimp only
    split <;> rfl

theorem fillCoreOrder_marketEvents {db : Db} {trade : PaperTrade}
    {venueOrderId venueTradeId : String} {fill remaining : Decimal} {state : OrderState}
    {now : Time} :
    (fillCoreOrder trade venueOrderId venueTradeId fill remaining state now
      db).1.paperMarketEvents = db.paperMarketEvents := by
  unfold fillCoreOrder
  split
  · rfl
  · split
    · exact applyMatchedFill_marketEvents
    · rfl

theorem applyTradeThrough_marketEvents {trade : PaperTrade} {now : Time}
    {rows : List PaperVenueOrder} {size : Decimal} {count count' : Nat} {b b' : PaperBalances}
    {db db' : Db} {events events' : List ExecutionEvent}
    (h : applyTradeThrough trade now rows size count b db events =
      .ok (count', b', db', events')) :
    db'.paperMarketEvents = db.paperMarketEvents := by
  induction rows generalizing size count b db events with
  | nil =>
    cases h
    rfl
  | cons row rows ih =>
    simp only [applyTradeThrough] at h
    split at h
    · cases h
      rfl
    · split at h
      · exact ih h
      · split at h
        · cases h
        · rename_i hfilled
          refine (ih h).trans ?_
          unfold fillRestingOrder at hfilled
          dsimp only at hfilled
          split at hfilled
          · cases hfilled
          · cases hfilled
            exact fillCoreOrder_marketEvents

def PaperTrade.event (trade : PaperTrade) : PaperMarketEvent where
  eventId := trade.eventId
  tokenId := trade.tokenId
  price := trade.price
  size := trade.size
  observedAt := trade.observedAt

/-- An event that is new to the ledger: its trade is recorded and fills resting orders. -/
structure Db.TradedThrough (db : Db) (trade : PaperTrade) (db' : Db) : Prop where
  fresh : ∀ e ∈ db.paperMarketEvents, e.eventId ≠ trade.eventId
  size : 0 < trade.size
  recorded : db'.paperMarketEvents = db.paperMarketEvents ++ [trade.event]
  orderIds : db'.paperVenueOrders.map PaperVenueOrder.venueOrderId =
    db.paperVenueOrders.map PaperVenueOrder.venueOrderId
  total : db'.paperFilled ≤ db.paperFilled + trade.size
  orders : ∀ row' ∈ db'.paperVenueOrders, ∃ row ∈ db.paperVenueOrders,
    row.FilledBy trade trade.size (db.restingPaperOrders trade.tokenId trade.observedAt) row'

theorem map_venueOrderId_eq {rows rows' : List PaperVenueOrder}
    (h : rows'.map PaperVenueOrder.traded = rows.map PaperVenueOrder.traded) :
    rows'.map PaperVenueOrder.venueOrderId = rows.map PaperVenueOrder.venueOrderId := by
  have hids := congrArg (List.map Prod.fst) h
  rwa [List.map_map, List.map_map] at hids

/-- `apply_paper_trade_through` finds a known event and changes nothing, or applies a new one. -/
theorem applyPaperTradeThrough_ok {mode : Mode} {trade : PaperTrade} {now : Time} {db : Db}
    {r : Committed Nat} (hkeys : (db.paperVenueOrders.map PaperVenueOrder.venueOrderId).Nodup)
    (h : applyPaperTradeThrough mode trade now db = .ok r) :
    ((∃ e ∈ db.paperMarketEvents, e.eventId = trade.eventId) ∧ r.db = db) ∨
      db.TradedThrough trade r.db := by
  unfold applyPaperTradeThrough at h
  split at h
  · cases h
  · split at h
    · cases h
    · rename_i hfields
      dsimp only at h
      split at h
      · rename_i hknown
        cases h
        exact .inl ⟨Table.insertNew_eq_none.mp hknown, rfl⟩
      · rename_i paperMarketEvents hnew
        obtain ⟨hfresh, rfl⟩ := Table.insertNew_eq_some.mp hnew
        split at h
        · cases h
        · rename_i account _
          split at h
          · cases h
          · rename_i count b db₁ events hloop
            cases h
            simp only [not_or, not_le] at hfields
            have hprice := hfields.2.2.1
            have hsize := hfields.2.2.2.2
            have hkeys₀ : (({ db with paperMarketEvents := db.paperMarketEvents ++ [trade.event] } :
                Db).paperVenueOrders.map PaperVenueOrder.venueOrderId).Nodup := hkeys
            have hdistinct := Db.resting_nodup hkeys₀ trade.tokenId trade.observedAt
            obtain ⟨htotal, horders⟩ := applyTradeThrough_fills hkeys₀
              (fun row hrow => (Db.resting_mem hrow).1) hdistinct hsize.le hloop
            obtain ⟨-, -, -, htraded⟩ := applyTradeThrough_ledger (fun _ => True)
              (db.paperLedger account) hprice hkeys₀
              (fun row hrow => Db.resting_mem hrow) hdistinct hloop
            exact .inr ⟨hfresh, hsize, applyTradeThrough_marketEvents hloop,
              map_venueOrderId_eq htraded, htotal, horders⟩

theorem commitPaperOrder_orders {mode : Mode} {order : PaperOrderCommit} {now : Time} {db : Db}
    {r : Committed PaperOrderSnapshot} (h : commitPaperOrder mode order now db = .ok r) :
    r.db.paperMarketEvents = db.paperMarketEvents ∧
      (r.db.paperVenueOrders = db.paperVenueOrders ∨
        (∀ o ∈ db.paperVenueOrders, o.venueOrderId ≠ order.venueOrderId) ∧
          r.db.paperVenueOrders = db.paperVenueOrders ++ [order.row now]) := by
  unfold commitPaperOrder at h
  split at h
  · cases h
  · split at h
    · split at h
      · cases h
      · cases h
        exact ⟨rfl, .inl rfl⟩
    · rename_i hnew
      have hnone : db.paperOrder? order.venueOrderId = none := by
        simpa [Db.findPaperOrder] using hnew
      split at h
      · cases h
      · split at h
        · cases h
        · cases h
          exact ⟨rfl, .inr ⟨by simpa [Db.paperOrder?, List.find?_eq_none] using hnone, rfl⟩⟩

theorem cancelPaperOrder_orders {mode : Mode} {venueOrderId : String} {db : Db}
    {r : Committed PaperOrderSnapshot}
    (hkeys : (db.paperVenueOrders.map PaperVenueOrder.venueOrderId).Nodup)
    (h : cancelPaperOrder mode venueOrderId db = .ok r) :
    r.db.paperMarketEvents = db.paperMarketEvents ∧
      (r.db.paperVenueOrders = db.paperVenueOrders ∨
        ∃ row ∈ db.paperVenueOrders, r.db.paperVenueOrders =
          Table.replace PaperVenueOrder.venueOrderId row.cancel db.paperVenueOrders) := by
  unfold cancelPaperOrder at h
  split at h
  · cases h
  · split at h
    · cases h
    · rename_i row hfind
      have hrow : row ∈ db.paperVenueOrders := List.mem_of_find?_eq_some hfind
      split at h
      · cases h
        exact ⟨rfl, .inl rfl⟩
      · split at h
        · cases h
        · cases h
          exact ⟨rfl, .inr ⟨row, hrow,
            Table.updateWhere_eq_replace hkeys hrow rfl (fun _ _ heq => heq) rfl⟩⟩

/-! ## Every history -/

/-- A ledger with its past: the rows of its orders as they were committed, and what the trades of
each event have filled. -/
structure PaperHistory where
  db : Db
  placed : List PaperVenueOrder
  attributed : String → Decimal

def Db.newPaperOrders (db db' : Db) : List PaperVenueOrder :=
  db'.paperVenueOrders.filter fun row =>
    row.venueOrderId ∉ db.paperVenueOrders.map PaperVenueOrder.venueOrderId

/-- The history after an operation: a trade's fills are attributed to its event. -/
def PaperHistory.after (now : Time) (op : PaperOp) (s : PaperHistory) : PaperHistory where
  db := op.after now s.db
  placed := s.placed ++ s.db.newPaperOrders (op.after now s.db)
  attributed :=
    match op with
    | .tradeThrough trade => Function.update s.attributed trade.eventId
        (s.attributed trade.eventId + ((op.after now s.db).paperFilled - s.db.paperFilled))
    | _ => s.attributed

/-- An order `PaperVenue::submit` builds from a request, a book and the market's rules. -/
def FromVenue (order : PaperOrderCommit) : Prop :=
  ∃ deterministicOrderId request book market,
    PaperVenue.order deterministicOrderId request book market = some order

/-- The histories of a ledger: trades, commits of the orders of `PaperVenue::submit` and
cancellations, with anything between them that leaves the paper tables alone. -/
inductive PaperHistory.Run (config : PaperConfig) : PaperHistory → Prop
  | opened {db : Db} {r : Committed Unit} (haccount : db.paperAccount = none)
      (hinventory : db.paperInventory = []) (horders : db.paperVenueOrders = [])
      (hevents : db.paperMarketEvents = []) (h : initializePaperAccount .paper config db = .ok r) :
      Run config ⟨r.db, [], fun _ => 0⟩
  | step {s : PaperHistory} (op : PaperOp) (now : Time) (hrun : Run config s)
      (hbuilt : ∀ order, op = .commit order → FromVenue order) : Run config (s.after now op)
  | core {s : PaperHistory} {db' : Db} (hrun : Run config s) (hsame : SamePaper s.db db')
      (hevents : db'.paperMarketEvents = s.db.paperMarketEvents) :
      Run config { s with db := db' }

theorem PaperHistory.Run.paperRun {config : PaperConfig} {s : PaperHistory}
    (h : PaperHistory.Run config s) : PaperRun config FromVenue s.db := by
  induction h with
  | opened haccount hinventory horders _ h => exact .opened haccount hinventory horders h
  | step op now _ hbuilt ih => exact .step op now ih hbuilt
  | core _ hsame _ ih => exact .core ih hsame

/-- The size of the trades through an order's limit since its creation. -/
def Db.sizeThrough (db : Db) (row : PaperVenueOrder) : Decimal :=
  ((db.paperMarketEvents.filter fun e => e.tokenId = row.tokenId ∧
    (row.side = .buy → e.price < row.price) ∧ (row.side = .sell → row.price < e.price) ∧
    row.createdAt ≤ e.observedAt).map PaperMarketEvent.size).sum

/-- What a committed order and its row in the ledger agree on. -/
def PaperVenueOrder.terms (row : PaperVenueOrder) :
    String × String × Side × Decimal × Decimal × Time :=
  (row.venueOrderId, row.tokenId, row.side, row.price, row.originalQuantity, row.createdAt)

/-- The row of an order and the row it was placed with: an order that was placed at rest is filled
by trades through its limit and within its quantity, any other is not filled again. -/
structure Db.FilledWithin (db : Db) (placed row : PaperVenueOrder) : Prop where
  terms : row.terms = placed.terms
  atRest : placed.resting = true → row.filledQuantity ≤ row.originalQuantity ∧
    row.filledQuantity ≤ db.sizeThrough row
  atOnce : placed.resting = false → row.filledQuantity = placed.filledQuantity

/-- A row keeps this of the row it was placed with. -/
structure Db.RowFollows (db : Db) (placed row : PaperVenueOrder) : Prop
    extends db.FilledWithin placed row where
  left : placed.resting = true → 0 ≤ row.remainingQuantity ∧
    (row.resting = true → row.filledQuantity + row.remainingQuantity = row.originalQuantity)
  done : placed.resting = false → row.resting = false

/-- Trades that are recorded only add to what has gone through an order's limit. -/
theorem Db.sizeThrough_append {db db' : Db} {trade : PaperTrade}
    (hrecorded : db'.paperMarketEvents = db.paperMarketEvents ++ [trade.event])
    (row : PaperVenueOrder) :
    db'.sizeThrough row = db.sizeThrough row +
      if trade.tokenId = row.tokenId ∧ (row.side = .buy → trade.price < row.price) ∧
        (row.side = .sell → row.price < trade.price) ∧ row.createdAt ≤ trade.observedAt
      then trade.size else 0 := by
  unfold sizeThrough
  rw [hrecorded, List.filter_append, List.map_append, List.sum_append]
  congr 1
  simp only [PaperTrade.event, List.filter_cons, List.filter_nil, decide_eq_true_eq]
  split <;> simp

namespace PaperHistory

/-- What every history keeps. -/
structure Sound (s : PaperHistory) : Prop where
  eventIds : (s.db.paperMarketEvents.map PaperMarketEvent.eventId).Nodup
  sizes : ∀ e ∈ s.db.paperMarketEvents, 0 < e.size
  placedIds : s.placed.map PaperVenueOrder.venueOrderId =
    s.db.paperVenueOrders.map PaperVenueOrder.venueOrderId
  rows : ∀ placed ∈ s.placed, ∀ row ∈ s.db.paperVenueOrders,
    placed.venueOrderId = row.venueOrderId → s.db.RowFollows placed row
  attributed : ∀ e ∈ s.db.paperMarketEvents, s.attributed e.eventId ≤ e.size
  unattributed : ∀ eventId, (∀ e ∈ s.db.paperMarketEvents, e.eventId ≠ eventId) →
    s.attributed eventId = 0

end PaperHistory

theorem Db.RowFollows.of_same {db db' : Db} {placed row : PaperVenueOrder}
    (hevents : db'.paperMarketEvents = db.paperMarketEvents) (h : db.RowFollows placed row) :
    db'.RowFollows placed row := by
  refine ⟨⟨h.terms, fun hplaced => ⟨(h.atRest hplaced).1, ?_⟩, h.atOnce⟩, h.left, h.done⟩
  unfold sizeThrough
  rw [hevents]
  exact (h.atRest hplaced).2

theorem Db.RowFollows.cancel {db : Db} {placed row : PaperVenueOrder}
    (h : db.RowFollows placed row) : db.RowFollows placed row.cancel where
  terms := h.terms
  atRest := h.atRest
  atOnce := h.atOnce
  left := fun _ => ⟨le_rfl, fun hresting => by simp [PaperVenueOrder.cancel,
    PaperVenueOrder.resting] at hresting⟩
  done := fun _ => by simp [PaperVenueOrder.cancel, PaperVenueOrder.resting]

/-- A trade fills a row by no more than its size, once it is through the row's limit. -/
theorem Db.RowFollows.filled {db db' : Db} {trade : PaperTrade}
    (htraded : db.TradedThrough trade db') {placed row row' : PaperVenueOrder}
    (h : db.RowFollows placed row) (hby : row.FilledBy trade trade.size
      (db.restingPaperOrders trade.tokenId trade.observedAt) row') :
    db'.RowFollows placed row' := by
  have hthrough := Db.sizeThrough_append htraded.recorded row
  have hsize := htraded.size
  rcases hby with rfl | ⟨hmem, hcrossed, fill, hfill, hremaining, hle, rfl⟩
  · refine ⟨⟨h.terms, fun hplaced => ⟨(h.atRest hplaced).1, ?_⟩, h.atOnce⟩, h.left, h.done⟩
    have hbefore := (h.atRest hplaced).2
    rw [hthrough]
    split
    · linarith
    · linarith
  · have hresting := (Db.resting_mem hmem).2.2
    have hplaced : placed.resting = true := by
      by_contra hnot
      have hdone := h.done (Bool.eq_false_iff.mpr hnot)
      rw [hresting] at hdone
      cases hdone
    obtain ⟨hwithin, hbefore⟩ := h.atRest hplaced
    have hleft := (h.left hplaced).2 hresting
    have hcreated : row.createdAt ≤ trade.observedAt := by
      rw [Db.restingPaperOrders, List.mem_insertionSort, List.mem_filter] at hmem
      exact (of_decide_eq_true hmem.2).2.2
    rw [if_pos ⟨(Db.resting_mem hmem).2.1.symm,
      fun hside => by simpa [PaperVenueOrder.crossedBy, hside] using hcrossed,
      fun hside => by simpa [PaperVenueOrder.crossedBy, hside] using hcrossed,
      hcreated⟩] at hthrough
    refine ⟨⟨h.terms, fun _ => ⟨?_, ?_⟩, fun hnot => ?_⟩, fun _ => ⟨?_, fun _ => ?_⟩,
      fun hnot => ?_⟩
    · change row.filledQuantity + fill ≤ row.originalQuantity
      linarith
    · change row.filledQuantity + fill ≤ db'.sizeThrough row
      linarith
    · cases hplaced.symm.trans hnot
    · change 0 ≤ row.remainingQuantity - fill
      linarith
    · change row.filledQuantity + fill + (row.remainingQuantity - fill) = row.originalQuantity
      linarith
    · cases hplaced.symm.trans hnot

/-- An order `PaperVenue::submit` leaves resting has the quantity of the request, and nothing of
it is filled. -/
theorem PaperVenue.order_resting {deterministicOrderId : String} {request : OrderIntentRequest}
    {book : OrderBook} {market : MarketRules} {order : PaperOrderCommit} {now : Time}
    (h : PaperVenue.order deterministicOrderId request book market = some order)
    (hresting : (order.row now).resting = true) :
    request.timeInForce.immediate = false ∧ request.quantityDecimal = .ok order.originalQuantity ∧
      order.filledQuantity = 0 ∧ order.remainingQuantity = order.originalQuantity := by
  unfold PaperVenue.order at h
  split at h
  · rename_i price quantity hprice hquantity
    split at h
    · cases h
    · rename_i fill hfill
      split at h
      · cases h
      · cases h
        have himmediate : request.timeInForce.immediate = false := by
          by_contra himmediate
          rw [Bool.not_eq_false] at himmediate
          unfold PaperVenueOrder.resting PaperOrderCommit.row PaperVenue.commitOf
            PaperVenue.orderState at hresting
          rw [himmediate] at hresting
          cases hcomplete : fill.complete <;> simp [hcomplete] at hresting
        simp only [PaperVenue.fill, himmediate, Bool.false_eq_true, if_false,
          Option.some.injEq] at hfill
        subst hfill
        refine ⟨himmediate, ?_, ?_, ?_⟩
        · simpa [PaperVenue.commitOf, himmediate] using hquantity
        · simp [PaperVenue.commitOf, PaperVenue.appliedFill, PaperFill.none]
        · simp [PaperVenue.commitOf, himmediate]
  · cases h

/-- An order `PaperVenue::submit` builds rests with nothing filled, or does not rest. -/
theorem FromVenue.row_follows {db : Db} (hsizes : ∀ e ∈ db.paperMarketEvents, 0 < e.size)
    {order : PaperOrderCommit} (h : FromVenue order) (now : Time) :
    db.RowFollows (order.row now) (order.row now) := by
  have hnonneg : 0 ≤ db.sizeThrough (order.row now) :=
    Table.sum_nonneg fun e he => (hsizes e (List.mem_filter.mp he).1).le
  have hrests : (order.row now).resting = true → order.filledQuantity = 0 ∧
      order.remainingQuantity = order.originalQuantity ∧ 0 ≤ order.originalQuantity := by
    intro hresting
    obtain ⟨id, request, book, market, horder⟩ := h
    obtain ⟨-, hquantity, hfilled, hremaining⟩ := PaperVenue.order_resting horder hresting
    exact ⟨hfilled, hremaining, (OrderIntentRequest.quantityDecimal_pos hquantity).le⟩
  refine ⟨⟨rfl, fun hresting => ?_, fun _ => rfl⟩, fun hresting => ?_, fun hresting => hresting⟩
  · obtain ⟨hfilled, -, horiginal⟩ := hrests hresting
    change order.filledQuantity ≤ order.originalQuantity ∧ order.filledQuantity ≤ _
    rw [hfilled]
    exact ⟨horiginal, hnonneg⟩
  · obtain ⟨hfilled, hremaining, horiginal⟩ := hrests hresting
    change 0 ≤ order.remainingQuantity ∧ (_ →
      order.filledQuantity + order.remainingQuantity = order.originalQuantity)
    rw [hfilled, hremaining]
    exact ⟨horiginal, fun _ => zero_add _⟩

namespace PaperHistory

variable {s : PaperHistory}

theorem newPaperOrders_of_ids {db db' : Db}
    (h : db'.paperVenueOrders.map PaperVenueOrder.venueOrderId =
      db.paperVenueOrders.map PaperVenueOrder.venueOrderId) : db.newPaperOrders db' = [] := by
  unfold Db.newPaperOrders
  rw [← h]
  exact List.filter_eq_nil_iff.mpr fun row hrow hnew =>
    of_decide_eq_true hnew (List.mem_map_of_mem hrow)

theorem newPaperOrders_append {db db' : Db} {row : PaperVenueOrder}
    (hfresh : ∀ o ∈ db.paperVenueOrders, o.venueOrderId ≠ row.venueOrderId)
    (h : db'.paperVenueOrders = db.paperVenueOrders ++ [row]) : db.newPaperOrders db' = [row] := by
  unfold Db.newPaperOrders
  rw [h, List.filter_append, List.filter_eq_nil_iff.mpr]
  · have hnew : row.venueOrderId ∉ db.paperVenueOrders.map PaperVenueOrder.venueOrderId := by
      intro hmem
      obtain ⟨o, ho, heq⟩ := List.mem_map.mp hmem
      exact hfresh o ho heq
    rw [List.nil_append, List.filter_cons, if_pos (decide_eq_true hnew), List.filter_nil]
  · exact fun o ho hnew => of_decide_eq_true hnew (List.mem_map_of_mem ho)

/-- What changes only rows, each into one that still follows where it was placed. -/
theorem Sound.rows_changed (h : s.Sound) {db' : Db}
    (hevents : db'.paperMarketEvents = s.db.paperMarketEvents)
    (hids : db'.paperVenueOrders.map PaperVenueOrder.venueOrderId =
      s.db.paperVenueOrders.map PaperVenueOrder.venueOrderId)
    (hrows : ∀ row' ∈ db'.paperVenueOrders, ∃ row ∈ s.db.paperVenueOrders,
      row.venueOrderId = row'.venueOrderId ∧
        ∀ placed, s.db.RowFollows placed row → s.db.RowFollows placed row') :
    Sound { s with db := db' } where
  eventIds := hevents ▸ h.eventIds
  sizes := hevents ▸ h.sizes
  placedIds := h.placedIds.trans hids.symm
  rows := fun placed hplaced row' hrow' hid => by
    obtain ⟨row, hrow, hid', hfollows⟩ := hrows row' hrow'
    exact (hfollows placed (h.rows placed hplaced row hrow (hid.trans hid'.symm))).of_same hevents
  attributed := hevents ▸ h.attributed
  unattributed := hevents ▸ h.unattributed

theorem Sound.placed (h : s.Sound) {db' : Db} {order : PaperOrderCommit} {now : Time}
    (hvenue : FromVenue order) (hevents : db'.paperMarketEvents = s.db.paperMarketEvents)
    (hfresh : ∀ o ∈ s.db.paperVenueOrders, o.venueOrderId ≠ order.venueOrderId)
    (horders : db'.paperVenueOrders = s.db.paperVenueOrders ++ [order.row now]) :
    Sound { s with db := db', placed := s.placed ++ [order.row now] } where
  eventIds := hevents ▸ h.eventIds
  sizes := hevents ▸ h.sizes
  placedIds := by
    simp only [horders, List.map_append, h.placedIds]
  rows := fun placed hplaced row hrow hid => by
    have hunplaced : ∀ p ∈ s.placed, p.venueOrderId ≠ order.venueOrderId := by
      intro p hp heq
      have hmem : p.venueOrderId ∈ s.db.paperVenueOrders.map PaperVenueOrder.venueOrderId :=
        h.placedIds ▸ List.mem_map_of_mem hp
      obtain ⟨o, ho, hsame⟩ := List.mem_map.mp hmem
      exact hfresh o ho (hsame.trans heq)
    dsimp only at hplaced hrow ⊢
    rw [horders] at hrow
    rcases List.mem_append.mp hplaced with hplaced | hplaced <;>
      rcases List.mem_append.mp hrow with hrow | hrow
    · exact (h.rows placed hplaced row hrow hid).of_same hevents
    · rw [List.mem_singleton.mp hrow] at hid
      exact absurd hid (hunplaced placed hplaced)
    · rw [List.mem_singleton.mp hplaced] at hid
      exact absurd hid.symm (hfresh row hrow)
    · rw [List.mem_singleton.mp hplaced, List.mem_singleton.mp hrow]
      exact (hvenue.row_follows h.sizes now).of_same hevents
  attributed := hevents ▸ h.attributed
  unattributed := hevents ▸ h.unattributed

theorem Sound.traded (h : s.Sound) {db' : Db} {trade : PaperTrade}
    (htraded : s.db.TradedThrough trade db') :
    Sound { s with
      db := db'
      attributed := Function.update s.attributed trade.eventId
        (s.attributed trade.eventId + (db'.paperFilled - s.db.paperFilled)) } where
  eventIds := by
    dsimp only
    rw [htraded.recorded]
    exact Table.nodup_append_row h.eventIds htraded.fresh
  sizes := fun e he => by
    dsimp only at he
    rw [htraded.recorded] at he
    rcases List.mem_append.mp he with he | he
    · exact h.sizes e he
    · rw [List.mem_singleton.mp he]
      exact htraded.size
  placedIds := h.placedIds.trans htraded.orderIds.symm
  rows := fun placed hplaced row' hrow' hid => by
    obtain ⟨row, hrow, hby⟩ := htraded.orders row' hrow'
    have hid' : row'.venueOrderId = row.venueOrderId := by
      rcases hby with rfl | ⟨-, -, fill, -, -, -, rfl⟩ <;> rfl
    exact (h.rows placed hplaced row hrow (hid.trans hid')).filled htraded hby
  attributed := fun e he => by
    dsimp only at he ⊢
    rw [htraded.recorded] at he
    rcases List.mem_append.mp he with he | he
    · rw [Function.update_of_ne (htraded.fresh e he)]
      exact h.attributed e he
    · rw [List.mem_singleton.mp he]
      have hid : trade.event.eventId = trade.eventId := rfl
      rw [hid, Function.update_self, h.unattributed trade.eventId htraded.fresh]
      have htotal := htraded.total
      change 0 + (db'.paperFilled - s.db.paperFilled) ≤ trade.size
      linarith
  unattributed := fun eventId hnone => by
    dsimp only at hnone ⊢
    rw [htraded.recorded] at hnone
    have hne : eventId ≠ trade.eventId := fun heq =>
      hnone trade.event (List.mem_append_right _ List.mem_cons_self) heq.symm
    rw [Function.update_of_ne hne]
    exact h.unattributed eventId fun e he => hnone e (List.mem_append_left _ he)

theorem after_of_same (now : Time) (op : PaperOp) (h : op.after now s.db = s.db) :
    s.after now op = s := by
  have hnone : s.db.newPaperOrders (op.after now s.db) = [] := by
    rw [h]
    exact newPaperOrders_of_ids rfl
  unfold after
  rw [hnone, h, List.append_nil]
  cases op with
  | tradeThrough trade => simp
  | commit | cancel => rfl

theorem leaves_forget_ok {α : Type} {tx : Tx α} {db : Db} {r : Committed α} (h : tx = .ok r) :
    leaves db (forget tx) = r.db := by
  rw [h]
  rfl

theorem leaves_forget_error {α : Type} {tx : Tx α} {db : Db} {e : StoreError} (h : tx = .error e) :
    leaves db (forget tx) = db := by
  rw [h]
  rfl

theorem Sound.commit (h : s.Sound) {order : PaperOrderCommit} (hvenue : FromVenue order)
    (now : Time) : (s.after now (.commit order)).Sound := by
  cases hrun : commitPaperOrder .paper order now s.db with
  | error e => rwa [after_of_same now (.commit order) (leaves_forget_error hrun)]
  | ok r =>
    obtain ⟨hevents, hsame | ⟨hfresh, horders⟩⟩ := commitPaperOrder_orders hrun
    · have hids := congrArg (List.map PaperVenueOrder.venueOrderId) hsame
      have hsound := h.rows_changed hevents hids fun row hrow =>
        ⟨row, hsame ▸ hrow, rfl, fun _ hfollows => hfollows⟩
      unfold after PaperOp.after PaperOp.run
      dsimp only
      rw [leaves_forget_ok hrun, newPaperOrders_of_ids hids, List.append_nil]
      exact hsound
    · unfold after PaperOp.after PaperOp.run
      dsimp only
      rw [leaves_forget_ok hrun, newPaperOrders_append hfresh horders]
      exact h.placed hvenue hevents hfresh horders

theorem Sound.cancel (h : s.Sound) (hkeys : PaperKeys s.db) (venueOrderId : String) (now : Time) :
    (s.after now (.cancel venueOrderId)).Sound := by
  cases hrun : cancelPaperOrder .paper venueOrderId s.db with
  | error e => rwa [after_of_same now (.cancel venueOrderId) (leaves_forget_error hrun)]
  | ok r =>
    obtain ⟨hevents, horders⟩ := cancelPaperOrder_orders hkeys.orderIds hrun
    have hids : r.db.paperVenueOrders.map PaperVenueOrder.venueOrderId =
        s.db.paperVenueOrders.map PaperVenueOrder.venueOrderId := by
      rcases horders with hsame | ⟨row, -, hreplaced⟩
      · rw [hsame]
      · rw [hreplaced, Table.map_key_replace]
    have hsound := h.rows_changed hevents hids fun row' hrow' => by
      rcases horders with hsame | ⟨row, hrow, hreplaced⟩
      · exact ⟨row', hsame ▸ hrow', rfl, fun _ hfollows => hfollows⟩
      · rw [hreplaced] at hrow'
        rcases Table.mem_replace.mp hrow' with ⟨hother, -⟩ | ⟨rfl, -⟩
        · exact ⟨row', hother, rfl, fun _ hfollows => hfollows⟩
        · exact ⟨row, hrow, rfl, fun _ hfollows => hfollows.cancel⟩
    unfold after PaperOp.after PaperOp.run
    dsimp only
    rw [leaves_forget_ok hrun, newPaperOrders_of_ids hids, List.append_nil]
    exact hsound

theorem Sound.tradeThrough (h : s.Sound) (hkeys : PaperKeys s.db) (trade : PaperTrade)
    (now : Time) : (s.after now (.tradeThrough trade)).Sound := by
  cases hrun : applyPaperTradeThrough .paper trade now s.db with
  | error e => rwa [after_of_same now (.tradeThrough trade) (leaves_forget_error hrun)]
  | ok r =>
    rcases applyPaperTradeThrough_ok hkeys.orderIds hrun with ⟨-, hsame⟩ | htraded
    · rwa [after_of_same now (.tradeThrough trade) ((leaves_forget_ok hrun).trans hsame)]
    · have hsound := h.traded htraded
      unfold after PaperOp.after PaperOp.run
      dsimp only
      rw [leaves_forget_ok hrun, newPaperOrders_of_ids htraded.orderIds, List.append_nil]
      exact hsound

end PaperHistory

theorem insertStartingPositions_marketEvents {positions : List PaperPosition} {db db' : Db}
    (h : insertStartingPositions positions db = .ok db') :
    db'.paperMarketEvents = db.paperMarketEvents := by
  induction positions generalizing db with
  | nil =>
    cases h
    rfl
  | cons position rest ih =>
    simp only [insertStartingPositions] at h
    split at h
    · cases h
    · split at h
      · cases h
      · split at h
        · cases h
        · exact (ih h).trans rfl

theorem initializePaperAccount_marketEvents {mode : Mode} {config : PaperConfig} {db : Db}
    {r : Committed Unit} (h : initializePaperAccount mode config db = .ok r) :
    r.db.paperMarketEvents = db.paperMarketEvents := by
  unfold initializePaperAccount at h
  split at h
  · cases h
  · split at h
    · cases h
    · split at h
      · split at h
        · cases h
        · cases h
          rfl
      · dsimp only at h
        split at h
        · cases h
        · rename_i hinsert
          cases h
          exact (insertStartingPositions_marketEvents hinsert).trans rfl

theorem PaperHistory.Run.sound {config : PaperConfig} {s : PaperHistory}
    (h : PaperHistory.Run config s) : s.Sound := by
  induction h with
  | @opened db r haccount hinventory horders hevents h =>
    obtain ⟨-, -, -, account, -, -, hledger⟩ :=
      initializePaperAccount_ledger haccount hinventory horders h
    have hempty : r.db.paperVenueOrders = [] := congrArg Ledger.orders hledger
    have hnone : r.db.paperMarketEvents = [] :=
      (initializePaperAccount_marketEvents h).trans hevents
    constructor <;> simp [hempty, hnone]
  | step op now hrun hbuilt ih =>
    have hkeys := hrun.paperRun.ledger.1
    cases op with
    | commit order => exact ih.commit (hbuilt order rfl) now
    | tradeThrough trade => exact ih.tradeThrough hkeys trade now
    | cancel venueOrderId => exact ih.cancel hkeys venueOrderId now
  | core _ hsame hevents ih =>
    exact ih.rows_changed hevents (congrArg _ hsame.orders) fun row hrow =>
      ⟨row, hsame.orders ▸ hrow, rfl, fun _ hfollows => hfollows⟩

theorem PaperOp.tradeThrough_known {db : Db} {trade : PaperTrade} {now : Time}
    (hknown : ∃ e ∈ db.paperMarketEvents, e.eventId = trade.eventId) :
    (PaperOp.tradeThrough trade).after now db = db := by
  cases hrun : applyPaperTradeThrough .paper trade now db with
  | error e => exact PaperHistory.leaves_forget_error hrun
  | ok r =>
    refine (PaperHistory.leaves_forget_ok hrun).trans ?_
    unfold applyPaperTradeThrough at hrun
    split at hrun
    · cases hrun
    · split at hrun
      · cases hrun
      · dsimp only at hrun
        rw [Table.insertNew_eq_none.mpr hknown] at hrun
        cases hrun
        rfl

/-- In every history of a ledger, whatever the order and the repetitions of its trades: an order
that was placed at rest is filled by no more than its quantity and no more than the recorded events
through its limit since it was placed, each of which counts once; the fills of one event fit in its
size; and a known event changes nothing. -/
theorem resting_fills_conservative {config : PaperConfig} {s : PaperHistory}
    (h : PaperHistory.Run config s) :
    s.placed.map PaperVenueOrder.venueOrderId =
      s.db.paperVenueOrders.map PaperVenueOrder.venueOrderId ∧
    (∀ placed ∈ s.placed, ∀ row ∈ s.db.paperVenueOrders,
      placed.venueOrderId = row.venueOrderId → s.db.FilledWithin placed row) ∧
    (s.db.paperMarketEvents.map PaperMarketEvent.eventId).Nodup ∧
    (∀ e ∈ s.db.paperMarketEvents, s.attributed e.eventId ≤ e.size) ∧
    (∀ eventId, (∀ e ∈ s.db.paperMarketEvents, e.eventId ≠ eventId) →
      s.attributed eventId = 0) ∧
    ∀ trade now, (∃ e ∈ s.db.paperMarketEvents, e.eventId = trade.eventId) →
      (PaperOp.tradeThrough trade).after now s.db = s.db :=
  have hsound := h.sound
  ⟨hsound.placedIds,
    fun placed hplaced row hrow hid => (hsound.rows placed hplaced row hrow hid).toFilledWithin,
    hsound.eventIds, hsound.attributed, hsound.unattributed,
    fun _ _ hknown => PaperOp.tradeThrough_known hknown⟩

/-- The history a list of operations leads to from a fresh account. -/
def playHistory (db : Db) (ops : List PaperOp) : PaperHistory :=
  ops.foldl (fun s op => s.after 0 op) ⟨db, [], fun _ => 0⟩

/-- A trade of four shares at two fifths that fills a resting buy, seen twice. -/
theorem resting_fills_conservative_sample :
    ∃ s, PaperHistory.Run samplePaperConfig s ∧ s.attributed "event" = 4 ∧
      ∀ e ∈ s.db.paperMarketEvents, s.attributed e.eventId ≤ e.size := by
  have hfrom : FromVenue
      (PaperVenue.commitOf "paper_1" sampleRequest sampleMarket 10 (1 / 2) .none) :=
    ⟨"paper_1", sampleRequest, sampleBook, sampleMarket, by decide +kernel⟩
  obtain ⟨r, hopen, hfilled⟩ : ∃ r, initializePaperAccount .paper samplePaperConfig Db.initial =
      .ok r ∧ (playHistory r.db samplePaperOps).attributed "event" = 4 := by
    have hcheck : (initializePaperAccount .paper samplePaperConfig Db.initial).toOption.any
        (fun r => (playHistory r.db samplePaperOps).attributed "event" = 4) = true := by
      decide +kernel
    cases hopen : initializePaperAccount .paper samplePaperConfig Db.initial with
    | error e =>
      rw [hopen] at hcheck
      cases hcheck
    | ok r =>
      rw [hopen] at hcheck
      exact ⟨r, rfl, of_decide_eq_true hcheck⟩
  have hrun : PaperHistory.Run samplePaperConfig (playHistory r.db samplePaperOps) := by
    have hbuilt : ∀ op ∈ samplePaperOps, ∀ order, op = .commit order → FromVenue order := by
      intro op hop order hcommit
      subst hcommit
      simp only [samplePaperOps, List.mem_cons, PaperOp.commit.injEq, reduceCtorEq,
        List.not_mem_nil, or_false] at hop
      exact hop ▸ hfrom
    unfold playHistory
    refine List.foldlRecOn samplePaperOps _ (.opened rfl rfl rfl rfl hopen) fun s hs op hop => ?_
    exact .step op 0 hs (hbuilt op hop)
  exact ⟨_, hrun, hfilled, (resting_fills_conservative hrun).2.2.2.1⟩

end OddsfoxExecution
