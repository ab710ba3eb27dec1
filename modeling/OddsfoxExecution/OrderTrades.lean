import OddsfoxExecution.FillBooking
import OddsfoxExecution.Store.OrderOps

/-!
# The trades of an order

The sizes of an order's trade rows, added up, and what the operations do to
them: a fill is handed to `apply_matched_fill` under a key, and adds a row when
the key is free.
-/

namespace OddsfoxExecution

/-- What the trade rows of an order add up to. -/
def Db.tradedSize (db : Db) (orderId : Uuid) : Decimal :=
  ((db.trades.filter fun t => t.orderId = orderId).map TradeRecord.size).sum

def Db.KeyFree (db : Db) (key : String) : Prop := ∀ t ∈ db.trades, t.venueTradeId ≠ key

/-- The trade rows of `db'` belong to orders of `db`, or to the orders of its rows. -/
def TradesFrom (db db' : Db) : Prop :=
  ∀ t ∈ db'.trades, (∃ o ∈ db.orders, o.id = t.orderId) ∨ ∃ t' ∈ db.trades, t'.orderId = t.orderId

/-- `d` shares of an order are handed to `apply_matched_fill` under a key. -/
inductive Handed (orderId : Uuid) (d : Decimal) (key : String) (db db' : Db) : Prop
  | booked (hpositive : 0 < d) (hfree : db.KeyFree key) (t : TradeRecord)
      (htrades : db'.trades = db.trades ++ [t]) (horder : t.orderId = orderId)
      (hsize : t.size = d) (hkey : t.venueTradeId = key) : Handed orderId d key db db'
  | dropped (hreason : d ≤ 0 ∨ ¬ db.KeyFree key) (htrades : db'.trades = db.trades) :
      Handed orderId d key db db'

section Trades

variable {db db' : Db}

theorem Db.tradedSize_of_trades (h : db'.trades = db.trades) : db'.tradedSize = db.tradedSize := by
  unfold Db.tradedSize
  rw [h]

theorem Db.tradedSize_append {t : TradeRecord} (h : db'.trades = db.trades ++ [t])
    (orderId : Uuid) :
    db'.tradedSize orderId = db.tradedSize orderId + if t.orderId = orderId then t.size else 0 := by
  unfold Db.tradedSize
  rw [h, List.filter_append, List.map_append, List.sum_append]
  by_cases horder : t.orderId = orderId <;> simp [horder]

theorem Db.tradedSize_eq_zero {orderId : Uuid} (h : ∀ t ∈ db.trades, t.orderId ≠ orderId) :
    db.tradedSize orderId = 0 := by
  unfold Db.tradedSize
  rw [List.filter_eq_nil_iff.mpr fun t ht => by simpa using h t ht]
  rfl

theorem TradesFrom.of_same (htrades : db'.trades = db.trades) : TradesFrom db db' :=
  fun t ht => .inr ⟨t, htrades ▸ ht, rfl⟩

namespace Handed

variable {orderId : Uuid} {d : Decimal} {key : String}

theorem of_trades {a a' : Db} (h : Handed orderId d key db db') (ha : a.trades = db.trades)
    (ha' : a'.trades = db'.trades) : Handed orderId d key a a' := by
  have hiff : a.KeyFree key ↔ db.KeyFree key := by
    unfold Db.KeyFree
    rw [ha]
  cases h with
  | booked hpositive hfree t htrades horder hsize hkey =>
    exact .booked hpositive (hiff.mpr hfree) t (by rw [ha', htrades, ha]) horder hsize hkey
  | dropped hreason htrades =>
    exact .dropped (hreason.imp_right (mt hiff.mp)) (by rw [ha', htrades, ha])

theorem others (h : Handed orderId d key db db') {other : Uuid} (hne : other ≠ orderId) :
    db'.tradedSize other = db.tradedSize other := by
  cases h with
  | booked _ _ t htrades horder =>
    rw [Db.tradedSize_append htrades, if_neg (by rw [horder]; exact hne.symm), add_zero]
  | dropped _ htrades => rw [Db.tradedSize_of_trades htrades]

theorem own_free (h : Handed orderId d key db db') (hfree : 0 < d → db.KeyFree key)
    (hnonneg : 0 ≤ d) : db'.tradedSize orderId = db.tradedSize orderId + d := by
  cases h with
  | booked _ _ t htrades horder hsize =>
    rw [Db.tradedSize_append htrades, if_pos horder, hsize]
  | dropped hreason htrades =>
    have hzero : d = 0 := by
      rcases hreason with hle | htaken
      · exact le_antisymm hle hnonneg
      · exact le_antisymm (not_lt.mp fun hpositive => htaken (hfree hpositive)) hnonneg
    rw [Db.tradedSize_of_trades htrades, hzero, add_zero]

theorem own_taken (h : Handed orderId d key db db') (htaken : ¬ db.KeyFree key) :
    db'.tradedSize orderId = db.tradedSize orderId := by
  cases h with
  | booked _ hfree => exact absurd hfree htaken
  | dropped _ htrades => rw [Db.tradedSize_of_trades htrades]

/-- A fill handed under one key leaves the others as free as they were. -/
theorem keyFree_iff (h : Handed orderId d key db db') {other : String} (hne : other ≠ key) :
    db'.KeyFree other ↔ db.KeyFree other := by
  unfold Db.KeyFree
  cases h with
  | booked _ _ t htrades _ _ hkey =>
    rw [htrades, List.forall_mem_append, List.forall_mem_singleton, hkey]
    exact and_iff_left hne.symm
  | dropped _ htrades => rw [htrades]

/-- The rows belong to the orders they belonged to, and to the order of the fill. -/
theorem tradesFrom {o : OrderRecord} (h : Handed o.id d key db db') (ho : o ∈ db.orders) :
    TradesFrom db db' := by
  cases h with
  | booked _ _ t htrades horder =>
    unfold TradesFrom
    rw [htrades]
    exact List.forall_mem_append.mpr ⟨fun t' ht' => .inr ⟨t', ht', rfl⟩,
      List.forall_mem_singleton.mpr (.inl ⟨o, ho, horder.symm⟩)⟩
  | dropped _ htrades => exact .of_same htrades

end Handed

theorem applyMatchedFill_handed {order : OrderRecord} {venueOrderId : Option String}
    {filled : Decimal} {price : Option Decimal} {ids : List String} {now : Time} :
    Handed order.id filled (fillTradeId order venueOrderId ids) db
      (applyMatchedFill db order venueOrderId filled price ids now).1 := by
  unfold applyMatchedFill
  split
  · rename_i hle
    exact .dropped (.inl hle) rfl
  · rename_i hpositive
    dsimp only
    split
    · rename_i htaken
      obtain ⟨t, ht, heq⟩ := Table.insertNew_eq_none.mp htaken
      exact .dropped (.inr fun hfree => hfree t ht heq) rfl
    · rename_i hinsert
      obtain ⟨hfree, rfl⟩ := Table.insertNew_eq_some.mp hinsert
      exact .booked (not_le.mp hpositive) hfree _ rfl rfl rfl rfl

end Trades

/-! ## The operations of the executor -/

section Operations

variable {db : Db}

theorem createPreparedOrder_trades {intentId : Uuid} {request : OrderIntentRequest}
    {prepared : PreparedVenueOrder} {policyVersion : String} {feeRate : Decimal} {now : Time}
    {r : Committed OrderRecord}
    (h : createPreparedOrder intentId request prepared policyVersion feeRate now db = .ok r) :
    r.db.trades = db.trades := by
  unfold createPreparedOrder at h
  split at h
  · cases h
  · split at h
    · cases h
    · dsimp only at h
      split at h
      · cases h
      · split at h
        · cases h
        · split at h
          · cases h
          · split at h
            · cases h
            · cases h
              rfl

theorem beginSubmission_trades {intentId orderId : Uuid} {r : Committed Unit}
    (h : beginSubmission intentId orderId db = .ok r) : r.db.trades = db.trades := by
  unfold beginSubmission at h
  split at h
  · cases h
  · split at h
    · cases h
    · split at h
      · cases h
      · cases h
        rfl

theorem transitionOrder_trades {id : Uuid} {next : OrderState} {venueOrderId : Option String}
    {r : Committed OrderRecord} (h : transitionOrder id next venueOrderId db = .ok r) :
    r.db.trades = db.trades := by
  unfold transitionOrder at h
  split at h
  · cases h
  · split at h
    · cases h
      rfl
    · split at h
      · cases h
      · cases h
        rfl

theorem cancelPreparedOrder_trades {orderId : Uuid} {r : Committed OrderRecord}
    (h : cancelPreparedOrder orderId db = .ok r) : r.db.trades = db.trades := by
  unfold cancelPreparedOrder at h
  split at h
  · cases h
  · cases h
    rfl

theorem commitPaperOrder_trades {mode : Mode} {order : PaperOrderCommit} {now : Time}
    {r : Committed PaperOrderSnapshot} (h : commitPaperOrder mode order now db = .ok r) :
    r.db.trades = db.trades := by
  unfold commitPaperOrder at h
  split at h
  · cases h
  · split at h
    · split at h
      · cases h
      · cases h
        rfl
    · split at h
      · cases h
      · split at h
        · cases h
        · cases h
          rfl

theorem cancelPaperOrder_trades {mode : Mode} {venueOrderId : String}
    {r : Committed PaperOrderSnapshot} (h : cancelPaperOrder mode venueOrderId db = .ok r) :
    r.db.trades = db.trades := by
  unfold cancelPaperOrder at h
  split at h
  · cases h
  · split at h
    · cases h
    · split at h
      · cases h
        rfl
      · split at h
        · cases h
        · cases h
          rfl

/-- The answer to a submission hands its fill over once the intent is SUBMITTED. -/
theorem finishSubmission_handed {intentId orderId : Uuid} {intentState : IntentState}
    {orderState : OrderState} {venueOrderId : Option String} {classification : String}
    {filled : Decimal} {price : Option Decimal} {ids : List String} {now : Time}
    {r : Committed Unit}
    (h : finishSubmission intentId orderId intentState orderState venueOrderId classification filled
      price ids now db = .ok r) :
    ∃ o ∈ db.orders, o.id = orderId ∧ o.state = .submitting ∧
      ((intentState ≠ .submitted ∧ r.db.trades = db.trades) ∨ (intentState = .submitted ∧
        Handed o.id filled (fillTradeId o venueOrderId ids) db r.db)) := by
  obtain ⟨o, ho, hid, hstate, ⟨hsubmitted, hledger⟩ | ⟨hsubmitted, db', hdb', hledger⟩⟩ :=
    finishSubmission_ledger h
  · exact ⟨o, ho, hid, hstate, .inl ⟨hsubmitted, (Prod.mk.inj hledger).1⟩⟩
  · exact ⟨o, ho, hid, hstate, .inr ⟨hsubmitted, applyMatchedFill_handed.of_trades
      (Prod.mk.inj hdb').1.symm (Prod.mk.inj hledger).1⟩⟩

theorem reconcileOrderProjection_handed {orderId : Uuid} {observed : OrderState}
    {remaining total : Decimal} {price : Option Decimal} {ids : List String} {now : Time}
    {r : Committed Unit}
    (h : reconcileOrderProjection orderId observed remaining total price ids now db = .ok r) :
    ∃ o ∈ db.orders, o.id = orderId ∧
      Handed o.id (total - o.localFilled) (fillTradeId o o.venueOrderId ids) db r.db := by
  obtain ⟨o, ho, hid, db', hdb', hledger⟩ := reconcileOrderProjection_ledger h
  exact ⟨o, ho, hid, applyMatchedFill_handed.of_trades (Prod.mk.inj hdb').1.symm
    (Prod.mk.inj hledger).1⟩

end Operations

/-! ## A trade-through -/

def TradeFill.key (trade : PaperTrade) (fill : TradeFill) : String :=
  "paper:" ++ trade.eventId ++ ":" ++ fill.row.venueOrderId

theorem TradeFill.key_ne {trade : PaperTrade} {fill other : TradeFill}
    (h : fill.row.venueOrderId ≠ other.row.venueOrderId) : fill.key trade ≠ other.key trade := by
  unfold TradeFill.key
  intro heq
  exact h (by simpa using heq)

/-- What the fills of a trade-through book: each is handed over for the order that follows it. -/
structure TradeBooked (trade : PaperTrade) (fills : List TradeFill) (db db' : Db) : Prop where
  free : ∀ fill ∈ fills, ∀ o, db.follower fill.row.venueOrderId o → db.KeyFree (fill.key trade) →
    db'.tradedSize o.id = db.tradedSize o.id + fill.fill
  taken : ∀ fill ∈ fills, ∀ o, db.follower fill.row.venueOrderId o →
    ¬ db.KeyFree (fill.key trade) → db'.tradedSize o.id = db.tradedSize o.id
  others : ∀ orderId, (∀ fill ∈ fills, ∀ o, db.follower fill.row.venueOrderId o →
    o.id ≠ orderId) → db'.tradedSize orderId = db.tradedSize orderId
  kept : ∀ o ∈ db.orders, (∀ fill ∈ fills, ¬ db.follower fill.row.venueOrderId o) →
    o ∈ db'.orders
  orderIds : TradesFrom db db'

section TradeThrough

variable {db : Db}

/-- One fill of the loop is handed over for its follower, if there is one. -/
theorem fillRestingOrder_handed {trade : PaperTrade} {now : Time} {fill : TradeFill}
    {b b' : PaperBalances} {db' : Db} {events : List ExecutionEvent}
    (h : fillRestingOrder trade now fill.row fill.fill b db = .ok (b', db', events)) :
    (∃ o, db.follower fill.row.venueOrderId o ∧
      Handed o.id fill.fill (fill.key trade) db db') ∨
    ((∀ o, ¬ db.follower fill.row.venueOrderId o) ∧ db'.trades = db.trades) := by
  unfold fillRestingOrder at h
  dsimp only at h
  split at h
  · cases h
  · cases h
    unfold fillCoreOrder Db.follower
    dsimp only
    split
    · rename_i hnone
      refine .inr ⟨fun o ho => ?_, rfl⟩
      cases hnone.symm.trans ho.1
    · rename_i core hcore
      split
      · rename_i hactive
        refine .inl ⟨core, ⟨hcore, hactive⟩, ?_⟩
        generalize hfill : applyMatchedFill _ core _ _ _ _ _ = result
        have hhanded : Handed core.id fill.fill (fill.key trade) _ result.1 :=
          hfill ▸ applyMatchedFill_handed
        exact hhanded.of_trades rfl rfl
      · rename_i hidle
        refine .inr ⟨fun o ho => hidle ?_, rfl⟩
        rw [hcore] at ho
        rw [Option.some.inj ho.1]
        exact ho.2

theorem fillRestingOrder_balances {trade : PaperTrade} {now : Time} {row : PaperVenueOrder}
    {fill : Decimal} {b b' : PaperBalances} {db' : Db} {events : List ExecutionEvent}
    (h : fillRestingOrder trade now row fill b db = .ok (b', db', events)) :
    b' = b.fill row trade.price fill := by
  unfold fillRestingOrder at h
  dsimp only at h
  split at h
  · cases h
  · cases h
    rfl

/-- The first fill has a follower, and the later fills are booked after it. -/
theorem TradeBooked.cons_follower (hids : (db.orders.map OrderRecord.id).Nodup)
    {trade : PaperTrade} {fill : TradeFill} {fills : List TradeFill} {db₁ db' : Db}
    {core : OrderRecord} (hcore : db.follower fill.row.venueOrderId core)
    (hreplaced : db₁.orders = Table.replace OrderRecord.id (core.followed fill) db.orders)
    (hhanded : Handed core.id fill.fill (fill.key trade) db db₁) (hpositive : 0 < fill.fill)
    (hdiffers : ∀ later ∈ fills, later.row.venueOrderId ≠ fill.row.venueOrderId)
    (h : TradeBooked trade fills db₁ db') : TradeBooked trade (fill :: fills) db db' := by
  have hmem : core ∈ db.orders := List.mem_of_find?_eq_some hcore.1
  have hvenue : core.venueOrderId = some fill.row.venueOrderId := by
    simpa using List.find?_some hcore.1
  have hsame : ∀ later ∈ fills, ∀ o, db₁.follower later.row.venueOrderId o ↔
      db.follower later.row.venueOrderId o := fun later hlater o =>
    follower_of_replace hids hmem (fun heq =>
      hdiffers later hlater (Option.some.inj (heq.symm.trans hvenue))) hreplaced
  -- the order that follows this row follows no later one
  have hother : ∀ later ∈ fills, ∀ o, db.follower later.row.venueOrderId o → o.id ≠ core.id := by
    intro later hlater o ho heq
    have hvenue' := List.find?_some ho.1
    rw [Table.eq_of_key_eq hids (List.mem_of_find?_eq_some ho.1) hmem heq, hvenue] at hvenue'
    exact hdiffers later hlater (Option.some.inj (by simpa using hvenue')).symm
  have hkept : db'.tradedSize core.id = db₁.tradedSize core.id :=
    h.others core.id fun later hlater o ho => hother later hlater o ((hsame later hlater o).mp ho)
  have hkey : ∀ later ∈ fills, later.key trade ≠ fill.key trade := fun later hlater =>
    TradeFill.key_ne (hdiffers later hlater)
  constructor
  case free =>
    intro later hlater o ho hfree
    rcases List.mem_cons.mp hlater with rfl | hlater
    · cases hcore.1.symm.trans ho.1
      rw [hkept, hhanded.own_free (fun _ => hfree) hpositive.le]
    · rw [h.free later hlater o ((hsame later hlater o).mpr ho)
        ((hhanded.keyFree_iff (hkey later hlater)).mpr hfree),
        hhanded.others (hother later hlater o ho)]
  case taken =>
    intro later hlater o ho htaken
    rcases List.mem_cons.mp hlater with rfl | hlater
    · cases hcore.1.symm.trans ho.1
      rw [hkept, hhanded.own_taken htaken]
    · rw [h.taken later hlater o ((hsame later hlater o).mpr ho)
        (mt (hhanded.keyFree_iff (hkey later hlater)).mp htaken),
        hhanded.others (hother later hlater o ho)]
  case others =>
    intro orderId hnone
    have hne : orderId ≠ core.id := (hnone fill List.mem_cons_self core hcore).symm
    rw [h.others orderId fun later hlater o ho => hnone later (List.mem_cons_of_mem _ hlater) o
      ((hsame later hlater o).mp ho), hhanded.others hne]
  case kept =>
    intro o ho hnone
    refine h.kept o ?_ fun later hlater hfollows =>
      hnone later (List.mem_cons_of_mem _ hlater) ((hsame later hlater o).mp hfollows)
    rw [hreplaced]
    refine Table.mem_replace.mpr (.inl ⟨ho, fun heq => hnone fill List.mem_cons_self ?_⟩)
    obtain rfl : o = core := Table.eq_of_key_eq hids ho hmem heq
    exact hcore
  case orderIds =>
    intro t ht
    rcases h.orderIds t ht with ⟨o, ho, hid⟩ | ⟨t', ht', hid⟩
    · rw [hreplaced] at ho
      rcases Table.mem_replace.mp ho with ⟨ho, -⟩ | ⟨rfl, other, hother, hsameId⟩
      · exact .inl ⟨o, ho, hid⟩
      · exact .inl ⟨other, hother, hsameId.trans hid⟩
    · rw [← hid]
      exact hhanded.tradesFrom hmem t' ht'

theorem TradeBooked.cons_idle {trade : PaperTrade} {fill : TradeFill} {fills : List TradeFill}
    {db₁ db' : Db} (hnone : ∀ o, ¬ db.follower fill.row.venueOrderId o)
    (horders : db₁.orders = db.orders) (htrades : db₁.trades = db.trades)
    (h : TradeBooked trade fills db₁ db') : TradeBooked trade (fill :: fills) db db' := by
  have hsize : db₁.tradedSize = db.tradedSize := Db.tradedSize_of_trades htrades
  have hfollower : db₁.follower = db.follower := by
    unfold Db.follower
    rw [horders]
  have hfree : db₁.KeyFree = db.KeyFree := by
    unfold Db.KeyFree
    rw [htrades]
  obtain ⟨hbooked, htaken, hothers, hkept, hids⟩ := h
  rw [hsize, hfollower, hfree] at hbooked htaken
  rw [hsize, hfollower] at hothers
  rw [horders, hfollower] at hkept
  unfold TradesFrom at hids
  rw [horders, htrades] at hids
  refine ⟨?_, ?_, fun orderId hno => hothers orderId fun later hlater =>
    hno later (List.mem_cons_of_mem _ hlater), fun o ho hno => hkept o ho fun later hlater =>
    hno later (List.mem_cons_of_mem _ hlater), hids⟩
  · exact List.forall_mem_cons.mpr ⟨fun o ho => absurd ho (hnone o), hbooked⟩
  · exact List.forall_mem_cons.mpr ⟨fun o ho => absurd ho (hnone o), htaken⟩

theorem TradeBooked.nil {trade : PaperTrade} : TradeBooked trade [] db db where
  free := fun _ hfill => (by cases hfill)
  taken := fun _ hfill => (by cases hfill)
  others := fun _ _ => rfl
  kept := fun _ ho _ => ho
  orderIds := fun t ht => .inr ⟨t, ht, rfl⟩

theorem applyTradeThrough_booked (hids : (db.orders.map OrderRecord.id).Nodup)
    {trade : PaperTrade} {now : Time} {rows : List PaperVenueOrder} {size : Decimal}
    {count count' : Nat} {b b' : PaperBalances} {db' : Db} {events events' : List ExecutionEvent}
    (hdistinct : (rows.map PaperVenueOrder.venueOrderId).Nodup)
    (h : applyTradeThrough trade now rows size count b db events =
      .ok (count', b', db', events')) :
    TradeBooked trade (tradeFills trade rows size b) db db' := by
  induction rows generalizing size count b db events with
  | nil =>
    cases h
    exact .nil
  | cons row rows ih =>
    obtain ⟨hfresh, hdistinct⟩ := List.nodup_cons.mp hdistinct
    simp only [applyTradeThrough] at h
    simp only [tradeFills]
    split at h
    · rename_i hsize
      rw [if_pos hsize]
      cases h
      exact .nil
    · rename_i hsize
      rw [if_neg hsize]
      split at h
      · rename_i hskip
        rw [if_pos hskip]
        exact ih hids hdistinct h
      · rename_i hfills
        rw [if_neg hfills]
        split at h
        · cases h
        · rename_i b₁ db₁ _ hfilled
          have hpositive : 0 < min row.remainingQuantity size := not_le.mp (not_or.mp hfills).2
          let fill : TradeFill := ⟨row, b, min row.remainingQuantity size⟩
          have horders := @fillRestingOrder_orders db hids trade now fill b _ db₁ _ hfilled
          have hhanded := @fillRestingOrder_handed db trade now fill b _ db₁ _ hfilled
          have hdiffers : ∀ later ∈ tradeFills trade rows (size - fill.fill)
              (b.fill row trade.price fill.fill), later.row.venueOrderId ≠ row.venueOrderId :=
            fun later hlater heq => hfresh (List.mem_map.mpr
              ⟨later.row, (tradeFills_mem later hlater).1, heq⟩)
          obtain rfl : b₁ = b.fill row trade.price fill.fill :=
            fillRestingOrder_balances hfilled
          have hids₁ : (db₁.orders.map OrderRecord.id).Nodup := by
            rcases horders with ⟨core, -, hreplaced⟩ | ⟨-, hsame⟩
            · rw [hreplaced, Table.map_key_replace]
              exact hids
            · rwa [hsame]
          have hlater := ih hids₁ hdistinct h
          rcases hhanded with ⟨core, hcore, hhanded⟩ | ⟨hnone, htrades⟩
          · rcases horders with ⟨other, hother, hreplaced⟩ | ⟨hnone, -⟩
            · cases hcore.1.symm.trans hother.1
              exact .cons_follower hids hcore hreplaced hhanded hpositive hdiffers hlater
            · exact absurd hcore (hnone core)
          · rcases horders with ⟨core, hcore, -⟩ | ⟨-, hsame⟩
            · exact absurd hcore (hnone core)
            · exact .cons_idle hnone hsame htrades hlater

theorem applyPaperTradeThrough_booked (hids : (db.orders.map OrderRecord.id).Nodup)
    (hkeys : (db.paperVenueOrders.map PaperVenueOrder.venueOrderId).Nodup) {mode : Mode}
    {trade : PaperTrade} {now : Time} {r : Committed Nat}
    (h : applyPaperTradeThrough mode trade now db = .ok r) :
    ((∃ e ∈ db.paperMarketEvents, e.eventId = trade.eventId) ∧ r.db.trades = db.trades) ∨
      (∀ e ∈ db.paperMarketEvents, e.eventId ≠ trade.eventId) ∧
        ∃ account, db.paperAccount = some account ∧
          TradeBooked trade (db.fillsOf account trade) db r.db := by
  unfold applyPaperTradeThrough at h
  split at h
  · cases h
  · split at h
    · cases h
    · dsimp only at h
      split at h
      · rename_i hknown
        cases h
        exact .inl ⟨Table.insertNew_eq_none.mp hknown, rfl⟩
      · rename_i paperMarketEvents hinsert
        obtain ⟨hfresh, -⟩ := Table.insertNew_eq_some.mp hinsert
        split at h
        · cases h
        · rename_i account haccount
          split at h
          · cases h
          · rename_i hloop
            cases h
            have hids₀ : (({ db with paperMarketEvents } : Db).orders.map
                OrderRecord.id).Nodup := hids
            obtain ⟨hfree, htaken, hothers, hkept, horderIds⟩ := applyTradeThrough_booked hids₀
              (Db.resting_nodup hkeys trade.tokenId trade.observedAt) hloop
            exact .inr ⟨hfresh, account, haccount, hfree, htaken, hothers, hkept, horderIds⟩

end TradeThrough

end OddsfoxExecution
