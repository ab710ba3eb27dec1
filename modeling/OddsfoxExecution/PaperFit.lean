import OddsfoxExecution.PaperDivision
import OddsfoxExecution.Coordinator.Intents

/-!
# A paper result fits its reservation

The quantity `conservative_exposure` reserves, the fill `walk_book` finds and
the evidence `finish_submission` accepts are computed apart from each other.
On the market and the book that `validate_freshness_and_increments` let pass
they agree: every ask costs at least a tick, so what a quote buys is at most
the quote over the tick.
-/

namespace OddsfoxExecution

/-! ## What the validation lets pass -/

/-- What is left over of a positive decimal by another is nothing only when that one is not the
greater. -/
theorem le_of_decimalRem_eq_zero {a b : Decimal} (ha : 0 < a) (hb : 0 < b)
    (h : decimalRem a b = 0) : b ≤ a := by
  unfold decimalRem at h
  set k : Int := (a / b).num.tdiv (a / b).den
  have ha' : a = b * k := by linarith
  have hk : 0 < k := by
    have hpos : 0 < b * (k : Decimal) := ha' ▸ ha
    exact_mod_cast (mul_pos_iff_of_pos_left hb).mp hpos
  calc b = b * 1 := (mul_one b).symm
    _ ≤ b * k := mul_le_mul_of_nonneg_left (by exact_mod_cast hk) hb.le
    _ = a := ha'.symm

/-- What `validate_freshness_and_increments` checks of a market and a book. -/
structure Tradable (market : MarketRules) (book : OrderBook) : Prop where
  tick : 0 < market.tickSize ∧ market.tickSize < 1
  makerFee : 0 ≤ market.makerFeeRate ∧ market.makerFeeRate ≤ 1
  takerFee : 0 ≤ market.takerFeeRate ∧ market.takerFeeRate ≤ 1
  bids : Coordinator.validLevels market book.bids
  asks : Coordinator.validLevels market book.asks

theorem Coordinator.tradable {self : Coordinator} {request : OrderIntentRequest}
    {market : MarketRules} {book : OrderBook} {now : Time}
    (h : self.validateMarketData request market book now = .ok ()) : Tradable market book := by
  unfold validateMarketData at h
  split at h
  · cases h
  · rename_i hrules
    split at h
    · cases h
    · split at h
      · cases h
      · split at h
        · cases h
        · split at h
          · cases h
          · split at h
            · cases h
            · rename_i hlevels
              simp only [not_or, not_le, not_lt, not_not] at hrules hlevels
              obtain ⟨-, -, htick, htick', -, hmaker, hmaker', htaker, htaker'⟩ := hrules
              exact ⟨⟨htick, htick'⟩, ⟨hmaker, hmaker'⟩, ⟨htaker, htaker'⟩, hlevels.1, hlevels.2.1⟩

/-- A request that passes is for a positive quantity at a price between nothing and one, in a
tradable market. -/
theorem Coordinator.tradable_of_validate {self : Coordinator} {request : OrderIntentRequest}
    {market : MarketRules} {book : OrderBook} {now : Time}
    (h : self.validateFreshnessAndIncrements request market book now = .ok ()) :
    Tradable market book := by
  unfold validateFreshnessAndIncrements at h
  split at h
  · cases h
  · exact tradable ‹_›

variable {market : MarketRules} {book : OrderBook}

theorem Tradable.sound (h : Tradable market book) : book.Sound := by
  intro level hlevel
  rcases List.mem_append.mp hlevel with hbid | hask
  · obtain ⟨hpos, hlt, -, hsize⟩ := h.bids level hbid
    exact ⟨hpos, hlt, hsize⟩
  · obtain ⟨hpos, hlt, -, hsize⟩ := h.asks level hask
    exact ⟨hpos, hlt, hsize⟩

theorem Tradable.feeRate_nonneg (h : Tradable market book) : 0 ≤ PaperVenue.feeRate market :=
  le_max_of_le_left h.makerFee.1

/-- Every level the walk visits is priced between a tick and one. -/
theorem Tradable.eligible (h : Tradable market book) {side : Side} {worst : Decimal} :
    ∀ level ∈ book.eligible side worst,
      market.tickSize ≤ level.price ∧ level.price < 1 ∧ 0 < level.size := by
  intro level hlevel
  have hmem := (List.mem_filter.mp ((book.eligible_perm side worst).subset hlevel)).1
  have hvalid : 0 < level.price ∧ level.price < 1 ∧
      decimalRem level.price market.tickSize = 0 ∧ 0 < level.size := by
    cases side with
    | buy => exact h.asks level hmem
    | sell => exact h.bids level hmem
  exact ⟨le_of_decimalRem_eq_zero hvalid.1 h.tick.1 hvalid.2.2.1, hvalid.2.1, hvalid.2.2.2⟩

/-! ## What the fill owes the reservation -/

/-- A fill of an order reserved for `shares`: no more of them, paid for within the quantity a buy
asks for, at an average price between nothing and one. -/
structure PaperFill.Fits (fill : PaperFill) (request : OrderIntentRequest)
    (quantity shares : Decimal) : Prop where
  nonneg : 0 ≤ fill.shares
  shares : fill.shares ≤ shares
  paid : request.side = .buy → fill.quote + fill.fee ≤ quantity
  price : 0 < fill.shares → 0 < fill.quote ∧ fill.quote < fill.shares

theorem PaperFill.Fits.none {request : OrderIntentRequest} {quantity shares : Decimal}
    (hquantity : 0 ≤ quantity) (hshares : 0 ≤ shares) :
    PaperFill.none.Fits request quantity shares :=
  ⟨le_rfl, hshares, fun _ => by simpa [PaperFill.none] using hquantity,
    fun h => absurd h (lt_irrefl _)⟩

/-- Shares bought between nothing and one are worth more than nothing and less than their
number. -/
theorem quoteOf_between {parts : List PriceLevel}
    (h : ∀ part ∈ parts, (0 < part.price ∧ part.price < 1) ∧ 0 ≤ part.size) :
    0 ≤ sharesOf parts ∧ 0 ≤ quoteOf parts ∧ quoteOf parts ≤ sharesOf parts ∧
      (0 < sharesOf parts → 0 < quoteOf parts ∧ quoteOf parts < sharesOf parts) := by
  induction parts with
  | nil => simp
  | cons part rest ih =>
    obtain ⟨⟨⟨hpos, hlt⟩, hsize⟩, hrest⟩ := List.forall_mem_cons.mp h
    obtain ⟨hshares, hquote, hle, hstrict⟩ := ih hrest
    have hworth : 0 ≤ part.price * part.size := mul_nonneg hpos.le hsize
    have hcheap : part.price * part.size ≤ part.size :=
      mul_le_of_le_one_left hsize hlt.le
    simp only [sharesOf_cons, quoteOf_cons]
    refine ⟨by linarith, by linarith, by linarith, fun hsome => ?_⟩
    rcases hsize.eq_or_lt with hnone | hsome'
    · obtain ⟨hquote', hless⟩ := hstrict (by linarith)
      rw [← hnone] at hworth hcheap ⊢
      simpa using ⟨hquote', hless⟩
    · have hmore := mul_pos hpos hsome'
      have hless : part.price * part.size < part.size :=
        mul_lt_of_lt_one_left hsome' hlt
      exact ⟨by linarith, by linarith⟩

/-- The walk through a tradable book fits what `conservative_exposure` reserves for the request. -/
theorem walkBook_fits (h : Tradable market book) {request : OrderIntentRequest}
    {quantity price shares quote : Decimal} (hquantity : 0 < quantity)
    (himmediate : request.timeInForce.immediate = true)
    (hexposure : conservativeExposure request market quantity price = some (shares, quote)) :
    ∃ fill, walkBook book request.side quantity price (PaperVenue.feeRate market) = some fill ∧
      fill.Fits request quantity shares := by
  obtain ⟨parts, complete, htakes, hwalk⟩ :=
    walkBook_takes h.sound h.feeRate_nonneg hquantity.le request.side price
  have hpaid := htakes.paid
  have heligible : ∀ level ∈ book.eligible request.side price,
      market.tickSize ≤ level.price ∧ level.price < 1 ∧ 0 < level.size := h.eligible
  have hparts := htakes.taken.forall_parts (P := fun level => market.tickSize ≤ level.price ∧
      level.price < 1) (fun _ _ hlevel => hlevel)
    (fun level hlevel => ⟨(heligible level hlevel).1, (heligible level hlevel).2.1⟩)
    fun level hlevel => (heligible level hlevel).2.2
  obtain ⟨hshares, hworth, -, hstrict⟩ := quoteOf_between fun part hpart =>
    ⟨⟨h.tick.1.trans_le (hparts part hpart).1.1, (hparts part hpart).1.2⟩, (hparts part hpart).2⟩
  refine ⟨_, hwalk, ⟨by simpa using hshares, ?_, fun hside => ?_, by simpa using hstrict⟩⟩
  · rw [fillOf_shares]
    cases hside : request.side with
    | buy =>
      rw [hside, spentOn_buy] at hpaid
      have hfee := mul_nonneg h.feeRate_nonneg hworth
      -- Every share costs a tick, and all of them no more than the quantity.
      have htick : market.tickSize * sharesOf parts ≤ quoteOf parts :=
        le_quoteOf fun part hpart => ⟨(hparts part hpart).1.1, (hparts part hpart).2⟩
      simp only [conservativeExposure, hside, himmediate, and_self, if_true, h.tick.1,
        Option.some.injEq, Prod.mk.injEq] at hexposure
      rw [← hexposure.1, le_div_iff₀ h.tick.1]
      linarith
    | sell =>
      rw [hside, spentOn_sell] at hpaid
      simp only [conservativeExposure, hside, reduceCtorEq, false_and, if_false,
        Option.some.injEq, Prod.mk.injEq] at hexposure
      exact hexposure.1 ▸ hpaid
  · rw [hside, spentOn_buy] at hpaid
    simpa using hpaid

/-! ## The evidence of a result -/

theorem PaperVenue.orderState_cases (request : OrderIntentRequest) (fill : PaperFill) :
    (request.timeInForce.immediate = true ∧
        (orderState request fill = .filled ∨ orderState request fill = .cancelled)) ∨
      (request.timeInForce.immediate = false ∧ orderState request fill = .live) := by
  unfold orderState
  cases request.timeInForce.immediate with
  | true => cases fill.complete <;> simp
  | false => simp

/-- Evidence of an order that is done, or rests with nothing filled, is accepted when its fill
fits. -/
theorem validateVenueOrderEvidence_accepts {original filled : Decimal} {state : OrderState}
    {price : Option Decimal} (horiginal : 0 < original) (hfilled : 0 ≤ filled)
    (hwithin : filled ≤ original)
    (hstate : (state = .filled ∨ state = .cancelled) ∨ (state = .live ∧ filled = 0))
    (hprice : 0 < filled → ∃ p, price = some p ∧ 0 < p ∧ p < 1) :
    validateVenueOrderEvidence original state (submissionRemaining original state filled) filled
      price = .ok () := by
  unfold validateVenueOrderEvidence submissionRemaining
  rcases hstate with (rfl | rfl) | ⟨rfl, rfl⟩
  · simp [OrderState.terminal, not_le.mpr horiginal, not_lt.mpr hfilled, not_lt.mpr hwithin,
      not_lt.mpr horiginal.le]
    intro hsome
    obtain ⟨p, rfl, hpos, hlt⟩ := hprice hsome
    simp [not_le.mpr hpos, not_le.mpr hlt]
  · simp [OrderState.terminal, not_le.mpr horiginal, not_lt.mpr hfilled, not_lt.mpr hwithin,
      not_lt.mpr horiginal.le]
    intro hsome
    obtain ⟨p, rfl, hpos, hlt⟩ := hprice hsome
    simp [not_le.mpr hpos, not_le.mpr hlt]
  · simp [OrderState.terminal, horiginal.ne', max_eq_left horiginal.le, not_le.mpr horiginal,
      not_lt.mpr horiginal.le]

structure Submitting (db : Db) (intentId orderId : Uuid) (shares : Decimal) : Prop where
  intent : Table.rowsAffected (IntentRecord.At intentId .submitting) db.intents = 1
  order : Table.rowsAffected (OrderRecord.AtPair orderId intentId .submitting) db.orders = 1
  reserved : ∀ o ∈ db.orders, OrderRecord.AtPair orderId intentId .submitting o →
    o.originalQuantity = shares

/-- A submission under way takes any evidence that is accepted for its reservation. -/
theorem Submitting.finish {db : Db} {intentId orderId : Uuid} {shares : Decimal}
    (h : Submitting db intentId orderId shares) {state : OrderState} {filled : Decimal}
    {price : Option Decimal}
    (haccepted : validateVenueOrderEvidence shares state (submissionRemaining shares state filled)
      filled price = .ok ())
    (venueOrderId : Option String) (responseClass : String) (venueTradeIds : List String)
    (now : Time) :
    ∃ r, finishSubmission intentId orderId .submitted state venueOrderId responseClass filled price
      venueTradeIds now db = .ok r := by
  obtain ⟨o, ho, hat⟩ := Table.exists_of_rowsAffected_eq_one h.order
  obtain ⟨found, hfound⟩ : ∃ found,
      db.orders.find? (fun o => OrderRecord.AtPair orderId intentId .submitting o) =
        some found := by
    rw [← Option.isSome_iff_exists, List.find?_isSome]
    exact ⟨o, ho, by simpa using hat⟩
  have hreserved := h.reserved found (List.mem_of_find?_eq_some hfound)
    (by simpa using List.find?_some hfound)
  unfold finishSubmission
  simp only [hfound, hreserved, haccepted, h.intent, h.order]
  exact ⟨_, rfl⟩

/-! ## The result of a submission -/

theorem PaperFill.Fits.applied {fill : PaperFill} {request : OrderIntentRequest}
    {quantity shares : Decimal} (h : fill.Fits request quantity shares) (hquantity : 0 ≤ quantity)
    (hshares : 0 ≤ shares) :
    (PaperVenue.appliedFill request fill).Fits request quantity shares := by
  unfold PaperVenue.appliedFill
  split
  · exact .none hquantity hshares
  · exact h

/-- The average price of a fill that fits is one the evidence may name. -/
theorem PaperFill.Fits.averagePrice {fill : PaperFill} {request : OrderIntentRequest}
    {quantity shares : Decimal} (h : fill.Fits request quantity shares)
    (hsome : 0 < fill.shares) : ∃ p, fill.averagePrice = some p ∧ 0 < p ∧ p < 1 := by
  obtain ⟨hquote, hless⟩ := h.price hsome
  refine ⟨fill.quote / fill.shares, if_pos hsome, div_pos hquote hsome, ?_⟩
  rw [div_lt_one hsome]
  exact hless

/-- A commit of the paper venue for an order that reserved `shares`. -/
structure PaperOrderCommit.FitsReservation (commit : PaperOrderCommit)
    (request : OrderIntentRequest) (quantity shares : Decimal) : Prop where
  filled : commit.filledQuantity ≤ shares
  paid : request.side = .buy → request.timeInForce.immediate = true →
    commit.quoteAmount + commit.feeAmount ≤ quantity
  evidence : validateVenueOrderEvidence shares commit.state
    (submissionRemaining shares commit.state commit.filledQuantity) commit.filledQuantity
    commit.filledPrice = .ok ()

theorem PaperVenue.commitOf_fits {deterministicOrderId : String} {request : OrderIntentRequest}
    {quantity price shares : Decimal} {fill : PaperFill} (hquantity : 0 < quantity)
    (hshares : 0 < shares) (h : fill.Fits request quantity shares)
    (hresting : request.timeInForce.immediate = false → fill = .none) :
    (commitOf deterministicOrderId request market quantity price fill).FitsReservation request
      quantity shares := by
  have happlied := h.applied hquantity.le hshares.le
  refine ⟨happlied.shares, fun hside _ => happlied.paid hside, ?_⟩
  refine validateVenueOrderEvidence_accepts hshares happlied.nonneg happlied.shares ?_
    happlied.averagePrice
  rcases orderState_cases request fill with ⟨-, hstate⟩ | ⟨hrest, hstate⟩
  · exact .inl hstate
  · refine .inr ⟨hstate, ?_⟩
    -- A resting order is committed before anything of it is filled.
    simp [commitOf, appliedFill, hresting hrest, PaperFill.none]

theorem PaperVenue.order_fits (h : Tradable market book) {request : OrderIntentRequest}
    {quantity price shares quote : Decimal} (hquantity : request.quantityDecimal = .ok quantity)
    (hprice : request.protectionPrice = .ok price)
    (hexposure : conservativeExposure request market quantity price = some (shares, quote))
    (deterministicOrderId : String) :
    ∃ commit, order deterministicOrderId request book market = some commit ∧
      commit.venueOrderId = deterministicOrderId ∧
      commit.FitsReservation request quantity shares := by
  have hpositive := OrderIntentRequest.quantityDecimal_pos hquantity
  have hshares := (conservativeExposure_pos hpositive
    (OrderIntentRequest.protectionPrice_pos hprice).1 hexposure).1
  have horder : ∀ found, fill request book market quantity price = some found →
      order deterministicOrderId request book market =
        some (commitOf deterministicOrderId request market quantity price found) := by
    intro found hfill
    simp only [order, hprice, hquantity, hfill]
    exact if_neg fun hzero => h.tick.1.ne' hzero.2.2
  cases himmediate : request.timeInForce.immediate with
  | true =>
    obtain ⟨found, hwalk, hfits⟩ := walkBook_fits h hpositive himmediate hexposure
    refine ⟨_, horder found ?_, rfl, commitOf_fits hpositive hshares hfits fun hrest => ?_⟩
    · rw [fill, if_pos himmediate, hwalk]
    · rw [himmediate] at hrest
      cases hrest
  | false =>
    refine ⟨_, horder .none ?_, rfl,
      commitOf_fits hpositive hshares (.none hpositive.le hshares.le) fun _ => rfl⟩
    rw [fill, himmediate]
    rfl

/-- What `commit_paper_order` answers for an order it has not committed before. -/
theorem commitPaperOrder_value {mode : Mode} {commit : PaperOrderCommit} {now : Time} {db : Db}
    {r : Committed PaperOrderSnapshot} (hnew : db.findPaperOrder commit.venueOrderId = none)
    (h : commitPaperOrder mode commit now db = .ok r) : r.value = (commit.row now).snapshot := by
  unfold commitPaperOrder at h
  rw [hnew] at h
  split at h
  · cases h
  · split at h
    · rename_i hsome
      cases hsome
    · split at h
      · cases h
      · split at h
        · cases h
        · cases h
          rfl

/-- On the market and the book its request was validated against, the paper venue's result fits
the reservation, and the submission it answers is finished. -/
theorem paper_result_fits (self : Coordinator) (request : OrderIntentRequest)
    (market : MarketRules) (book : OrderBook) (admitted now : Time) (deterministicOrderId : String)
    (hvalid : request.validate admitted = .ok ())
    (hmarket : self.validateFreshnessAndIncrements request market book now = .ok ()) :
    ∃ quantity price shares quote commit, request.quantityDecimal = .ok quantity ∧
      request.protectionPrice = .ok price ∧
      conservativeExposure request market quantity price = some (shares, quote) ∧
      PaperVenue.order deterministicOrderId request book market = some commit ∧
      commit.FitsReservation request quantity shares ∧
      ∀ db mode committed r, db.findPaperOrder deterministicOrderId = none →
        commitPaperOrder mode commit committed db = .ok r →
        ∀ db' intentId orderId answered, Submitting db' intentId orderId shares →
          ∃ done, finishSubmission intentId orderId .submitted r.value.state
            (some r.value.venueOrderId) "VENUE_RESPONSE" r.value.filledQuantity
            r.value.filledPrice r.value.venueTradeIds answered db' = .ok done := by
  have htradable := Coordinator.tradable_of_validate hmarket
  obtain ⟨quantity, price, hquantity, hprice⟩ := request.amounts_of_validate hvalid
  obtain ⟨⟨shares, quote⟩, hexposure⟩ :
      ∃ exposure, conservativeExposure request market quantity price = some exposure := by
    unfold conservativeExposure
    split
    · exact ⟨_, if_pos htradable.tick.1⟩
    · exact ⟨_, rfl⟩
  obtain ⟨commit, horder, hid, hfits⟩ :=
    PaperVenue.order_fits htradable hquantity hprice hexposure deterministicOrderId
  refine ⟨quantity, price, shares, quote, commit, hquantity, hprice, hexposure, horder, hfits, ?_⟩
  intro db mode committed r hnew hcommit db' intentId orderId answered hsubmitting
  rw [commitPaperOrder_value (hid ▸ hnew) hcommit]
  exact hsubmitting.finish hfits.evidence _ _ _ _

theorem paper_result_fits_sample :
    ∃ quantity shares commit,
      PaperVenue.order "paper_1" PaperVenue.samplePurchase sampleBook sampleMarket = some commit ∧
      commit.FitsReservation PaperVenue.samplePurchase quantity shares := by
  obtain ⟨quantity, _, shares, _, commit, -, -, -, horder, hfits, -⟩ :=
    paper_result_fits { policy := samplePolicy, requiresHeartbeat := false }
      PaperVenue.samplePurchase sampleMarket sampleBook 0 0 "paper_1" (by decide +kernel)
      (by decide +kernel)
  exact ⟨quantity, shares, commit, horder, hfits⟩

end OddsfoxExecution
