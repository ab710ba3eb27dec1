import OddsfoxExecution.PaperFills
import OddsfoxExecution.ProjectionReplay

/-!
# What an operation makes of an order

The operations on orders, each with what it makes of every order it finds.
Nothing is assumed of the intents beside them: these are the operations of the
store, in any sequence and with any arguments.
-/

namespace OddsfoxExecution

/-- The prepared payload of an order determines the venue's identifier. -/
def Db.Determines (db : Db) (o : OrderRecord) (venueOrderId : String) : Prop :=
  ∃ p ∈ db.preparedOrders, p.intentId = o.intentId ∧ p.deterministicOrderId = venueOrderId

/-- The order with the venue's answer to its submission. -/
def OrderRecord.answered (o : OrderRecord) (state : OrderState) (venueOrderId : Option String)
    (filled : Decimal) : OrderRecord :=
  o.settle state venueOrderId (submissionRemaining o.originalQuantity state filled)

/-- What a successful operation makes of an order. -/
def StoreCall.Turns (db : Db) : StoreCall → OrderRecord → OrderRecord → Prop
  | beginSubmission .., o, o' =>
    o' = o ∨ o.state = .prepared ∧ o' = { o with state := .submitting }
  | finishSubmission _ orderId _ state venueOrderId _ filled _ _, o, o' =>
    if o.id = orderId then
      o.state = .submitting ∧
        AcceptedEvidence o.originalQuantity state
          (submissionRemaining o.originalQuantity state filled) filled ∧
        o' = o.answered state venueOrderId filled
    else o' = o
  | recoverInterruptedSubmissions, o, o' =>
    o' = o ∨ ∃ deterministicOrderId, db.Determines o deterministicOrderId ∧
      o' = { o with
        state := .unknown, venueOrderId := o.venueOrderId.or (some deterministicOrderId) }
  | resolveUnknownSubmission unknown venueOrderId state remaining filled _ _, o, o' =>
    if o.id = unknown.orderId ∧ state ≠ .unknown then
      o.state = .unknown ∧ AcceptedEvidence o.originalQuantity state remaining filled ∧
        o' = o.settle state (some venueOrderId) remaining
    else o' = o
  | transitionOrder id next venueOrderId, o, o' =>
    o' = o ∨ o.id = id ∧ validOrderTransition o.state next = true ∧
      o' = { o with state := next, venueOrderId := venueOrderId.or o.venueOrderId }
  | cancelPreparedOrder _, o, o' =>
    o' = o ∨ o.state = .prepared ∧ o' = { o with state := .cancelled }
  | reconcileOrderProjection orderId observed remaining total _ _, o, o' =>
    if o.id = orderId then
      AcceptedEvidence o.originalQuantity observed remaining total ∧ o.localFilled ≤ total ∧
        o' = o.project observed remaining
    else o' = o
  | _, o, o' => o' = o

/-- Every order of `db` turns into one of `db'`, and there are no others. -/
def OrdersTurn (R : OrderRecord → OrderRecord → Prop) (db db' : Db) : Prop :=
  ∃ f : OrderRecord → OrderRecord, db'.orders = db.orders.map f ∧
    ∀ o ∈ db.orders, (f o).id = o.id ∧ R o (f o)

section Operations

variable {db : Db}

theorem OrdersTurn.of_update {R : OrderRecord → OrderRecord → Prop} {db' : Db}
    {p : OrderRecord → Prop} [DecidablePred p] {f : OrderRecord → OrderRecord}
    (h : db'.orders = Table.updateWhere p f db.orders)
    (hturns : ∀ o ∈ db.orders, if p o then (f o).id = o.id ∧ R o (f o) else R o o) :
    OrdersTurn R db db' := by
  refine ⟨_, h, fun o ho => ?_⟩
  have hturn := hturns o ho
  split at hturn
  · rename_i hp
    rw [if_pos hp]
    exact hturn
  · rename_i hp
    rw [if_neg hp]
    exact ⟨rfl, hturn⟩

theorem OrdersTurn.of_same {R : OrderRecord → OrderRecord → Prop} {db' : Db}
    (h : db'.orders = db.orders) (hsame : ∀ o ∈ db.orders, R o o) : OrdersTurn R db db' :=
  ⟨id, h.trans (List.map_id _).symm, fun o ho => ⟨rfl, hsame o ho⟩⟩

theorem OrdersTurn.origin {R : OrderRecord → OrderRecord → Prop} {db' : Db}
    (h : OrdersTurn R db db') : ∀ o' ∈ db'.orders, ∃ o ∈ db.orders, o'.id = o.id ∧ R o o' := by
  obtain ⟨f, horders, hturns⟩ := h
  intro o' ho'
  rw [horders] at ho'
  obtain ⟨o, ho, rfl⟩ := List.mem_map.mp ho'
  exact ⟨o, ho, hturns o ho⟩

theorem OrdersTurn.next {R : OrderRecord → OrderRecord → Prop} {db' : Db}
    (h : OrdersTurn R db db') : ∀ o ∈ db.orders, ∃ o' ∈ db'.orders, o'.id = o.id ∧ R o o' := by
  obtain ⟨f, horders, hturns⟩ := h
  exact fun o ho => ⟨f o, horders ▸ List.mem_map_of_mem ho, hturns o ho⟩

theorem OrdersTurn.ids {R : OrderRecord → OrderRecord → Prop} {db' : Db}
    (h : OrdersTurn R db db') :
    db'.orders.map OrderRecord.id = db.orders.map OrderRecord.id := by
  obtain ⟨f, horders, hturns⟩ := h
  rw [horders, List.map_map]
  exact List.map_congr_left fun o ho => (hturns o ho).1

theorem beginSubmission_turns {intentId orderId : Uuid} {r : Committed Unit}
    (h : beginSubmission intentId orderId db = .ok r) :
    OrdersTurn ((StoreCall.beginSubmission intentId orderId).Turns db) db r.db := by
  unfold beginSubmission at h
  split at h
  · cases h
  · split at h
    · cases h
    · split at h
      · cases h
      · cases h
        refine OrdersTurn.of_update rfl fun o ho => ?_
        split
        · rename_i hpair
          exact ⟨rfl, .inr ⟨hpair.2.2, rfl⟩⟩
        · exact .inl rfl

theorem finishSubmission_turns (hids : (db.orders.map OrderRecord.id).Nodup)
    {intentId orderId : Uuid} {intentState : IntentState} {state : OrderState}
    {venueOrderId : Option String} {responseClass : String} {filled : Decimal}
    {price : Option Decimal} {ids : List String} {now : Time} {r : Committed Unit}
    (h : finishSubmission intentId orderId intentState state venueOrderId responseClass filled
      price ids now db = .ok r) :
    OrdersTurn ((StoreCall.finishSubmission intentId orderId intentState state venueOrderId
      responseClass filled price ids).Turns db) db r.db := by
  unfold finishSubmission at h
  split at h
  · cases h
  · split at h
    · cases h
    · rename_i prior hprior
      obtain ⟨hmem, hid, howner, hstate⟩ := find?_mem hprior
      dsimp only at h
      split at h
      · cases h
      · rename_i hevidence
        have haccepted := validateVenueOrderEvidence_ok hevidence
        split at h
        · cases h
        · have horders : r.db.orders = Table.updateWhere
              (OrderRecord.AtPair orderId intentId .submitting)
              (OrderRecord.settle state venueOrderId
                (submissionRemaining prior.originalQuantity state filled)) db.orders := by
            split at h <;> cases h
            · exact applyMatchedFill_orders
            · rfl
          refine OrdersTurn.of_update horders fun o ho => ?_
          unfold StoreCall.Turns
          dsimp only
          by_cases heq : o.id = orderId
          · obtain rfl : o = prior := Table.eq_of_key_eq hids ho hmem (heq.trans hid.symm)
            rw [if_pos ⟨hid, howner, hstate⟩, if_pos hid]
            exact ⟨rfl, hstate, haccepted, rfl⟩
          · rw [if_neg fun hpair => heq hpair.1, if_neg heq]

theorem resolveUnknownSubmission_turns (hids : (db.orders.map OrderRecord.id).Nodup)
    {unknown : UnknownSubmission} {venueOrderId : String} {state : OrderState}
    {remaining filled : Decimal} {price : Option Decimal} {ids : List String} {now : Time}
    {r : Committed Unit}
    (h : resolveUnknownSubmission unknown venueOrderId state remaining filled price ids now db =
      .ok r) :
    OrdersTurn ((StoreCall.resolveUnknownSubmission unknown venueOrderId state remaining filled
      price ids).Turns db) db r.db := by
  unfold resolveUnknownSubmission at h
  split at h
  · rename_i hunknown
    cases h
    refine .of_same rfl fun o _ => ?_
    unfold StoreCall.Turns
    dsimp only
    rw [if_neg fun hboth => hboth.2 hunknown]
  · rename_i hknown
    split at h
    · cases h
    · rename_i prior hprior
      obtain ⟨hmem, hid, hstate⟩ := find?_mem hprior
      split at h
      · cases h
      · rename_i hevidence
        have haccepted := validateVenueOrderEvidence_ok hevidence
        split at h
        · cases h
        · have horders : r.db.orders = Table.updateWhere
              (OrderRecord.At unknown.orderId .unknown)
              (OrderRecord.settle state (some venueOrderId) remaining) db.orders := by
            cases h
            exact applyMatchedFill_orders
          refine OrdersTurn.of_update horders fun o ho => ?_
          unfold StoreCall.Turns
          dsimp only
          by_cases heq : o.id = unknown.orderId
          · obtain rfl : o = prior := Table.eq_of_key_eq hids ho hmem (heq.trans hid.symm)
            rw [if_pos ⟨hid, hstate⟩, if_pos ⟨hid, hknown⟩]
            exact ⟨rfl, hstate, haccepted, rfl⟩
          · rw [if_neg fun hat => heq hat.1, if_neg fun hboth => heq hboth.1]

theorem transitionOrder_turns {id : Uuid} {next : OrderState} {venueOrderId : Option String}
    (hids : (db.orders.map OrderRecord.id).Nodup) {r : Committed OrderRecord}
    (h : transitionOrder id next venueOrderId db = .ok r) :
    OrdersTurn ((StoreCall.transitionOrder id next venueOrderId).Turns db) db r.db := by
  unfold transitionOrder at h
  split at h
  · cases h
  · rename_i prior hprior
    obtain ⟨hmem, hid⟩ := find?_mem hprior
    split at h
    · cases h
      exact .of_same rfl fun _ _ => .inl rfl
    · split at h
      · cases h
      · rename_i hvalid
        rw [not_not] at hvalid
        cases h
        refine OrdersTurn.of_update rfl fun o ho => ?_
        split
        · rename_i heq
          obtain rfl : o = prior := Table.eq_of_key_eq hids ho hmem (heq.trans hid.symm)
          exact ⟨rfl, .inr ⟨heq, hvalid, rfl⟩⟩
        · exact .inl rfl

theorem cancelPreparedOrder_turns {orderId : Uuid} (hids : (db.orders.map OrderRecord.id).Nodup)
    {r : Committed OrderRecord} (h : cancelPreparedOrder orderId db = .ok r) :
    OrdersTurn ((StoreCall.cancelPreparedOrder orderId).Turns db) db r.db := by
  unfold cancelPreparedOrder at h
  split at h
  · cases h
  · rename_i prior hprior
    obtain ⟨hmem, hid, hstate⟩ := find?_mem hprior
    cases h
    refine OrdersTurn.of_update rfl fun o ho => ?_
    split
    · rename_i heq
      obtain rfl : o = prior := Table.eq_of_key_eq hids ho hmem (Eq.trans heq hid.symm)
      exact ⟨rfl, .inr ⟨hstate, rfl⟩⟩
    · exact .inl rfl

theorem reconcileOrderProjection_turns {orderId : Uuid} {observed : OrderState}
    {remaining total : Decimal} {price : Option Decimal} {ids : List String} {now : Time}
    (hids : (db.orders.map OrderRecord.id).Nodup) {r : Committed Unit}
    (h : reconcileOrderProjection orderId observed remaining total price ids now db = .ok r) :
    OrdersTurn ((StoreCall.reconcileOrderProjection orderId observed remaining total price
      ids).Turns db) db r.db := by
  unfold reconcileOrderProjection at h
  split at h
  · cases h
  · rename_i prior hprior
    obtain ⟨hmem, hid⟩ := find?_mem hprior
    split at h
    · cases h
    · rename_i hevidence
      have haccepted := validateVenueOrderEvidence_ok hevidence
      split at h
      · cases h
      · rename_i hprogress
        have hturns : ∀ o ∈ db.orders, ∀ o', (o.id = orderId → o' = o.project observed remaining) →
            (o.id ≠ orderId → o' = o) →
            (StoreCall.reconcileOrderProjection orderId observed remaining total price ids).Turns
              db o o' := by
          intro o ho o' hproject hsame
          unfold StoreCall.Turns
          dsimp only
          split
          · rename_i heq
            obtain rfl : o = prior := Table.eq_of_key_eq hids ho hmem (heq.trans hid.symm)
            exact ⟨haccepted, not_lt.mp hprogress, hproject heq⟩
          · exact hsame ‹_›
        dsimp only at h
        split at h
        · rename_i hunchanged
          cases h
          refine .of_same rfl fun o ho => hturns o ho o (fun heq => ?_) fun _ => rfl
          obtain rfl : o = prior := Table.eq_of_key_eq hids ho hmem (heq.trans hid.symm)
          simp only [OrderRecord.project, hunchanged.1, hunchanged.2.1]
        · have horders : r.db.orders = Table.updateWhere (fun o : OrderRecord => o.id = orderId)
              (fun o => { o with
                state := projectedState prior.state observed, remainingQuantity := remaining })
              db.orders := by
            cases h
            exact applyMatchedFill_orders
          refine OrdersTurn.of_update horders fun o ho => ?_
          split
          · rename_i heq
            refine ⟨rfl, hturns o ho _ (fun _ => ?_) fun hne => absurd heq hne⟩
            obtain rfl : o = prior := Table.eq_of_key_eq hids ho hmem (heq.trans hid.symm)
            rfl
          · exact hturns o ho o (fun heq => absurd heq ‹_›) fun _ => rfl

/-- The loop of `recover_interrupted_submissions`; `links` are the identifiers its rows give. -/
theorem recoverInterruptedRows_turns {links : Uuid → String → Prop}
    {rows : List UnknownSubmission}
    (hrows : ∀ row ∈ rows, links row.orderId row.deterministicOrderId) :
    OrdersTurn (fun o o' => o' = o ∨ ∃ deterministicOrderId, links o.id deterministicOrderId ∧
      o' = { o with
        state := .unknown, venueOrderId := o.venueOrderId.or (some deterministicOrderId) })
      db (recoverInterruptedRows rows db).1 := by
  induction rows generalizing db with
  | nil => exact .of_same rfl fun _ _ => .inl rfl
  | cons row rows ih =>
    obtain ⟨f, horders, hturns⟩ := @ih (recoverInterrupted row db).1
      fun other hother => hrows other (List.mem_cons_of_mem _ hother)
    let g : OrderRecord → OrderRecord := fun o =>
      if o.id = row.orderId then
        { o with
          state := .unknown
          venueOrderId := o.venueOrderId.or (some row.deterministicOrderId) }
      else o
    have hg : (recoverInterrupted row db).1.orders = db.orders.map g := rfl
    refine ⟨f ∘ g, ?_, fun o ho => ?_⟩
    · change (recoverInterruptedRows rows (recoverInterrupted row db).1).1.orders = _
      rw [horders, hg, List.map_map]
    · obtain ⟨hid, hturn⟩ := hturns (g o) (hg ▸ List.mem_map_of_mem ho)
      by_cases heq : o.id = row.orderId
      · have hgo : g o = { o with
            state := .unknown
            venueOrderId := o.venueOrderId.or (some row.deterministicOrderId) } := if_pos heq
        have hlink := hrows row List.mem_cons_self
        rw [← heq] at hlink
        refine ⟨by rw [Function.comp, hid, hgo], .inr ⟨row.deterministicOrderId, hlink, ?_⟩⟩
        rw [Function.comp]
        rcases hturn with hsame | ⟨other, -, hagain⟩
        · rw [hsame, hgo]
        -- a second row of the same order leaves the identifier of the first
        · rw [hagain, hgo]
          cases o.venueOrderId <;> rfl
      · have hgo : g o = o := if_neg heq
        rw [hgo] at hid hturn
        rw [Function.comp, hgo]
        exact ⟨hid, hturn⟩

theorem recoverInterruptedSubmissions_turns (hids : (db.orders.map OrderRecord.id).Nodup)
    {r : Committed Nat} (h : recoverInterruptedSubmissions db = .ok r) :
    OrdersTurn (StoreCall.recoverInterruptedSubmissions.Turns db) db r.db := by
  cases h
  have hrows : ∀ row ∈ db.interruptedSubmissions,
      ∃ o ∈ db.orders, o.id = row.orderId ∧ db.Determines o row.deterministicOrderId := by
    intro row hrow
    simp only [Db.interruptedSubmissions, List.mem_flatMap, List.mem_filter, Db.preparedJoin,
      List.mem_map, decide_eq_true_eq] at hrow
    obtain ⟨o, ho, i, -, p, ⟨hp, howner⟩, rfl⟩ := hrow
    exact ⟨o, ho, rfl, p, hp, howner, rfl⟩
  obtain ⟨f, horders, hturns⟩ := @recoverInterruptedRows_turns db
    (fun id link => ∃ o ∈ db.orders, o.id = id ∧ db.Determines o link) _ hrows
  refine ⟨f, horders, fun o ho => ?_⟩
  obtain ⟨hid, hturn⟩ := hturns o ho
  refine ⟨hid, hturn.imp_right ?_⟩
  rintro ⟨link, ⟨other, hother, hsame, hlinked⟩, heq⟩
  obtain rfl : other = o := Table.eq_of_key_eq hids hother ho hsame
  exact ⟨link, hlinked, heq⟩

/-- What `create_prepared_order` adds. -/
structure OrderOpened (db db' : Db) (intentId : Uuid) (deterministicOrderId : String) : Prop where
  opened : ∃ o, db'.orders = db.orders ++ [o] ∧ o.id = db.nextUuid + 2 ∧ o.intentId = intentId ∧
    o.venueOrderId = none ∧ o.state = .prepared ∧ o.remainingQuantity = o.originalQuantity ∧
    ∃ r ∈ db.riskReservations, o.originalQuantity = r.quantity
  prepared : ∃ p, db'.preparedOrders = db.preparedOrders ++ [p] ∧ p.intentId = intentId ∧
    p.deterministicOrderId = deterministicOrderId
  reserved : db'.riskReservations.map RiskReservation.quantity =
    db.riskReservations.map RiskReservation.quantity
  drawn : db'.nextUuid = db.nextUuid + 3

theorem createPreparedOrder_opened {intentId : Uuid} {request : OrderIntentRequest}
    {prepared : PreparedVenueOrder} {policyVersion : String} {feeRate : Decimal} {now : Time}
    {r : Committed OrderRecord}
    (h : createPreparedOrder intentId request prepared policyVersion feeRate now db = .ok r) :
    OrderOpened db r.db intentId prepared.deterministicOrderId := by
  unfold createPreparedOrder at h
  split at h
  · cases h
  · split at h
    · cases h
    · dsimp only at h
      split at h
      · cases h
      · split at h
        · cases h
        · rename_i reservation hreservation
          split at h
          · cases h
          · split at h
            · cases h
            · cases h
              exact ⟨⟨_, rfl, rfl, rfl, rfl, rfl, rfl, reservation,
                List.mem_of_find?_eq_some hreservation, rfl⟩, ⟨_, rfl, rfl, rfl⟩,
                Table.map_updateWhere fun _ => rfl, rfl⟩

/-! ## A trade-through -/

/-- The executor's own order after the paper venue has filled the row it follows. -/
def OrderRecord.followed (o : OrderRecord) (fill : TradeFill) : OrderRecord :=
  { o with
    state := paperFilledState o.state (paperFillState (fill.row.remainingQuantity - fill.fill))
    remainingQuantity := fill.row.remainingQuantity - fill.fill }

/-- The order `apply_paper_trade_through` lets follow a row: the first under its identifier, while
it is active. -/
def Db.follower (db : Db) (venueOrderId : String) (o : OrderRecord) : Prop :=
  (db.orders.find? fun o => o.venueOrderId = some venueOrderId) = some o ∧ o.state.active = true

def TradeFill.filled (trade : PaperTrade) (fill : TradeFill) : PaperVenueOrder :=
  fill.row.fill trade.price fill.fill (paperFillState (fill.row.remainingQuantity - fill.fill))
    ("paper:" ++ trade.eventId ++ ":" ++ fill.row.venueOrderId) (trade.evidence fill.fill)

theorem tradeFills_mem {trade : PaperTrade} {rows : List PaperVenueOrder} {size : Decimal}
    {b : PaperBalances} :
    ∀ fill ∈ tradeFills trade rows size b, fill.row ∈ rows ∧ 0 < fill.fill ∧
      fill.fill ≤ fill.row.remainingQuantity := by
  induction rows generalizing size b with
  | nil => exact fun fill hfill => (nomatch hfill)
  | cons row rows ih =>
    intro fill hfill
    simp only [tradeFills] at hfill
    split at hfill
    · cases hfill
    · split at hfill
      · obtain ⟨hmem, hbounds⟩ := ih fill hfill
        exact ⟨List.mem_cons_of_mem _ hmem, hbounds⟩
      · rename_i hfills
        rcases List.mem_cons.mp hfill with rfl | hfill
        · exact ⟨List.mem_cons_self, not_le.mp (not_or.mp hfills).2, min_le_left _ _⟩
        · obtain ⟨hmem, hbounds⟩ := ih fill hfill
          exact ⟨List.mem_cons_of_mem _ hmem, hbounds⟩

/-- What one fill of the loop does to the orders: its follower follows, if there is one. -/
theorem fillRestingOrder_orders (hids : (db.orders.map OrderRecord.id).Nodup)
    {trade : PaperTrade} {now : Time} {fill : TradeFill} {b b' : PaperBalances} {db' : Db}
    {events : List ExecutionEvent}
    (h : fillRestingOrder trade now fill.row fill.fill b db = .ok (b', db', events)) :
    (∃ o, db.follower fill.row.venueOrderId o ∧
      db'.orders = Table.replace OrderRecord.id (o.followed fill) db.orders) ∨
    ((∀ o, ¬ db.follower fill.row.venueOrderId o) ∧ db'.orders = db.orders) := by
  have horders : db'.orders = (fillCoreOrder trade fill.row.venueOrderId
      ("paper:" ++ trade.eventId ++ ":" ++ fill.row.venueOrderId) fill.fill
      (fill.row.remainingQuantity - fill.fill)
      (paperFillState (fill.row.remainingQuantity - fill.fill)) now db).1.orders := by
    unfold fillRestingOrder at h
    dsimp only at h
    split at h
    · cases h
    · cases h
      unfold fillCoreOrder
      dsimp only [Db.appendEvent]
      split
      · rfl
      · split
        · rw [applyMatchedFill_orders, applyMatchedFill_orders]
        · rfl
  rw [horders]
  unfold fillCoreOrder Db.follower
  split
  · rename_i hnone
    refine .inr ⟨fun o ho => ?_, rfl⟩
    cases hnone.symm.trans ho.1
  · rename_i core hcore
    split
    · rename_i hactive
      refine .inl ⟨core, ⟨hcore, hactive⟩, ?_⟩
      dsimp only [Db.appendEvent]
      rw [applyMatchedFill_orders]
      exact Table.updateWhere_eq_replace (p := fun o : OrderRecord => o.id = core.id)
        (f := fun o => { o with
          state := paperFilledState core.state
            (paperFillState (fill.row.remainingQuantity - fill.fill))
          remainingQuantity := fill.row.remainingQuantity - fill.fill })
        hids (List.mem_of_find?_eq_some hcore) rfl (fun _ _ heq => heq) rfl
    · rename_i hidle
      refine .inr ⟨fun o ho => hidle ?_, rfl⟩
      rw [hcore] at ho
      rw [Option.some.inj ho.1]
      exact ho.2

/-- What the loop of a trade-through does to the orders and to the rows they follow. -/
structure TradeFollowed (trade : PaperTrade) (fills : List TradeFill) (db db' : Db) : Prop where
  turns : OrdersTurn (fun o o' => o' = o ∨ ∃ fill ∈ fills,
    o.venueOrderId = some fill.row.venueOrderId ∧ o.state.active = true ∧ o' = o.followed fill)
    db db'
  followed : ∀ fill ∈ fills, ∀ o, db.follower fill.row.venueOrderId o →
    o.followed fill ∈ db'.orders
  filled : ∀ fill ∈ fills, fill.filled trade ∈ db'.paperVenueOrders

theorem follower_of_replace (hids : (db.orders.map OrderRecord.id).Nodup) {core : OrderRecord}
    {db' : Db} {fill : TradeFill} {venueOrderId : String} (hmem : core ∈ db.orders)
    (hcore : core.venueOrderId ≠ some venueOrderId)
    (horders : db'.orders = Table.replace OrderRecord.id (core.followed fill) db.orders)
    {o : OrderRecord} : db'.follower venueOrderId o ↔ db.follower venueOrderId o := by
  let settle := OrderRecord.settle (core.followed fill).state none
    (core.followed fill).remainingQuantity
  have hsettle : ∀ other, (settle other).venueOrderId = other.venueOrderId := fun _ => rfl
  have hreplace : Table.replace OrderRecord.id (core.followed fill) db.orders =
      Table.updateWhere (fun other => other.id = core.id) settle db.orders := by
    refine Table.updateWhere_congr (fun other _ => Iff.rfl) fun other hother heq => ?_
    rw [Table.eq_of_key_eq hids hother hmem heq]
    rfl
  have hsame : (db'.orders.find? fun o => o.venueOrderId = some venueOrderId) =
      db.orders.find? fun o => o.venueOrderId = some venueOrderId := by
    rw [horders, hreplace, Table.find?_updateWhere hsettle]
    cases hfound : db.orders.find? fun o => o.venueOrderId = some venueOrderId with
    | none => rfl
    | some found =>
      have hvenue : found.venueOrderId = some venueOrderId := by simpa using List.find?_some hfound
      have hne : found.id ≠ core.id := by
        intro heq
        rw [Table.eq_of_key_eq hids (List.mem_of_find?_eq_some hfound) hmem heq] at hvenue
        exact hcore hvenue
      rw [Option.map_some, if_neg hne]
  unfold Db.follower
  rw [hsame]

theorem TradeFollowed.cons_follower (hids : (db.orders.map OrderRecord.id).Nodup)
    {trade : PaperTrade} {fill : TradeFill} {fills : List TradeFill} {db₁ db' : Db}
    {core : OrderRecord} (hcore : db.follower fill.row.venueOrderId core)
    (hreplaced : db₁.orders = Table.replace OrderRecord.id (core.followed fill) db.orders)
    (hdiffers : ∀ later ∈ fills, later.row.venueOrderId ≠ fill.row.venueOrderId)
    (hfilled : fill.filled trade ∈ db'.paperVenueOrders)
    (h : TradeFollowed trade fills db₁ db') : TradeFollowed trade (fill :: fills) db db' := by
  obtain ⟨f, hlater, hturns⟩ := h.turns
  have hmem : core ∈ db.orders := List.mem_of_find?_eq_some hcore.1
  have hvenue : core.venueOrderId = some fill.row.venueOrderId := by
    simpa using List.find?_some hcore.1
  have hin : core.followed fill ∈ db₁.orders := by
    rw [hreplaced]
    exact Table.mem_replace.mpr (.inr ⟨rfl, core, hmem, rfl⟩)
  -- the order that has followed this row follows no later one
  have hstays : f (core.followed fill) = core.followed fill := by
    obtain ⟨-, hsame | ⟨later, hlaterMem, hvenue', -⟩⟩ := hturns _ hin
    · exact hsame
    · have hsameRow := Option.some.inj (hvenue.symm.trans hvenue')
      exact absurd hsameRow.symm (hdiffers later hlaterMem)
  constructor
  case turns =>
    refine ⟨fun o => f (if o.id = core.id then core.followed fill else o), ?_, fun o ho => ?_⟩
    · rw [hlater, hreplaced]
      exact List.map_map
    · dsimp only
      by_cases heq : o.id = core.id
      · obtain rfl : o = core := Table.eq_of_key_eq hids ho hmem heq
        rw [if_pos rfl, hstays]
        exact ⟨rfl, .inr ⟨fill, List.mem_cons_self, hvenue, hcore.2, rfl⟩⟩
      · rw [if_neg heq]
        have hin' : o ∈ db₁.orders := by
          rw [hreplaced]
          exact Table.mem_replace.mpr (.inl ⟨ho, heq⟩)
        obtain ⟨hid, hturn⟩ := hturns o hin'
        exact ⟨hid, hturn.imp_right fun ⟨later, hlaterMem, hrest⟩ =>
          ⟨later, List.mem_cons_of_mem _ hlaterMem, hrest⟩⟩
  case followed =>
    intro later hlaterMem o ho
    rcases List.mem_cons.mp hlaterMem with rfl | hlaterMem
    · cases hcore.1.symm.trans ho.1
      rw [hlater]
      exact List.mem_map.mpr ⟨_, hin, hstays⟩
    · refine h.followed later hlaterMem o ((follower_of_replace hids hmem ?_ hreplaced).mpr ho)
      rw [hvenue]
      exact fun heq => hdiffers later hlaterMem (Option.some.inj heq).symm
  case filled => exact List.forall_mem_cons.mpr ⟨hfilled, h.filled⟩

theorem TradeFollowed.cons_idle {trade : PaperTrade} {fill : TradeFill} {fills : List TradeFill}
    {db₁ db' : Db} (hnone : ∀ o, ¬ db.follower fill.row.venueOrderId o)
    (hsame : db₁.orders = db.orders) (hfilled : fill.filled trade ∈ db'.paperVenueOrders)
    (h : TradeFollowed trade fills db₁ db') : TradeFollowed trade (fill :: fills) db db' := by
  obtain ⟨f, hlater, hturns⟩ := h.turns
  constructor
  case turns =>
    refine ⟨f, hlater.trans (by rw [hsame]), fun o ho => ?_⟩
    obtain ⟨hid, hturn⟩ := hturns o (hsame.symm ▸ ho)
    exact ⟨hid, hturn.imp_right fun ⟨later, hlaterMem, hrest⟩ =>
      ⟨later, List.mem_cons_of_mem _ hlaterMem, hrest⟩⟩
  case followed =>
    intro later hlaterMem o ho
    rcases List.mem_cons.mp hlaterMem with rfl | hlaterMem
    · exact absurd ho (hnone o)
    · refine h.followed later hlaterMem o ?_
      unfold Db.follower
      rw [hsame]
      exact ho
  case filled => exact List.forall_mem_cons.mpr ⟨hfilled, h.filled⟩

theorem applyTradeThrough_followed (hids : (db.orders.map OrderRecord.id).Nodup)
    (hkeys : (db.paperVenueOrders.map PaperVenueOrder.venueOrderId).Nodup) {trade : PaperTrade}
    {now : Time} {rows : List PaperVenueOrder} {size : Decimal} {count count' : Nat}
    {b b' : PaperBalances} {db' : Db} {events events' : List ExecutionEvent}
    (hrows : ∀ row ∈ rows, row ∈ db.paperVenueOrders)
    (hdistinct : (rows.map PaperVenueOrder.venueOrderId).Nodup)
    (h : applyTradeThrough trade now rows size count b db events =
      .ok (count', b', db', events')) :
    TradeFollowed trade (tradeFills trade rows size b) db db' ∧
      ∀ row ∈ db.paperVenueOrders, (∀ other ∈ rows, other.venueOrderId ≠ row.venueOrderId) →
        row ∈ db'.paperVenueOrders := by
  induction rows generalizing size count b db events with
  | nil =>
    cases h
    exact ⟨⟨.of_same rfl fun _ _ => .inl rfl, fun _ hfill => (by cases hfill),
      fun _ hfill => (by cases hfill)⟩, fun row hrow _ => hrow⟩
  | cons row rows ih =>
    obtain ⟨hfresh, hdistinct⟩ := List.nodup_cons.mp hdistinct
    have hrow := hrows row List.mem_cons_self
    have hrest := fun other hother => hrows other (List.mem_cons_of_mem _ hother)
    simp only [applyTradeThrough] at h
    simp only [tradeFills]
    split at h
    · rename_i hsize
      rw [if_pos hsize]
      cases h
      exact ⟨⟨.of_same rfl fun _ _ => .inl rfl, fun _ hfill => (by cases hfill),
        fun _ hfill => (by cases hfill)⟩, fun row hrow _ => hrow⟩
    · rename_i hsize
      rw [if_neg hsize]
      split at h
      · rename_i hskip
        rw [if_pos hskip]
        obtain ⟨hfollowed, hkept⟩ := ih hids hkeys hrest hdistinct h
        exact ⟨hfollowed, fun other hother hnot => hkept other hother fun o ho =>
          hnot o (List.mem_cons_of_mem _ ho)⟩
      · rename_i hfills
        rw [if_neg hfills]
        split at h
        · cases h
        · rename_i b₁ db₁ _ hfilled
          obtain ⟨rfl, -, -, hpaper⟩ := fillRestingOrder_ok hkeys hrow hfilled
          let fill : TradeFill := ⟨row, b, min row.remainingQuantity size⟩
          have horders := @fillRestingOrder_orders db hids trade now fill b _ db₁ _ hfilled
          have hids₁ : (db₁.orders.map OrderRecord.id).Nodup := by
            rcases horders with ⟨o, -, hreplaced⟩ | ⟨-, hsame⟩
            · rw [hreplaced, Table.map_key_replace]
              exact hids
            · rwa [hsame]
          have hkeys₁ : (db₁.paperVenueOrders.map PaperVenueOrder.venueOrderId).Nodup := by
            rw [hpaper, Table.map_key_replace]
            exact hkeys
          have hother : ∀ other ∈ db.paperVenueOrders, other.venueOrderId ≠ row.venueOrderId →
              other ∈ db₁.paperVenueOrders := by
            intro other hmem hne
            rw [hpaper]
            exact Table.mem_replace.mpr (.inl ⟨hmem, hne⟩)
          have hdiffers : ∀ other ∈ rows, other.venueOrderId ≠ row.venueOrderId :=
            fun other hmem heq => hfresh (List.mem_map.mpr ⟨other, hmem, heq⟩)
          obtain ⟨hlater, hkept⟩ := ih hids₁ hkeys₁
            (fun other hmem => hother other (hrest other hmem) (hdiffers other hmem)) hdistinct h
          have htail := fun later (hlater : later ∈ tradeFills trade rows
              (size - min row.remainingQuantity size)
              (b.fill row trade.price (min row.remainingQuantity size))) =>
            hdiffers later.row (tradeFills_mem later hlater).1
          have hrowFilled : fill.filled trade ∈ db'.paperVenueOrders := by
            refine hkept _ ?_ hdiffers
            rw [hpaper]
            exact Table.mem_replace.mpr (.inr ⟨rfl, row, hrow, rfl⟩)
          refine ⟨?_, fun other hmem hnot => hkept other (hother other hmem fun heq =>
            hnot row List.mem_cons_self heq.symm) fun o ho => hnot o (List.mem_cons_of_mem _ ho)⟩
          rcases horders with ⟨core, hcore, hreplaced⟩ | ⟨hnone, hsame⟩
          · exact hlater.cons_follower hids hcore hreplaced htail hrowFilled
          · exact hlater.cons_idle hnone hsame hrowFilled

/-! ## What the operations leave alone -/

/-- The prepared payloads and the reservations stay, and identifiers are only drawn. -/
structure KeepsPlans (db db' : Db) : Prop where
  preparedOrders : db'.preparedOrders = db.preparedOrders
  riskReservations : db'.riskReservations = db.riskReservations
  drawn : db.nextUuid ≤ db'.nextUuid

theorem KeepsPlans.refl (db : Db) : KeepsPlans db db := ⟨rfl, rfl, le_rfl⟩

theorem KeepsPlans.trans {a b c : Db} (hab : KeepsPlans a b) (hbc : KeepsPlans b c) :
    KeepsPlans a c :=
  ⟨hbc.preparedOrders.trans hab.preparedOrders, hbc.riskReservations.trans hab.riskReservations,
    hab.drawn.trans hbc.drawn⟩

theorem applyMatchedFill_plans {order : OrderRecord} {venueOrderId : Option String}
    {filled : Decimal} {price : Option Decimal} {ids : List String} {now : Time} :
    KeepsPlans db (applyMatchedFill db order venueOrderId filled price ids now).1 := by
  obtain ⟨_, _, _, _, _, hdrawn, hframe⟩ := applyMatchedFill_frame db order venueOrderId filled
    price ids now
  rw [hframe]
  exact ⟨rfl, rfl, hdrawn⟩

theorem applyMatchedFill_keepsPlans {order : OrderRecord} {venueOrderId : Option String}
    {filled : Decimal} {price : Option Decimal} {ids : List String} {now : Time}
    {result : Db × Option ExecutionEvent}
    (h : applyMatchedFill db order venueOrderId filled price ids now = result) :
    SamePaper db result.1 ∧ KeepsPlans db result.1 := by
  subst h
  exact ⟨applyMatchedFill_paper, applyMatchedFill_plans⟩

theorem beginSubmission_keepsPlans {intentId orderId : Uuid} {r : Committed Unit}
    (h : beginSubmission intentId orderId db = .ok r) : SamePaper db r.db ∧ KeepsPlans db r.db := by
  unfold beginSubmission at h
  split at h
  · cases h
  · split at h
    · cases h
    · split at h
      · cases h
      · cases h
        exact ⟨⟨rfl, rfl, rfl⟩, ⟨rfl, rfl, le_rfl⟩⟩

theorem finishSubmission_keepsPlans {intentId orderId : Uuid} {intentState : IntentState}
    {state : OrderState} {venueOrderId : Option String} {responseClass : String}
    {filled : Decimal} {price : Option Decimal} {ids : List String} {now : Time}
    {r : Committed Unit}
    (h : finishSubmission intentId orderId intentState state venueOrderId responseClass filled
      price ids now db = .ok r) : SamePaper db r.db ∧ KeepsPlans db r.db := by
  unfold finishSubmission at h
  split at h
  · cases h
  · split at h
    · cases h
    · dsimp only at h
      split at h
      · cases h
      · split at h
        · cases h
        · split at h
          · generalize hfill : applyMatchedFill _ _ _ _ _ _ _ = result at h
            cases h
            obtain ⟨hpaper, hplans⟩ := applyMatchedFill_keepsPlans hfill
            exact ⟨⟨hpaper.account, hpaper.inventory, hpaper.orders⟩,
              ⟨hplans.preparedOrders, hplans.riskReservations, hplans.drawn⟩⟩
          · cases h
            exact ⟨⟨rfl, rfl, rfl⟩, ⟨rfl, rfl, le_rfl⟩⟩

theorem recoverInterruptedRows_keepsPlans {rows : List UnknownSubmission} :
    SamePaper db (recoverInterruptedRows rows db).1 ∧
      KeepsPlans db (recoverInterruptedRows rows db).1 := by
  induction rows generalizing db with
  | nil => exact ⟨.refl db, .refl db⟩
  | cons row rows ih =>
    have hrow : SamePaper db (recoverInterrupted row db).1 ∧
        KeepsPlans db (recoverInterrupted row db).1 := ⟨⟨rfl, rfl, rfl⟩, ⟨rfl, rfl, le_rfl⟩⟩
    obtain ⟨hpaper, hplans⟩ := @ih (recoverInterrupted row db).1
    exact ⟨hrow.1.trans hpaper, hrow.2.trans hplans⟩

theorem resolveUnknownSubmission_keepsPlans {unknown : UnknownSubmission} {venueOrderId : String}
    {state : OrderState} {remaining filled : Decimal} {price : Option Decimal} {ids : List String}
    {now : Time} {r : Committed Unit}
    (h : resolveUnknownSubmission unknown venueOrderId state remaining filled price ids now db =
      .ok r) : SamePaper db r.db ∧ KeepsPlans db r.db := by
  unfold resolveUnknownSubmission at h
  split at h
  · cases h
    exact ⟨.refl db, .refl db⟩
  · split at h
    · cases h
    · split at h
      · cases h
      · split at h
        · cases h
        · dsimp only at h
          generalize hfill : applyMatchedFill _ _ _ _ _ _ _ = result at h
          cases h
          obtain ⟨hpaper, hplans⟩ := applyMatchedFill_keepsPlans hfill
          exact ⟨⟨hpaper.account, hpaper.inventory, hpaper.orders⟩,
            ⟨hplans.preparedOrders, hplans.riskReservations, hplans.drawn⟩⟩

theorem transitionOrder_keepsPlans {id : Uuid} {next : OrderState} {venueOrderId : Option String}
    {r : Committed OrderRecord} (h : transitionOrder id next venueOrderId db = .ok r) :
    SamePaper db r.db ∧ KeepsPlans db r.db := by
  unfold transitionOrder at h
  split at h
  · cases h
  · split at h
    · cases h
      exact ⟨.refl db, .refl db⟩
    · split at h
      · cases h
      · cases h
        exact ⟨⟨rfl, rfl, rfl⟩, ⟨rfl, rfl, le_rfl⟩⟩

theorem cancelPreparedOrder_keepsPlans {orderId : Uuid} {r : Committed OrderRecord}
    (h : cancelPreparedOrder orderId db = .ok r) : SamePaper db r.db ∧ KeepsPlans db r.db := by
  unfold cancelPreparedOrder at h
  split at h
  · cases h
  · cases h
    exact ⟨⟨rfl, rfl, rfl⟩, ⟨rfl, rfl, le_rfl⟩⟩

theorem reconcileOrderProjection_keepsPlans {orderId : Uuid} {observed : OrderState}
    {remaining total : Decimal} {price : Option Decimal} {ids : List String} {now : Time}
    {r : Committed Unit}
    (h : reconcileOrderProjection orderId observed remaining total price ids now db = .ok r) :
    SamePaper db r.db ∧ KeepsPlans db r.db := by
  unfold reconcileOrderProjection at h
  split at h
  · cases h
  · split at h
    · cases h
    · split at h
      · cases h
      · dsimp only at h
        split at h
        · cases h
          exact ⟨.refl db, .refl db⟩
        · generalize hfill : applyMatchedFill _ _ _ _ _ _ _ = result at h
          cases h
          obtain ⟨hpaper, hplans⟩ := applyMatchedFill_keepsPlans hfill
          exact ⟨⟨hpaper.account, hpaper.inventory, hpaper.orders⟩,
            ⟨hplans.preparedOrders, hplans.riskReservations, hplans.drawn⟩⟩

theorem createPreparedOrder_paper {intentId : Uuid} {request : OrderIntentRequest}
    {prepared : PreparedVenueOrder} {policyVersion : String} {feeRate : Decimal} {now : Time}
    {r : Committed OrderRecord}
    (h : createPreparedOrder intentId request prepared policyVersion feeRate now db = .ok r) :
    SamePaper db r.db := by
  unfold createPreparedOrder at h
  split at h
  · cases h
  · split at h
    · cases h
    · dsimp only at h
      split at h
      · cases h
      · split at h
        · cases h
        · split at h
          · cases h
          · split at h
            · cases h
            · cases h
              exact ⟨rfl, rfl, rfl⟩

theorem fillRestingOrder_plans {trade : PaperTrade} {now : Time} {row : PaperVenueOrder}
    {fill : Decimal} {b b' : PaperBalances} {db' : Db} {events : List ExecutionEvent}
    (h : fillRestingOrder trade now row fill b db = .ok (b', db', events)) : KeepsPlans db db' := by
  unfold fillRestingOrder at h
  dsimp only at h
  split at h
  · cases h
  · cases h
    unfold fillCoreOrder
    dsimp only [Db.appendEvent]
    split
    · exact ⟨rfl, rfl, le_rfl⟩
    · split
      · generalize hfill : applyMatchedFill _ _ _ _ _ _ _ = result
        obtain ⟨-, hplans⟩ := applyMatchedFill_keepsPlans hfill
        exact ⟨hplans.preparedOrders, hplans.riskReservations, hplans.drawn⟩
      · exact ⟨rfl, rfl, le_rfl⟩

theorem applyTradeThrough_plans {trade : PaperTrade} {now : Time} {rows : List PaperVenueOrder}
    {size : Decimal} {count count' : Nat} {b b' : PaperBalances} {db' : Db}
    {events events' : List ExecutionEvent}
    (h : applyTradeThrough trade now rows size count b db events =
      .ok (count', b', db', events')) : KeepsPlans db db' := by
  induction rows generalizing size count b db events with
  | nil =>
    cases h
    exact .refl _
  | cons row rows ih =>
    simp only [applyTradeThrough] at h
    split at h
    · cases h
      exact .refl _
    · split at h
      · exact ih h
      · split at h
        · cases h
        · rename_i hfilled
          exact (fillRestingOrder_plans hfilled).trans (ih h)

/-- The orders a trade fills in a ledger that does not know its event. -/
def Db.fillsOf (db : Db) (account : PaperAccount) (trade : PaperTrade) : List TradeFill :=
  tradeFills trade (db.restingPaperOrders trade.tokenId trade.observedAt) trade.size
    (db.paperBalances account trade.tokenId)

/-- A trade-through finds a known event and changes nothing, or fills the orders it crosses and
lets their followers follow. -/
theorem applyPaperTradeThrough_followed (hids : (db.orders.map OrderRecord.id).Nodup)
    (hkeys : (db.paperVenueOrders.map PaperVenueOrder.venueOrderId).Nodup) {mode : Mode}
    {trade : PaperTrade} {now : Time} {r : Committed Nat}
    (h : applyPaperTradeThrough mode trade now db = .ok r) :
    KeepsPlans db r.db ∧
      (((∃ e ∈ db.paperMarketEvents, e.eventId = trade.eventId) ∧ r.db = db) ∨
        ∃ account, db.paperAccount = some account ∧
          TradeFollowed trade (db.fillsOf account trade) db r.db) := by
  unfold applyPaperTradeThrough at h
  split at h
  · cases h
  · split at h
    · cases h
    · dsimp only at h
      split at h
      · rename_i hknown
        cases h
        exact ⟨.refl db, .inl ⟨Table.insertNew_eq_none.mp hknown, rfl⟩⟩
      · split at h
        · cases h
        · rename_i account haccount
          split at h
          · cases h
          · rename_i paperMarketEvents _ _ _ count b db₁ events hloop
            cases h
            have hids₀ : (({ db with paperMarketEvents } : Db).orders.map
                OrderRecord.id).Nodup := hids
            have hkeys₀ : (({ db with paperMarketEvents } : Db).paperVenueOrders.map
                PaperVenueOrder.venueOrderId).Nodup := hkeys
            obtain ⟨⟨hturns, hfollowed, hfilled⟩, -⟩ := applyTradeThrough_followed hids₀ hkeys₀
              (fun row hrow => (Db.resting_mem hrow).1)
              (Db.resting_nodup hkeys₀ trade.tokenId trade.observedAt) hloop
            have hplans := applyTradeThrough_plans hloop
            exact ⟨⟨hplans.preparedOrders, hplans.riskReservations, hplans.drawn⟩,
              .inr ⟨account, haccount, hturns, hfollowed, hfilled⟩⟩

end Operations

end OddsfoxExecution
