import OddsfoxExecution.Store.OrderTurns
import OddsfoxExecution.Store.Run

/-!
# The operations on orders

The operations that write the orders or the orders of the paper venue, with
what each of them does to both, and the bounds every order keeps.
-/

namespace OddsfoxExecution

/-- The operations on the orders, and on the orders of the paper venue. -/
inductive OrderOp where
  | call (call : StoreCall)
  | commitPaper (order : PaperOrderCommit)
  | cancelPaper (venueOrderId : String)

def OrderOp.run (config : StoreConfig) (now : Time) : OrderOp → Db → Tx Unit
  | .call c, db => forget (c.run config now db)
  | .commitPaper order, db => forget (commitPaperOrder config.mode order now db)
  | .cancelPaper venueOrderId, db => forget (cancelPaperOrder config.mode venueOrderId db)

/-- The operations of the store that write the orders. -/
def StoreCall.writesOrders : StoreCall → Bool
  | createPreparedOrder .. | beginSubmission .. | finishSubmission .. => true
  | recoverInterruptedSubmissions | resolveUnknownSubmission .. => true
  | transitionOrder .. | cancelPreparedOrder .. | reconcileOrderProjection .. => true
  | applyPaperTradeThrough .. => true
  | _ => false

/-! ## What an operation does -/

/-- What a successful operation on orders does to the orders and to the ledger. -/
inductive OrderEffect (mode : Mode) (now : Time) (db : Db) : OrderOp → Db → Prop
  | opened {intentId : Uuid} {request : OrderIntentRequest} {prepared : PreparedVenueOrder}
      {policyVersion : String} {feeRate : Decimal} {db' : Db}
      (hopened : OrderOpened db db' intentId prepared.deterministicOrderId)
      (hpaper : SamePaper db db') :
      OrderEffect mode now db
        (.call (.createPreparedOrder intentId request prepared policyVersion feeRate)) db'
  | turned {call : StoreCall} {db' : Db} (hcall : ∀ trade, call ≠ .applyPaperTradeThrough trade)
      (hturns : OrdersTurn (call.Turns db) db db') (hpaper : SamePaper db db')
      (hplans : KeepsPlans db db') : OrderEffect mode now db (.call call) db'
  | known {trade : PaperTrade} (hknown : ∃ e ∈ db.paperMarketEvents, e.eventId = trade.eventId) :
      OrderEffect mode now db (.call (.applyPaperTradeThrough trade)) db
  | traded {trade : PaperTrade} {account : PaperAccount} {db' : Db} (hmode : mode = .paper)
      (haccount : db.paperAccount = some account)
      (hfollowed : TradeFollowed trade (db.fillsOf account trade) db db')
      (htraded : db.TradedThrough trade db') (hplans : KeepsPlans db db') :
      OrderEffect mode now db (.call (.applyPaperTradeThrough trade)) db'
  | committed {order : PaperOrderCommit} {db' : Db} (horders : db'.orders = db.orders)
      (hplans : KeepsPlans db db')
      (hrows : db'.paperVenueOrders = db.paperVenueOrders ∨
        (∀ row ∈ db.paperVenueOrders, row.venueOrderId ≠ order.venueOrderId) ∧
          db'.paperVenueOrders = db.paperVenueOrders ++ [order.row now]) :
      OrderEffect mode now db (.commitPaper order) db'
  | cancelled {venueOrderId : String} {db' : Db} (horders : db'.orders = db.orders)
      (hplans : KeepsPlans db db')
      (hrows : db'.paperVenueOrders = db.paperVenueOrders ∨ ∃ row ∈ db.paperVenueOrders,
        db'.paperVenueOrders =
          Table.replace PaperVenueOrder.venueOrderId row.cancel db.paperVenueOrders) :
      OrderEffect mode now db (.cancelPaper venueOrderId) db'

theorem commitPaperOrder_core {mode : Mode} {order : PaperOrderCommit} {now : Time} {db : Db}
    {r : Committed PaperOrderSnapshot} (h : commitPaperOrder mode order now db = .ok r) :
    mode = .paper ∧ r.db.orders = db.orders ∧ KeepsPlans db r.db := by
  unfold commitPaperOrder at h
  split at h
  · cases h
  · rename_i hmode
    refine ⟨not_not.mp hmode, ?_⟩
    split at h
    · split at h
      · cases h
      · cases h
        exact ⟨rfl, .refl _⟩
    · split at h
      · cases h
      · split at h
        · cases h
        · cases h
          exact ⟨rfl, rfl, rfl, le_rfl⟩

theorem cancelPaperOrder_core {mode : Mode} {venueOrderId : String} {db : Db}
    {r : Committed PaperOrderSnapshot} (h : cancelPaperOrder mode venueOrderId db = .ok r) :
    mode = .paper ∧ r.db.orders = db.orders ∧ KeepsPlans db r.db := by
  unfold cancelPaperOrder at h
  split at h
  · cases h
  · rename_i hmode
    refine ⟨not_not.mp hmode, ?_⟩
    split at h
    · cases h
    · split at h
      · cases h
        exact ⟨rfl, rfl, rfl, le_rfl⟩
      · split at h
        · cases h
        · cases h
          exact ⟨rfl, rfl, rfl, le_rfl⟩

theorem applyPaperTradeThrough_mode {mode : Mode} {trade : PaperTrade} {now : Time} {db : Db}
    {r : Committed Nat} (h : applyPaperTradeThrough mode trade now db = .ok r) : mode = .paper := by
  unfold applyPaperTradeThrough at h
  split at h
  · cases h
  · rename_i hmode
    exact not_not.mp hmode

theorem forget_ok {α : Type} {tx : Tx α} {r : Committed Unit} (h : forget tx = .ok r) :
    ∃ committed, tx = .ok committed ∧ r.db = committed.db := by
  cases tx with
  | error e => cases h
  | ok committed =>
    cases h
    exact ⟨committed, rfl, rfl⟩

theorem OrderOp.run_effect {config : StoreConfig} {now : Time} {db : Db} {op : OrderOp}
    {r : Committed Unit} (hids : (db.orders.map OrderRecord.id).Nodup)
    (hkeys : config.mode = .paper →
      (db.paperVenueOrders.map PaperVenueOrder.venueOrderId).Nodup)
    (hop : ∀ call, op = .call call → call.writesOrders = true)
    (h : op.run config now db = .ok r) : OrderEffect config.mode now db op r.db := by
  cases op with
  | commitPaper order =>
    obtain ⟨committed, hrun, hdb⟩ := forget_ok h
    rw [hdb]
    obtain ⟨-, horders, hplans⟩ := commitPaperOrder_core hrun
    exact .committed horders hplans (commitPaperOrder_orders hrun).2
  | cancelPaper venueOrderId =>
    obtain ⟨committed, hrun, hdb⟩ := forget_ok h
    rw [hdb]
    obtain ⟨hmode, horders, hplans⟩ := cancelPaperOrder_core hrun
    exact .cancelled horders hplans (cancelPaperOrder_orders (hkeys hmode) hrun).2
  | call call =>
    obtain ⟨committed, hrun, hdb⟩ := forget_ok h
    rw [hdb]
    have hcall := hop call rfl
    cases call
    case createPreparedOrder =>
      exact .opened (createPreparedOrder_opened hrun) (createPreparedOrder_paper hrun)
    case beginSubmission =>
      obtain ⟨hpaper, hplans⟩ := beginSubmission_keepsPlans hrun
      exact .turned nofun (beginSubmission_turns hrun) hpaper hplans
    case finishSubmission =>
      obtain ⟨hpaper, hplans⟩ := finishSubmission_keepsPlans hrun
      exact .turned nofun (finishSubmission_turns hids hrun) hpaper hplans
    case recoverInterruptedSubmissions =>
      have hturns := recoverInterruptedSubmissions_turns hids hrun
      cases hrun
      exact .turned nofun hturns recoverInterruptedRows_keepsPlans.1
        recoverInterruptedRows_keepsPlans.2
    case resolveUnknownSubmission =>
      obtain ⟨hpaper, hplans⟩ := resolveUnknownSubmission_keepsPlans hrun
      exact .turned nofun (resolveUnknownSubmission_turns hids hrun) hpaper hplans
    case transitionOrder =>
      obtain ⟨hpaper, hplans⟩ := transitionOrder_keepsPlans hrun
      exact .turned nofun (transitionOrder_turns hids hrun) hpaper hplans
    case cancelPreparedOrder =>
      obtain ⟨hpaper, hplans⟩ := cancelPreparedOrder_keepsPlans hrun
      exact .turned nofun (cancelPreparedOrder_turns hids hrun) hpaper hplans
    case reconcileOrderProjection =>
      obtain ⟨hpaper, hplans⟩ := reconcileOrderProjection_keepsPlans hrun
      exact .turned nofun (reconcileOrderProjection_turns hids hrun) hpaper hplans
    case applyPaperTradeThrough trade =>
      have hmode := applyPaperTradeThrough_mode hrun
      have hkeys := hkeys hmode
      obtain ⟨hplans, ⟨hknown, hsame⟩ | ⟨account, haccount, hfollowed⟩⟩ :=
        applyPaperTradeThrough_followed hids hkeys hrun
      · rw [hsame]
        exact .known hknown
      · rcases applyPaperTradeThrough_ok hkeys hrun with ⟨hknown, hsame⟩ | htraded
        · rw [hsame]
          exact .known hknown
        · exact .traded hmode haccount hfollowed htraded hplans
    all_goals cases hcall

/-! ## One order -/

/-- What holds of every order. -/
structure OrderRecord.Bounded (o : OrderRecord) : Prop where
  positive : 0 < o.originalQuantity
  nonneg : 0 ≤ o.remainingQuantity
  within : o.remainingQuantity ≤ o.originalQuantity
  whole : o.state = .prepared ∨ o.state = .submitting → o.remainingQuantity = o.originalQuantity

theorem OrderRecord.Bounded.localFilled_eq {o : OrderRecord} (h : o.Bounded) :
    o.localFilled = o.originalQuantity - o.remainingQuantity :=
  OrderRecord.localFilled_eq h.within

/-- The order with a new state and a new remaining quantity. -/
theorem OrderRecord.Bounded.of_remaining {o o' : OrderRecord} (h : o.Bounded)
    (horiginal : o'.originalQuantity = o.originalQuantity) (hnonneg : 0 ≤ o'.remainingQuantity)
    (hwithin : o'.remainingQuantity ≤ o.originalQuantity)
    (hstate : o'.state ≠ .prepared ∧ o'.state ≠ .submitting) : o'.Bounded where
  positive := horiginal ▸ h.positive
  nonneg := hnonneg
  within := horiginal ▸ hwithin
  whole := fun hopen => absurd hopen (not_or.mpr hstate)

theorem submissionRemaining_bounds {originalQuantity filled remaining : Decimal}
    {state : OrderState}
    (h : AcceptedEvidence originalQuantity state remaining filled) :
    0 ≤ submissionRemaining originalQuantity state filled ∧
      filled + submissionRemaining originalQuantity state filled ≤ originalQuantity := by
  have hnonneg := h.remaining_nonneg
  have hfilled := h.filled_nonneg
  have hwithin := h.within
  unfold submissionRemaining
  split
  · exact ⟨le_rfl, by linarith⟩
  · rw [max_eq_left (by linarith)]
    exact ⟨by linarith, by linarith⟩

/-- The states evidence projects onto an order are none of the executor's before a submission. -/
theorem projectedState_ne {prior observed : OrderState}
    (h : observed ≠ .prepared ∧ observed ≠ .submitting ∧ observed ≠ .cancelPending) :
    projectedState prior observed ≠ .prepared ∧ projectedState prior observed ≠ .submitting := by
  unfold projectedState
  split
  · exact ⟨nofun, nofun⟩
  · exact ⟨h.1, h.2.1⟩

theorem validOrderTransition_ne {prior next : OrderState}
    (h : validOrderTransition prior next = true) (hne : next ≠ prior) :
    next ≠ .prepared ∧ next ≠ .submitting := by
  cases prior <;> cases next <;> simp_all [validOrderTransition]

section Turns

variable {db : Db} {call : StoreCall} {o o' : OrderRecord}

/-- What an operation makes of an order keeps its bounds. -/
theorem StoreCall.Turns.bounded (h : call.Turns db o o') (ho : o.Bounded) :
    o'.Bounded ∧ o'.intentId = o.intentId ∧ o'.originalQuantity = o.originalQuantity := by
  have hsame : o' = o → o'.Bounded ∧ o'.intentId = o.intentId ∧
      o'.originalQuantity = o.originalQuantity := by
    rintro rfl
    exact ⟨ho, rfl, rfl⟩
  unfold StoreCall.Turns at h
  split at h
  case h_1 =>
    rcases h with hkept | ⟨hprepared, rfl⟩
    · exact hsame hkept
    · exact ⟨⟨ho.positive, ho.nonneg, ho.within, fun _ => ho.whole (.inl hprepared)⟩, rfl, rfl⟩
  case h_2 =>
    split at h
    · obtain ⟨-, haccepted, rfl⟩ := h
      obtain ⟨hnonneg, hwithin⟩ := submissionRemaining_bounds haccepted
      refine ⟨ho.of_remaining rfl hnonneg ?_ ⟨haccepted.reportable.1, haccepted.reportable.2.1⟩,
        rfl, rfl⟩
      exact (le_add_of_nonneg_left haccepted.filled_nonneg).trans hwithin
    · exact hsame h
  case h_3 =>
    rcases h with hkept | ⟨deterministicOrderId, -, rfl⟩
    · exact hsame hkept
    · exact ⟨ho.of_remaining rfl ho.nonneg ho.within ⟨nofun, nofun⟩, rfl, rfl⟩
  case h_4 =>
    split at h
    · obtain ⟨-, haccepted, rfl⟩ := h
      refine ⟨ho.of_remaining rfl haccepted.remaining_nonneg ?_
        ⟨haccepted.reportable.1, haccepted.reportable.2.1⟩, rfl, rfl⟩
      exact (le_add_of_nonneg_right haccepted.filled_nonneg).trans haccepted.within
    · exact hsame h
  case h_5 next _ =>
    rcases h with hkept | ⟨-, hvalid, rfl⟩
    · exact hsame hkept
    · by_cases hnext : next = o.state
      · refine ⟨⟨ho.positive, ho.nonneg, ho.within, fun hopen => ho.whole ?_⟩, rfl, rfl⟩
        rwa [← hnext]
      · exact ⟨ho.of_remaining rfl ho.nonneg ho.within (validOrderTransition_ne hvalid hnext), rfl,
          rfl⟩
  case h_6 =>
    rcases h with hkept | ⟨-, rfl⟩
    · exact hsame hkept
    · exact ⟨ho.of_remaining rfl ho.nonneg ho.within ⟨nofun, nofun⟩, rfl, rfl⟩
  case h_7 =>
    split at h
    · obtain ⟨haccepted, -, rfl⟩ := h
      refine ⟨ho.of_remaining rfl haccepted.remaining_nonneg ?_
        (projectedState_ne haccepted.reportable), rfl, rfl⟩
      exact (le_add_of_nonneg_right haccepted.filled_nonneg).trans haccepted.within
    · exact hsame h
  case h_8 => exact hsame h

end Turns

/-! ## All orders -/

structure OrdersSound (db : Db) : Prop where
  ids : (db.orders.map OrderRecord.id).Nodup
  drawn : ∀ o ∈ db.orders, o.id < db.nextUuid
  bounded : ∀ o ∈ db.orders, o.Bounded
  reserved : ∀ r ∈ db.riskReservations, 0 < r.quantity

section Keeps

variable {db db' : Db} {R : OrderRecord → OrderRecord → Prop}

theorem OrdersSound.turned (h : OrdersSound db) (hturns : OrdersTurn R db db')
    (hplans : KeepsPlans db db') (hbounded : ∀ o ∈ db.orders, ∀ o', R o o' → o'.Bounded) :
    OrdersSound db' := by
  refine ⟨hturns.ids ▸ h.ids, ?_, ?_, fun r hr => h.reserved r (hplans.riskReservations ▸ hr)⟩
  · intro o' ho'
    obtain ⟨o, ho, hid, -⟩ := hturns.origin o' ho'
    rw [hid]
    exact (h.drawn o ho).trans_le hplans.drawn
  · intro o' ho'
    obtain ⟨o, ho, -, hturn⟩ := hturns.origin o' ho'
    exact hbounded o ho o' hturn

theorem OrdersSound.opened (h : OrdersSound db) {intentId : Uuid} {deterministicOrderId : String}
    (hopened : OrderOpened db db' intentId deterministicOrderId) : OrdersSound db' := by
  obtain ⟨⟨o, horders, hid, -, -, hstate, hremaining, r, hr, hquantity⟩, -, hreserved, hdrawn⟩ :=
    hopened
  have hpositive := h.reserved r hr
  constructor
  case ids =>
    rw [horders]
    refine Table.nodup_append_row h.ids fun other hother heq => ?_
    have hless := h.drawn other hother
    rw [heq, hid] at hless
    exact absurd hless (Nat.not_lt.mpr (Nat.le_add_right _ 2))
  case drawn =>
    rw [horders, hdrawn]
    refine List.forall_mem_append.mpr ⟨fun other hother => (h.drawn other hother).trans ?_, ?_⟩
    · exact Nat.lt_add_of_pos_right (by decide)
    · rw [List.forall_mem_singleton, hid]
      exact Nat.lt_succ_self _
  case bounded =>
    rw [horders]
    refine List.forall_mem_append.mpr ⟨h.bounded, List.forall_mem_singleton.mpr ?_⟩
    rw [← hquantity] at hpositive
    exact ⟨hpositive, hremaining ▸ hpositive.le, hremaining.le, fun _ => hremaining⟩
  case reserved =>
    intro r' hr'
    have hmem := List.mem_map_of_mem (f := RiskReservation.quantity) hr'
    rw [hreserved] at hmem
    obtain ⟨r, hr, heq⟩ := List.mem_map.mp hmem
    exact heq ▸ h.reserved r hr

theorem OrdersSound.of_same (h : OrdersSound db) (horders : db'.orders = db.orders)
    (hplans : KeepsPlans db db') : OrdersSound db' :=
  ⟨horders ▸ h.ids, fun o ho => (h.drawn o (horders ▸ ho)).trans_le hplans.drawn,
    fun o ho => h.bounded o (horders ▸ ho), fun r hr => h.reserved r (hplans.riskReservations ▸ hr)⟩

/-- The ledger still stands behind the orders when they turn and its rows move on. -/
theorem OrdersSound.eq_of_id (h : OrdersSound db) {o o' : OrderRecord} (ho : o ∈ db.orders)
    (ho' : o' ∈ db.orders) (hid : o.id = o'.id) : o = o' :=
  Table.eq_of_key_eq h.ids ho ho' hid

end Keeps

end OddsfoxExecution
