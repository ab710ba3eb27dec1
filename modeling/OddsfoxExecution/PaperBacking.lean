import OddsfoxExecution.Store.OrderOps

/-!
# The ledger behind the orders

In paper mode the executor's orders copy what the rows of the paper venue's
ledger report, now or earlier.  A row that rests never has more remaining than
an active order that copies it.
-/

namespace OddsfoxExecution

/-! ## What the ledger reports -/

/-- The venue's identifier is the one the prepared payload of the order determines. -/
def Db.OwnId (db : Db) (orderId : Uuid) (venueOrderId : String) : Prop :=
  ∀ o ∈ db.orders, o.id = orderId → db.Determines o venueOrderId

/-- The paper ledger has reported the snapshot of an order, now or earlier. -/
def PaperOrderSnapshot.ReportedFor (snapshot : PaperOrderSnapshot) (past : List Db) (db : Db)
    (orderId : Uuid) : Prop :=
  db.OwnId orderId snapshot.venueOrderId ∧
    ∃ earlier ∈ db :: past, earlier.findPaperOrder snapshot.venueOrderId = some snapshot

/-- `PaperVenue::submit` builds the order from the request the executor's order was reserved for. -/
def PaperOrderCommit.BuiltFor (order : PaperOrderCommit) (o : OrderRecord) : Prop :=
  ∃ request book market reserved price quantity quote,
    request.quantityDecimal = .ok quantity ∧
      conservativeExposure request reserved quantity price = some (o.originalQuantity, quote) ∧
      PaperVenue.order order.venueOrderId request book market = some order

/-- What the executor and its paper venue hand the store in paper mode: an intent is prepared once
and under a new identifier, the venue's evidence is a snapshot of its ledger, taken now or
earlier, and an order of the ledger is built from the executor's. -/
def OrderOp.FromLedger (past : List Db) (db : Db) : OrderOp → Prop
  | .call (.createPreparedOrder intentId _ prepared _ _) =>
    (∀ p ∈ db.preparedOrders, p.intentId ≠ intentId) ∧
      ∀ row ∈ db.paperVenueOrders, row.venueOrderId ≠ prepared.deterministicOrderId
  | .call (.finishSubmission _ orderId _ state venueOrderId _ filled _ _) =>
    ((state = .unknown ∨ state = .rejected) ∧
        ∀ id, venueOrderId = some id → db.OwnId orderId id) ∨
      ∃ snapshot : PaperOrderSnapshot, snapshot.ReportedFor past db orderId ∧
        venueOrderId = some snapshot.venueOrderId ∧ state = snapshot.state ∧
        filled = snapshot.filledQuantity
  | .call (.resolveUnknownSubmission unknown venueOrderId state remaining filled _ _) =>
    ∃ snapshot : PaperOrderSnapshot, snapshot.ReportedFor past db unknown.orderId ∧
      venueOrderId = snapshot.venueOrderId ∧ state = snapshot.state ∧
      remaining = snapshot.remainingQuantity ∧ filled = snapshot.filledQuantity
  | .call (.reconcileOrderProjection orderId state remaining total _ _) =>
    ∃ snapshot : PaperOrderSnapshot, snapshot.ReportedFor past db orderId ∧
      state = snapshot.state ∧ remaining = snapshot.remainingQuantity ∧
      total = snapshot.filledQuantity
  | .call (.transitionOrder id _ venueOrderId) =>
    ∀ name, venueOrderId = some name → db.OwnId id name
  | .commitPaper order =>
    ∀ o ∈ db.orders, db.Determines o order.venueOrderId → order.BuiltFor o
  | _ => True

/-! ## The ledger and the orders -/

/-- A row of the ledger of an earlier time and the row of the same order now. -/
structure PaperVenueOrder.Leads (row row' : PaperVenueOrder) : Prop where
  venueOrderId : row'.venueOrderId = row.venueOrderId
  filled : row.filledQuantity ≤ row'.filledQuantity
  resting : row'.resting = true → row.resting = true ∧
    row'.remainingQuantity ≤ row.remainingQuantity
  total : row'.resting = true → row'.filledQuantity + row'.remainingQuantity =
    row.filledQuantity + row.remainingQuantity
  nonneg : row'.resting = true → 0 ≤ row.remainingQuantity → 0 ≤ row'.remainingQuantity

def Db.Backed (db : Db) (venueOrderId : String) (remaining : Decimal) : Prop :=
  ∃ row ∈ db.paperVenueOrders, row.venueOrderId = venueOrderId ∧
    (row.resting = true → row.remainingQuantity ≤ remaining)

/-- The paper ledger stands behind the executor's orders. -/
structure LedgerBacks (past : List Db) (db : Db) : Prop where
  keys : (db.paperVenueOrders.map PaperVenueOrder.venueOrderId).Nodup
  intents : (db.preparedOrders.map PreparedOrder.intentId).Nodup
  prepared : ∀ o ∈ db.orders, ∃ id, db.Determines o id
  named : ∀ o ∈ db.orders, ∀ id, o.venueOrderId = some id → db.Determines o id
  rows : ∀ o ∈ db.orders, ∀ row ∈ db.paperVenueOrders, db.Determines o row.venueOrderId →
    row.resting = true → row.filledQuantity + row.remainingQuantity = o.originalQuantity ∧
      0 ≤ row.remainingQuantity
  backed : ∀ o ∈ db.orders, o.state.active = true → ∀ id, db.Determines o id →
    db.Backed id o.remainingQuantity
  past : ∀ earlier ∈ past, ∀ row ∈ earlier.paperVenueOrders, ∃ row' ∈ db.paperVenueOrders,
    row.Leads row'

theorem PaperVenueOrder.Leads.refl (row : PaperVenueOrder) : row.Leads row :=
  ⟨rfl, le_rfl, fun hresting => ⟨hresting, le_rfl⟩, fun _ => rfl, fun _ hnonneg => hnonneg⟩

theorem PaperVenueOrder.Leads.trans {a b c : PaperVenueOrder} (hab : a.Leads b) (hbc : b.Leads c) :
    a.Leads c where
  venueOrderId := hbc.venueOrderId.trans hab.venueOrderId
  filled := hab.filled.trans hbc.filled
  resting := fun hresting => by
    obtain ⟨hb, hle⟩ := hbc.resting hresting
    obtain ⟨ha, hle'⟩ := hab.resting hb
    exact ⟨ha, hle.trans hle'⟩
  total := fun hresting => (hbc.total hresting).trans (hab.total (hbc.resting hresting).1)
  nonneg := fun hresting ha => hbc.nonneg hresting (hab.nonneg (hbc.resting hresting).1 ha)

theorem LedgerBacks.determines_unique {past : List Db} {db : Db} (h : LedgerBacks past db)
    {o : OrderRecord} {id id' : String} (hid : db.Determines o id) (hid' : db.Determines o id') :
    id = id' := by
  obtain ⟨p, hp, howner, rfl⟩ := hid
  obtain ⟨p', hp', howner', rfl⟩ := hid'
  rw [Table.eq_of_key_eq h.intents hp hp' (howner.trans howner'.symm)]

theorem Db.Determines.of_owner {db db' : Db} {o o' : OrderRecord} {id : String}
    (hprepared : db'.preparedOrders = db.preparedOrders) (howner : o'.intentId = o.intentId) :
    db'.Determines o' id ↔ db.Determines o id := by
  unfold Db.Determines
  rw [hprepared, howner]

/-- Evidence the ledger has reported: its order has filled no less and has no more left. -/
theorem PaperOrderSnapshot.ReportedFor.backs {past : List Db} {db : Db}
    (hbacks : LedgerBacks past db)
    {o : OrderRecord} (ho : o ∈ db.orders) {snapshot : PaperOrderSnapshot}
    (h : snapshot.ReportedFor past db o.id) :
    db.Determines o snapshot.venueOrderId ∧ ∃ row ∈ db.paperVenueOrders,
      row.venueOrderId = snapshot.venueOrderId ∧
        (row.resting = true → row.remainingQuantity ≤ snapshot.remainingQuantity ∧
          row.remainingQuantity ≤ o.originalQuantity - snapshot.filledQuantity) := by
  obtain ⟨hown, earlier, hearlier, hfind⟩ := h
  have hdetermines := hown o ho rfl
  unfold Db.findPaperOrder Db.paperOrder? at hfind
  obtain ⟨reported, hreported, rfl⟩ := Option.map_eq_some_iff.mp hfind
  have hmem := List.mem_of_find?_eq_some hreported
  obtain ⟨row, hrow, hleads⟩ : ∃ row ∈ db.paperVenueOrders, reported.Leads row := by
    rcases List.mem_cons.mp hearlier with rfl | hearlier
    · exact ⟨reported, hmem, .refl reported⟩
    · exact hbacks.past earlier hearlier reported hmem
  refine ⟨hdetermines, row, hrow, hleads.venueOrderId, fun hresting => ?_⟩
  have hsum := (hbacks.rows o ho row hrow (hleads.venueOrderId.symm ▸ hdetermines) hresting).1
  have hfilled := hleads.filled
  refine ⟨(hleads.resting hresting).2, ?_⟩
  change row.remainingQuantity ≤ o.originalQuantity - reported.filledQuantity
  linarith

theorem OrderState.not_terminal_of_active {state : OrderState} (h : state.active = true) :
    state.terminal = false := by
  cases state <;> first | rfl | cases h

theorem validOrderTransition_active {prior next : OrderState}
    (h : validOrderTransition prior next = true) (hnext : next.active = true) :
    prior.active = true := by
  cases prior <;> cases next <;> simp_all [validOrderTransition, OrderState.active]

/-- What an operation makes of an order is still named after its payload and backed by the
ledger. -/
theorem StoreCall.Turns.backed {past : List Db} {db : Db} {call : StoreCall} {o o' : OrderRecord}
    (hbacks : LedgerBacks past db) (ho : o ∈ db.orders) (h : call.Turns db o o')
    (hledger : (OrderOp.call call).FromLedger past db) :
    (∀ id, o'.venueOrderId = some id → db.Determines o id) ∧
      (o'.state.active = true → ∀ id, db.Determines o id → db.Backed id o'.remainingQuantity) := by
  have hnamed := hbacks.named o ho
  have hsame : o' = o → (∀ id, o'.venueOrderId = some id → db.Determines o id) ∧
      (o'.state.active = true → ∀ id, db.Determines o id →
        db.Backed id o'.remainingQuantity) := by
    rintro rfl
    exact ⟨hnamed, hbacks.backed o' ho⟩
  -- a name the operation hands over replaces the order's own
  have hor : ∀ name : Option String, (∀ id, name = some id → db.Determines o id) →
      ∀ id, name.or o.venueOrderId = some id → db.Determines o id := by
    intro name hname id hid
    cases name with
    | none => exact hnamed id hid
    | some given => exact hname id hid
  unfold StoreCall.Turns at h
  split at h
  case h_1 =>
    rcases h with hkept | ⟨-, rfl⟩
    · exact hsame hkept
    · exact ⟨hnamed, nofun⟩
  case h_2 intentId orderId _ state venueOrderId _ filled _ _ =>
    split at h
    · rename_i hid
      obtain ⟨-, -, rfl⟩ := h
      subst hid
      rcases hledger with ⟨hstate, hown⟩ | ⟨snapshot, hreported, rfl, rfl, rfl⟩
      · refine ⟨hor venueOrderId fun id hid => hown id hid o ho rfl, fun hactive => ?_⟩
        change state.active = true at hactive
        rcases hstate with rfl | rfl <;> cases hactive
      · obtain ⟨hdetermines, row, hrow, hrowId, hrest⟩ := hreported.backs hbacks ho
        refine ⟨hor _ fun id hid => Option.some.inj hid ▸ hdetermines, fun hactive id hid => ?_⟩
        refine ⟨row, hrow, hrowId.trans (hbacks.determines_unique hdetermines hid),
          fun hresting => ?_⟩
        change snapshot.state.active = true at hactive
        change row.remainingQuantity ≤ submissionRemaining _ _ _
        rw [submissionRemaining, OrderState.not_terminal_of_active hactive]
        exact (hrest hresting).2.trans (le_max_left _ _)
    · exact hsame h
  case h_3 =>
    rcases h with hkept | ⟨deterministicOrderId, hdetermines, rfl⟩
    · exact hsame hkept
    · refine ⟨fun id hid => ?_, nofun⟩
      change o.venueOrderId.or (some deterministicOrderId) = some id at hid
      cases hvenue : o.venueOrderId with
      | none =>
        rw [hvenue, Option.none_or, Option.some.injEq] at hid
        exact hid ▸ hdetermines
      | some given =>
        rw [hvenue, Option.some_or] at hid
        exact hnamed id (hvenue.trans hid)
  case h_4 unknown venueOrderId state remaining filled _ _ =>
    split at h
    · rename_i hboth
      obtain ⟨-, -, rfl⟩ := h
      obtain ⟨snapshot, hreported, rfl, rfl, rfl, rfl⟩ := hledger
      rw [← hboth.1] at hreported
      obtain ⟨hdetermines, row, hrow, hrowId, hrest⟩ := hreported.backs hbacks ho
      refine ⟨hor _ fun id hid => Option.some.inj hid ▸ hdetermines, fun _ id hid => ?_⟩
      exact ⟨row, hrow, hrowId.trans (hbacks.determines_unique hdetermines hid),
        fun hresting => (hrest hresting).1⟩
    · exact hsame h
  case h_5 id next venueOrderId =>
    rcases h with hkept | ⟨rfl, hvalid, rfl⟩
    · exact hsame hkept
    · refine ⟨hor _ fun id hid => hledger id hid o ho rfl, fun hactive id hid => ?_⟩
      exact hbacks.backed o ho (validOrderTransition_active hvalid hactive) id hid
  case h_6 =>
    rcases h with hkept | ⟨-, rfl⟩
    · exact hsame hkept
    · exact ⟨hnamed, nofun⟩
  case h_7 orderId observed remaining total _ _ =>
    split at h
    · rename_i hid
      obtain ⟨-, -, rfl⟩ := h
      subst hid
      obtain ⟨snapshot, hreported, rfl, rfl, rfl⟩ := hledger
      obtain ⟨hdetermines, row, hrow, hrowId, hrest⟩ := hreported.backs hbacks ho
      refine ⟨hnamed, fun _ id hid => ?_⟩
      exact ⟨row, hrow, hrowId.trans (hbacks.determines_unique hdetermines hid),
        fun hresting => (hrest hresting).1⟩
    · exact hsame h
  case h_8 => exact hsame h

/-! ## What every operation keeps -/

section Keeps

variable {past : List Db} {db db' : Db} {R : OrderRecord → OrderRecord → Prop}

theorem LedgerBacks.step (h : LedgerBacks past db) (hturns : OrdersTurn R db db')
    (hprepared : db'.preparedOrders = db.preparedOrders)
    (hkeys : (db'.paperVenueOrders.map PaperVenueOrder.venueOrderId).Nodup)
    (hR : ∀ o ∈ db.orders, ∀ o', R o o' → o'.intentId = o.intentId ∧
      o'.originalQuantity = o.originalQuantity ∧
      (∀ id, o'.venueOrderId = some id → db.Determines o id) ∧
      (o'.state.active = true → ∀ id, db.Determines o id → db'.Backed id o'.remainingQuantity))
    (hrows : ∀ row' ∈ db'.paperVenueOrders, (∃ row ∈ db.paperVenueOrders, row.Leads row') ∨
      ∀ o ∈ db.orders, db.Determines o row'.venueOrderId → row'.resting = true →
        row'.filledQuantity + row'.remainingQuantity = o.originalQuantity ∧
          0 ≤ row'.remainingQuantity)
    (hleads : ∀ row ∈ db.paperVenueOrders, ∃ row' ∈ db'.paperVenueOrders, row.Leads row') :
    LedgerBacks (db :: past) db' := by
  obtain ⟨f, horders, hturns⟩ := hturns
  -- an order of `db'` is what became of one of `db`, under the same payload
  have hfrom : ∀ o' ∈ db'.orders, ∃ o ∈ db.orders, R o o' ∧
      ∀ id, db'.Determines o' id ↔ db.Determines o id := by
    intro o' ho'
    rw [horders] at ho'
    obtain ⟨o, ho, rfl⟩ := List.mem_map.mp ho'
    have hR' := (hturns o ho).2
    exact ⟨o, ho, hR', fun id => Db.Determines.of_owner hprepared (hR o ho _ hR').1⟩
  constructor
  case keys => exact hkeys
  case intents => exact hprepared.symm ▸ h.intents
  case prepared =>
    intro o' ho'
    obtain ⟨o, ho, -, hiff⟩ := hfrom o' ho'
    obtain ⟨id, hid⟩ := h.prepared o ho
    exact ⟨id, (hiff id).mpr hid⟩
  case named =>
    intro o' ho' id hid
    obtain ⟨o, ho, hR', hiff⟩ := hfrom o' ho'
    exact (hiff id).mpr ((hR o ho o' hR').2.2.1 id hid)
  case rows =>
    intro o' ho' row' hrow' hid hresting
    obtain ⟨o, ho, hR', hiff⟩ := hfrom o' ho'
    rw [hiff] at hid
    rw [(hR o ho o' hR').2.1]
    rcases hrows row' hrow' with ⟨row, hrow, hlead⟩ | hnew
    · obtain ⟨hsum, hnonneg⟩ := h.rows o ho row hrow (hlead.venueOrderId ▸ hid)
        (hlead.resting hresting).1
      exact ⟨(hlead.total hresting).trans hsum, hlead.nonneg hresting hnonneg⟩
    · exact hnew o ho hid hresting
  case backed =>
    intro o' ho' hactive id hid
    obtain ⟨o, ho, hR', hiff⟩ := hfrom o' ho'
    exact (hR o ho o' hR').2.2.2 hactive id ((hiff id).mp hid)
  case past =>
    intro earlier hearlier row hrow
    rcases List.mem_cons.mp hearlier with rfl | hearlier
    · exact hleads row hrow
    · obtain ⟨middle, hmiddle, hlead⟩ := h.past earlier hearlier row hrow
      obtain ⟨row', hrow', hlead'⟩ := hleads middle hmiddle
      exact ⟨row', hrow', hlead.trans hlead'⟩

theorem Db.Backed.of_leads {id : String} {remaining : Decimal} (h : db.Backed id remaining)
    (hleads : ∀ row ∈ db.paperVenueOrders, ∃ row' ∈ db'.paperVenueOrders, row.Leads row') :
    db'.Backed id remaining := by
  obtain ⟨row, hrow, rfl, hbacks⟩ := h
  obtain ⟨row', hrow', hlead⟩ := hleads row hrow
  refine ⟨row', hrow', hlead.venueOrderId, fun hresting => ?_⟩
  obtain ⟨hrested, hle⟩ := hlead.resting hresting
  exact hle.trans (hbacks hrested)

theorem LedgerBacks.of_rows (h : LedgerBacks past db) (horders : db'.orders = db.orders)
    (hprepared : db'.preparedOrders = db.preparedOrders)
    (hkeys : (db'.paperVenueOrders.map PaperVenueOrder.venueOrderId).Nodup)
    (hrows : ∀ row' ∈ db'.paperVenueOrders, (∃ row ∈ db.paperVenueOrders, row.Leads row') ∨
      ∀ o ∈ db.orders, db.Determines o row'.venueOrderId → row'.resting = true →
        row'.filledQuantity + row'.remainingQuantity = o.originalQuantity ∧
          0 ≤ row'.remainingQuantity)
    (hleads : ∀ row ∈ db.paperVenueOrders, ∃ row' ∈ db'.paperVenueOrders, row.Leads row') :
    LedgerBacks (db :: past) db' := by
  refine h.step (.of_same horders fun o _ => (rfl : o = o)) hprepared hkeys ?_ hrows hleads
  rintro o ho _ rfl
  exact ⟨rfl, rfl, h.named o ho, fun hactive id hid => (h.backed o ho hactive id hid).of_leads
    hleads⟩

theorem LedgerBacks.same_rows (hrows : db'.paperVenueOrders = db.paperVenueOrders) :
    ∀ row ∈ db.paperVenueOrders, ∃ row' ∈ db'.paperVenueOrders, row.Leads row' :=
  fun row hrow => ⟨row, hrows.symm ▸ hrow, .refl row⟩

theorem LedgerBacks.turned (h : LedgerBacks past db) {call : StoreCall}
    (hsound : OrdersSound db) (hledger : (OrderOp.call call).FromLedger past db)
    (hturns : OrdersTurn (call.Turns db) db db') (hpaper : SamePaper db db')
    (hplans : KeepsPlans db db') : LedgerBacks (db :: past) db' := by
  have hleads := LedgerBacks.same_rows hpaper.orders
  refine h.step hturns hplans.preparedOrders (hpaper.orders.symm ▸ h.keys) ?_
    (fun row hrow => .inl ⟨row, hpaper.orders ▸ hrow, .refl row⟩) hleads
  intro o ho o' hturn
  obtain ⟨-, howner, horiginal⟩ := hturn.bounded (hsound.bounded o ho)
  obtain ⟨hnamed, hbacked⟩ := hturn.backed h ho hledger
  exact ⟨howner, horiginal, hnamed, fun hactive id hid => (hbacked hactive id hid).of_leads hleads⟩

theorem LedgerBacks.opened (h : LedgerBacks past db) {intentId : Uuid}
    {deterministicOrderId : String} (hopened : OrderOpened db db' intentId deterministicOrderId)
    (hpaper : SamePaper db db') (hintent : ∀ p ∈ db.preparedOrders, p.intentId ≠ intentId)
    (hfresh : ∀ row ∈ db.paperVenueOrders, row.venueOrderId ≠ deterministicOrderId) :
    LedgerBacks (db :: past) db' := by
  obtain ⟨⟨o, horders, -, howner, hvenue, hstate, -⟩, ⟨p, hprepared, hp, hid⟩, -, -⟩ := hopened
  -- the new payload determines the identifier of no earlier order
  have hold : ∀ other ∈ db.orders, ∀ id, db'.Determines other id ↔ db.Determines other id := by
    intro other hother id
    obtain ⟨_, q, hq, hsame, -⟩ := h.prepared other hother
    unfold Db.Determines
    rw [hprepared]
    constructor
    · rintro ⟨q', hq', hsame', hname⟩
      rcases List.mem_append.mp hq' with hq' | hq'
      · exact ⟨q', hq', hsame', hname⟩
      · rw [List.mem_singleton.mp hq', hp] at hsame'
        exact absurd (hsame.trans hsame'.symm) (hintent q hq)
    · rintro ⟨q', hq', hrest⟩
      exact ⟨q', List.mem_append_left _ hq', hrest⟩
  have hnew : ∀ id, db'.Determines o id → id = deterministicOrderId := by
    rintro id ⟨q, hq, hsame, rfl⟩
    rw [hprepared] at hq
    rcases List.mem_append.mp hq with hq | hq
    · exact absurd (hsame.trans howner) (hintent q hq)
    · rw [List.mem_singleton.mp hq, hid]
  have hrows := hpaper.orders
  constructor
  case keys => exact hrows.symm ▸ h.keys
  case intents =>
    rw [hprepared]
    exact Table.nodup_append_row h.intents fun q hq => hp ▸ hintent q hq
  case prepared =>
    rw [horders]
    refine List.forall_mem_append.mpr ⟨fun other hother => ?_, List.forall_mem_singleton.mpr ?_⟩
    · obtain ⟨id, hdetermines⟩ := h.prepared other hother
      exact ⟨id, (hold other hother id).mpr hdetermines⟩
    · exact ⟨_, p, by simp [hprepared], hp.trans howner.symm, rfl⟩
  case named =>
    rw [horders]
    refine List.forall_mem_append.mpr ⟨fun other hother id hname => ?_,
      List.forall_mem_singleton.mpr fun id hname => ?_⟩
    · exact (hold other hother id).mpr (h.named other hother id hname)
    · rw [hvenue] at hname
      cases hname
  case rows =>
    rw [horders, hrows]
    refine List.forall_mem_append.mpr ⟨fun other hother row hrow hdetermines => ?_,
      List.forall_mem_singleton.mpr fun row hrow hdetermines => ?_⟩
    · exact h.rows other hother row hrow ((hold other hother _).mp hdetermines)
    · exact absurd (hnew _ hdetermines) (hfresh row hrow)
  case backed =>
    rw [horders]
    refine List.forall_mem_append.mpr ⟨fun other hother hactive id hdetermines => ?_,
      List.forall_mem_singleton.mpr fun hactive => ?_⟩
    · exact (h.backed other hother hactive id ((hold other hother id).mp hdetermines)).of_leads
        (LedgerBacks.same_rows hrows)
    · rw [hstate] at hactive
      cases hactive
  case past =>
    rw [hrows]
    exact List.forall_mem_cons.mpr ⟨fun row hrow => ⟨row, hrow, .refl row⟩, h.past⟩

end Keeps

/-! ## Trade-throughs and the orders of the ledger -/

section Ledger

variable {past : List Db} {db db' : Db}

theorem PaperVenueOrder.FilledBy.leads {trade : PaperTrade} {size : Decimal}
    {rows : List PaperVenueOrder} {row row' : PaperVenueOrder}
    (hrows : ∀ row ∈ rows, row.resting = true) (h : row.FilledBy trade size rows row') :
    row.Leads row' := by
  rcases h with rfl | ⟨hmem, -, fill, hfill, hremaining, -, rfl⟩
  · exact .refl row'
  · refine ⟨rfl, ?_, fun _ => ⟨hrows row hmem, ?_⟩, fun _ => ?_, fun _ _ => ?_⟩
    · change row.filledQuantity ≤ row.filledQuantity + fill
      linarith
    · change row.remainingQuantity - fill ≤ row.remainingQuantity
      linarith
    · change row.filledQuantity + fill + (row.remainingQuantity - fill) = _
      linarith
    · change 0 ≤ row.remainingQuantity - fill
      linarith

theorem Db.TradedThrough.leads {trade : PaperTrade} (h : db.TradedThrough trade db') :
    ∀ row' ∈ db'.paperVenueOrders, ∃ row ∈ db.paperVenueOrders, row.Leads row' := by
  intro row' hrow'
  obtain ⟨row, hrow, hby⟩ := h.orders row' hrow'
  exact ⟨row, hrow, hby.leads fun other hother => (Db.resting_mem hother).2.2⟩

theorem Db.TradedThrough.led {trade : PaperTrade} (h : db.TradedThrough trade db')
    (hkeys : (db.paperVenueOrders.map PaperVenueOrder.venueOrderId).Nodup) :
    ∀ row ∈ db.paperVenueOrders, ∃ row' ∈ db'.paperVenueOrders, row.Leads row' := by
  intro row hrow
  have hid := List.mem_map_of_mem (f := PaperVenueOrder.venueOrderId) hrow
  rw [← h.orderIds] at hid
  obtain ⟨row', hrow', heq⟩ := List.mem_map.mp hid
  obtain ⟨before, hbefore, hlead⟩ := h.leads row' hrow'
  obtain rfl : before = row :=
    Table.eq_of_key_eq hkeys hbefore hrow (hlead.venueOrderId.symm.trans heq)
  exact ⟨row', hrow', hlead⟩

theorem Db.fillsOf_mem {account : PaperAccount} {trade : PaperTrade} {fill : TradeFill}
    (h : fill ∈ db.fillsOf account trade) :
    fill.row ∈ db.paperVenueOrders ∧ fill.row.resting = true ∧ 0 < fill.fill ∧
      fill.fill ≤ fill.row.remainingQuantity := by
  obtain ⟨hrow, hbounds⟩ := tradeFills_mem fill h
  exact ⟨(Db.resting_mem hrow).1, (Db.resting_mem hrow).2.2, hbounds⟩

/-- The row an active order follows has no more remaining than the order. -/
theorem LedgerBacks.follows (h : LedgerBacks past db) {o : OrderRecord} (ho : o ∈ db.orders)
    (hactive : o.state.active = true) {row : PaperVenueOrder} (hrow : row ∈ db.paperVenueOrders)
    (hresting : row.resting = true) (hvenue : o.venueOrderId = some row.venueOrderId) :
    row.remainingQuantity ≤ o.remainingQuantity := by
  obtain ⟨backing, hbacking, hid, hle⟩ :=
    h.backed o ho hactive row.venueOrderId (h.named o ho _ hvenue)
  obtain rfl : backing = row := Table.eq_of_key_eq h.keys hbacking hrow hid
  exact hle hresting

theorem paperFilledState_ne {core : OrderState} {remaining : Decimal} :
    paperFilledState core (paperFillState remaining) ≠ .prepared ∧
      paperFilledState core (paperFillState remaining) ≠ .submitting := by
  unfold paperFilledState paperFillState
  split_ifs <;> exact ⟨by decide, by decide⟩

theorem LedgerBacks.followed_bounds (h : LedgerBacks past db) {o : OrderRecord}
    (ho : o ∈ db.orders) (hbounded : o.Bounded) (hactive : o.state.active = true)
    {account : PaperAccount} {trade : PaperTrade} {fill : TradeFill}
    (hfill : fill ∈ db.fillsOf account trade)
    (hvenue : o.venueOrderId = some fill.row.venueOrderId) :
    (o.followed fill).Bounded ∧
      fill.fill ≤ o.remainingQuantity - (o.followed fill).remainingQuantity := by
  obtain ⟨hrow, hresting, hpositive, hle⟩ := Db.fillsOf_mem hfill
  have hahead := h.follows ho hactive hrow hresting hvenue
  have hwithin := hbounded.within
  have hremaining : (o.followed fill).remainingQuantity =
      fill.row.remainingQuantity - fill.fill := rfl
  refine ⟨hbounded.of_remaining rfl ?_ ?_ ?_, ?_⟩
  · rw [hremaining]
    linarith
  · rw [hremaining]
    linarith
  · exact paperFilledState_ne
  · rw [hremaining]
    linarith

theorem LedgerBacks.traded (h : LedgerBacks past db) {account : PaperAccount} {trade : PaperTrade}
    (hfollowed : TradeFollowed trade (db.fillsOf account trade) db db')
    (htraded : db.TradedThrough trade db') (hplans : KeepsPlans db db') :
    LedgerBacks (db :: past) db' := by
  have hleads := htraded.led h.keys
  refine h.step hfollowed.turns hplans.preparedOrders (htraded.orderIds.symm ▸ h.keys) ?_
    (fun row' hrow' => .inl (htraded.leads row' hrow')) hleads
  rintro o ho o' (rfl | ⟨fill, hfill, hvenue, -, rfl⟩)
  · exact ⟨rfl, rfl, h.named o' ho, fun hactive id hid => (h.backed o' ho hactive id hid).of_leads
      hleads⟩
  · refine ⟨rfl, rfl, h.named o ho, fun _ id hid => ?_⟩
    have hname := h.determines_unique (h.named o ho _ hvenue) hid
    exact ⟨_, hfollowed.filled fill hfill, hname, fun _ => le_rfl⟩

/-- An order of the ledger that is built for the executor's has its quantity. -/
theorem PaperOrderCommit.BuiltFor.rests {order : PaperOrderCommit} {o : OrderRecord}
    (h : order.BuiltFor o) {now : Time} (hresting : (order.row now).resting = true) :
    order.filledQuantity + order.remainingQuantity = o.originalQuantity ∧
      0 ≤ order.remainingQuantity := by
  obtain ⟨request, book, market, reserved, price, quantity, quote, hquantity,
    hexposure, horder⟩ := h
  obtain ⟨himmediate, hquantity', hfilled, hremaining⟩ := PaperVenue.order_resting horder hresting
  have hsame := Except.ok.inj (hquantity.symm.trans hquantity')
  have hpositive := OrderIntentRequest.quantityDecimal_pos hquantity
  unfold conservativeExposure at hexposure
  simp only [himmediate, Bool.false_eq_true, and_false, if_false, Option.some.injEq,
    Prod.mk.injEq] at hexposure
  rw [hfilled, hremaining, ← hsame, zero_add]
  exact ⟨hexposure.1, hpositive.le⟩

theorem LedgerBacks.committed (h : LedgerBacks past db) {order : PaperOrderCommit} {now : Time}
    (hbuilt : ∀ o ∈ db.orders, db.Determines o order.venueOrderId → order.BuiltFor o)
    (horders : db'.orders = db.orders) (hplans : KeepsPlans db db')
    (hrows : db'.paperVenueOrders = db.paperVenueOrders ∨
      (∀ row ∈ db.paperVenueOrders, row.venueOrderId ≠ order.venueOrderId) ∧
        db'.paperVenueOrders = db.paperVenueOrders ++ [order.row now]) :
    LedgerBacks (db :: past) db' := by
  rcases hrows with hsame | ⟨hfresh, hrows⟩
  · exact h.of_rows horders hplans.preparedOrders (hsame.symm ▸ h.keys)
      (fun row hrow => .inl ⟨row, hsame ▸ hrow, .refl row⟩) (LedgerBacks.same_rows hsame)
  · refine h.of_rows horders hplans.preparedOrders ?_ ?_ fun row hrow =>
      ⟨row, hrows ▸ List.mem_append_left _ hrow, .refl row⟩
    · rw [hrows]
      exact Table.nodup_append_row h.keys hfresh
    · rw [hrows]
      refine List.forall_mem_append.mpr ⟨fun row hrow => .inl ⟨row, hrow, .refl row⟩,
        List.forall_mem_singleton.mpr (.inr fun o ho hdetermines hresting => ?_)⟩
      exact (hbuilt o ho hdetermines).rests hresting

theorem LedgerBacks.cancelled (h : LedgerBacks past db) (horders : db'.orders = db.orders)
    (hplans : KeepsPlans db db')
    (hrows : db'.paperVenueOrders = db.paperVenueOrders ∨ ∃ row ∈ db.paperVenueOrders,
      db'.paperVenueOrders =
        Table.replace PaperVenueOrder.venueOrderId row.cancel db.paperVenueOrders) :
    LedgerBacks (db :: past) db' := by
  rcases hrows with hsame | ⟨row, hrow, hrows⟩
  · exact h.of_rows horders hplans.preparedOrders (hsame.symm ▸ h.keys)
      (fun row hrow => .inl ⟨row, hsame ▸ hrow, .refl row⟩) (LedgerBacks.same_rows hsame)
  · have hcancel : row.Leads row.cancel := ⟨rfl, le_rfl, nofun, nofun, nofun⟩
    refine h.of_rows horders hplans.preparedOrders ?_ ?_ ?_
    · rw [hrows, Table.map_key_replace]
      exact h.keys
    · intro row' hrow'
      rw [hrows] at hrow'
      rcases Table.mem_replace.mp hrow' with ⟨hrow', -⟩ | ⟨rfl, -⟩
      · exact .inl ⟨row', hrow', .refl row'⟩
      · exact .inl ⟨row, hrow, hcancel⟩
    · intro before hbefore
      by_cases hid : before.venueOrderId = row.venueOrderId
      · obtain rfl : before = row := Table.eq_of_key_eq h.keys hbefore hrow hid
        exact ⟨before.cancel, hrows ▸ Table.mem_replace.mpr (.inr ⟨rfl, before, hbefore, rfl⟩),
          hcancel⟩
      · exact ⟨before, hrows ▸ Table.mem_replace.mpr (.inl ⟨hbefore, hid⟩), .refl before⟩

end Ledger

end OddsfoxExecution
