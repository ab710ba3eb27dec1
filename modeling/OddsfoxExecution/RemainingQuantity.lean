import OddsfoxExecution.PaperBacking

/-!
# The remaining quantity

What remains of an order shrinks by at least what each operation accepts as
filled.  The evidence of a venue is checked against the order's quantity, a
projection also against what the order has filled, and the row of the paper
venue never has more remaining than the order that copies it.
`resolve_unknown_submission` makes the first check only.
-/

namespace OddsfoxExecution

/-! ## The operations and their runs -/

structure OrderStep where
  op : OrderOp
  before : Db
  after : Db

/-- The quantity a successful operation accepts as newly filled of an order. -/
def OrderOp.Accepts (db : Db) (o : OrderRecord) (d : Decimal) : OrderOp → Prop
  | .call (.finishSubmission _ orderId _ _ _ _ filled _ _) => o.id = orderId ∧ d = filled
  | .call (.resolveUnknownSubmission unknown _ state _ filled _ _) =>
    o.id = unknown.orderId ∧ state ≠ .unknown ∧ d = filled
  | .call (.reconcileOrderProjection orderId _ _ total _ _) =>
    o.id = orderId ∧ d = total - o.localFilled
  | .call (.applyPaperTradeThrough trade) =>
    (∀ e ∈ db.paperMarketEvents, e.eventId ≠ trade.eventId) ∧
      ∃ account, db.paperAccount = some account ∧ ∃ fill ∈ db.fillsOf account trade,
        db.follower fill.row.venueOrderId o ∧ d = fill.fill
  | _ => False

/-- What remains of an order shrinks by at least what the operation accepts as filled. -/
def OrderOp.ShrinksTo (op : OrderOp) (db : Db) (o o' : OrderRecord) : Prop :=
  o'.remainingQuantity ≤ o.remainingQuantity ∧
    ∀ d, op.Accepts db o d → d ≤ o.remainingQuantity - o'.remainingQuantity

def OrderStep.Shrinks (s : OrderStep) : Prop :=
  ∀ o ∈ s.before.orders, ∃ o' ∈ s.after.orders, o'.id = o.id ∧
    o'.originalQuantity = o.originalQuantity ∧ s.op.ShrinksTo s.before o o'

/-- The resolution of an UNKNOWN order leaves room for the fills its remaining quantity already
reflects. -/
def OrderOp.Accounts (o : OrderRecord) : OrderOp → Prop
  | .call (.resolveUnknownSubmission unknown _ state remaining filled _ _) =>
    o.id = unknown.orderId → state ≠ .unknown →
      o.localFilled + filled + remaining ≤ o.originalQuantity
  | _ => True

def OrderStep.Accounted (s : OrderStep) : Prop := ∀ o ∈ s.before.orders, s.op.Accounts o

/-- What happens between the operations on orders: admissions and their reservations, the event
log. -/
structure Db.OrdersFrame (db db' : Db) : Prop where
  orders : db'.orders = db.orders
  preparedOrders : db'.preparedOrders = db.preparedOrders
  paperVenueOrders : db'.paperVenueOrders = db.paperVenueOrders
  reserved : ∀ r ∈ db'.riskReservations, 0 < r.quantity
  drawn : db.nextUuid ≤ db'.nextUuid

/-- The databases that operations on orders lead to, with the operations before them, latest
first.  A live venue reports anything; an operation that fails leaves the database. -/
inductive OrderRun (config : StoreConfig) : Db → List OrderStep → Prop
  | empty {db : Db} (horders : db.orders = []) (hprepared : db.preparedOrders = [])
      (hrows : db.paperVenueOrders = []) (hreserved : ∀ r ∈ db.riskReservations, 0 < r.quantity) :
      OrderRun config db []
  | step {db : Db} {steps : List OrderStep} {r : Committed Unit} (op : OrderOp) (now : Time)
      (hrun : OrderRun config db steps) (hop : ∀ call, op = .call call → call.writesOrders = true)
      (hledger : config.mode = .paper → op.FromLedger (steps.map OrderStep.before) db)
      (h : op.run config now db = .ok r) : OrderRun config r.db (⟨op, db, r.db⟩ :: steps)
  | other {db db' : Db} {steps : List OrderStep} (hrun : OrderRun config db steps)
      (hframe : db.OrdersFrame db') : OrderRun config db' steps

/-! ## One order -/

section Turns

variable {db : Db} {call : StoreCall} {o o' : OrderRecord}

/-- An operation that books nothing of an order leaves what remains of it. -/
theorem OrderOp.shrinks_of_same {op : OrderOp} (hsame : o'.remainingQuantity = o.remainingQuantity)
    (hnone : ∀ d, op.Accepts db o d → d ≤ 0) : op.ShrinksTo db o o' :=
  ⟨hsame.le, fun d hd => by rw [hsame, sub_self]; exact hnone d hd⟩

/-- What an operation makes of an order shrinks it exactly when the operation accounts for the
fills the order reflects. -/
theorem StoreCall.Turns.shrinks_iff (h : call.Turns db o o') (ho : o.Bounded)
    (htrade : ∀ trade, call ≠ .applyPaperTradeThrough trade) :
    (OrderOp.call call).ShrinksTo db o o' ↔ (OrderOp.call call).Accounts o := by
  have hsame : ∀ op : OrderOp, o'.remainingQuantity = o.remainingQuantity →
      (∀ d, ¬ op.Accepts db o d) → (op.Accounts o ↔ True) →
      (op.ShrinksTo db o o' ↔ op.Accounts o) :=
    fun op hremaining hnone haccounts => iff_of_true
      (OrderOp.shrinks_of_same hremaining fun d hd => absurd hd (hnone d)) (haccounts.mpr trivial)
  unfold StoreCall.Turns at h
  split at h
  case h_1 =>
    refine hsame _ ?_ (fun d hd => hd) Iff.rfl
    rcases h with rfl | ⟨-, rfl⟩ <;> rfl
  case h_2 intentId orderId _ state venueOrderId _ filled _ _ =>
    refine iff_of_true ?_ trivial
    split at h
    · obtain ⟨hstate, haccepted, rfl⟩ := h
      have hwhole := ho.whole (.inr hstate)
      have hfilled := haccepted.filled_nonneg
      obtain ⟨-, hwithin⟩ := submissionRemaining_bounds haccepted
      refine ⟨?_, ?_⟩
      · change submissionRemaining o.originalQuantity state filled ≤ o.remainingQuantity
        linarith
      · rintro d ⟨-, rfl⟩
        change d ≤ o.remainingQuantity - submissionRemaining o.originalQuantity state d
        linarith
    · rename_i hother
      subst h
      exact OrderOp.shrinks_of_same rfl fun d hd => absurd hd.1 hother
  case h_3 =>
    refine hsame _ ?_ (fun d hd => hd) Iff.rfl
    rcases h with rfl | ⟨_, -, rfl⟩ <;> rfl
  case h_4 unknown _ state remaining filled _ _ =>
    split at h
    · rename_i hboth
      obtain ⟨-, haccepted, rfl⟩ := h
      have hfilled := haccepted.filled_nonneg
      have hlocal := ho.localFilled_eq
      constructor
      · rintro ⟨-, hshrinks⟩ - -
        have hroom := hshrinks filled ⟨hboth.1, hboth.2, rfl⟩
        change filled ≤ o.remainingQuantity - remaining at hroom
        linarith
      · intro haccounts
        have hroom := haccounts hboth.1 hboth.2
        refine ⟨?_, ?_⟩
        · change remaining ≤ o.remainingQuantity
          linarith
        · rintro d ⟨-, -, rfl⟩
          change d ≤ o.remainingQuantity - remaining
          linarith
    · rename_i hother
      subst h
      exact iff_of_true
        (OrderOp.shrinks_of_same rfl fun d hd => absurd ⟨hd.1, hd.2.1⟩ hother)
        fun hid hstate => absurd ⟨hid, hstate⟩ hother
  case h_5 =>
    refine hsame _ ?_ (fun d hd => hd) Iff.rfl
    rcases h with rfl | ⟨-, -, rfl⟩ <;> rfl
  case h_6 =>
    refine hsame _ ?_ (fun d hd => hd) Iff.rfl
    rcases h with rfl | ⟨-, rfl⟩ <;> rfl
  case h_7 orderId observed remaining total _ _ =>
    refine iff_of_true ?_ trivial
    split at h
    · obtain ⟨haccepted, hprogress, rfl⟩ := h
      have hlocal := ho.localFilled_eq
      have hwithin := haccepted.within
      refine ⟨?_, ?_⟩
      · change remaining ≤ o.remainingQuantity
        linarith
      · rintro d ⟨-, rfl⟩
        change total - o.localFilled ≤ o.remainingQuantity - remaining
        linarith
    · rename_i hother
      subst h
      exact OrderOp.shrinks_of_same rfl fun d hd => absurd hd.1 hother
  case h_8 hbegin hfinish hrecover hresolve htransition hcancel hreconcile =>
    subst h
    cases call
    case finishSubmission => exact (hfinish _ _ _ _ _ _ _ _ _ rfl).elim
    case resolveUnknownSubmission => exact (hresolve _ _ _ _ _ _ _ rfl).elim
    case reconcileOrderProjection => exact (hreconcile _ _ _ _ _ _ rfl).elim
    case applyPaperTradeThrough => exact (htrade _ rfl).elim
    all_goals exact hsame _ rfl (fun d hd => hd) Iff.rfl

end Turns

/-! ## Every run -/

section Runs

variable {config : StoreConfig} {past : List Db} {db db' : Db}

/-- An operation that leaves the orders and books nothing of them shrinks them all. -/
theorem OrderStep.shrinks_of_same {op : OrderOp} (hkept : ∀ o ∈ db.orders, o ∈ db'.orders)
    (hnone : ∀ o ∈ db.orders, ∀ d, ¬ op.Accepts db o d) : OrderStep.Shrinks ⟨op, db, db'⟩ :=
  fun o ho => ⟨o, hkept o ho, rfl, rfl, OrderOp.shrinks_of_same rfl fun d hd =>
    absurd hd (hnone o ho d)⟩

theorem OrderStep.accounted_of_trivial {op : OrderOp} (h : ∀ o, op.Accounts o) :
    OrderStep.Accounted ⟨op, db, db'⟩ := fun o _ => h o

/-- What an operation of the executor makes of the orders shrinks them exactly when it accounts
for their fills. -/
theorem OrderStep.shrinks_iff_of_turned (hsound : OrdersSound db) (hsound' : OrdersSound db')
    {call : StoreCall} (hcall : ∀ trade, call ≠ .applyPaperTradeThrough trade)
    (hturns : OrdersTurn (call.Turns db) db db') :
    OrderStep.Shrinks ⟨.call call, db, db'⟩ ↔ OrderStep.Accounted ⟨.call call, db, db'⟩ := by
  obtain ⟨f, horders, hturns⟩ := hturns
  have hmem : ∀ o ∈ db.orders, f o ∈ db'.orders := fun o ho =>
    horders ▸ List.mem_map_of_mem ho
  refine forall₂_congr fun o ho => ?_
  obtain ⟨hid, hturn⟩ := hturns o ho
  have hiff := hturn.shrinks_iff (hsound.bounded o ho) hcall
  constructor
  · rintro ⟨o', ho', hid', -, hshrinks⟩
    obtain rfl : o' = f o := hsound'.eq_of_id ho' (hmem o ho) (hid'.trans hid.symm)
    exact hiff.mp hshrinks
  · intro haccounts
    exact ⟨f o, hmem o ho, hid, (hturn.bounded (hsound.bounded o ho)).2.2, hiff.mpr haccounts⟩

/-- A trade-through shrinks the orders that follow its fills. -/
theorem OrderStep.shrinks_of_traded (hsound : OrdersSound db) (hsound' : OrdersSound db')
    (hbacks : LedgerBacks past db) {account : PaperAccount} {trade : PaperTrade}
    (haccount : db.paperAccount = some account)
    (hfollowed : TradeFollowed trade (db.fillsOf account trade) db db') :
    OrderStep.Shrinks ⟨.call (.applyPaperTradeThrough trade), db, db'⟩ := by
  obtain ⟨f, horders, hturns⟩ := hfollowed.turns
  intro o ho
  obtain ⟨hid, hturn⟩ := hturns o ho
  have hmem : f o ∈ db'.orders := horders ▸ List.mem_map_of_mem ho
  have hbounds : ∀ fill ∈ db.fillsOf account trade, o.state.active = true →
      o.venueOrderId = some fill.row.venueOrderId →
      fill.fill ≤ o.remainingQuantity - (o.followed fill).remainingQuantity :=
    fun fill hfill hactive hvenue =>
      (hbacks.followed_bounds ho (hsound.bounded o ho) hactive hfill hvenue).2
  refine ⟨f o, hmem, hid, ?_, ?_, ?_⟩
  · rcases hturn with hsame | ⟨fill, -, -, -, hsame⟩ <;> rw [hsame]
    rfl
  · rcases hturn with hsame | ⟨fill, hfill, hvenue, hactive, hsame⟩
    · rw [hsame]
    · have hroom := hbounds fill hfill hactive hvenue
      have hpositive := (Db.fillsOf_mem hfill).2.2.1
      rw [hsame]
      linarith
  · rintro d ⟨-, account', haccount', fill, hfill, hfollower, rfl⟩
    obtain rfl : account = account' := Option.some.inj (haccount.symm.trans haccount')
    have hvenue : o.venueOrderId = some fill.row.venueOrderId := by
      simpa using List.find?_some hfollower.1
    have hnext : f o = o.followed fill :=
      hsound'.eq_of_id hmem (hfollowed.followed fill hfill o hfollower) hid
    rw [hnext]
    exact hbounds fill hfill hfollower.2 hvenue

/-- What every database of a run meets. -/
structure RunSound (config : StoreConfig) (past : List Db) (db : Db) : Prop where
  orders : OrdersSound db
  ledger : config.mode = .paper → LedgerBacks past db

/-- One successful operation keeps the orders sound, and shrinks them exactly when it accounts for
their fills. -/
theorem RunSound.step (h : RunSound config past db) {op : OrderOp} {now : Time}
    (heffect : OrderEffect config.mode now db op db')
    (hledger : config.mode = .paper → op.FromLedger past db) :
    RunSound config (db :: past) db' ∧
      (OrderStep.Shrinks ⟨op, db, db'⟩ ↔ OrderStep.Accounted ⟨op, db, db'⟩) := by
  cases heffect with
  | opened hopened hpaper =>
    refine ⟨⟨h.orders.opened hopened, fun hmode => (h.ledger hmode).opened hopened hpaper
      (hledger hmode).1 (hledger hmode).2⟩, iff_of_true
      (OrderStep.shrinks_of_same (fun o ho => ?_) fun _ _ _ hd => hd)
      (OrderStep.accounted_of_trivial fun _ => trivial)⟩
    obtain ⟨_, horders, -⟩ := hopened.opened
    exact horders ▸ List.mem_append_left _ ho
  | turned hcall hturns hpaper hplans =>
    have hsound := h.orders.turned hturns hplans fun o ho o' hturn =>
      (hturn.bounded (h.orders.bounded o ho)).1
    exact ⟨⟨hsound, fun hmode => (h.ledger hmode).turned h.orders (hledger hmode) hturns hpaper
      hplans⟩, OrderStep.shrinks_iff_of_turned h.orders hsound hcall hturns⟩
  | known hknown =>
    refine ⟨⟨h.orders, fun hmode => (h.ledger hmode).of_rows rfl rfl (h.ledger hmode).keys
      (fun row hrow => .inl ⟨row, hrow, .refl row⟩) (LedgerBacks.same_rows rfl)⟩, iff_of_true
      (OrderStep.shrinks_of_same (fun _ ho => ho) ?_)
      (OrderStep.accounted_of_trivial fun _ => trivial)⟩
    rintro o - d ⟨hfresh, -⟩
    obtain ⟨e, he, hid⟩ := hknown
    exact hfresh e he hid
  | traded hmode haccount hfollowed htraded hplans =>
    have hbacks := h.ledger hmode
    have hsound : OrdersSound db' := by
      refine h.orders.turned hfollowed.turns hplans ?_
      rintro o ho o' (rfl | ⟨fill, hfill, hvenue, hactive, rfl⟩)
      · exact h.orders.bounded o' ho
      · exact (hbacks.followed_bounds ho (h.orders.bounded o ho) hactive hfill hvenue).1
    exact ⟨⟨hsound, fun _ => hbacks.traded hfollowed htraded hplans⟩, iff_of_true
      (OrderStep.shrinks_of_traded h.orders hsound hbacks haccount hfollowed)
      (OrderStep.accounted_of_trivial fun _ => trivial)⟩
  | committed horders hplans hrows =>
    exact ⟨⟨h.orders.of_same horders hplans, fun hmode => (h.ledger hmode).committed (hledger hmode)
      horders hplans hrows⟩, iff_of_true
      (OrderStep.shrinks_of_same (fun o ho => horders.symm ▸ ho) fun _ _ _ hd => hd)
      (OrderStep.accounted_of_trivial fun _ => trivial)⟩
  | cancelled horders hplans hrows =>
    exact ⟨⟨h.orders.of_same horders hplans, fun hmode => (h.ledger hmode).cancelled horders hplans
      hrows⟩, iff_of_true
      (OrderStep.shrinks_of_same (fun o ho => horders.symm ▸ ho) fun _ _ _ hd => hd)
      (OrderStep.accounted_of_trivial fun _ => trivial)⟩

theorem RunSound.frame (h : RunSound config past db) (hframe : db.OrdersFrame db') :
    RunSound config past db' where
  orders := ⟨hframe.orders ▸ h.orders.ids,
    fun o ho => (h.orders.drawn o (hframe.orders ▸ ho)).trans_le hframe.drawn,
    fun o ho => h.orders.bounded o (hframe.orders ▸ ho), hframe.reserved⟩
  ledger := fun hmode => by
    have hdetermines : db'.Determines = db.Determines := by
      funext o id
      exact propext (Db.Determines.of_owner hframe.preparedOrders rfl)
    obtain ⟨hkeys, hintents, hprepared, hnamed, hrows, hbacked, hpast⟩ := h.ledger hmode
    refine ⟨?_, ?_, ?_, ?_, ?_, ?_, ?_⟩
    · rwa [hframe.paperVenueOrders]
    · rwa [hframe.preparedOrders]
    · rwa [hframe.orders, hdetermines]
    · rwa [hframe.orders, hdetermines]
    · rwa [hframe.orders, hframe.paperVenueOrders, hdetermines]
    · unfold Db.Backed at hbacked ⊢
      rwa [hframe.orders, hframe.paperVenueOrders, hdetermines]
    · rwa [hframe.paperVenueOrders]

theorem OrderRun.sound {steps : List OrderStep} (h : OrderRun config db steps) :
    RunSound config (steps.map OrderStep.before) db ∧
      ∀ s ∈ steps, s.Shrinks ↔ s.Accounted := by
  induction h with
  | empty horders hprepared hrows hreserved =>
    refine ⟨⟨⟨by simp [horders], by simp [horders], by simp [horders], hreserved⟩, fun _ => ?_⟩,
      fun _ hs => (nomatch hs)⟩
    exact ⟨by simp [hrows], by simp [hprepared], by simp [horders], by simp [horders],
      by simp [horders], by simp [horders], fun _ hearlier => (nomatch hearlier)⟩
  | step op now hrun hop hledger h ih =>
    obtain ⟨hsound, hsteps⟩ := ih
    have heffect := OrderOp.run_effect hsound.orders.ids
      (fun hmode => (hsound.ledger hmode).keys) hop h
    obtain ⟨hnext, hiff⟩ := hsound.step heffect hledger
    exact ⟨hnext, List.forall_mem_cons.mpr ⟨hiff, hsteps⟩⟩
  | other hrun hframe ih => exact ⟨ih.1.frame hframe, ih.2⟩

/-- In every run the remaining quantities stay within their orders; and every operation shrinks
them, by at least what it accepts as filled, exactly when every resolution of an UNKNOWN order
accounts for the fills the order reflects. -/
theorem remaining_only_shrinks {steps : List OrderStep} (h : OrderRun config db steps) :
    ((db.orders.map OrderRecord.id).Nodup ∧ ∀ o ∈ db.orders,
      0 ≤ o.remainingQuantity ∧ o.remainingQuantity ≤ o.originalQuantity) ∧
    ((∀ s ∈ steps, s.Shrinks) ↔ ∀ s ∈ steps, s.Accounted) := by
  obtain ⟨hsound, hsteps⟩ := h.sound
  refine ⟨⟨hsound.orders.ids, fun o ho => ?_⟩, forall₂_congr hsteps⟩
  exact ⟨(hsound.orders.bounded o ho).nonneg, (hsound.orders.bounded o ho).within⟩

end Runs

/-! ## Two runs -/

theorem OrderRun.step_of_ok {config : StoreConfig} {db : Db} {steps : List OrderStep}
    (hrun : OrderRun config db steps) (op : OrderOp)
    (hop : ∀ call, op = .call call → call.writesOrders = true)
    (hledger : config.mode = .paper → op.FromLedger (steps.map OrderStep.before) db)
    (hok : (op.run config 0 db).isOk = true) :
    OrderRun config (leaves db (op.run config 0 db))
      (⟨op, db, leaves db (op.run config 0 db)⟩ :: steps) := by
  cases h : op.run config 0 db with
  | error e =>
    rw [h] at hok
    cases hok
  | ok r => exact .step op 0 hrun hop hledger h

theorem OrderStep.accounted_of_ops {steps : List OrderStep} {ops : List OrderOp}
    (h : steps.map OrderStep.op = ops) (hops : ∀ op ∈ ops, ∀ o, op.Accounts o) :
    ∀ s ∈ steps, s.Accounted :=
  fun s hs o _ => hops s.op (h ▸ List.mem_map_of_mem hs) o

theorem OrderStep.not_shrinks {s : OrderStep} {a b : Decimal}
    (hbefore : s.before.orders.map OrderRecord.remainingQuantity = [a])
    (hafter : s.after.orders.map OrderRecord.remainingQuantity = [b]) (hrises : a < b) :
    ¬ s.Shrinks := by
  intro hshrinks
  obtain ⟨o, ho, rfl⟩ := List.mem_map.mp (hbefore ▸ List.mem_singleton_self a)
  obtain ⟨o', ho', -, -, hle, -⟩ := hshrinks o ho
  have hlast := List.mem_map_of_mem (f := OrderRecord.remainingQuantity) ho'
  rw [hafter, List.mem_singleton] at hlast
  exact absurd (hlast ▸ hle) (not_le.mpr hrises)

/-- The database of a READY service whose first intent is being prepared. -/
def sampleApproved (config : StoreConfig) : Db :=
  (readySample ++ (prepareSample "first" 3).dropLast).foldl
    (fun db call => call.after config 0 db)
    (leaves Db.initial (initializePaperAccount config.mode samplePaperConfig Db.initial))

def sampleCommit : PaperOrderCommit :=
  PaperVenue.commitOf "first" sampleRequest sampleMarket 10 (1 / 2) .none

theorem sampleCommit_built {o : OrderRecord} (h : o.originalQuantity = 10) :
    sampleCommit.BuiltFor o := by
  refine ⟨sampleRequest, sampleBook, sampleMarket, sampleMarket, 1 / 2, 10, 5, ?_, ?_, ?_⟩
  · decide +kernel
  · rw [h]
    decide +kernel
  · decide +kernel

/-- An order of ten shares that rests until a trade fills four of them. -/
def followedSample : List OrderOp :=
  [.call (.createPreparedOrder 3 sampleRequest (samplePrepared "first") "sample" 0),
    .call (.beginSubmission 3 7), .commitPaper sampleCommit,
    .call (.finishSubmission 3 7 .submitted .live (some "first") "VENUE_RESPONSE" 0 none []),
    .call (.applyPaperTradeThrough ⟨"event", "7", 2 / 5, 4, 0⟩)]

/-- A trade through the limit of a resting order of ten shares takes the four shares it fills off
what remains. -/
theorem remaining_only_shrinks_followed :
    ∃ db steps, OrderRun samplePaperStore db steps ∧ steps.length = 5 ∧
      db.orders.map OrderRecord.remainingQuantity = [6] ∧ ∀ s ∈ steps, s.Shrinks := by
  have hempty : OrderRun samplePaperStore (sampleApproved samplePaperStore) [] :=
    .empty (by decide +kernel) (by decide +kernel) (by decide +kernel) (by decide +kernel)
  have hprepared := hempty.step_of_ok
    (.call (.createPreparedOrder 3 sampleRequest (samplePrepared "first") "sample" 0))
    (fun _ h => by cases h; rfl) (fun _ => ⟨by decide +kernel, by decide +kernel⟩)
    (by decide +kernel)
  have hbegun := hprepared.step_of_ok (.call (.beginSubmission 3 7)) (fun _ h => by cases h; rfl)
    (fun _ => trivial) (by decide +kernel)
  generalize hdb : leaves _ _ = db at hbegun
  have hquantity : ∀ o ∈ db.orders, o.originalQuantity = 10 := by
    rw [← hdb]
    decide +kernel
  rw [← hdb] at hbegun hquantity
  have hcommitted := hbegun.step_of_ok (.commitPaper sampleCommit) (fun _ h => by cases h)
    (fun _ o ho _ => sampleCommit_built (hquantity o ho)) (by decide +kernel)
  have hfinished := hcommitted.step_of_ok
    (.call (.finishSubmission 3 7 .submitted .live (some "first") "VENUE_RESPONSE" 0 none []))
    (fun _ h => by cases h; rfl)
    (fun _ => .inr ⟨(sampleCommit.row 0).snapshot,
      ⟨by unfold Db.OwnId Db.Determines; decide +kernel,
      _, List.mem_cons_self, by decide +kernel⟩, rfl, rfl, rfl⟩)
    (by decide +kernel)
  have htraded := hfinished.step_of_ok (.call (.applyPaperTradeThrough ⟨"event", "7", 2 / 5, 4, 0⟩))
    (fun _ h => by cases h; rfl) (fun _ => trivial) (by decide +kernel)
  refine ⟨_, _, htraded, rfl, by decide +kernel, (remaining_only_shrinks htraded).2.mpr ?_⟩
  have hops : ∀ op ∈ followedSample.reverse, ∀ o, op.Accounts o := by
    simp [followedSample, OrderOp.Accounts]
  exact OrderStep.accounted_of_ops rfl hops

/-- A projection reaches an order while it is being submitted, the submission is found interrupted,
and an older answer resolves it: what remains of the order rises from four shares to ten. -/
theorem remaining_rises :
    ∃ db steps, OrderRun sampleLiveStore db steps ∧
      (∃ s ∈ steps, s.before.orders.map OrderRecord.remainingQuantity = [4] ∧
        s.after.orders.map OrderRecord.remainingQuantity = [10]) ∧ ¬ ∀ s ∈ steps, s.Shrinks := by
  have hempty : OrderRun sampleLiveStore (sampleApproved sampleLiveStore) [] :=
    .empty (by decide +kernel) (by decide +kernel) (by decide +kernel) (by decide +kernel)
  have hprepared := hempty.step_of_ok
    (.call (.createPreparedOrder 3 sampleRequest (samplePrepared "first") "sample" 0))
    (fun _ h => by cases h; rfl) nofun (by decide +kernel)
  have hbegun := hprepared.step_of_ok (.call (.beginSubmission 3 7)) (fun _ h => by cases h; rfl)
    nofun (by decide +kernel)
  have hprojected := hbegun.step_of_ok
    (.call (.reconcileOrderProjection 7 .partiallyFilled 4 6 (some (1 / 2)) ["trade"]))
    (fun _ h => by cases h; rfl) nofun (by decide +kernel)
  have hreopened := hprojected.step_of_ok (.call .recoverInterruptedSubmissions)
    (fun _ h => by cases h; rfl) nofun (by decide +kernel)
  have hresolved := hreopened.step_of_ok
    (.call (.resolveUnknownSubmission ⟨7, 3, "first"⟩ "first" .live 10 0 none []))
    (fun _ h => by cases h; rfl) nofun (by decide +kernel)
  refine ⟨_, _, hresolved, ⟨_, List.mem_cons_self, by decide +kernel, by decide +kernel⟩, ?_⟩
  exact fun hall => OrderStep.not_shrinks (by decide +kernel) (by decide +kernel)
    (show (4 : Decimal) < 10 by norm_num) (hall _ List.mem_cons_self)

end OddsfoxExecution

