import OddsfoxExecution.OrderTrades
import OddsfoxExecution.RemainingQuantity

/-!
# Paper fills and the executor's trades

In paper mode the trades of an open order add up to what has left its remaining
quantity, as long as a trade-through finds the order where its ledger row is.
A fill that reaches the ledger between `commit_paper_order` and
`finish_submission` finds no order to book; the next fill copies the remaining
quantity of the row all the same.
-/

namespace OddsfoxExecution

/-! ## What should hold -/

/-- The trades of every open order add up to what has left its remaining quantity. -/
def Db.FillsAgree (db : Db) : Prop :=
  ∀ o ∈ db.orders, o.state.active = true →
    db.tradedSize o.id = o.originalQuantity - o.remainingQuantity

instance {db : Db} : Decidable db.FillsAgree :=
  inferInstanceAs (Decidable (∀ o ∈ db.orders, o.state.active = true →
    db.tradedSize o.id = o.originalQuantity - o.remainingQuantity))

def StoreCall.reportsOpen : StoreCall → Bool
  | finishSubmission _ _ _ state .. => state.active
  | reconcileOrderProjection _ state .. => state.active
  | _ => false

/-- Every fill of an order that stays open is booked: evidence finds the key of its new fill free,
and a trade-through finds the order where its ledger row is, and the key of its fill free. -/
def OrderOp.Books (db : Db) : OrderOp → Prop
  | .call (.applyPaperTradeThrough trade) =>
    (∀ e ∈ db.paperMarketEvents, e.eventId ≠ trade.eventId) →
      ∀ account, db.paperAccount = some account → ∀ fill ∈ db.fillsOf account trade,
        fill.fill < fill.row.remainingQuantity → ∀ o, db.follower fill.row.venueOrderId o →
          o.remainingQuantity = fill.row.remainingQuantity ∧ db.KeyFree (fill.key trade)
  | .call c =>
    c.reportsOpen = true → ∀ o ∈ db.orders, ∀ total, c.reportedFill = some (o.id, total) →
      o.localFilled < total → c.FreshFill db o
  | _ => True

/-- The operations of a paper executor: submissions, trade-throughs, cancellations, and
projections of what the ledger reports now. -/
def OrderOp.PaperTurn (past : List Db) (db : Db) (op : OrderOp) : Prop :=
  op.FromLedger past db ∧
    match op with
    | .call (.createPreparedOrder ..) | .call (.beginSubmission ..)
    | .call (.finishSubmission ..) | .call (.transitionOrder ..) | .call (.cancelPreparedOrder ..)
    | .call (.applyPaperTradeThrough ..) | .cancelPaper _ => True
    | .call (.reconcileOrderProjection orderId state remaining total _ _) =>
      ∃ snapshot : PaperOrderSnapshot, db.OwnId orderId snapshot.venueOrderId ∧
        db.findPaperOrder snapshot.venueOrderId = some snapshot ∧ state = snapshot.state ∧
        remaining = snapshot.remainingQuantity ∧ total = snapshot.filledQuantity
    | .commitPaper order => ∃ request book market,
        PaperVenue.order order.venueOrderId request book market = some order
    | _ => False

def TradeRecord.share (t : TradeRecord) : Uuid × Decimal := (t.orderId, t.size)

/-- The databases of a paper executor, with the operations before them, latest first. -/
inductive PaperSession (config : StoreConfig) : Db → List OrderStep → Prop
  | empty {db : Db} (horders : db.orders = []) (hprepared : db.preparedOrders = [])
      (hrows : db.paperVenueOrders = []) (hreserved : ∀ r ∈ db.riskReservations, 0 < r.quantity)
      (htrades : db.trades = []) : PaperSession config db []
  | step {db : Db} {steps : List OrderStep} {r : Committed Unit} (op : OrderOp) (now : Time)
      (hrun : PaperSession config db steps) (hturn : op.PaperTurn (steps.map OrderStep.before) db)
      (h : op.run config now db = .ok r) : PaperSession config r.db (⟨op, db, r.db⟩ :: steps)
  | other {db db' : Db} {steps : List OrderStep} (hrun : PaperSession config db steps)
      (hframe : db.OrdersFrame db')
      (htrades : db'.trades.map TradeRecord.share = db.trades.map TradeRecord.share) :
      PaperSession config db' steps

theorem OrderOp.PaperTurn.writesOrders {past : List Db} {db : Db} {op : OrderOp}
    (h : op.PaperTurn past db) (call : StoreCall) (hop : op = .call call) :
    call.writesOrders = true := by
  subst hop
  obtain ⟨-, hturn⟩ := h
  cases call <;> first | rfl | exact hturn.elim

theorem PaperSession.orderRun {config : StoreConfig} {db : Db} {steps : List OrderStep}
    (h : PaperSession config db steps) : OrderRun config db steps := by
  induction h with
  | empty horders hprepared hrows hreserved => exact .empty horders hprepared hrows hreserved
  | step op now _ hturn h ih => exact .step op now ih hturn.writesOrders (fun _ => hturn.1) h
  | other _ hframe _ ih => exact .other ih hframe

/-! ## One order -/

/-- The trades of the order add up to what has left its remaining quantity, or nothing of it
remains and it is closed. -/
def OrderRecord.Tallied (db : Db) (o : OrderRecord) : Prop :=
  db.tradedSize o.id = o.originalQuantity - o.remainingQuantity ∨
    (o.state.terminal = true ∧ o.remainingQuantity = 0)

theorem OrderState.terminal_of_reported {state : OrderState}
    (hreportable : state ≠ .prepared ∧ state ≠ .submitting ∧ state ≠ .cancelPending)
    (hknown : state ≠ .unknown) (hidle : state.active = false) : state.terminal = true := by
  obtain ⟨hprepared, hsubmitting, -⟩ := hreportable
  cases state
  case prepared => exact absurd rfl hprepared
  case submitting => exact absurd rfl hsubmitting
  case unknown => exact absurd rfl hknown
  all_goals first | rfl | cases hidle

theorem OrderRecord.Tallied.agree {db : Db} {o : OrderRecord} (h : o.Tallied db)
    (hopen : o.state.terminal = false) :
    db.tradedSize o.id = o.originalQuantity - o.remainingQuantity := by
  rcases h with h | ⟨hclosed, -⟩
  · exact h
  · rw [hopen] at hclosed
    cases hclosed

def Db.Tallied (db : Db) : Prop := ∀ o ∈ db.orders, o.Tallied db

theorem Db.Tallied.fillsAgree {db : Db} (h : db.Tallied) : db.FillsAgree :=
  fun o ho hactive => (h o ho).agree (OrderState.not_terminal_of_active hactive)

section Tally

variable {db db' : Db} {o o' : OrderRecord}

/-- An order that keeps its quantities, and stays closed if it was, with the trades it had. -/
theorem OrderRecord.Tallied.moved (h : o.Tallied db)
    (hsize : db'.tradedSize o.id = db.tradedSize o.id) (hid : o'.id = o.id)
    (horiginal : o'.originalQuantity = o.originalQuantity)
    (hremaining : o'.remainingQuantity = o.remainingQuantity)
    (hclosed : o.state.terminal = true → o'.state.terminal = true) : o'.Tallied db' := by
  unfold Tallied
  rw [hid, hsize, horiginal, hremaining]
  exact h.imp_right fun ⟨hterminal, hzero⟩ => ⟨hclosed hterminal, hzero⟩

theorem OrderRecord.Tallied.kept (h : o.Tallied db)
    (hsize : db'.tradedSize o.id = db.tradedSize o.id) : o.Tallied db' :=
  h.moved hsize rfl rfl rfl fun hclosed => hclosed

theorem Db.Tallied.turned {R : OrderRecord → OrderRecord → Prop} (h : db.Tallied)
    (hturns : OrdersTurn R db db')
    (hstep : ∀ o ∈ db.orders, ∀ o', o'.id = o.id → R o o' → o.Tallied db → o'.Tallied db') :
    db'.Tallied := by
  intro o' ho'
  obtain ⟨o, ho, hid, hturn⟩ := hturns.origin o' ho'
  exact hstep o ho o' hid hturn (h o ho)

theorem StoreCall.Turns.tallied {call : StoreCall} (h : call.Turns db o o')
    (hcall : (∃ a b, call = .beginSubmission a b) ∨ (∃ a b c, call = .transitionOrder a b c) ∨
      ∃ a, call = .cancelPreparedOrder a)
    (hsize : db'.tradedSize o.id = db.tradedSize o.id) (ho : o.Tallied db) : o'.Tallied db' := by
  rcases hcall with ⟨_, _, rfl⟩ | ⟨_, next, _, rfl⟩ | ⟨_, rfl⟩
  · rcases h with rfl | ⟨hprepared, rfl⟩
    · exact ho.kept hsize
    · exact ho.moved hsize rfl rfl rfl fun hclosed => by
        rw [hprepared] at hclosed
        cases hclosed
  · rcases h with rfl | ⟨-, hvalid, rfl⟩
    · exact ho.kept hsize
    · refine ho.moved hsize rfl rfl rfl fun hclosed => ?_
      cases hstate : o.state <;> rw [hstate] at hclosed hvalid <;> cases hclosed <;>
        cases next <;> first | rfl | cases hvalid
  · rcases h with rfl | ⟨hprepared, rfl⟩
    · exact ho.kept hsize
    · exact ho.moved hsize rfl rfl rfl fun hclosed => by
        rw [hprepared] at hclosed
        cases hclosed

/-- What a step does to the tally: it stays, or an open order disagrees with its trades. -/
def TallyStep (op : OrderOp) (db db' : Db) : Prop :=
  (op.Books db → db'.Tallied) ∧ (¬ op.Books db → ¬ db'.FillsAgree)

theorem TallyStep.of_books {op : OrderOp} (hbooks : op.Books db) (h : db'.Tallied) :
    TallyStep op db db' :=
  ⟨fun _ => h, fun hnot => absurd hbooks hnot⟩

end Tally

/-! ## Evidence -/

/-- What a call does to the trades when it reports `d` new shares of an order: they are booked
under a key of the call that is free. -/
structure StoreCall.Hands (c : StoreCall) (o : OrderRecord) (d : Decimal) (db db' : Db) : Prop where
  others : ∀ orderId, orderId ≠ o.id → db'.tradedSize orderId = db.tradedSize orderId
  fresh : (0 < d → c.FreshFill db o) → 0 ≤ d →
    db'.tradedSize o.id = db.tradedSize o.id + d
  stale : ¬ c.FreshFill db o → db'.tradedSize o.id = db.tradedSize o.id

/-- What evidence makes of an order: it is closed with nothing remaining, or all of it is
accounted for. -/
inductive StoreCall.Reflects (c : StoreCall) (db : Db) (total : Decimal) (o o' : OrderRecord) : Prop
  | closed (hreported : c.reportsOpen = false) (hterminal : o'.state.terminal = true)
      (hremaining : o'.remainingQuantity = 0)
  | accounted (hsize : db.tradedSize o.id = o.localFilled) (hle : o.localFilled ≤ total)
      (horiginal : o'.originalQuantity = o.originalQuantity)
      (htotal : total + o'.remainingQuantity = o.originalQuantity)
      (hopen : c.reportsOpen = true → o'.state.active = true)
      (hsame : c.reportsOpen = false → total = o.localFilled)

section Evidence

variable {db db' : Db} {c : StoreCall} {o : OrderRecord} {d : Decimal}

theorem StoreCall.Hands.of_handed {key : String} (hkey : c.fillKey o = some key)
    (h : Handed o.id d key db db') : c.Hands o d db db' := by
  have hiff : c.FreshFill db o ↔ db.KeyFree key := by
    constructor
    · rintro ⟨key', hkey', hfree⟩
      obtain rfl := Option.some.inj (hkey.symm.trans hkey')
      exact hfree
    · exact fun hfree => ⟨key, hkey, hfree⟩
  refine ⟨fun orderId hne => h.others hne, fun hfresh hnonneg => ?_, fun hstale => ?_⟩
  · exact h.own_free (fun hpositive => hiff.mp (hfresh hpositive)) hnonneg
  · exact h.own_taken (mt hiff.mpr hstale)

theorem StoreCall.Hands.of_same (hkey : c.fillKey o = none) (h : db'.trades = db.trades) :
    c.Hands o d db db' := by
  have hsize := Db.tradedSize_of_trades h
  refine ⟨fun orderId _ => by rw [hsize], fun hfresh hnonneg => ?_, fun _ => by rw [hsize]⟩
  have hzero : d = 0 := by
    refine le_antisymm (not_lt.mp fun hpositive => ?_) hnonneg
    obtain ⟨key, hkey', -⟩ := hfresh hpositive
    rw [hkey] at hkey'
    cases hkey'
  rw [hsize, hzero, add_zero]

/-- Evidence about an order is booked when its new fill finds its key free. -/
theorem OrderOp.books_iff (hids : (db.orders.map OrderRecord.id).Nodup)
    (hcall : ∀ trade, c ≠ .applyPaperTradeThrough trade) (ho : o ∈ db.orders) {total : Decimal}
    (hreports : c.reportedFill = some (o.id, total)) :
    (OrderOp.call c).Books db ↔
      (c.reportsOpen = true → o.localFilled < total → c.FreshFill db o) := by
  unfold OrderOp.Books
  split
  · rename_i trade heq
    cases heq
    exact absurd rfl (hcall trade)
  · rename_i heq
    cases heq
    constructor
    · exact fun h hopen => h hopen o ho total hreports
    · intro h hopen other hother total' hreports' hless
      obtain ⟨hsame, rfl⟩ := Prod.mk.inj (Option.some.inj (hreports.symm.trans hreports'))
      obtain rfl : o = other := Table.eq_of_key_eq hids ho hother hsame
      exact h hopen hless
  · rename_i hcommit hnot
    exact absurd rfl (hnot c)

/-- Evidence about one order leaves the tally exactly when it is booked. -/
theorem TallyStep.of_evidence (hids : (db.orders.map OrderRecord.id).Nodup) (htally : db.Tallied)
    (hcall : ∀ trade, c ≠ .applyPaperTradeThrough trade) (ho : o ∈ db.orders) {total : Decimal}
    (hreports : c.reportedFill = some (o.id, total))
    (hhands : c.Hands o (total - o.localFilled) db db')
    {R : OrderRecord → OrderRecord → Prop} (hturns : OrdersTurn R db db')
    (hothers : ∀ other other', other.id ≠ o.id → R other other' → other' = other)
    (hown : ∀ o', R o o' → c.Reflects db total o o') :
    TallyStep (.call c) db db' := by
  have hbooks := OrderOp.books_iff hids hcall ho hreports
  constructor
  · intro hall
    refine htally.turned hturns fun other hother other' hid hturn hbefore => ?_
    by_cases heq : other.id = o.id
    · obtain rfl : other = o := Table.eq_of_key_eq hids hother ho heq
      cases hown other' hturn with
      | closed _ hterminal hremaining => exact .inr ⟨hterminal, hremaining⟩
      | accounted hsize hle horiginal htotal _ hsame =>
        refine .inl ?_
        have hfresh : 0 < total - other.localFilled → c.FreshFill db other := by
          intro hless
          cases hreported : c.reportsOpen with
          | true => exact hbooks.mp hall hreported (sub_pos.mp hless)
          | false => exact absurd (hsame hreported) (sub_pos.mp hless).ne'
        rw [hid, horiginal, hhands.fresh hfresh (sub_nonneg.mpr hle), hsize]
        linarith
    · obtain rfl := hothers other other' heq hturn
      exact hbefore.kept (hhands.others _ heq)
  · intro hnot hagree
    rw [hbooks] at hnot
    obtain ⟨hreported, hnot⟩ := Classical.not_imp.mp hnot
    obtain ⟨hless, hstale⟩ := Classical.not_imp.mp hnot
    obtain ⟨o', ho', hid, hturn⟩ := hturns.next o ho
    cases hown o' hturn with
    | closed hclosed =>
      rw [hreported] at hclosed
      cases hclosed
    | accounted hsize _ horiginal htotal hopen _ =>
      have hsum := hagree o' ho' (hopen hreported)
      rw [hid, horiginal, hhands.stale hstale, hsize] at hsum
      linarith

theorem finishSubmission_tally (hsound : OrdersSound db) (htally : db.Tallied)
    {intentId orderId : Uuid} {intentState : IntentState} {orderState : OrderState}
    {venueOrderId : Option String} {classification : String} {filled : Decimal}
    {price : Option Decimal} {ids : List String} {now : Time} {r : Committed Unit}
    (h : finishSubmission intentId orderId intentState orderState venueOrderId classification filled
      price ids now db = .ok r) :
    TallyStep (.call (.finishSubmission intentId orderId intentState orderState venueOrderId
      classification filled price ids)) db r.db := by
  obtain ⟨o, ho, rfl, hstate, hbooked⟩ := finishSubmission_handed h
  have hbounded := hsound.bounded o ho
  have hlocal : o.localFilled = 0 := by
    rw [hbounded.localFilled_eq, hbounded.whole (.inr hstate), sub_self]
  have hsize : db.tradedSize o.id = o.localFilled := by
    rw [(htally o ho).agree (by rw [hstate]; rfl), hbounded.localFilled_eq]
  refine TallyStep.of_evidence hsound.ids htally nofun ho rfl ?_
    (finishSubmission_turns hsound.ids h) ?_ ?_
  · rw [hlocal, sub_zero]
    rcases hbooked with ⟨hsubmitted, htrades⟩ | ⟨hsubmitted, hhanded⟩
    · exact .of_same (if_neg hsubmitted) htrades
    · exact .of_handed (if_pos hsubmitted) hhanded
  · intro other other' hne hturn
    simpa only [StoreCall.Turns, if_neg hne] using hturn
  · intro o' hturn
    simp only [StoreCall.Turns, if_true] at hturn
    obtain ⟨-, haccepted, rfl⟩ := hturn
    have hfilled := haccepted.filled_nonneg
    cases hterminal : orderState.terminal with
    | true =>
      refine .closed ?_ hterminal ?_
      · change orderState.active = false
        cases orderState <;> first | rfl | cases hterminal
      · change submissionRemaining o.originalQuantity orderState filled = 0
        rw [submissionRemaining, hterminal]
        rfl
    | false =>
      have hwithin := haccepted.within
      have hnonneg := haccepted.remaining_nonneg
      have hrest : submissionRemaining o.originalQuantity orderState filled =
          o.originalQuantity - filled := by
        rw [submissionRemaining, hterminal]
        refine (if_neg (by decide)).trans (max_eq_left ?_)
        linarith
      refine .accounted hsize (hlocal.symm ▸ hfilled) rfl ?_ (fun hopen => hopen) fun hopen => ?_
      · change filled + submissionRemaining o.originalQuantity orderState filled = _
        rw [hrest]
        linarith
      · have hunknown : orderState = .unknown := by
          by_contra hknown
          have hclosed := OrderState.terminal_of_reported haccepted.reportable hknown hopen
          exact absurd (hterminal.symm.trans hclosed) (by decide)
        rw [hlocal]
        exact (haccepted.unknown hunknown).1

/-- A row of the ledger rests exactly while something of it remains. -/
def PaperVenueOrder.Settled (row : PaperVenueOrder) : Prop :=
  0 ≤ row.remainingQuantity ∧ (row.resting = true ↔ 0 < row.remainingQuantity)

theorem PaperVenueOrder.resting_eq {row : PaperVenueOrder} (h : row.state ≠ .cancelPending) :
    row.resting = row.state.active := by
  unfold PaperVenueOrder.resting
  cases hstate : row.state <;> first | rfl | exact absurd hstate h

theorem projectedState_idle {prior observed : OrderState} (h : observed.active = false) :
    projectedState prior observed = observed := by
  unfold projectedState
  refine if_neg ?_
  rintro ⟨-, rfl | rfl⟩ <;> cases h

theorem reconcileOrderProjection_tally {past : List Db} (hsound : OrdersSound db)
    (hbacks : LedgerBacks past db) (hsettled : ∀ row ∈ db.paperVenueOrders, row.Settled)
    (htally : db.Tallied) {orderId : Uuid} {observed : OrderState} {remaining total : Decimal}
    {price : Option Decimal} {ids : List String} {now : Time} {r : Committed Unit}
    {snapshot : PaperOrderSnapshot} (hown : db.OwnId orderId snapshot.venueOrderId)
    (hfind : db.findPaperOrder snapshot.venueOrderId = some snapshot)
    (hstate : observed = snapshot.state) (hremaining : remaining = snapshot.remainingQuantity)
    (htotal : total = snapshot.filledQuantity)
    (h : reconcileOrderProjection orderId observed remaining total price ids now db = .ok r) :
    TallyStep (.call (.reconcileOrderProjection orderId observed remaining total price ids)) db
      r.db := by
  obtain ⟨o, ho, rfl, hhanded⟩ := reconcileOrderProjection_handed h
  have hbounded := hsound.bounded o ho
  obtain ⟨row, hrow, heq⟩ := Option.map_eq_some_iff.mp hfind
  have hmem := List.mem_of_find?_eq_some hrow
  have hname : row.venueOrderId = snapshot.venueOrderId := by simpa using List.find?_some hrow
  obtain ⟨-, hrests⟩ := hsettled row hmem
  have hrowState : row.state = observed := by rw [hstate, ← heq]; rfl
  have hrowRemaining : row.remainingQuantity = remaining := by rw [hremaining, ← heq]; rfl
  have hrowFilled : row.filledQuantity = total := by rw [htotal, ← heq]; rfl
  refine TallyStep.of_evidence hsound.ids htally nofun ho rfl (.of_handed rfl hhanded)
    (reconcileOrderProjection_turns hsound.ids h) ?_ ?_
  · intro other other' hne hturn
    simpa only [StoreCall.Turns, if_neg hne] using hturn
  · intro o' hturn
    simp only [StoreCall.Turns, if_true] at hturn
    obtain ⟨haccepted, hprogress, rfl⟩ := hturn
    have hreportable := haccepted.reportable
    have hwithin := haccepted.within
    have hresting : row.resting = observed.active := by
      rw [PaperVenueOrder.resting_eq (hrowState.symm ▸ hreportable.2.2), hrowState]
    rw [hresting, hrowRemaining] at hrests
    cases hactive : observed.active with
    | true =>
      have hleft := hrests.mp hactive
      have hsum := (hbacks.rows o ho row hmem (hname.symm ▸ hown o ho rfl)
        (hresting.trans hactive)).1
      rw [hrowFilled, hrowRemaining] at hsum
      have hlocal := hbounded.localFilled_eq
      have hagree : db.tradedSize o.id = o.originalQuantity - o.remainingQuantity := by
        rcases htally o ho with hagree | ⟨-, hzero⟩
        · exact hagree
        -- a closed order has nothing left for the ledger to report
        · linarith
      refine .accounted (hagree.trans hlocal.symm) hprogress rfl hsum (fun _ => ?_)
        fun hclosed => ?_
      · change (projectedState o.state observed).active = true
        unfold projectedState
        split
        · rfl
        · exact hactive
      · exact absurd (hactive.symm.trans hclosed) (by decide)
    | false =>
      have hzero : remaining = 0 := by
        refine le_antisymm (not_lt.mp fun hpositive => ?_) haccepted.remaining_nonneg
        exact absurd (hactive.symm.trans (hrests.mpr hpositive)) (by decide)
      refine .closed hactive ?_ hzero
      have hpositive := hbounded.positive
      have hknown : observed ≠ .unknown := by
        intro hunknown
        rw [hzero] at haccepted
        exact hpositive.ne (haccepted.unknown hunknown).2
      change (projectedState o.state observed).terminal = true
      rw [projectedState_idle hactive]
      exact OrderState.terminal_of_reported hreportable hknown hactive

end Evidence

/-! ## The other operations -/

/-- What a paper executor keeps of the ledger and of the trades. -/
structure PaperBooks (db : Db) : Prop where
  settled : ∀ row ∈ db.paperVenueOrders, row.Settled
  owned : ∀ t ∈ db.trades, ∃ o ∈ db.orders, o.id = t.orderId

section Operations

variable {db db' : Db}

theorem TallyStep.quiet (htally : db.Tallied) {call : StoreCall}
    (hcall : (∃ a b, call = .beginSubmission a b) ∨ (∃ a b c, call = .transitionOrder a b c) ∨
      ∃ a, call = .cancelPreparedOrder a)
    (hturns : OrdersTurn (call.Turns db) db db') (htrades : db'.trades = db.trades) :
    TallyStep (.call call) db db' := by
  refine .of_books ?_ (htally.turned hturns fun o _ o' _ hturn ho =>
    hturn.tallied hcall (by rw [Db.tradedSize_of_trades htrades]) ho)
  rcases hcall with ⟨_, _, rfl⟩ | ⟨_, _, _, rfl⟩ | ⟨_, rfl⟩ <;> exact fun hopen => by cases hopen

theorem Db.Tallied.opened (h : db.Tallied) (hsound : OrdersSound db) (hbooks : PaperBooks db)
    {intentId : Uuid} {deterministicOrderId : String}
    (hopened : OrderOpened db db' intentId deterministicOrderId)
    (htrades : db'.trades = db.trades) : db'.Tallied := by
  obtain ⟨⟨o, horders, hid, -, -, -, hremaining, -⟩, -, -, -⟩ := hopened
  have hsize := Db.tradedSize_of_trades htrades
  unfold Db.Tallied
  rw [horders]
  refine List.forall_mem_append.mpr ⟨fun other hother => (h other hother).kept (by rw [hsize]),
    List.forall_mem_singleton.mpr (.inl ?_)⟩
  rw [hsize, hremaining, sub_self]
  refine Db.tradedSize_eq_zero fun t ht heq => ?_
  obtain ⟨owner, howner, hsame⟩ := hbooks.owned t ht
  have hdrawn := hsound.drawn owner howner
  rw [hsame, heq, hid] at hdrawn
  exact absurd hdrawn (Nat.not_lt.mpr (Nat.le_add_right _ 2))

theorem OrderRecord.followed_active {o : OrderRecord} {fill : TradeFill}
    (hleft : fill.fill < fill.row.remainingQuantity) : (o.followed fill).state.active = true := by
  change (paperFilledState o.state (paperFillState _)).active = true
  rw [paperFillState, if_neg (sub_pos.mpr hleft).ne']
  unfold paperFilledState
  split <;> rfl

theorem OrderRecord.followed_closed {o : OrderRecord} {fill : TradeFill}
    (hwhole : fill.fill = fill.row.remainingQuantity) :
    (o.followed fill).state.terminal = true ∧ (o.followed fill).remainingQuantity = 0 := by
  have hzero : fill.row.remainingQuantity - fill.fill = 0 := by rw [hwhole, sub_self]
  refine ⟨?_, hzero⟩
  change (paperFilledState o.state (paperFillState _)).terminal = true
  rw [hzero, paperFillState, if_pos rfl, paperFilledState, if_neg fun h => h.2 rfl]
  rfl

/-- The fills of a trade-through are booked as the remaining quantities follow them, exactly when
every order that stays open is where its row is. -/
theorem TallyStep.of_trade {past : List Db} (hsound : OrdersSound db) (hbacks : LedgerBacks past db)
    (htally : db.Tallied) {trade : PaperTrade} {account : PaperAccount}
    (hfresh : ∀ e ∈ db.paperMarketEvents, e.eventId ≠ trade.eventId)
    (haccount : db.paperAccount = some account)
    (hfollowed : TradeFollowed trade (db.fillsOf account trade) db db')
    (hbooked : TradeBooked trade (db.fillsOf account trade) db db') :
    TallyStep (.call (.applyPaperTradeThrough trade)) db db' := by
  have hids' : (db'.orders.map OrderRecord.id).Nodup := hfollowed.turns.ids ▸ hsound.ids
  constructor
  · intro hall o' ho'
    obtain ⟨o, ho, hid, -⟩ := hfollowed.turns.origin o' ho'
    by_cases hfollows : ∃ fill ∈ db.fillsOf account trade, db.follower fill.row.venueOrderId o
    · obtain ⟨fill, hfill, hfollower⟩ := hfollows
      obtain rfl : o' = o.followed fill :=
        Table.eq_of_key_eq hids' ho' (hfollowed.followed fill hfill o hfollower) hid
      obtain ⟨-, -, -, hle⟩ := Db.fillsOf_mem hfill
      rcases hle.lt_or_eq with hless | hwhole
      · obtain ⟨hsame, hfree⟩ := hall hfresh account haccount fill hfill hless o hfollower
        have hagree := (htally o ho).agree (OrderState.not_terminal_of_active hfollower.2)
        refine .inl ?_
        change db'.tradedSize o.id =
          o.originalQuantity - (fill.row.remainingQuantity - fill.fill)
        rw [hbooked.free fill hfill o hfollower hfree, hagree, hsame]
        linarith
      · exact .inr (OrderRecord.followed_closed hwhole)
    · have hkept := hbooked.kept o ho fun fill hfill hfollower =>
        hfollows ⟨fill, hfill, hfollower⟩
      obtain rfl : o' = o := Table.eq_of_key_eq hids' ho' hkept hid
      refine (htally o' ho).kept (hbooked.others o'.id fun fill hfill other hother heq =>
        hfollows ⟨fill, hfill, ?_⟩)
      rwa [← Table.eq_of_key_eq hsound.ids (List.mem_of_find?_eq_some hother.1) ho heq]
  · intro hnot hagree
    simp only [OrderOp.Books, Classical.not_imp, not_forall] at hnot
    obtain ⟨-, account', haccount', fill, hfill, hless, o, hfollower, hnot⟩ := hnot
    obtain rfl : account = account' := Option.some.inj (haccount.symm.trans haccount')
    have hmem := List.mem_of_find?_eq_some hfollower.1
    have hvenue : o.venueOrderId = some fill.row.venueOrderId := by
      simpa using List.find?_some hfollower.1
    obtain ⟨hrow, hresting, hpositive, -⟩ := Db.fillsOf_mem hfill
    have hahead := hbacks.follows hmem hfollower.2 hrow hresting hvenue
    have hbefore := (htally o hmem).agree (OrderState.not_terminal_of_active hfollower.2)
    have hafter := hagree _ (hfollowed.followed fill hfill o hfollower)
      (OrderRecord.followed_active hless)
    change db'.tradedSize o.id =
      o.originalQuantity - (fill.row.remainingQuantity - fill.fill) at hafter
    by_cases hfree : db.KeyFree (fill.key trade)
    · rw [hbooked.free fill hfill o hfollower hfree, hbefore] at hafter
      exact hnot ⟨by linarith, hfree⟩
    · rw [hbooked.taken fill hfill o hfollower hfree, hbefore] at hafter
      linarith

theorem applyPaperTradeThrough_tally {past : List Db} (hsound : OrdersSound db)
    (hbacks : LedgerBacks past db) (htally : db.Tallied) {mode : Mode} {trade : PaperTrade}
    {now : Time} {r : Committed Nat} (h : applyPaperTradeThrough mode trade now db = .ok r) :
    TallyStep (.call (.applyPaperTradeThrough trade)) db r.db := by
  rcases applyPaperTradeThrough_ok hbacks.keys h with ⟨⟨e, he, hid⟩, hsame⟩ | htraded
  · rw [hsame]
    exact .of_books (fun hfresh => absurd hid (hfresh e he)) htally
  · have hfresh := htraded.fresh
    obtain ⟨-, ⟨⟨e, he, hid⟩, -⟩ | ⟨account, haccount, hfollowed⟩⟩ :=
      applyPaperTradeThrough_followed hsound.ids hbacks.keys h
    · exact absurd hid (hfresh e he)
    · rcases applyPaperTradeThrough_booked hsound.ids hbacks.keys h with
        ⟨⟨e, he, hid⟩, -⟩ | ⟨-, account', haccount', hbooked⟩
      · exact absurd hid (hfresh e he)
      · obtain rfl := Option.some.inj (haccount.symm.trans haccount')
        exact .of_trade hsound hbacks htally hfresh haccount hfollowed hbooked

/-! ## The ledger and the trades -/

theorem PaperVenueOrder.cancel_settled (row : PaperVenueOrder) : row.cancel.Settled :=
  ⟨le_rfl, iff_of_false nofun (lt_irrefl 0)⟩

theorem PaperVenueOrder.FilledBy.settled {trade : PaperTrade} {size : Decimal}
    {rows : List PaperVenueOrder} {row row' : PaperVenueOrder}
    (h : row.FilledBy trade size rows row') (hrow : row.Settled) : row'.Settled := by
  rcases h with rfl | ⟨-, -, fill, -, hle, -, rfl⟩
  · exact hrow
  · have hnonneg := sub_nonneg.mpr hle
    refine ⟨hnonneg, ?_⟩
    change decide (paperFillState _ = .live ∨ paperFillState _ = .partiallyFilled) = true ↔
      0 < row.remainingQuantity - fill
    unfold paperFillState
    split
    · rename_i hzero
      exact iff_of_false (by decide) (by rw [hzero]; exact lt_irrefl 0)
    · rename_i hleft
      exact iff_of_true rfl (lt_of_le_of_ne hnonneg (Ne.symm hleft))

/-- An order `PaperVenue::submit` commits rests with its whole quantity, or is done. -/
theorem PaperVenue.order_settled {deterministicOrderId : String} {request : OrderIntentRequest}
    {book : OrderBook} {market : MarketRules} {order : PaperOrderCommit} {now : Time}
    (h : PaperVenue.order deterministicOrderId request book market = some order) :
    (order.row now).Settled := by
  cases hresting : (order.row now).resting with
  | true =>
    obtain ⟨-, hquantity, -, hremaining⟩ := PaperVenue.order_resting h hresting
    have hpositive : 0 < (order.row now).remainingQuantity := by
      change 0 < order.remainingQuantity
      rw [hremaining]
      exact OrderIntentRequest.quantityDecimal_pos hquantity
    exact ⟨hpositive.le, iff_of_true hresting hpositive⟩
  | false =>
    have hzero : (order.row now).remainingQuantity = 0 := by
      change order.remainingQuantity = 0
      unfold PaperVenue.order at h
      split at h
      · split at h
        · cases h
        · rename_i fill hfill
          split at h
          · cases h
          · cases h
            cases himmediate : request.timeInForce.immediate with
            | true => simp [PaperVenue.commitOf, himmediate]
            | false =>
              simp [PaperVenueOrder.resting, PaperOrderCommit.row, PaperVenue.commitOf,
                PaperVenue.orderState, himmediate] at hresting
      · cases h
    exact ⟨hzero.ge, iff_of_false (by rw [hresting]; decide) (by rw [hzero]; exact lt_irrefl 0)⟩

theorem PaperBooks.next (h : PaperBooks db) (hrows : ∀ row ∈ db'.paperVenueOrders, row.Settled)
    (hids : ∀ o ∈ db.orders, ∃ o' ∈ db'.orders, o'.id = o.id) (htrades : TradesFrom db db') :
    PaperBooks db' := by
  refine ⟨hrows, fun t ht => ?_⟩
  obtain ⟨o, ho, hid⟩ : ∃ o ∈ db.orders, o.id = t.orderId := by
    rcases htrades t ht with howner | ⟨t', ht', hsame⟩
    · exact howner
    · exact hsame ▸ h.owned t' ht'
  obtain ⟨o', ho', hid'⟩ := hids o ho
  exact ⟨o', ho', hid'.trans hid⟩

theorem PaperBooks.turned (h : PaperBooks db) {R : OrderRecord → OrderRecord → Prop}
    (hturns : OrdersTurn R db db') (hpaper : SamePaper db db') (htrades : TradesFrom db db') :
    PaperBooks db' := by
  refine h.next (hpaper.orders ▸ h.settled) (fun o ho => ?_) htrades
  obtain ⟨o', ho', hid, -⟩ := hturns.next o ho
  exact ⟨o', ho', hid⟩

end Operations

/-! ## Every run -/

section Runs

variable {config : StoreConfig} {past : List Db} {db db' : Db}

/-- An operation of a paper executor keeps the rows of the ledger settled and the trades owned. -/
theorem OrderOp.PaperTurn.books (hmode : config.mode = .paper) (hsound : RunSound config past db)
    (hbooks : PaperBooks db) {op : OrderOp} (hturn : op.PaperTurn past db) {now : Time}
    {r : Committed Unit} (h : op.run config now db = .ok r) : PaperBooks r.db := by
  have hkeys := (hsound.ledger hmode).keys
  have hids := hsound.orders.ids
  obtain ⟨-, hturn⟩ := hturn
  cases op with
  | commitPaper order =>
    obtain ⟨committed, hrun, hdb⟩ := forget_ok h
    rw [hdb]
    obtain ⟨-, horders, -⟩ := commitPaperOrder_core hrun
    refine hbooks.next ?_ (fun o ho => ⟨o, horders ▸ ho, rfl⟩)
      (.of_same (commitPaperOrder_trades hrun))
    rcases (commitPaperOrder_orders hrun).2 with hsame | ⟨-, hadded⟩
    · exact hsame ▸ hbooks.settled
    · obtain ⟨request, book, market, horder⟩ := hturn
      rw [hadded]
      exact List.forall_mem_append.mpr ⟨hbooks.settled,
        List.forall_mem_singleton.mpr (PaperVenue.order_settled horder)⟩
  | cancelPaper venueOrderId =>
    obtain ⟨committed, hrun, hdb⟩ := forget_ok h
    rw [hdb]
    obtain ⟨-, horders, -⟩ := cancelPaperOrder_core hrun
    refine hbooks.next ?_ (fun o ho => ⟨o, horders ▸ ho, rfl⟩)
      (.of_same (cancelPaperOrder_trades hrun))
    rcases (cancelPaperOrder_orders hkeys hrun).2 with hsame | ⟨row, -, hreplaced⟩
    · exact hsame ▸ hbooks.settled
    · intro row' hrow'
      rw [hreplaced] at hrow'
      rcases Table.mem_replace.mp hrow' with ⟨hkept, -⟩ | ⟨rfl, -⟩
      · exact hbooks.settled row' hkept
      · exact row.cancel_settled
  | call call =>
    obtain ⟨committed, hrun, hdb⟩ := forget_ok h
    rw [hdb]
    cases call
    case createPreparedOrder =>
      obtain ⟨_, horders, -⟩ := (createPreparedOrder_opened hrun).opened
      exact hbooks.next ((createPreparedOrder_paper hrun).orders ▸ hbooks.settled)
        (fun o ho => ⟨o, horders ▸ List.mem_append_left _ ho, rfl⟩)
        (.of_same (createPreparedOrder_trades hrun))
    case beginSubmission =>
      exact hbooks.turned (beginSubmission_turns hrun) (beginSubmission_keepsPlans hrun).1
        (.of_same (beginSubmission_trades hrun))
    case transitionOrder =>
      exact hbooks.turned (transitionOrder_turns hids hrun) (transitionOrder_keepsPlans hrun).1
        (.of_same (transitionOrder_trades hrun))
    case cancelPreparedOrder =>
      exact hbooks.turned (cancelPreparedOrder_turns hids hrun)
        (cancelPreparedOrder_keepsPlans hrun).1 (.of_same (cancelPreparedOrder_trades hrun))
    case finishSubmission =>
      refine hbooks.turned (finishSubmission_turns hids hrun)
        (finishSubmission_keepsPlans hrun).1 ?_
      obtain ⟨o, ho, -, -, ⟨-, htrades⟩ | ⟨-, hhanded⟩⟩ := finishSubmission_handed hrun
      · exact .of_same htrades
      · exact hhanded.tradesFrom ho
    case reconcileOrderProjection =>
      refine hbooks.turned (reconcileOrderProjection_turns hids hrun)
        (reconcileOrderProjection_keepsPlans hrun).1 ?_
      obtain ⟨o, ho, -, hhanded⟩ := reconcileOrderProjection_handed hrun
      exact hhanded.tradesFrom ho
    case applyPaperTradeThrough trade =>
      rcases applyPaperTradeThrough_ok hkeys hrun with ⟨-, hsame⟩ | htraded
      · exact hsame ▸ hbooks
      · obtain ⟨-, ⟨-, hsame⟩ | ⟨_, -, hfollowed⟩⟩ :=
          applyPaperTradeThrough_followed hids hkeys hrun
        · exact hsame ▸ hbooks
        · refine hbooks.next (fun row' hrow' => ?_) (fun o ho => ?_) ?_
          · obtain ⟨row, hrow, hfilled⟩ := htraded.orders row' hrow'
            exact hfilled.settled (hbooks.settled row hrow)
          · obtain ⟨o', ho', hid, -⟩ := hfollowed.turns.next o ho
            exact ⟨o', ho', hid⟩
          · rcases applyPaperTradeThrough_booked hids hkeys hrun with
              ⟨-, htrades⟩ | ⟨-, _, -, hbooked⟩
            · exact .of_same htrades
            · exact hbooked.orderIds
    all_goals exact hturn.elim

/-- An operation of a paper executor leaves the tally exactly when it books its fills. -/
theorem OrderOp.PaperTurn.tally (hmode : config.mode = .paper) (hsound : RunSound config past db)
    (hbooks : PaperBooks db) (htally : db.Tallied) {op : OrderOp} (hturn : op.PaperTurn past db)
    {now : Time} {r : Committed Unit} (h : op.run config now db = .ok r) :
    TallyStep op db r.db := by
  have hbacks := hsound.ledger hmode
  have hids := hsound.orders.ids
  have hsame : r.db.orders = db.orders → r.db.trades = db.trades → op.Books db →
      TallyStep op db r.db := fun horders htrades hall => .of_books hall fun o ho =>
    (htally o (horders ▸ ho)).kept (by rw [Db.tradedSize_of_trades htrades])
  obtain ⟨-, hturn⟩ := hturn
  cases op with
  | commitPaper order =>
    obtain ⟨committed, hrun, hdb⟩ := forget_ok h
    obtain ⟨-, horders, -⟩ := commitPaperOrder_core hrun
    exact hsame (hdb ▸ horders) (hdb ▸ commitPaperOrder_trades hrun) trivial
  | cancelPaper venueOrderId =>
    obtain ⟨committed, hrun, hdb⟩ := forget_ok h
    obtain ⟨-, horders, -⟩ := cancelPaperOrder_core hrun
    exact hsame (hdb ▸ horders) (hdb ▸ cancelPaperOrder_trades hrun) trivial
  | call call =>
    obtain ⟨committed, hrun, hdb⟩ := forget_ok h
    rw [hdb]
    cases call
    case createPreparedOrder =>
      exact .of_books (fun hopen => by cases hopen) (htally.opened hsound.orders hbooks
        (createPreparedOrder_opened hrun) (createPreparedOrder_trades hrun))
    case beginSubmission =>
      exact .quiet htally (.inl ⟨_, _, rfl⟩) (beginSubmission_turns hrun)
        (beginSubmission_trades hrun)
    case transitionOrder =>
      exact .quiet htally (.inr (.inl ⟨_, _, _, rfl⟩)) (transitionOrder_turns hids hrun)
        (transitionOrder_trades hrun)
    case cancelPreparedOrder =>
      exact .quiet htally (.inr (.inr ⟨_, rfl⟩)) (cancelPreparedOrder_turns hids hrun)
        (cancelPreparedOrder_trades hrun)
    case finishSubmission => exact finishSubmission_tally hsound.orders htally hrun
    case reconcileOrderProjection =>
      obtain ⟨snapshot, hown, hfind, hstate, hremaining, htotal⟩ := hturn
      exact reconcileOrderProjection_tally hsound.orders hbacks hbooks.settled htally hown hfind
        hstate hremaining htotal hrun
    case applyPaperTradeThrough =>
      exact applyPaperTradeThrough_tally hsound.orders hbacks htally hrun
    all_goals exact hturn.elim

theorem Db.tradedSize_of_shares
    (h : db'.trades.map TradeRecord.share = db.trades.map TradeRecord.share) :
    db'.tradedSize = db.tradedSize := by
  have hshares : ∀ db : Db, db.tradedSize = fun orderId =>
      (((db.trades.map TradeRecord.share).filter fun s => s.1 = orderId).map Prod.snd).sum := by
    intro db
    funext orderId
    rw [List.filter_map, List.map_map]
    rfl
  rw [hshares, hshares, h]

/-- Anything between the operations keeps the orders and what their trades add up to. -/
theorem PaperBooks.frame (h : PaperBooks db) (hframe : db.OrdersFrame db')
    (htrades : db'.trades.map TradeRecord.share = db.trades.map TradeRecord.share) :
    PaperBooks db' := by
  refine ⟨hframe.paperVenueOrders ▸ h.settled, fun t ht => ?_⟩
  have hshare := List.mem_map_of_mem (f := TradeRecord.share) ht
  rw [htrades] at hshare
  obtain ⟨t', ht', heq⟩ := List.mem_map.mp hshare
  obtain ⟨o, ho, hid⟩ := h.owned t' ht'
  exact ⟨o, hframe.orders ▸ ho, hid.trans (Prod.mk.inj heq).1⟩

theorem Db.Tallied.frame (h : db.Tallied) (hframe : db.OrdersFrame db')
    (htrades : db'.trades.map TradeRecord.share = db.trades.map TradeRecord.share) :
    db'.Tallied :=
  fun o ho => (h o (hframe.orders ▸ ho)).kept (by rw [Db.tradedSize_of_shares htrades])

theorem PaperSession.books (hmode : config.mode = .paper) {steps : List OrderStep}
    (h : PaperSession config db steps) : PaperBooks db := by
  induction h with
  | empty _ _ hrows _ htrades => exact ⟨by simp [hrows], by simp [htrades]⟩
  | step op now hrun hturn h ih => exact hturn.books hmode hrun.orderRun.sound.1 ih h
  | other _ hframe htrades ih => exact ih.frame hframe htrades

/-- While every fill is booked the orders are tallied, and a fill that is not booked leaves an
open order that disagrees. -/
theorem PaperSession.tally (hmode : config.mode = .paper) {steps : List OrderStep}
    (h : PaperSession config db steps) :
    ((∀ s ∈ steps, s.op.Books s.before) → db.Tallied ∧ ∀ s ∈ steps, s.after.FillsAgree) ∧
      ((∀ s ∈ steps, s.after.FillsAgree) → ∀ s ∈ steps, s.op.Books s.before) := by
  induction h with
  | empty horders =>
    exact ⟨fun _ => ⟨by simp [Db.Tallied, horders], fun _ hs => (by cases hs)⟩,
      fun _ _ hs => (by cases hs)⟩
  | other _ hframe htrades ih =>
    exact ⟨fun hall => (ih.1 hall).imp_left fun htally => htally.frame hframe htrades, ih.2⟩
  | step op now hrun hturn h ih =>
    obtain ⟨hbooked, hagreed⟩ := ih
    have hstep := fun htally =>
      hturn.tally hmode hrun.orderRun.sound.1 (hrun.books hmode) htally h
    constructor
    · intro hall
      obtain ⟨hlast, hearlier⟩ := List.forall_mem_cons.mp hall
      obtain ⟨htally, hafter⟩ := hbooked hearlier
      have hnext := (hstep htally).1 hlast
      exact ⟨hnext, List.forall_mem_cons.mpr ⟨hnext.fillsAgree, hafter⟩⟩
    · intro hall
      obtain ⟨hlast, hearlier⟩ := List.forall_mem_cons.mp hall
      have hbefore := hagreed hearlier
      refine List.forall_mem_cons.mpr ⟨?_, hbefore⟩
      by_contra hnot
      exact (hstep (hbooked hbefore).1).2 hnot hlast

/-- In every run of a paper executor the trades of the open orders add up to what has left their
remaining quantities, in every database reached, exactly when every fill of an order that stays
open is booked. -/
theorem paper_fills_agree_iff (hmode : config.mode = .paper) {steps : List OrderStep}
    (h : PaperSession config db steps) :
    (db.FillsAgree ∧ ∀ s ∈ steps, s.after.FillsAgree) ↔
      ∀ s ∈ steps, s.op.Books s.before := by
  obtain ⟨hbooked, hagreed⟩ := h.tally hmode
  exact ⟨fun hall => hagreed hall.2, fun hall => (hbooked hall).imp_left Db.Tallied.fillsAgree⟩

end Runs

/-! ## Two runs -/

theorem PaperSession.step_of_ok {config : StoreConfig} {db : Db} {steps : List OrderStep}
    (hrun : PaperSession config db steps) (op : OrderOp)
    (hturn : op.PaperTurn (steps.map OrderStep.before) db)
    (hok : (op.run config 0 db).isOk = true) :
    PaperSession config (leaves db (op.run config 0 db))
      (⟨op, db, leaves db (op.run config 0 db)⟩ :: steps) := by
  cases h : op.run config 0 db with
  | error e =>
    rw [h] at hok
    cases hok
  | ok r => exact .step op 0 hrun hturn h

/-- The database in which the ledger has the sample order and the executor still submits it. -/
def committedSample : Db :=
  (followedSample.take 3).foldl (fun db op => leaves db (op.run samplePaperStore 0 db))
    (sampleApproved samplePaperStore)

theorem committedSample_session :
    ∃ steps, PaperSession samplePaperStore committedSample steps ∧ steps.length = 3 ∧
      ∀ s ∈ steps, s.after.FillsAgree := by
  have hempty : PaperSession samplePaperStore (sampleApproved samplePaperStore) [] :=
    .empty (by decide +kernel) (by decide +kernel) (by decide +kernel) (by decide +kernel)
      (by decide +kernel)
  have hprepared := hempty.step_of_ok
    (.call (.createPreparedOrder 3 sampleRequest (samplePrepared "first") "sample" 0))
    ⟨⟨by decide +kernel, by decide +kernel⟩, trivial⟩ (by decide +kernel)
  have hbegun := hprepared.step_of_ok (.call (.beginSubmission 3 7)) ⟨trivial, trivial⟩
    (by decide +kernel)
  generalize hdb : leaves _ _ = db at hbegun
  have hquantity : ∀ o ∈ db.orders, o.originalQuantity = 10 := by
    rw [← hdb]
    decide +kernel
  rw [← hdb] at hbegun hquantity
  have hcommitted := hbegun.step_of_ok (.commitPaper sampleCommit)
    ⟨fun o ho _ => sampleCommit_built (hquantity o ho),
      sampleRequest, sampleBook, sampleMarket, by decide +kernel⟩ (by decide +kernel)
  refine ⟨_, hcommitted, rfl, ?_⟩
  simp only [List.forall_mem_cons]
  exact ⟨by decide +kernel, by decide +kernel, by decide +kernel, fun _ hs => by cases hs⟩

/-- The order is submitted and then filled: six of its ten shares remain, and four are traded. -/
theorem paper_fills_agree_followed :
    ∃ db steps, PaperSession samplePaperStore db steps ∧ steps.length = 5 ∧
      db.orders.map OrderRecord.remainingQuantity = [6] ∧ db.tradedSize 7 = 4 ∧
      db.FillsAgree ∧ ∀ s ∈ steps, s.op.Books s.before := by
  obtain ⟨steps, hcommitted, hlength, hagreed⟩ := committedSample_session
  have hfinished := hcommitted.step_of_ok
    (.call (.finishSubmission 3 7 .submitted .live (some "first") "VENUE_RESPONSE" 0 none []))
    ⟨.inr ⟨(sampleCommit.row 0).snapshot,
      ⟨by unfold Db.OwnId Db.Determines; decide +kernel, _, List.mem_cons_self,
        by decide +kernel⟩, rfl, rfl, rfl⟩, trivial⟩ (by decide +kernel)
  have htraded := hfinished.step_of_ok (.call (.applyPaperTradeThrough ⟨"event", "7", 2 / 5, 4, 0⟩))
    ⟨trivial, trivial⟩ (by decide +kernel)
  have hbooked := (paper_fills_agree_iff rfl htraded).mp ⟨by decide +kernel,
    List.forall_mem_cons.mpr ⟨by decide +kernel,
      List.forall_mem_cons.mpr ⟨by decide +kernel, hagreed⟩⟩⟩
  exact ⟨_, _, htraded, by simp [hlength], by decide +kernel, by decide +kernel,
    by decide +kernel, hbooked⟩

/-- A trade fills four shares of the row before the answer to the submission is stored, and a
second one fills two more: four of the order's ten shares remain, and two are traded. -/
theorem paper_fills_disagree :
    ∃ db steps, PaperSession samplePaperStore db steps ∧ steps.length = 6 ∧
      db.orders.map OrderRecord.state = [.partiallyFilled] ∧
      db.orders.map OrderRecord.remainingQuantity = [4] ∧ db.tradedSize 7 = 2 ∧
      ¬ db.FillsAgree := by
  obtain ⟨steps, hcommitted, hlength, -⟩ := committedSample_session
  have hmissed := hcommitted.step_of_ok
    (.call (.applyPaperTradeThrough ⟨"event", "7", 2 / 5, 4, 0⟩)) ⟨trivial, trivial⟩
    (by decide +kernel)
  have hfinished := hmissed.step_of_ok
    (.call (.finishSubmission 3 7 .submitted .live (some "first") "VENUE_RESPONSE" 0 none []))
    ⟨.inr ⟨(sampleCommit.row 0).snapshot,
      ⟨by unfold Db.OwnId Db.Determines; decide +kernel, committedSample,
        List.mem_cons_of_mem _ List.mem_cons_self, by decide +kernel⟩, rfl, rfl, rfl⟩, trivial⟩
    (by decide +kernel)
  have htraded := hfinished.step_of_ok (.call (.applyPaperTradeThrough ⟨"later", "7", 2 / 5, 2, 0⟩))
    ⟨trivial, trivial⟩ (by decide +kernel)
  exact ⟨_, _, htraded, by simp [hlength], by decide +kernel, by decide +kernel, by decide +kernel,
    by decide +kernel⟩

end OddsfoxExecution
