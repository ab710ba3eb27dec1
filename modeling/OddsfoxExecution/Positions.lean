import OddsfoxExecution.CrashRecovery
import OddsfoxExecution.FillBooking
import OddsfoxExecution.Store.Pipeline

/-!
# Positions

Two things write the position of a token: a report of the venue's positions,
which replaces it, and a fill of an order, which moves it by what its trade row
says.  So between two reports a position is what was reported and the trades
booked since.
-/

namespace OddsfoxExecution

/-! ## Fills -/

/-- What a position has to know of an order. -/
structure OrderLeg where
  orderId : Uuid
  tokenId : String
  side : Side
deriving DecidableEq

def OrderRecord.leg (o : OrderRecord) : OrderLeg :=
  { orderId := o.id, tokenId := o.tokenId, side := o.side }

def Db.legs (db : Db) : List OrderLeg := db.orders.map OrderRecord.leg

/-- The part of the trade rows that no operation changes. -/
def Db.tradeRows (db : Db) : List (Uuid × Decimal) :=
  db.trades.map fun t => (t.orderId, t.size)

/-- What fills add to the position of a token. -/
def netFilled (tokenId : String) (fills : List (OrderLeg × Decimal)) : Decimal :=
  ((fills.filter fun fill => fill.1.tokenId = tokenId).map fun fill =>
    fill.1.side.signed fill.2).sum

theorem netFilled_append {tokenId : String} {fills later : List (OrderLeg × Decimal)} :
    netFilled tokenId (fills ++ later) = netFilled tokenId fills + netFilled tokenId later := by
  simp [netFilled]

/-- The trade rows of `db'` are those of `db` and one for each fill, and the positions are moved by
the fills. -/
structure FillsBooked (fills : List (OrderLeg × Decimal)) (db db' : Db) : Prop where
  trades : db'.tradeRows = db.tradeRows ++ fills.map fun fill => (fill.1.orderId, fill.2)
  positions : ∀ tokenId, db'.positionShares tokenId =
    db.positionShares tokenId + netFilled tokenId fills

/-- Fills of some size, of orders that are listed. -/
def Filling (legs : List OrderLeg) (fills : List (OrderLeg × Decimal)) : Prop :=
  ∀ fill ∈ fills, fill.1 ∈ legs ∧ 0 < fill.2

theorem Filling.nil {legs : List OrderLeg} : Filling legs [] := fun _ h => nomatch h

theorem Filling.append {legs : List OrderLeg} {fills later : List (OrderLeg × Decimal)}
    (h : Filling legs fills) (hlater : Filling legs later) : Filling legs (fills ++ later) :=
  List.forall_mem_append.mpr ⟨h, hlater⟩

theorem Filling.mono {legs legs' : List OrderLeg} {fills : List (OrderLeg × Decimal)}
    (h : Filling legs fills) (hsub : legs ⊆ legs') : Filling legs' fills :=
  fun fill hfill => ⟨hsub (h fill hfill).1, (h fill hfill).2⟩

theorem Filling.of_order {db : Db} {o : OrderRecord} (ho : o ∈ db.orders)
    {fills : List (OrderLeg × Decimal)} (h : Filling [o.leg] fills) : Filling db.legs fills := by
  apply h.mono
  intro leg hleg
  rw [List.mem_singleton] at hleg
  exact hleg ▸ List.mem_map_of_mem ho

namespace FillsBooked

variable {db db' : Db}

theorem of_rows (htrades : db'.tradeRows = db.tradeRows)
    (hpositions : db'.positions = db.positions) : FillsBooked [] db db' where
  trades := htrades.trans (List.append_nil _).symm
  positions := by
    intro tokenId
    rw [Db.positionShares, hpositions]
    exact (add_zero _).symm

theorem of_ledger {fills : List (OrderLeg × Decimal)} {a a' b b' : Db}
    (h : FillsBooked fills a b) (ha : a'.ledger = a.ledger) (hb : b'.ledger = b.ledger) :
    FillsBooked fills a' b' := by
  obtain ⟨hatrades, hapositions⟩ := Prod.mk.inj ha
  obtain ⟨hbtrades, hbpositions⟩ := Prod.mk.inj hb
  constructor
  · rw [Db.tradeRows, Db.tradeRows, hatrades, hbtrades]
    exact h.trades
  · intro tokenId
    rw [Db.positionShares, Db.positionShares, hapositions, hbpositions]
    exact h.positions tokenId

theorem refl (db : Db) : FillsBooked [] db db := of_rows rfl rfl

theorem of_same (h : db'.ledger = db.ledger) : FillsBooked [] db db' :=
  (refl db).of_ledger rfl h

theorem trans {fills later : List (OrderLeg × Decimal)} {a b c : Db} (h : FillsBooked fills a b)
    (hlater : FillsBooked later b c) : FillsBooked (fills ++ later) a c where
  trades := by rw [hlater.trades, h.trades, List.map_append, List.append_assoc]
  positions := by
    intro tokenId
    rw [hlater.positions, h.positions, netFilled_append, add_assoc]

end FillsBooked

/-! ## The operations -/

section Operations

variable {db : Db}

/-- A matched fill is booked as one, or not at all. -/
theorem applyMatchedFill_booksFill (db : Db) (order : OrderRecord) (venueOrderId : Option String)
    (filled : Decimal) (price : Option Decimal) (ids : List String) (now : Time) :
    ∃ fills, FillsBooked fills db
        (applyMatchedFill db order venueOrderId filled price ids now).1 ∧
      Filling [order.leg] fills := by
  unfold applyMatchedFill
  split
  · exact ⟨[], .refl db, .nil⟩
  · rename_i hpositive
    dsimp only
    split
    · exact ⟨[], .of_same rfl, .nil⟩
    · rename_i hinsert
      obtain ⟨-, rfl⟩ := Table.insertNew_eq_some.mp hinsert
      refine ⟨[(order.leg, filled)], ⟨?_, ?_⟩, ?_⟩
      · exact List.map_append
      · intro tokenId
        apply (positionShares_upsert rfl tokenId).trans
        by_cases htoken : tokenId = order.tokenId
        · rw [if_pos htoken, htoken, Side.apply_eq]
          simp [netFilled, OrderRecord.leg]
          rfl
        · rw [if_neg htoken]
          simp [netFilled, OrderRecord.leg, Ne.symm htoken]
      · intro fill hfill
        rw [List.mem_singleton] at hfill
        subst hfill
        exact ⟨List.mem_cons_self, not_le.mp hpositive⟩

/-- The fill of an order that is there, in an operation that writes nothing else to the ledger. -/
theorem fillsBooked_of_ledger {db₁ db' : Db} {o : OrderRecord} (ho : o ∈ db.orders)
    {venueOrderId : Option String} {filled : Decimal} {price : Option Decimal}
    {ids : List String} {now : Time} (hbefore : db₁.ledger = db.ledger)
    (hafter : db'.ledger = (applyMatchedFill db₁ o venueOrderId filled price ids now).1.ledger) :
    ∃ fills, FillsBooked fills db db' ∧ Filling db.legs fills := by
  obtain ⟨fills, hbooked, hfilling⟩ :=
    applyMatchedFill_booksFill db₁ o venueOrderId filled price ids now
  exact ⟨fills, hbooked.of_ledger hbefore.symm hafter, hfilling.of_order ho⟩

theorem admitIntent_ledger {actorId key : String} {request : OrderIntentRequest} {now : Time}
    {r : Committed Admission} (h : admitIntent actorId key request now db = .ok r) :
    r.db.ledger = db.ledger := by
  unfold admitIntent at h
  split at h
  · split at h
    · cases h
    · split at h
      · cases h
      · split at h <;> cases h
        rfl
  · split at h
    · cases h
    · dsimp only at h
      split at h <;> cases h
      rfl

theorem transitionIntent_ledger {id : Uuid} {expected next : IntentState}
    {rejection : Option (String × String)} {r : Committed IntentRecord}
    (h : transitionIntent id expected next rejection db = .ok r) : r.db.ledger = db.ledger := by
  unfold transitionIntent at h
  dsimp only at h
  split at h
  · cases h
  · split at h <;> cases h
    rfl

theorem beginSubmission_ledger {intentId orderId : Uuid} {r : Committed Unit}
    (h : beginSubmission intentId orderId db = .ok r) : r.db.ledger = db.ledger := by
  unfold beginSubmission at h
  split at h
  · cases h
  · split at h
    · cases h
    · split at h <;> cases h
      rfl

theorem transitionOrder_ledger {id : Uuid} {next : OrderState} {venueOrderId : Option String}
    {r : Committed OrderRecord} (h : transitionOrder id next venueOrderId db = .ok r) :
    r.db.ledger = db.ledger := by
  unfold transitionOrder at h
  split at h
  · cases h
  · split at h
    · cases h
      rfl
    · split at h <;> cases h
      rfl

theorem cancelPreparedOrder_ledger {orderId : Uuid} {r : Committed OrderRecord}
    (h : cancelPreparedOrder orderId db = .ok r) : r.db.ledger = db.ledger := by
  unfold cancelPreparedOrder at h
  split at h <;> cases h
  rfl

theorem recoverInterruptedRows_ledger {rows : List UnknownSubmission} :
    (recoverInterruptedRows rows db).1.ledger = db.ledger := by
  induction rows generalizing db with
  | nil => rfl
  | cons row rows ih => exact ih

theorem recordVenueTradeFinality_books {orderId : Uuid} {venueTradeId : String}
    {status : TradeState} {r : Committed Bool}
    (h : recordVenueTradeFinality orderId venueTradeId status db = .ok r) :
    FillsBooked [] db r.db := by
  have hkept : ∀ (updates : Prop) [Decidable updates] (id : Uuid) (status : TradeState),
      (if updates then Table.updateWhere (fun t : TradeRecord => t.id = id)
        (fun t => { t with status }) db.trades else db.trades).map
          (fun t => (t.orderId, t.size)) = db.tradeRows := by
    intro updates _ id status
    split
    · exact Table.map_updateWhere fun _ => rfl
    · rfl
  unfold recordVenueTradeFinality at h
  dsimp only at h
  split at h
  · cases h
    exact .refl db
  · split at h <;> cases h
    · exact .refl db
    · exact .of_rows (hkept ..) rfl

/-! ## The paper feed -/

/-- A paper fill of an order's own row is booked for the order, which keeps its leg. -/
theorem fillCoreOrder_books (trade : PaperTrade) (venueOrderId venueTradeId : String)
    (fill nextRemaining : Decimal) (state : OrderState) (now : Time) (db : Db) :
    ∃ fills, FillsBooked fills db
        (fillCoreOrder trade venueOrderId venueTradeId fill nextRemaining state now db).1 ∧
      Filling db.legs fills ∧
      (fillCoreOrder trade venueOrderId venueTradeId fill nextRemaining state now db).1.legs =
        db.legs := by
  unfold fillCoreOrder
  split
  · exact ⟨[], .refl db, .nil, rfl⟩
  · rename_i core hfound
    split
    · obtain ⟨fills, hbooked, hfilling⟩ := applyMatchedFill_booksFill { db with
          orders := Table.updateWhere (fun o : OrderRecord => o.id = core.id)
            (fun o => { o with
              state := paperFilledState core.state state, remainingQuantity := nextRemaining })
            db.orders }
        core (some venueOrderId) fill (some trade.price) [venueTradeId] now
      refine ⟨fills, hbooked.of_ledger rfl rfl, hfilling.of_order (find?_mem hfound).1, ?_⟩
      apply (congrArg (List.map OrderRecord.leg) applyMatchedFill_orders).trans
      exact Table.map_updateWhere fun _ => rfl
    · exact ⟨[], .refl db, .nil, rfl⟩

theorem fillRestingOrder_books {trade : PaperTrade} {now : Time} {row : PaperVenueOrder}
    {fill : Decimal} {balances balances' : PaperBalances} {db' : Db} {events : List ExecutionEvent}
    (h : fillRestingOrder trade now row fill balances db = .ok (balances', db', events)) :
    ∃ fills, FillsBooked fills db db' ∧ Filling db.legs fills ∧ db'.legs = db.legs := by
  unfold fillRestingOrder at h
  dsimp only at h
  split at h <;> cases h
  obtain ⟨fills, hbooked, hfilling, hlegs⟩ := fillCoreOrder_books trade row.venueOrderId
    ("paper:" ++ trade.eventId ++ ":" ++ row.venueOrderId) fill (row.remainingQuantity - fill)
    (paperFillState (row.remainingQuantity - fill)) now
    { db with
      paperVenueOrders := Table.updateWhere
        (fun p : PaperVenueOrder => p.venueOrderId = row.venueOrderId)
        (fun _ => row.fill trade.price fill (paperFillState (row.remainingQuantity - fill))
          ("paper:" ++ trade.eventId ++ ":" ++ row.venueOrderId) (trade.evidence fill))
        db.paperVenueOrders }
  exact ⟨fills, hbooked.of_ledger rfl rfl, hfilling, hlegs⟩

/-- Every fill of the loop is booked for an order that was there before it. -/
theorem applyTradeThrough_books {trade : PaperTrade} {now : Time} {rows : List PaperVenueOrder}
    {size : Decimal} {count count' : Nat} {balances balances' : PaperBalances} {db' : Db}
    {events events' : List ExecutionEvent}
    (h : applyTradeThrough trade now rows size count balances db events =
      .ok (count', balances', db', events')) :
    ∃ fills, FillsBooked fills db db' ∧ Filling db.legs fills := by
  induction rows generalizing db size count balances events with
  | nil =>
    cases h
    exact ⟨[], .refl _, .nil⟩
  | cons row rows ih =>
    simp only [applyTradeThrough] at h
    split at h
    · cases h
      exact ⟨[], .refl _, .nil⟩
    · split at h
      · exact ih h
      · split at h
        · cases h
        · rename_i hfill
          obtain ⟨fills, hbooked, hfilling, hlegs⟩ := fillRestingOrder_books hfill
          obtain ⟨later, hlater, hrest⟩ := ih h
          exact ⟨fills ++ later, hbooked.trans hlater, hfilling.append (hlegs ▸ hrest)⟩

theorem applyPaperTradeThrough_books {mode : Mode} {trade : PaperTrade} {now : Time}
    {r : Committed Nat} (h : applyPaperTradeThrough mode trade now db = .ok r) :
    ∃ fills, FillsBooked fills db r.db ∧ Filling db.legs fills := by
  unfold applyPaperTradeThrough at h
  split at h
  · cases h
  · split at h
    · cases h
    · dsimp only at h
      split at h
      · cases h
        exact ⟨[], .refl db, .nil⟩
      · split at h
        · cases h
        · split at h
          · cases h
          · rename_i hloop
            cases h
            obtain ⟨fills, hbooked, hfilling⟩ := applyTradeThrough_books hloop
            exact ⟨fills, hbooked.of_ledger rfl rfl, hfilling⟩

end Operations

theorem StoreCall.run_books {config : StoreConfig} {now : Time} {db : Db} {call : StoreCall}
    {r : Committed call.Value} (hids : (db.intents.map IntentRecord.id).Nodup)
    (h : call.run config now db = .ok r) (hreports : call.reportsPositions = false) :
    ∃ fills, FillsBooked fills db r.db ∧ Filling db.legs fills := by
  have hsame : r.db.ledger = db.ledger →
      ∃ fills, FillsBooked fills db r.db ∧ Filling db.legs fills :=
    fun hledger => ⟨[], .of_same hledger, .nil⟩
  cases call with
  | admitIntent => exact hsame (admitIntent_ledger h)
  | transitionIntent => exact hsame (transitionIntent_ledger h)
  | evaluateAndReserveRisk =>
    have hdecided := evaluateAndReserveRisk_ok h
    exact hsame (Prod.ext hdecided.trades hdecided.positions)
  | createPreparedOrder =>
    have hprepared := createPreparedOrder_ok h
    exact hsame (Prod.ext hprepared.trades hprepared.positions)
  | rejectPreparation =>
    have hrejected := rejectPreparation_ok h
    exact hsame (Prod.ext hrejected.trades hrejected.positions)
  | recoverPreSubmissionWork =>
    obtain ⟨-, htrades, hpositions⟩ := recoverPreSubmissionWork_frame hids h
    exact hsame (Prod.ext htrades hpositions)
  | beginSubmission => exact hsame (beginSubmission_ledger h)
  | finishSubmission =>
    obtain ⟨o, ho, -, -, ⟨-, hledger⟩ | ⟨-, db', hbefore, hafter⟩⟩ := finishSubmission_ledger h
    · exact hsame hledger
    · exact fillsBooked_of_ledger ho hbefore hafter
  | recoverInterruptedSubmissions =>
    cases h
    exact hsame recoverInterruptedRows_ledger
  | resolveUnknownSubmission unknown venueOrderId state =>
    by_cases hunknown : state = .unknown
    · subst hunknown
      cases h
      exact hsame rfl
    · obtain ⟨o, ho, -, -, db', hbefore, hafter⟩ := resolveUnknownSubmission_ledger hunknown h
      exact fillsBooked_of_ledger ho hbefore hafter
  | transitionOrder => exact hsame (transitionOrder_ledger h)
  | cancelPreparedOrder => exact hsame (cancelPreparedOrder_ledger h)
  | reconcileOrderProjection =>
    obtain ⟨o, ho, -, db', hbefore, hafter⟩ := reconcileOrderProjection_ledger h
    exact fillsBooked_of_ledger ho hbefore hafter
  | recordVenueTradeFinality => exact ⟨[], recordVenueTradeFinality_books h, .nil⟩
  | reconcileVenuePositions => cases hreports
  | applyPaperTradeThrough => exact applyPaperTradeThrough_books h
  | _ =>
    obtain ⟨_, _, _, _, _, _, _, _, _, _, -, hframe⟩ := StoreCall.run_keepsHouse h rfl
    rw [hframe]
    exact ⟨[], .of_same rfl, .nil⟩

/-! ## A report of the venue -/

def sharesIn (positions : List PositionRecord) (tokenId : String) : Decimal :=
  (positions.find? fun p => p.tokenId = tokenId).elim 0 PositionRecord.shares

/-- The shares the venue reports of a token: none, if the report does not name it. -/
def reportedShares (observed : List ObservedVenuePosition) (tokenId : String) : Decimal :=
  (observed.find? fun p => p.tokenId = tokenId).elim 0 ObservedVenuePosition.shares

section Report

variable {db : Db}

theorem positionShares_eq_sharesIn (db : Db) (tokenId : String) :
    db.positionShares tokenId = sharesIn db.positions tokenId := by
  unfold Db.positionShares sharesIn
  split <;> rename_i hfound <;> rw [hfound] <;> rfl

theorem sharesIn_sorted (positions : List PositionRecord) (tokenId : String) :
    sharesIn (positions.insertionSort fun a b => a.tokenId ≤ b.tokenId) tokenId =
      sharesIn positions tokenId := by
  have hinsert : ∀ (p : PositionRecord) (rows : List PositionRecord),
      (rows.orderedInsert (fun a b => a.tokenId ≤ b.tokenId) p).find?
          (fun q => q.tokenId = tokenId) =
        (p :: rows).find? fun q => q.tokenId = tokenId := by
    intro p rows
    induction rows with
    | nil => rfl
    | cons row rows ih =>
      rw [List.orderedInsert_cons]
      split
      · rfl
      · rename_i hbefore
        rw [List.find?_cons, ih]
        by_cases hrow : row.tokenId = tokenId
        · -- the new row is of another token, or it would be before this one
          have hother : p.tokenId ≠ tokenId := by
            intro hp
            apply hbefore
            rw [hp, hrow]
          simp [hrow, hother]
        · simp [List.find?_cons, hrow]
  unfold sharesIn
  congr 1
  induction positions with
  | nil => rfl
  | cons p rest ih => rw [List.insertionSort_cons, hinsert, List.find?_cons, List.find?_cons, ih]

theorem positionShares_overwrite (db : Db) (row : PositionRecord) (tokenId : String) :
    ({ db with
        positions := Table.upsert PositionRecord.tokenId row (fun _ => row) db.positions } :
      Db).positionShares tokenId =
      if tokenId = row.tokenId then row.shares else db.positionShares tokenId := by
  apply positionShares_upsert
  unfold Table.upsert
  split
  · apply Table.updateWhere_congr
    · intro p _
      rfl
    · intro p _ hp
      cases p
      cases row
      cases hp
      rfl
  · rfl

theorem positionShares_zero (db : Db) (zeroed tokenId : String) :
    ({ db with
        positions := Table.updateWhere (fun p : PositionRecord => p.tokenId = zeroed)
          (fun p => { p with shares := 0 }) db.positions } : Db).positionShares tokenId =
      if tokenId = zeroed then 0 else db.positionShares tokenId := by
  rw [positionShares_eq_sharesIn, positionShares_eq_sharesIn, sharesIn, sharesIn]
  have hkey : ∀ p : PositionRecord, ({ p with shares := 0 } : PositionRecord).tokenId = p.tokenId :=
    fun _ => rfl
  rw [Table.find?_updateWhere hkey]
  cases hfound : db.positions.find? fun p => p.tokenId = tokenId with
  | none => simp
  | some p =>
    obtain ⟨-, htoken⟩ := find?_mem hfound
    by_cases hzeroed : tokenId = zeroed
    · simp [htoken, hzeroed]
    · simp [htoken, hzeroed]

theorem upsertVenuePositions_shares {current : List PositionRecord}
    {observed : List ObservedVenuePosition} {tokens tokens' : List String} {db' : Db}
    {events events' : List ExecutionEvent}
    (hread : ∀ tokenId ∉ tokens, db.positionShares tokenId = sharesIn current tokenId)
    (h : upsertVenuePositions current observed tokens db events = .ok (tokens', db', events')) :
    db'.trades = db.trades ∧
      (∀ tokenId, tokenId ∈ tokens' ↔ tokenId ∈ tokens ∨ ∃ p ∈ observed, p.tokenId = tokenId) ∧
      ∀ tokenId, db'.positionShares tokenId =
        if tokenId ∈ tokens then db.positionShares tokenId
        else (observed.find? fun p => p.tokenId = tokenId).elim (db.positionShares tokenId)
          ObservedVenuePosition.shares := by
  induction observed generalizing tokens db events with
  | nil =>
    cases h
    simp
  | cons p rest ih =>
    -- either way the position is the reported one from here on
    have hnext : ∀ {db₁ : Db} {events₁ : List ExecutionEvent}, p.tokenId ∉ tokens →
        db₁.trades = db.trades →
        (∀ tokenId, db₁.positionShares tokenId =
          if tokenId = p.tokenId then p.shares else db.positionShares tokenId) →
        upsertVenuePositions current rest (p.tokenId :: tokens) db₁ events₁ =
          .ok (tokens', db', events') →
        db'.trades = db.trades ∧
          (∀ tokenId, tokenId ∈ tokens' ↔
            tokenId ∈ tokens ∨ ∃ q ∈ p :: rest, q.tokenId = tokenId) ∧
          ∀ tokenId, db'.positionShares tokenId =
            if tokenId ∈ tokens then db.positionShares tokenId
            else ((p :: rest).find? fun q => q.tokenId = tokenId).elim (db.positionShares tokenId)
              ObservedVenuePosition.shares := by
      intro db₁ events₁ hfresh htrades hshares hrest
      obtain ⟨htrades', htokens, hrest⟩ := ih (fun tokenId htoken => by
        rw [List.mem_cons, not_or] at htoken
        obtain ⟨hne, hnot⟩ := htoken
        rw [hshares, if_neg hne, hread tokenId hnot]) hrest
      refine ⟨htrades'.trans htrades, ?_, ?_⟩
      · intro tokenId
        rw [htokens]
        simp only [List.mem_cons, exists_eq_or_imp]
        tauto
      · intro tokenId
        rw [hrest, hshares]
        by_cases htoken : tokenId = p.tokenId
        · subst htoken
          simp [hfresh]
        · simp [htoken, Ne.symm htoken]
    simp only [upsertVenuePositions] at h
    split at h
    · cases h
    · split at h
      · cases h
      · rename_i hfresh
        split at h
        · rename_i hprior
          refine hnext hfresh rfl ?_ h
          intro tokenId
          by_cases htoken : tokenId = p.tokenId
          · obtain ⟨row, hrow, hsame⟩ := Option.map_eq_some_iff.mp hprior
            rw [if_pos htoken, htoken, hread _ hfresh, sharesIn, hrow]
            exact hsame
          · rw [if_neg htoken]
        · refine hnext hfresh ?_ ?_ h
          · rfl
          · intro tokenId
            exact positionShares_overwrite db
              { tokenId := p.tokenId, conditionId := p.conditionId, shares := p.shares } tokenId

/-- The second loop leaves nothing of the tokens that were not reported. -/
theorem zeroMissingPositions_shares {tokens : List String} {current : List PositionRecord}
    {events : List ExecutionEvent} :
    (zeroMissingPositions tokens current db events).1.trades = db.trades ∧
      ∀ tokenId, (zeroMissingPositions tokens current db events).1.positionShares tokenId =
        if tokenId ∉ tokens ∧ ∃ p ∈ current, p.tokenId = tokenId ∧ p.shares ≠ 0 then 0
        else db.positionShares tokenId := by
  induction current generalizing db events with
  | nil => simp [zeroMissingPositions]
  | cons prior rest ih =>
    simp only [zeroMissingPositions]
    split
    · rename_i hkept
      obtain ⟨htrades, hshares⟩ := @ih db events
      refine ⟨htrades, ?_⟩
      intro tokenId
      rw [hshares]
      congr 1
      apply propext
      constructor
      · rintro ⟨htoken, p, hp, hrest⟩
        exact ⟨htoken, p, List.mem_cons_of_mem _ hp, hrest⟩
      · rintro ⟨htoken, p, hp, rfl, hzero⟩
        rcases List.mem_cons.mp hp with rfl | hp
        · exact absurd hkept (not_or.mpr ⟨htoken, hzero⟩)
        · exact ⟨htoken, p, hp, rfl, hzero⟩
    · rename_i hzeroed
      obtain ⟨hprior, hzero⟩ := not_or.mp hzeroed
      refine ⟨ih.1, ?_⟩
      intro tokenId
      apply (ih.2 tokenId).trans
      apply (if_congr Iff.rfl rfl (positionShares_zero db prior.tokenId tokenId)).trans
      by_cases htoken : tokenId = prior.tokenId
      · have hmissing : tokenId ∉ tokens ∧
            ∃ p ∈ prior :: rest, p.tokenId = tokenId ∧ p.shares ≠ 0 :=
          ⟨htoken ▸ hprior, prior, List.mem_cons_self, htoken.symm, hzero⟩
        rw [if_pos htoken, if_pos hmissing, ite_self]
      · simp [htoken, Ne.symm htoken]

/-- After a report every position is what was reported. -/
theorem reconcileVenuePositions_shares {observed : List ObservedVenuePosition}
    {r : Committed Unit} (h : reconcileVenuePositions observed db = .ok r) :
    r.db.trades = db.trades ∧
      ∀ tokenId, r.db.positionShares tokenId = reportedShares observed tokenId := by
  unfold reconcileVenuePositions at h
  dsimp only at h
  split at h
  · cases h
  · rename_i tokens db' events hupserted
    cases h
    have hread : ∀ tokenId, db.positionShares tokenId =
        sharesIn (db.positions.insertionSort fun a b => a.tokenId ≤ b.tokenId) tokenId := by
      intro tokenId
      rw [sharesIn_sorted, positionShares_eq_sharesIn]
    obtain ⟨htrades, htokens, hshares⟩ :=
      upsertVenuePositions_shares (fun tokenId _ => hread tokenId) hupserted
    obtain ⟨htrades', hzeroed⟩ := @zeroMissingPositions_shares db' tokens
      (db.positions.insertionSort fun a b => a.tokenId ≤ b.tokenId) events
    refine ⟨htrades'.trans htrades, ?_⟩
    intro tokenId
    rw [hzeroed, hshares, if_neg List.not_mem_nil, reportedShares]
    cases hfound : observed.find? fun p => p.tokenId = tokenId with
    | some p =>
      have hreported : tokenId ∈ tokens := (htokens tokenId).mpr (Or.inr ⟨p, find?_mem hfound⟩)
      rw [if_neg fun hmissing => hmissing.1 hreported]
      rfl
    | none =>
      have hunreported : tokenId ∉ tokens := by
        intro htoken
        rcases (htokens tokenId).mp htoken with hnil | ⟨p, hp, rfl⟩
        · cases hnil
        · exact absurd (decide_eq_true rfl) (List.find?_eq_none.mp hfound p hp)
      split
      · rfl
      · rename_i hkept
        -- the row that is read has no shares, or the second loop would have found it
        rw [hread]
        unfold sharesIn
        cases hrow : (db.positions.insertionSort fun a b => a.tokenId ≤ b.tokenId).find?
            fun p => p.tokenId = tokenId with
        | none => rfl
        | some p =>
          by_contra hshares
          obtain ⟨hmem, htoken⟩ := find?_mem hrow
          exact hkept ⟨hunreported, p, hmem, htoken, hshares⟩

end Report

/-! ## Runs -/

/-- A step of a store that trades, with the databases before: any operation of the coordinator but
a report of positions, or a write of the paper venue to its own tables. -/
inductive TradingStep (config : StoreConfig) : Db × List Db → Db × List Db → Prop
  | call {db : Db} {past : List Db} (call : StoreCall) (now : Time)
      (hallowed : call.Allowed (db :: past)) (hreports : call.reportsPositions = false) :
      TradingStep config (db, past) (call.after config now db, db :: past)
  | venue {db db' : Db} {past : List Db} (hwrites : db.PaperWrites db') :
      TradingStep config (db, past) (db', db :: past)

/-- What a store does between two reports of positions. -/
abbrev TradingSteps (config : StoreConfig) : Db × List Db → Db × List Db → Prop :=
  Relation.ReflTransGen (TradingStep config)

theorem Db.PaperWrites.frame {db db' : Db} (h : db.PaperWrites db') : db.PaperFrame db' := by
  obtain ⟨_, _, _, _, _, rfl⟩ := h
  exact ⟨_, _, _, _, _, _, rfl⟩

theorem OrderRecord.SameTerms.leg {o o' : OrderRecord} (h : o.SameTerms o') : o'.leg = o.leg := by
  obtain ⟨hid, -, -, htoken, hside, -⟩ := h
  simp [OrderRecord.leg, hid, htoken, hside]

theorem Leads.legs {db : Db} {past : List Db} (h : Leads db past) {earlier : Db}
    (hearlier : earlier ∈ past) : earlier.legs ⊆ db.legs := by
  intro leg hleg
  obtain ⟨o, ho, rfl⟩ := List.mem_map.mp hleg
  obtain ⟨o', ho', hterms⟩ := h.order hearlier ho
  exact List.mem_map.mpr ⟨o', ho', hterms.leg⟩

section Runs

variable {config : StoreConfig} {start db : Db} {before past : List Db}

theorem TradingStep.run {next : Db} {past' : List Db}
    (h : TradingStep config (db, past) (next, past'))
    (hrun : StoreRun config (fun _ _ => True) db past) :
    StoreRun config (fun _ _ => True) next past' ∧ past' = db :: past := by
  cases h with
  | call call now hallowed _ => exact ⟨.call call now hrun hallowed trivial, rfl⟩
  | venue hwrites => exact ⟨.venue hrun hwrites.frame, rfl⟩

theorem TradingStep.books {next : Db} {past' : List Db}
    (h : TradingStep config (db, past) (next, past'))
    (hids : (db.intents.map IntentRecord.id).Nodup) :
    ∃ fills, FillsBooked fills db next ∧ Filling db.legs fills := by
  cases h with
  | call call now _ hreports =>
    unfold StoreCall.after
    cases hrun : call.run config now db with
    | error => exact ⟨[], .refl db, .nil⟩
    | ok r => exact call.run_books hids hrun hreports
  | venue hwrites =>
    obtain ⟨_, _, _, _, _, rfl⟩ := hwrites
    exact ⟨[], .of_same rfl, .nil⟩

/-- Between two reports positions move by the fills that are booked, and by nothing else. -/
theorem TradingSteps.books (hrun : StoreRun config (fun _ _ => True) start before)
    (h : TradingSteps config (start, before) (db, past)) :
    StoreRun config (fun _ _ => True) db past ∧
      ∃ fills, FillsBooked fills start db ∧ Filling db.legs fills := by
  generalize hend : (db, past) = last at h
  induction h generalizing db past with
  | refl =>
    cases hend
    exact ⟨hrun, [], .refl _, .nil⟩
  | @tail middle last _ hstep ih =>
    obtain ⟨db₁, past₁⟩ := middle
    subst hend
    obtain ⟨hrun₁, fills, hbooked, hfilling⟩ := ih rfl
    obtain ⟨hrun', rfl⟩ := hstep.run hrun₁
    obtain ⟨later, hlater, hrest⟩ := hstep.books hrun₁.coherent.intentIds
    have hlegs : db₁.legs ⊆ db.legs := hrun'.leads.legs List.mem_cons_self
    exact ⟨hrun', fills ++ later, hbooked.trans hlater,
      (hfilling.mono hlegs).append (hrest.mono hlegs)⟩

/-- After a report of the venue and whatever else the store did, up to the next report, the trade
rows are those there were and one for each fill booked since, of an order that is there; and every
position is what the venue reported and these fills. -/
theorem positions_since_report {guard : StoreCall → Db → Prop}
    (hrun : StoreRun config guard start before) {observed : List ObservedVenuePosition} {now : Time}
    {r : Committed Unit}
    (hreport : (StoreCall.reconcileVenuePositions observed).run config now start = .ok r)
    (hlater : TradingSteps config (r.db, start :: before) (db, past)) :
    ∃ fills, db.tradeRows = start.tradeRows ++ fills.map (fun fill => (fill.1.orderId, fill.2)) ∧
      (∀ fill ∈ fills, fill.1 ∈ db.legs ∧ 0 < fill.2) ∧
      ∀ tokenId, db.positionShares tokenId =
        reportedShares observed tokenId + netFilled tokenId fills := by
  have hreported : StoreRun config (fun _ _ => True) r.db (start :: before) := by
    have hstep : StoreRun config (fun _ _ => True)
        ((StoreCall.reconcileVenuePositions observed).after config now start) (start :: before) :=
      .call _ now (hrun.mono fun _ _ _ => trivial) trivial trivial
    rwa [StoreCall.after, hreport] at hstep
  obtain ⟨htrades, hshares⟩ := reconcileVenuePositions_shares hreport
  obtain ⟨-, fills, hbooked, hfilling⟩ := hlater.books hreported
  refine ⟨fills, ?_, hfilling, ?_⟩
  · rw [hbooked.trades, Db.tradeRows, htrades]
    rfl
  · intro tokenId
    rw [hbooked.positions, hshares]

end Runs

/-- The venue holds 25 shares for the account. -/
def heldSample : List ObservedVenuePosition :=
  [{ conditionId := "condition", tokenId := "7", shares := 25 }]

/-- Four shares of the first order are filled. -/
def partialFillSample : StoreCall :=
  .reconcileOrderProjection 7 .partiallyFilled 6 4 (some (1 / 2)) ["trade"]

/-- A resting order, a report of the positions and a fill. -/
theorem positions_since_report_filled : ∃ start before r db past fills,
    StoreRun samplePaperStore (fun _ _ => True) start before ∧
      (StoreCall.reconcileVenuePositions heldSample).run samplePaperStore 0 start = .ok r ∧
      TradingSteps samplePaperStore (r.db, start :: before) (db, past) ∧
      (∀ fill ∈ fills, fill.1 ∈ db.legs ∧ 0 < fill.2) ∧
      db.positionShares "7" = 29 ∧ 29 = reportedShares heldSample "7" + netFilled "7" fills := by
  have hsample : (play samplePaperStore 0 restingSample Db.initial []).any (fun (db, past) =>
      match (StoreCall.reconcileVenuePositions heldSample).run samplePaperStore 0 db with
      | .ok r => decide (partialFillSample.Allowed (r.db :: db :: past) ∧
          (partialFillSample.after samplePaperStore 0 r.db).positionShares "7" = 29)
      | .error _ => false) = true := by decide +kernel
  obtain ⟨⟨start, before⟩, hplay, hcheck⟩ := (Option.any_eq_true _ _).mp hsample
  dsimp only at hcheck
  split at hcheck
  · rename_i r hreport
    obtain ⟨hallowed, hshares⟩ := of_decide_eq_true hcheck
    have hrun : StoreRun samplePaperStore (fun _ _ => True) start before :=
      play_run .initial (fun _ _ _ => trivial) hplay
    have hlater : TradingSteps samplePaperStore (r.db, start :: before) _ :=
      .single (.call partialFillSample 0 hallowed rfl)
    obtain ⟨fills, -, hfilling, hpositions⟩ := positions_since_report hrun hreport hlater
    exact ⟨start, before, r, _, _, fills, hrun, hreport, hlater, hfilling, hshares,
      hshares.symm.trans (hpositions "7")⟩
  · cases hcheck

end OddsfoxExecution
