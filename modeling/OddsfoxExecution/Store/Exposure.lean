import OddsfoxExecution.Library.Sums
import OddsfoxExecution.Portfolio
import OddsfoxExecution.Store.Effects

/-!
# The exposure of a database

The tables the risk engine counts exposure in, the portfolio they stand for and
the steps they change by.  `Tracked` says how the tables fit together; every
step keeps it and is a history of the portfolio.
-/

namespace OddsfoxExecution

def TradeRecord.fill (t : TradeRecord) : Fill where
  price := t.price
  size := t.size
  createdAt := t.createdAt

/-- The tables exposure is counted in, and the identifiers drawn so far. -/
structure Exposures where
  intents : List IntentRecord
  riskReservations : List RiskReservation
  orders : List OrderRecord
  positions : List PositionRecord
  fills : List Fill
  nextUuid : Uuid

def Db.exposures (db : Db) : Exposures where
  intents := db.intents
  riskReservations := db.riskReservations
  orders := db.orders
  positions := db.positions
  fills := db.trades.map TradeRecord.fill
  nextUuid := db.nextUuid

/-! ## The portfolio of the tables -/

def OrderRecord.commitment (o : OrderRecord) : Commitment where
  conditionId := o.conditionId
  tokenId := o.tokenId
  side := o.side
  price := o.price
  feeRate := o.feeRate
  quoteExposure := o.quoteExposure
  originalQuantity := o.originalQuantity
  quantity := o.remainingQuantity

def RiskReservation.commitment (r : RiskReservation) : Commitment where
  conditionId := r.conditionId
  tokenId := r.tokenId
  side := r.side
  price := r.price
  feeRate := r.feeRate
  quoteExposure := r.quoteExposure
  originalQuantity := r.quantity
  quantity := r.quantity

/-- What an order commits: nothing once it is terminal. -/
def OrderRecord.commits (o : OrderRecord) : Multiset Commitment :=
  if o.state.exposed = true then {o.commitment} else 0

def RiskReservation.commits (r : RiskReservation) : Multiset Commitment :=
  if r.state = .active then {r.commitment} else 0

noncomputable def holdings (positions : List PositionRecord) : String →₀ Decimal :=
  (positions.map fun p => Finsupp.single p.tokenId p.shares).sum

noncomputable def Exposures.portfolio (s : Exposures) : Portfolio where
  pending := (s.orders.map OrderRecord.commits).sum +
    (s.riskReservations.map RiskReservation.commits).sum
  held := holdings s.positions
  booked := s.fills

noncomputable def Db.portfolio (db : Db) : Portfolio := db.exposures.portfolio

theorem holdings_apply {positions : List PositionRecord}
    (hnodup : (positions.map PositionRecord.tokenId).Nodup) (tokenId : String) :
    holdings positions tokenId =
      ((positions.find? fun p => p.tokenId = tokenId).elim 0 PositionRecord.shares : Decimal) := by
  induction positions with
  | nil => rfl
  | cons p rest ih =>
    obtain ⟨hfresh, hrest⟩ := List.nodup_cons.mp hnodup
    have hcons : holdings (p :: rest) = Finsupp.single p.tokenId p.shares + holdings rest := by
      rw [holdings, List.map_cons, List.sum_cons, holdings]
    rw [hcons, Finsupp.add_apply, ih hrest, List.find?_cons]
    by_cases htoken : p.tokenId = tokenId
    · have hnone : rest.find? (fun q => decide (q.tokenId = tokenId)) = none := by
        rw [List.find?_eq_none]
        intro q hq heq
        exact hfresh (List.mem_map.mpr ⟨q, hq, (of_decide_eq_true heq).trans htoken.symm⟩)
      rw [hnone, htoken]
      simp
    · simp [htoken]

theorem Db.positionShares_eq {db : Db} (hnodup : (db.positions.map PositionRecord.tokenId).Nodup)
    (tokenId : String) : db.positionShares tokenId = holdings db.positions tokenId := by
  rw [holdings_apply hnodup, Db.positionShares]
  cases db.positions.find? fun p => decide (p.tokenId = tokenId) <;> rfl

/-- The position an order of one side leaves when it fills. -/
def bookPosition (o : OrderRecord) (shares : Decimal) (positions : List PositionRecord) :
    List PositionRecord :=
  Table.upsert PositionRecord.tokenId
    { tokenId := o.tokenId, conditionId := o.conditionId, shares }
    (fun p => { p with conditionId := o.conditionId, shares }) positions

theorem bookPosition_tokens {o : OrderRecord} {shares : Decimal} {positions : List PositionRecord}
    (hnodup : (positions.map PositionRecord.tokenId).Nodup) :
    ((bookPosition o shares positions).map PositionRecord.tokenId).Nodup :=
  Table.nodup_upsert (fun _ htoken => htoken) hnodup

/-- Booking a position moves what is held of its token and of no other. -/
theorem holdings_bookPosition {o : OrderRecord} {shares : Decimal}
    {positions : List PositionRecord} (hnodup : (positions.map PositionRecord.tokenId).Nodup) :
    holdings (bookPosition o shares positions) = holdings positions +
      Finsupp.single o.tokenId (shares - holdings positions o.tokenId) := by
  unfold bookPosition Table.upsert
  split
  · rename_i htaken
    obtain ⟨p, hp, htoken⟩ := List.any_eq_true.mp htaken
    have htoken : p.tokenId = o.tokenId := of_decide_eq_true htoken
    have hheld : holdings positions o.tokenId = p.shares := by
      have hfind := Table.find?_eq_some_of_mem hnodup hp
      rw [htoken] at hfind
      rw [holdings_apply hnodup, hfind]
      rfl
    have hkey : ({ p with conditionId := o.conditionId, shares } : PositionRecord).tokenId =
        p.tokenId := rfl
    rw [Table.updateWhere_eq_replace hnodup hp htoken (fun row _ heq => heq.trans htoken.symm) rfl,
      holdings, Table.sum_replace hnodup hp hkey, hheld, Finsupp.single_sub, holdings, ← htoken]
    abel
  · rename_i hfresh
    have hheld : holdings positions o.tokenId = 0 := by
      have hnone : positions.find? (fun p => decide (p.tokenId = o.tokenId)) = none := by
        rw [List.find?_eq_none]
        exact fun p hp heq => hfresh (List.any_eq_true.mpr ⟨p, hp, heq⟩)
      rw [holdings_apply hnodup, hnone]
      rfl
    rw [holdings, Table.sum_append_row, hheld, sub_zero]
    rfl

/-! ## Steps -/

/-- A reservation holds what a request asks for. -/
structure RiskReservation.Matches (r : RiskReservation) (request : OrderIntentRequest) : Prop where
  conditionId : r.conditionId = request.conditionId
  tokenId : r.tokenId = request.tokenId
  side : r.side = request.side
  price : request.protectionPrice = .ok r.price

def IntentRecord.ask (i : IntentRecord) : Uuid × OrderIntentRequest := (i.id, i.request)

/-- Two rows of an order, the later one with no more left, and not open again. -/
structure OrderRecord.Follows (o o' : OrderRecord) : Prop where
  id : o'.id = o.id
  intentId : o'.intentId = o.intentId
  commitment : o'.commitment = { o.commitment with quantity := o'.remainingQuantity }
  exposed : o'.state.exposed = true → o.state.exposed = true
  nonneg : 0 ≤ o'.remainingQuantity
  unsettled : o'.state.unsettled = true → o'.remainingQuantity = o'.originalQuantity

/-- One change of the tables exposure is counted in. -/
inductive ExposureStep (conditions : Conditions) (s : Exposures) : Exposures → Prop
  | draw {n : Uuid} (hle : s.nextUuid ≤ n) : ExposureStep conditions s { s with nextUuid := n }
  | enroll {record : IntentRecord} (hstate : record.state ≠ .submitting)
      (hid : record.id = s.nextUuid) :
      ExposureStep conditions s
        { s with intents := s.intents ++ [record], nextUuid := s.nextUuid + 1 }
  | intents {intents : List IntentRecord}
      (hasks : intents.map IntentRecord.ask = s.intents.map IntentRecord.ask)
      (hsubmitting : ∀ i ∈ intents, i.state = .submitting →
        ∀ o ∈ s.orders, o.intentId = i.id → o.state = .submitting) :
      ExposureStep conditions s { s with intents }
  | reserve {row : RiskReservation} (hactive : row.state = .active)
      (hfresh : ∀ r ∈ s.riskReservations, r.intentId ≠ row.intentId)
      (hdrawn : row.intentId < s.nextUuid) (hsound : row.commitment.Sound)
      (hmatches : ∀ i ∈ s.intents, i.id = row.intentId → row.Matches i.request)
      (henters : conditions.enters s.portfolio row.commitment) :
      ExposureStep conditions s { s with riskReservations := s.riskReservations ++ [row] }
  | close (intentId : Uuid) {state : ReservationState} (hstate : state ≠ .active) :
      ExposureStep conditions s
        { s with
          riskReservations := Table.updateWhere (RiskReservation.At intentId .active)
            (fun r => { r with state }) s.riskReservations }
  | prepare {r : RiskReservation} {order : OrderRecord} (hr : r ∈ s.riskReservations)
      (hactive : r.state = .active) (hid : order.id = s.nextUuid + 2)
      (howner : order.intentId = r.intentId) (hstate : order.state = .prepared)
      (hremaining : order.remainingQuantity = order.originalQuantity)
      (hcommitment : order.commitment = { r.commitment with feeRate := order.feeRate })
      (hidle : ∀ i ∈ s.intents, i.id = r.intentId → i.state ≠ .submitting)
      (hcharges : conditions.charges r.commitment order.feeRate) :
      ExposureStep conditions s
        { s with
          orders := s.orders ++ [order]
          riskReservations := Table.updateWhere (RiskReservation.At r.intentId .active)
            (fun r => { r with state := .consumed }) s.riskReservations
          nextUuid := s.nextUuid + 3 }
  | shrink {o o' : OrderRecord} (ho : o ∈ s.orders) (hfollows : o.Follows o')
      (hle : o'.remainingQuantity ≤ o.remainingQuantity)
      (hsubmitting : o'.state = .submitting ∨
        ∀ i ∈ s.intents, i.id = o.intentId → i.state ≠ .submitting) :
      ExposureStep conditions s { s with orders := Table.replace OrderRecord.id o' s.orders }
  | fill {o o' : OrderRecord} {f : Fill} (ho : o ∈ s.orders) (hfollows : o.Follows o')
      (hexposed : o.state.exposed = true) (hpositive : 0 < f.size)
      (hle : o'.remainingQuantity + f.size ≤ o.remainingQuantity)
      (hsubmitting : o'.state = .submitting ∨
        ∀ i ∈ s.intents, i.id = o.intentId → i.state ≠ .submitting)
      (hfills : conditions.fills o.commitment f) :
      ExposureStep conditions s
        { s with
          orders := Table.replace OrderRecord.id o' s.orders
          positions := bookPosition o
            (o.side.apply (holdings s.positions o.tokenId) f.size) s.positions
          fills := s.fills ++ [f] }

/-- What a transaction does to the tables exposure is counted in. -/
abbrev ExposureSteps (conditions : Conditions) : Exposures → Exposures → Prop :=
  Relation.ReflTransGen (ExposureStep conditions)

/-- How the tables exposure is counted in fit together. -/
structure Tracked (s : Exposures) : Prop where
  intentIds : (s.intents.map IntentRecord.id).Nodup
  orderIds : (s.orders.map OrderRecord.id).Nodup
  orderIntents : (s.orders.map OrderRecord.intentId).Nodup
  reservationIntents : (s.riskReservations.map RiskReservation.intentId).Nodup
  tokens : (s.positions.map PositionRecord.tokenId).Nodup
  intentsDrawn : ∀ i ∈ s.intents, i.id < s.nextUuid
  ordersDrawn : ∀ o ∈ s.orders, o.id < s.nextUuid
  reservationsDrawn : ∀ r ∈ s.riskReservations, r.intentId < s.nextUuid
  consumed : ∀ o ∈ s.orders, ∃ r ∈ s.riskReservations, r.intentId = o.intentId ∧ r.state ≠ .active
  matched : ∀ r ∈ s.riskReservations, r.state = .active →
    ∀ i ∈ s.intents, i.id = r.intentId → r.Matches i.request
  submitting : ∀ o ∈ s.orders, ∀ i ∈ s.intents, i.id = o.intentId → i.state = .submitting →
    o.state = .submitting
  sound : ∀ o ∈ s.orders, o.commitment.Sound
  reserved : ∀ r ∈ s.riskReservations, r.commitment.Sound
  unsettled : ∀ o ∈ s.orders, o.state.unsettled = true → o.remainingQuantity = o.originalQuantity

namespace Tracked

variable {conditions : Conditions} {s s' : Exposures}

/-- An order without a reservation that could still become one has none that is active. -/
theorem inactive (h : Tracked s) {o : OrderRecord} (ho : o ∈ s.orders) {r : RiskReservation}
    (hr : r ∈ s.riskReservations) (howner : r.intentId = o.intentId) : r.state ≠ .active := by
  obtain ⟨r', hr', howner', hstate⟩ := h.consumed o ho
  rwa [Table.eq_of_key_eq h.reservationIntents hr hr' (howner.trans howner'.symm)]

theorem intent_of_ask {intents : List IntentRecord}
    (hasks : intents.map IntentRecord.ask = s.intents.map IntentRecord.ask) {i : IntentRecord}
    (hi : i ∈ intents) : ∃ i' ∈ s.intents, i'.id = i.id ∧ i'.request = i.request := by
  have hmem : i.ask ∈ s.intents.map IntentRecord.ask := hasks ▸ List.mem_map_of_mem hi
  obtain ⟨i', hi', heq⟩ := List.mem_map.mp hmem
  exact ⟨i', hi', congrArg Prod.fst heq, congrArg Prod.snd heq⟩

theorem draw (h : Tracked s) {n : Uuid} (hle : s.nextUuid ≤ n) :
    Tracked { s with nextUuid := n } :=
  { h with
    intentsDrawn := fun i hi => lt_of_lt_of_le (h.intentsDrawn i hi) hle
    ordersDrawn := fun o ho => lt_of_lt_of_le (h.ordersDrawn o ho) hle
    reservationsDrawn := fun r hr => lt_of_lt_of_le (h.reservationsDrawn r hr) hle }

theorem enroll (h : Tracked s) {record : IntentRecord} (hstate : record.state ≠ .submitting)
    (hid : record.id = s.nextUuid) :
    Tracked { s with intents := s.intents ++ [record], nextUuid := s.nextUuid + 1 } := by
  have hnew : ∀ i ∈ s.intents ++ [record], i ∈ s.intents ∨ i = record := fun i hi => by
    simpa using hi
  have hdrawn := h.draw (Nat.le_succ s.nextUuid)
  refine { hdrawn with intentIds := ?_, intentsDrawn := ?_, matched := ?_, submitting := ?_ }
  · exact Table.nodup_append_row h.intentIds fun other hother =>
      hid ▸ (h.intentsDrawn other hother).ne
  · intro i hi
    rcases hnew i hi with hi | rfl
    · exact hdrawn.intentsDrawn i hi
    · rw [hid]
      exact Nat.lt_succ_self _
  · intro r hr hactive i hi howner
    rcases hnew i hi with hi | rfl
    · exact h.matched r hr hactive i hi howner
    · exact absurd (howner.symm.trans hid) (h.reservationsDrawn r hr).ne
  · intro o ho i hi howner hsubmitting
    rcases hnew i hi with hi | rfl
    · exact h.submitting o ho i hi howner hsubmitting
    · exact absurd hsubmitting hstate

theorem intents (h : Tracked s) {intents : List IntentRecord}
    (hasks : intents.map IntentRecord.ask = s.intents.map IntentRecord.ask)
    (hsubmitting : ∀ i ∈ intents, i.state = .submitting →
      ∀ o ∈ s.orders, o.intentId = i.id → o.state = .submitting) :
    Tracked { s with intents } := by
  have hids : intents.map IntentRecord.id = s.intents.map IntentRecord.id := by
    have heq := congrArg (List.map Prod.fst) hasks
    rwa [List.map_map, List.map_map] at heq
  refine { h with intentIds := ?_, intentsDrawn := ?_, matched := ?_, submitting := ?_ }
  · exact hids ▸ h.intentIds
  · intro i hi
    obtain ⟨i', hi', hid, -⟩ := intent_of_ask hasks hi
    exact hid ▸ h.intentsDrawn i' hi'
  · intro r hr hactive i hi howner
    obtain ⟨i', hi', hid, hrequest⟩ := intent_of_ask hasks hi
    exact hrequest ▸ h.matched r hr hactive i' hi' (hid.trans howner)
  · exact fun o ho i hi howner hstate => hsubmitting i hi hstate o ho howner.symm

theorem reserve (h : Tracked s) {row : RiskReservation}
    (hfresh : ∀ r ∈ s.riskReservations, r.intentId ≠ row.intentId)
    (hdrawn : row.intentId < s.nextUuid) (hsound : row.commitment.Sound)
    (hmatches : ∀ i ∈ s.intents, i.id = row.intentId → row.Matches i.request) :
    Tracked { s with riskReservations := s.riskReservations ++ [row] } := by
  have hnew : ∀ r ∈ s.riskReservations ++ [row], r ∈ s.riskReservations ∨ r = row := fun r hr => by
    simpa using hr
  refine { h with
    reservationIntents := Table.nodup_append_row h.reservationIntents hfresh
    reservationsDrawn := ?_, consumed := ?_, matched := ?_, reserved := ?_ }
  · intro r hr
    rcases hnew r hr with hr | rfl
    · exact h.reservationsDrawn r hr
    · exact hdrawn
  · intro o ho
    obtain ⟨r, hr, hrest⟩ := h.consumed o ho
    exact ⟨r, List.mem_append_left _ hr, hrest⟩
  · intro r hr hactive
    rcases hnew r hr with hr | rfl
    · exact h.matched r hr hactive
    · exact hmatches
  · intro r hr
    rcases hnew r hr with hr | rfl
    · exact h.reserved r hr
    · exact hsound

theorem close (h : Tracked s) (intentId : Uuid) {state : ReservationState}
    (hstate : state ≠ .active) :
    Tracked { s with
      riskReservations := Table.updateWhere (RiskReservation.At intentId .active)
        (fun r => { r with state }) s.riskReservations } := by
  have hids : (Table.updateWhere (RiskReservation.At intentId .active)
      (fun r => { r with state }) s.riskReservations).map RiskReservation.intentId =
        s.riskReservations.map RiskReservation.intentId := by
    rw [Table.map_updateWhere]
    exact fun _ => rfl
  refine { h with
    reservationIntents := hids ▸ h.reservationIntents
    reservationsDrawn := Table.forall_updateWhere h.reservationsDrawn
      fun r hr _ => h.reservationsDrawn r hr
    consumed := ?_, matched := ?_
    reserved := Table.forall_updateWhere h.reserved fun r hr _ => h.reserved r hr }
  · intro o ho
    obtain ⟨r, hr, howner, hclosed⟩ := h.consumed o ho
    exact ⟨r, Table.mem_updateWhere.mpr ⟨r, hr, (if_neg fun hat => hclosed hat.2).symm⟩, howner,
      hclosed⟩
  · intro r hr hactive
    obtain ⟨old, hold, rfl⟩ := Table.mem_updateWhere.mp hr
    by_cases hat : RiskReservation.At intentId .active old
    · rw [if_pos hat] at hactive
      exact absurd hactive hstate
    · rw [if_neg hat] at hactive ⊢
      exact h.matched old hold hactive

theorem prepare (h : Tracked s) {r : RiskReservation} {order : OrderRecord}
    (hr : r ∈ s.riskReservations) (hactive : r.state = .active) (hid : order.id = s.nextUuid + 2)
    (howner : order.intentId = r.intentId) (hstate : order.state = .prepared)
    (hremaining : order.remainingQuantity = order.originalQuantity)
    (hcommitment : order.commitment = { r.commitment with feeRate := order.feeRate })
    (hidle : ∀ i ∈ s.intents, i.id = r.intentId → i.state ≠ .submitting) :
    Tracked { s with
      orders := s.orders ++ [order]
      riskReservations := Table.updateWhere (RiskReservation.At r.intentId .active)
        (fun r => { r with state := .consumed }) s.riskReservations
      nextUuid := s.nextUuid + 3 } := by
  have hclosed := (h.close r.intentId (by decide : ReservationState.consumed ≠ .active)).draw
    (Nat.le_add_right s.nextUuid 3)
  have hnew : ∀ o ∈ s.orders ++ [order], o ∈ s.orders ∨ o = order := fun o ho => by
    simpa using ho
  refine { hclosed with
    orderIds := Table.nodup_append_row h.orderIds fun other hother heq => ?_
    orderIntents := Table.nodup_append_row h.orderIntents fun other hother heq => ?_
    ordersDrawn := ?_, consumed := ?_, submitting := ?_, sound := ?_, unsettled := ?_ }
  · have hdrawn := h.ordersDrawn other hother
    rw [heq, hid] at hdrawn
    exact absurd hdrawn (Nat.not_lt.mpr (Nat.le_add_right _ 2))
  · exact h.inactive hother hr (howner.symm.trans heq.symm) hactive
  · intro o ho
    rcases hnew o ho with ho | rfl
    · exact hclosed.ordersDrawn o ho
    · rw [hid]
      exact Nat.lt_succ_self _
  · intro o ho
    rcases hnew o ho with ho | rfl
    · exact hclosed.consumed o ho
    · exact ⟨_, Table.mem_updateWhere_of_mem hr ⟨rfl, hactive⟩, howner.symm,
        fun h => nomatch h⟩
  · intro o ho i hi hintent hsubmitting
    rcases hnew o ho with ho | rfl
    · exact h.submitting o ho i hi hintent hsubmitting
    · exact absurd hsubmitting (hidle i hi (hintent.trans howner))
  · intro o ho
    rcases hnew o ho with ho | rfl
    · exact h.sound o ho
    · obtain ⟨hprice, horiginal, hquantity, hquote⟩ := h.reserved r hr
      rw [hcommitment]
      exact ⟨hprice, horiginal, hquantity, hquote⟩
  · intro o ho hunsettled
    rcases hnew o ho with ho | rfl
    · exact h.unsettled o ho hunsettled
    · exact hremaining

theorem follow (h : Tracked s) {o o' : OrderRecord} (ho : o ∈ s.orders) (hfollows : o.Follows o')
    (hsubmitting : o'.state = .submitting ∨
      ∀ i ∈ s.intents, i.id = o.intentId → i.state ≠ .submitting) :
    Tracked { s with orders := Table.replace OrderRecord.id o' s.orders } := by
  have hold : ∀ other ∈ s.orders, other.id = o'.id → other = o := fun other hother heq =>
    Table.eq_of_key_eq h.orderIds hother ho (heq.trans hfollows.id)
  have hrows : ∀ row ∈ Table.replace OrderRecord.id o' s.orders, row ∈ s.orders ∨ row = o' :=
    fun row hrow => (Table.mem_replace.mp hrow).imp And.left And.left
  have hids : (Table.replace OrderRecord.id o' s.orders).map OrderRecord.id =
      s.orders.map OrderRecord.id := Table.map_key_replace
  have hintents : (Table.replace OrderRecord.id o' s.orders).map OrderRecord.intentId =
      s.orders.map OrderRecord.intentId := Table.map_replace fun other hother heq => by
    rw [hold other hother heq, hfollows.intentId]
  refine { h with
    orderIds := hids ▸ h.orderIds
    orderIntents := hintents ▸ h.orderIntents
    ordersDrawn := ?_, consumed := ?_, submitting := ?_, sound := ?_, unsettled := ?_ }
  · intro row hrow
    rcases hrows row hrow with hrow | rfl
    · exact h.ordersDrawn row hrow
    · exact hfollows.id ▸ h.ordersDrawn o ho
  · intro row hrow
    rcases hrows row hrow with hrow | rfl
    · exact h.consumed row hrow
    · exact hfollows.intentId ▸ h.consumed o ho
  · intro row hrow i hi howner hstate
    rcases hrows row hrow with hrow | rfl
    · exact h.submitting row hrow i hi howner hstate
    · rcases hsubmitting with hsubmitting | hidle
      · exact hsubmitting
      · exact absurd hstate (hidle i hi (howner.trans hfollows.intentId))
  · intro row hrow
    rcases hrows row hrow with hrow | rfl
    · exact h.sound row hrow
    · rw [hfollows.commitment]
      exact { h.sound o ho with quantity := hfollows.nonneg }
  · intro row hrow hunsettled
    rcases hrows row hrow with hrow | rfl
    · exact h.unsettled row hrow hunsettled
    · exact hfollows.unsettled hunsettled

theorem step (h : Tracked s) (hstep : ExposureStep conditions s s') : Tracked s' := by
  cases hstep with
  | draw hle => exact h.draw hle
  | enroll hstate hid => exact h.enroll hstate hid
  | intents hasks hsubmitting => exact h.intents hasks hsubmitting
  | reserve _ hfresh hdrawn hsound hmatches _ => exact h.reserve hfresh hdrawn hsound hmatches
  | close intentId hstate => exact h.close intentId hstate
  | prepare hr hactive hid howner hstate hremaining hcommitment hidle _ =>
    exact h.prepare hr hactive hid howner hstate hremaining hcommitment hidle
  | shrink ho hfollows _ hsubmitting => exact h.follow ho hfollows hsubmitting
  | fill ho hfollows _ _ _ hsubmitting _ =>
    exact { h.follow ho hfollows hsubmitting with tokens := bookPosition_tokens h.tokens }

theorem steps (h : Tracked s) (hsteps : ExposureSteps conditions s s') : Tracked s' := by
  induction hsteps with
  | refl => exact h
  | tail _ hstep ih => exact ih.step hstep

end Tracked

/-! ## Steps of the portfolio -/

namespace ExposureStep

variable {conditions : Conditions} {s s' : Exposures}

theorem split_order (h : Tracked s) {o : OrderRecord} (ho : o ∈ s.orders) :
    ∃ rest, s.portfolio.pending = o.commits + rest ∧
      ∀ o', o'.id = o.id → ∀ positions fills,
        ({ s with
          orders := Table.replace OrderRecord.id o' s.orders
          positions, fills } : Exposures).portfolio =
        { pending := o'.commits + rest, held := holdings positions, booked := fills } := by
  obtain ⟨rest, hsum, hreplaced⟩ := Table.sum_split OrderRecord.commits h.orderIds ho
  refine ⟨rest + (s.riskReservations.map RiskReservation.commits).sum, ?_,
    fun o' hid positions fills => ?_⟩
  · rw [Exposures.portfolio, hsum, add_assoc]
  · rw [Exposures.portfolio, hreplaced o' hid, add_assoc]

/-- The portfolio split at the commitment of one active reservation. -/
theorem split_reservation (h : Tracked s) {r : RiskReservation} (hr : r ∈ s.riskReservations)
    (hactive : r.state = .active) {state : ReservationState} (hstate : state ≠ .active) :
    ∃ rest, s.portfolio.pending = r.commitment ::ₘ rest ∧
      (s.orders.map OrderRecord.commits).sum +
        ((Table.updateWhere (RiskReservation.At r.intentId .active)
          (fun r => { r with state }) s.riskReservations).map RiskReservation.commits).sum =
        rest := by
  obtain ⟨rest, hsum, hreplaced⟩ := Table.sum_split RiskReservation.commits h.reservationIntents hr
  have hcommits : r.commits = {r.commitment} := if_pos hactive
  refine ⟨(s.orders.map OrderRecord.commits).sum + rest, ?_, ?_⟩
  · rw [Exposures.portfolio, hsum, hcommits, add_left_comm, Multiset.singleton_add]
  · have hclosed : ({ r with state } : RiskReservation).commits = 0 := if_neg hstate
    have hreplaced := hreplaced { r with state } rfl
    rw [Table.updateWhere_eq_replace h.reservationIntents hr ⟨rfl, hactive⟩
      (fun row _ hat => hat.1) rfl, hreplaced, hclosed, zero_add]

theorem portfolio_close (h : Tracked s) (intentId : Uuid) {state : ReservationState}
    (hstate : state ≠ .active) :
    PortfolioSteps conditions s.portfolio
      ({ s with
        riskReservations := Table.updateWhere (RiskReservation.At intentId .active)
          (fun r => { r with state }) s.riskReservations } : Exposures).portfolio := by
  by_cases hnone : ∀ r ∈ s.riskReservations, ¬ RiskReservation.At intentId .active r
  · rw [Table.updateWhere_eq_self hnone]
  · simp only [not_forall, not_not] at hnone
    obtain ⟨r, hr, rfl, hactive⟩ := hnone
    obtain ⟨rest, hpending, hclosed⟩ := split_reservation h hr hactive hstate
    rw [← hclosed] at hpending
    exact .release hpending (h.reserved r hr)

theorem portfolio_prepare (h : Tracked s) {r : RiskReservation} {order : OrderRecord}
    (hr : r ∈ s.riskReservations) (hactive : r.state = .active) (hstate : order.state = .prepared)
    (hcommitment : order.commitment = { r.commitment with feeRate := order.feeRate })
    (hcharges : conditions.charges r.commitment order.feeRate) :
    PortfolioSteps conditions s.portfolio
      ({ s with
        orders := s.orders ++ [order]
        riskReservations := Table.updateWhere (RiskReservation.At r.intentId .active)
          (fun r => { r with state := .consumed }) s.riskReservations
        nextUuid := s.nextUuid + 3 } : Exposures).portfolio := by
  obtain ⟨rest, hpending, hclosed⟩ := split_reservation h hr hactive
    (by decide : ReservationState.consumed ≠ .active)
  have hcommits : order.commits = {order.commitment} := if_pos (by rw [hstate]; rfl)
  refine .single ?_
  have hstep : Holdings.Step conditions.enters (Turns conditions.charges conditions.fills) _ _ :=
    .turn hpending (.charge (h.reserved r hr) hcharges)
  rw [add_zero, add_zero, ← hclosed, ← hcommitment] at hstep
  refine cast (congrArg _ ?_) hstep
  simp only [Exposures.portfolio, List.map_append, List.sum_append, List.map_singleton,
    List.sum_singleton, hcommits]
  rw [← add_assoc, add_comm (s.orders.map OrderRecord.commits).sum]

theorem portfolio_shrink (h : Tracked s) {o o' : OrderRecord} (ho : o ∈ s.orders)
    (hfollows : o.Follows o') (hle : o'.remainingQuantity ≤ o.remainingQuantity) :
    PortfolioSteps conditions s.portfolio
      ({ s with orders := Table.replace OrderRecord.id o' s.orders } : Exposures).portfolio := by
  obtain ⟨rest, hpending, hreplaced⟩ := split_order h ho
  have hafter := hreplaced o' hfollows.id s.positions s.fills
  rw [hafter]
  by_cases hexposed : o.state.exposed = true
  · have hpending : s.portfolio.pending = o.commitment ::ₘ rest := by
      rw [hpending, OrderRecord.commits, if_pos hexposed, Multiset.singleton_add]
    have hsound := h.sound o ho
    by_cases hexposed' : o'.state.exposed = true
    · have hstep : Holdings.Step conditions.enters
        (Turns conditions.charges conditions.fills) _ _ :=
        .turn hpending (.shrink hsound hfollows.nonneg hle)
      rw [add_zero, add_zero, ← hfollows.commitment] at hstep
      rw [OrderRecord.commits, if_pos hexposed']
      exact .single hstep
    · rw [OrderRecord.commits, if_neg hexposed', zero_add]
      exact .release hpending hsound
  · have hexposed' : ¬ o'.state.exposed = true := fun h => hexposed (hfollows.exposed h)
    have hsame : o'.commits = o.commits := by
      rw [OrderRecord.commits, OrderRecord.commits, if_neg hexposed, if_neg hexposed']
    rw [hsame, ← hpending]
    exact .refl

theorem portfolio_fill (h : Tracked s) {o o' : OrderRecord} {f : Fill} (ho : o ∈ s.orders)
    (hfollows : o.Follows o') (hexposed : o.state.exposed = true) (hpositive : 0 < f.size)
    (hle : o'.remainingQuantity + f.size ≤ o.remainingQuantity)
    (hfills : conditions.fills o.commitment f) :
    PortfolioSteps conditions s.portfolio
      ({ s with
        orders := Table.replace OrderRecord.id o' s.orders
        positions := bookPosition o
          (o.side.apply (holdings s.positions o.tokenId) f.size) s.positions
        fills := s.fills ++ [f] } : Exposures).portfolio := by
  obtain ⟨rest, hpending, hreplaced⟩ := split_order h ho
  have hafter := hreplaced o' hfollows.id
    (bookPosition o (o.side.apply (holdings s.positions o.tokenId) f.size) s.positions)
    (s.fills ++ [f])
  have hpending : s.portfolio.pending = o.commitment ::ₘ rest := by
    rw [hpending, OrderRecord.commits, if_pos hexposed, Multiset.singleton_add]
  have hsound := h.sound o ho
  have hheld : holdings (bookPosition o (o.side.apply (holdings s.positions o.tokenId) f.size)
      s.positions) = holdings s.positions + Finsupp.single o.tokenId (o.side.signed f.size) := by
    rw [holdings_bookPosition h.tokens, Side.apply_eq, add_sub_cancel_left]
  have hfilled : Holdings.Step conditions.enters (Turns conditions.charges conditions.fills) _ _ :=
    .turn hpending (.fill hsound hfollows.nonneg hpositive hle hfills)
  rw [← hfollows.commitment] at hfilled
  have hbooked : (s.portfolio.booked + {f} : Multiset Fill) = ↑(s.fills ++ [f]) := rfl
  have hmoved : s.portfolio.held + Finsupp.single o.commitment.tokenId
      (o.commitment.side.signed f.size) = holdings (bookPosition o
        (o.side.apply (holdings s.positions o.tokenId) f.size) s.positions) := hheld.symm
  rw [hbooked, hmoved] at hfilled
  rw [hafter]
  by_cases hexposed' : o'.state.exposed = true
  · rw [OrderRecord.commits, if_pos hexposed']
    exact .single hfilled
  · -- a filled order that is terminal is also released
    have hsound' : o'.commitment.Sound := by
      rw [hfollows.commitment]
      exact { hsound with quantity := hfollows.nonneg }
    rw [OrderRecord.commits, if_neg hexposed', zero_add]
    rw [Multiset.singleton_add] at hfilled
    exact Relation.ReflTransGen.trans (.single hfilled) (PortfolioSteps.release rfl hsound')

/-- Every step of the tables is a history of the portfolio. -/
theorem portfolio (h : Tracked s) (hstep : ExposureStep conditions s s') :
    PortfolioSteps conditions s.portfolio s'.portfolio := by
  cases hstep with
  | draw | enroll | intents => exact .refl
  | @reserve row hactive _ _ _ _ henters =>
    have hcommits : row.commits = {row.commitment} := if_pos hactive
    have hentered : Holdings.Step conditions.enters (Turns conditions.charges conditions.fills)
        _ _ := .enter henters
    refine .single (cast (congrArg _ ?_) hentered)
    simp only [Exposures.portfolio, List.map_append, List.sum_append, List.map_singleton,
      List.sum_singleton, hcommits, ← Multiset.singleton_add]
    rw [add_comm ({row.commitment} : Multiset Commitment), add_assoc]
  | close intentId hstate => exact portfolio_close h intentId hstate
  | prepare hr hactive _ _ hstate _ hcommitment _ hcharges =>
    exact portfolio_prepare h hr hactive hstate hcommitment hcharges
  | shrink ho hfollows hle _ => exact portfolio_shrink h ho hfollows hle
  | fill ho hfollows hexposed hpositive hle _ hfills =>
    exact portfolio_fill h ho hfollows hexposed hpositive hle hfills

end ExposureStep

theorem ExposureSteps.portfolio {conditions : Conditions} {s s' : Exposures} (h : Tracked s)
    (hsteps : ExposureSteps conditions s s') :
    PortfolioSteps conditions s.portfolio s'.portfolio := by
  induction hsteps with
  | refl => exact .refl
  | tail hbefore hstep ih => exact ih.trans (hstep.portfolio (h.steps hbefore))

end OddsfoxExecution
