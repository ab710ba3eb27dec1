import OddsfoxExecution.Store.Calls
import Mathlib.Logic.Relation

/-!
# The lifecycle of intents and orders

An abstract view of the five tables an order's life is written in.  Whatever
transaction runs, these tables only change by the steps of `LifecycleStep`: an
intent is admitted, advances while it has no order, is prepared, and from then
on moves together with its one order.  `Coherent` says how the tables fit
together; every step keeps it.
-/

namespace OddsfoxExecution

/-- The tables an order's life is written in, and the identifiers drawn so far. -/
structure Lifecycle where
  intents : List IntentRecord
  riskReservations : List RiskReservation
  preparedOrders : List PreparedOrder
  submissionAttempts : List SubmissionAttempt
  orders : List OrderRecord
  nextUuid : Uuid

def Db.lifecycle (db : Db) : Lifecycle where
  intents := db.intents
  riskReservations := db.riskReservations
  preparedOrders := db.preparedOrders
  submissionAttempts := db.submissionAttempts
  orders := db.orders
  nextUuid := db.nextUuid

@[simp] theorem Db.appendEvent_lifecycle (db : Db) (eventType resourceType : String)
    (resourceId : ResourceId) :
    (db.appendEvent eventType resourceType resourceId).1.lifecycle = db.lifecycle := rfl

/-! ## States -/

/-- The states of an intent that has no order yet. -/
def IntentState.unordered : IntentState → Bool
  | .received | .validating | .approved | .preparing => true
  | _ => false

/-- The states of an intent whose submission has begun. -/
def IntentState.begun : IntentState → Bool
  | .submitting | .submitted | .unknown => true
  | _ => false

/-- The order states in which no fill has been recognised yet. -/
def OrderState.unsettled : OrderState → Bool
  | .prepared | .submitting | .unknown => true
  | _ => false

/-- The states an intent and its order can be in at once. -/
def paired : IntentState → OrderState → Bool
  | .prepared, .prepared => true
  | .submitting, .submitting => true
  | .unknown, .unknown => true
  | .rejected, .cancelled => true
  | .submitted, .prepared => false
  | .submitted, .submitting => false
  | .submitted, _ => true
  | _, _ => false

section Paired

attribute [local simp] paired

theorem paired_ordered {i : IntentState} {o : OrderState} (h : paired i o = true) :
    i.unordered = false := by
  cases i <;> cases o <;> simp_all [IntentState.unordered]

theorem paired_prepared {i : IntentState} : paired i .prepared = true ↔ i = .prepared := by
  cases i <;> simp

theorem paired_submitting {i : IntentState} : paired i .submitting = true ↔ i = .submitting := by
  cases i <;> simp

theorem paired_submitting_left {o : OrderState} :
    paired .submitting o = true ↔ o = .submitting := by
  cases o <;> simp

theorem paired_submitted {o : OrderState} :
    paired .submitted o = true ↔ o ≠ .prepared ∧ o ≠ .submitting := by
  cases o <;> simp

theorem paired_unknown {i : IntentState} :
    paired i .unknown = true ↔ i = .unknown ∨ i = .submitted := by
  cases i <;> simp

theorem paired_active {i : IntentState} {o : OrderState} (hactive : o.active = true)
    (h : paired i o = true) : i = .submitted := by
  cases i <;> cases o <;> simp_all [OrderState.active]

end Paired

/-- Two rows of one order: what an order's terms are never changes. -/
def OrderRecord.SameTerms (o o' : OrderRecord) : Prop :=
  o'.id = o.id ∧ o'.intentId = o.intentId ∧ o'.conditionId = o.conditionId ∧
    o'.tokenId = o.tokenId ∧ o'.side = o.side ∧ o'.price = o.price ∧
    o'.originalQuantity = o.originalQuantity

theorem OrderRecord.SameTerms.refl (o : OrderRecord) : o.SameTerms o :=
  ⟨rfl, rfl, rfl, rfl, rfl, rfl, rfl⟩

theorem OrderRecord.SameTerms.trans {a b c : OrderRecord} (hab : a.SameTerms b)
    (hbc : b.SameTerms c) : a.SameTerms c := by
  obtain ⟨h1, h2, h3, h4, h5, h6, h7⟩ := hab
  obtain ⟨k1, k2, k3, k4, k5, k6, k7⟩ := hbc
  exact ⟨k1.trans h1, k2.trans h2, k3.trans h3, k4.trans h4, k5.trans h5, k6.trans h6,
    k7.trans h7⟩

/-! ## Steps -/

/-- A joint move of an order and its intent: the states before and after. -/
structure OrderMove where
  orderId : Uuid
  intent : IntentState × IntentState
  order : OrderState × OrderState

/-- A move keeps the pair in step and never takes back what has been submitted. -/
structure OrderMove.Legal (m : OrderMove) : Prop where
  paired : paired m.intent.2 m.order.2 = true
  begun : m.intent.1.begun = true → m.intent.2.begun = true
  submitted : m.intent.1 = .submitted → m.intent.2 = .submitted

/-- No order turns UNKNOWN whose intent is then taken to be submitted. -/
def OrderMove.Honest (m : OrderMove) : Prop :=
  m.order.2 = .unknown → m.intent.2 = .submitted →
    m.order.1 = .unknown ∧ m.intent.1 = .submitted

/-- One change of the lifecycle tables; `M` are the moves of ordered intents it may make. -/
inductive LifecycleStep (M : OrderMove → Prop) (s : Lifecycle) : Lifecycle → Prop
  | draw {n : Uuid} (hle : s.nextUuid ≤ n) : LifecycleStep M s { s with nextUuid := n }
  | enroll {record : IntentRecord} (hstate : record.state = .received)
      (hid : record.id = s.nextUuid) :
      LifecycleStep M s
        { s with intents := s.intents ++ [record], nextUuid := s.nextUuid + 1 }
  | advance {id : Uuid} {expected next : IntentState} {f : IntentRecord → IntentRecord}
      (hfrom : expected.unordered = true) (hto : next.unordered = true ∨ next = .rejected)
      (hset : ∀ i, (f i).id = i.id ∧ (f i).state = next) :
      LifecycleStep M s
        { s with intents := Table.updateWhere (IntentRecord.At id expected) f s.intents }
  | reserve {row : RiskReservation} (hquantity : 0 < row.quantity)
      (hfresh : ∀ r ∈ s.riskReservations, r.intentId ≠ row.intentId) :
      LifecycleStep M s { s with riskReservations := s.riskReservations ++ [row] }
  | closeReservation (intentId : Uuid) (state : ReservationState) :
      LifecycleStep M s
        { s with
          riskReservations := Table.updateWhere (RiskReservation.At intentId .active)
            (fun r => { r with state }) s.riskReservations }
  | prepare {i i' : IntentRecord} {order : OrderRecord} {prepared : PreparedOrder}
      {attempt : SubmissionAttempt} (hi : i ∈ s.intents) (hpreparing : i.state = .preparing)
      (hi' : i'.id = i.id) (hprepared : i'.state = .prepared)
      (hpreparedId : prepared.id = s.nextUuid) (hpreparedIntent : prepared.intentId = i.id)
      (hattempt : attempt.preparedOrderId = prepared.id)
      (horderId : order.id = s.nextUuid + 2) (horderIntent : order.intentId = i.id)
      (horderState : order.state = .prepared) (hpositive : 0 < order.originalQuantity)
      (hremaining : order.remainingQuantity = order.originalQuantity) :
      LifecycleStep M s
        { s with
          intents := Table.replace IntentRecord.id i' s.intents
          preparedOrders := s.preparedOrders ++ [prepared]
          submissionAttempts := s.submissionAttempts ++ [attempt]
          orders := s.orders ++ [order]
          nextUuid := s.nextUuid + 3 }
  | move {i i' : IntentRecord} {o o' : OrderRecord} {attempts : List SubmissionAttempt}
      (hi : i ∈ s.intents) (ho : o ∈ s.orders) (howner : o.intentId = i.id)
      (hi' : i'.id = i.id) (hterms : o.SameTerms o')
      (hremaining : o'.state.unsettled = true → o'.remainingQuantity = o'.originalQuantity)
      (hattempts : attempts.map SubmissionAttempt.preparedOrderId =
        s.submissionAttempts.map SubmissionAttempt.preparedOrderId)
      (hlegal : OrderMove.Legal ⟨o.id, (i.state, i'.state), (o.state, o'.state)⟩)
      (hmove : M ⟨o.id, (i.state, i'.state), (o.state, o'.state)⟩) :
      LifecycleStep M s
        { s with
          intents := Table.replace IntentRecord.id i' s.intents
          orders := Table.replace OrderRecord.id o' s.orders
          submissionAttempts := attempts }

/-- What a transaction does to the lifecycle tables. -/
abbrev LifecycleSteps (M : OrderMove → Prop) : Lifecycle → Lifecycle → Prop :=
  Relation.ReflTransGen (LifecycleStep M)

theorem LifecycleStep.mono {M N : OrderMove → Prop} (hsub : ∀ m, M m → N m) {s s' : Lifecycle}
    (h : LifecycleStep M s s') : LifecycleStep N s s' := by
  cases h with
  | draw hle => exact .draw hle
  | enroll hstate hid => exact .enroll hstate hid
  | advance hfrom hto hset => exact .advance hfrom hto hset
  | reserve hquantity hfresh => exact .reserve hquantity hfresh
  | closeReservation intentId state => exact .closeReservation intentId state
  | prepare hi h1 h2 h3 h4 h5 h6 h7 h8 h9 h10 h11 =>
    exact .prepare hi h1 h2 h3 h4 h5 h6 h7 h8 h9 h10 h11
  | move hi ho h1 h2 h3 h4 h5 h6 hmove => exact .move hi ho h1 h2 h3 h4 h5 h6 (hsub _ hmove)

theorem LifecycleSteps.mono {M N : OrderMove → Prop} (hsub : ∀ m, M m → N m) {s s' : Lifecycle}
    (h : LifecycleSteps M s s') : LifecycleSteps N s s' :=
  Relation.ReflTransGen.mono (fun _ _ (hstep : LifecycleStep M _ _) => hstep.mono hsub) _ _ h

/-- A step that moves an order with its intent, or only draws identifiers. -/
inductive MoveStep (M : OrderMove → Prop) (s : Lifecycle) : Lifecycle → Prop
  | draw {n : Uuid} (hle : s.nextUuid ≤ n) : MoveStep M s { s with nextUuid := n }
  | move {i i' : IntentRecord} {o o' : OrderRecord} {attempts : List SubmissionAttempt}
      (hi : i ∈ s.intents) (ho : o ∈ s.orders) (howner : o.intentId = i.id)
      (hi' : i'.id = i.id) (hterms : o.SameTerms o')
      (hremaining : o'.state.unsettled = true → o'.remainingQuantity = o'.originalQuantity)
      (hattempts : attempts.map SubmissionAttempt.preparedOrderId =
        s.submissionAttempts.map SubmissionAttempt.preparedOrderId)
      (hlegal : OrderMove.Legal ⟨o.id, (i.state, i'.state), (o.state, o'.state)⟩)
      (hmove : M ⟨o.id, (i.state, i'.state), (o.state, o'.state)⟩) :
      MoveStep M s
        { s with
          intents := Table.replace IntentRecord.id i' s.intents
          orders := Table.replace OrderRecord.id o' s.orders
          submissionAttempts := attempts }

/-- What a transaction that starts from an order does to the lifecycle tables. -/
abbrev MoveSteps (M : OrderMove → Prop) : Lifecycle → Lifecycle → Prop :=
  Relation.ReflTransGen (MoveStep M)

theorem MoveStep.mono {M N : OrderMove → Prop} (hsub : ∀ m, M m → N m) {s s' : Lifecycle}
    (h : MoveStep M s s') : MoveStep N s s' := by
  cases h with
  | draw hle => exact .draw hle
  | move hi ho h1 h2 h3 h4 h5 h6 hmove => exact .move hi ho h1 h2 h3 h4 h5 h6 (hsub _ hmove)

theorem MoveSteps.mono {M N : OrderMove → Prop} (hsub : ∀ m, M m → N m) {s s' : Lifecycle}
    (h : MoveSteps M s s') : MoveSteps N s s' :=
  Relation.ReflTransGen.mono (fun _ _ (hstep : MoveStep M _ _) => hstep.mono hsub) _ _ h

theorem MoveSteps.lifecycle {M : OrderMove → Prop} {s s' : Lifecycle} (h : MoveSteps M s s') :
    LifecycleSteps M s s' := by
  refine Relation.ReflTransGen.mono (fun s s' (hstep : MoveStep M s s') => ?_) _ _ h
  cases hstep with
  | draw hle => exact LifecycleStep.draw hle
  | move hi ho h1 h2 h3 h4 h5 h6 hmove => exact LifecycleStep.move hi ho h1 h2 h3 h4 h5 h6 hmove

/-! ## Coherence -/

/-- How the lifecycle tables fit together. -/
structure Coherent (s : Lifecycle) : Prop where
  intentIds : (s.intents.map IntentRecord.id).Nodup
  orderIds : (s.orders.map OrderRecord.id).Nodup
  orderIntents : (s.orders.map OrderRecord.intentId).Nodup
  preparedIds : (s.preparedOrders.map PreparedOrder.id).Nodup
  preparedIntents :
    s.preparedOrders.map PreparedOrder.intentId = s.orders.map OrderRecord.intentId
  attempts : s.submissionAttempts.map SubmissionAttempt.preparedOrderId =
    s.preparedOrders.map PreparedOrder.id
  intentsDrawn : ∀ i ∈ s.intents, i.id < s.nextUuid
  ordersDrawn : ∀ o ∈ s.orders, o.id < s.nextUuid
  preparedDrawn : ∀ p ∈ s.preparedOrders, p.id < s.nextUuid
  paired : ∀ o ∈ s.orders, ∃ i ∈ s.intents, i.id = o.intentId ∧ paired i.state o.state = true
  positive : ∀ o ∈ s.orders, 0 < o.originalQuantity
  unsettled : ∀ o ∈ s.orders, o.state.unsettled = true → o.remainingQuantity = o.originalQuantity
  reserved : ∀ r ∈ s.riskReservations, 0 < r.quantity

namespace Coherent

variable {M : OrderMove → Prop} {s s' : Lifecycle}

/-- The states of an order and of the intent it belongs to go together. -/
theorem paired_of_mem (hs : Coherent s) {i : IntentRecord} {o : OrderRecord} (hi : i ∈ s.intents)
    (ho : o ∈ s.orders) (howner : o.intentId = i.id) :
    OddsfoxExecution.paired i.state o.state = true := by
  obtain ⟨owner, howner', hid, hpaired⟩ := hs.paired o ho
  rwa [Table.eq_of_key_eq hs.intentIds howner' hi (hid.trans howner)] at hpaired

theorem initial : Coherent Db.initial.lifecycle := by
  constructor <;> simp [Db.initial, Db.lifecycle]

theorem draw (hs : Coherent s) {n : Uuid} (hle : s.nextUuid ≤ n) :
    Coherent { s with nextUuid := n } :=
  { hs with
    intentsDrawn := fun i hi => lt_of_lt_of_le (hs.intentsDrawn i hi) hle
    ordersDrawn := fun o ho => lt_of_lt_of_le (hs.ordersDrawn o ho) hle
    preparedDrawn := fun p hp => lt_of_lt_of_le (hs.preparedDrawn p hp) hle }

theorem enroll (hs : Coherent s) {record : IntentRecord} (hid : record.id = s.nextUuid) :
    Coherent { s with intents := s.intents ++ [record], nextUuid := s.nextUuid + 1 } where
  intentIds := Table.nodup_append_row hs.intentIds fun other hother =>
    hid ▸ (hs.intentsDrawn other hother).ne
  orderIds := hs.orderIds
  orderIntents := hs.orderIntents
  preparedIds := hs.preparedIds
  preparedIntents := hs.preparedIntents
  attempts := hs.attempts
  intentsDrawn := by
    intro i hi
    rcases List.mem_append.mp hi with hi | hi
    · exact Nat.lt_succ_of_lt (hs.intentsDrawn i hi)
    · rw [List.mem_singleton.mp hi, hid]
      exact Nat.lt_succ_self _
  ordersDrawn := fun o ho => Nat.lt_succ_of_lt (hs.ordersDrawn o ho)
  preparedDrawn := fun p hp => Nat.lt_succ_of_lt (hs.preparedDrawn p hp)
  paired := fun o ho => by
    obtain ⟨i, hi, hrest⟩ := hs.paired o ho
    exact ⟨i, List.mem_append_left _ hi, hrest⟩
  positive := hs.positive
  unsettled := hs.unsettled
  reserved := hs.reserved

theorem advance (hs : Coherent s) {id : Uuid} {expected next : IntentState}
    {f : IntentRecord → IntentRecord} (hfrom : expected.unordered = true)
    (hset : ∀ i, (f i).id = i.id ∧ (f i).state = next) :
    Coherent { s with intents := Table.updateWhere (IntentRecord.At id expected) f s.intents } :=
  { hs with
    intentIds := by
      rw [Table.map_updateWhere fun i => (hset i).1]
      exact hs.intentIds
    intentsDrawn := Table.forall_updateWhere hs.intentsDrawn fun i hi _ => by
      rw [(hset i).1]
      exact hs.intentsDrawn i hi
    paired := fun o ho => by
      obtain ⟨i, hi, hid, hpaired⟩ := hs.paired o ho
      have hother : ¬ IntentRecord.At id expected i := fun hat => by
        have hordered := paired_ordered hpaired
        rw [hat.2, hfrom] at hordered
        exact absurd hordered (by decide)
      exact ⟨i, Table.mem_updateWhere.mpr ⟨i, hi, by rw [if_neg hother]⟩, hid, hpaired⟩ }

theorem reserve (hs : Coherent s) {row : RiskReservation} (hquantity : 0 < row.quantity) :
    Coherent { s with riskReservations := s.riskReservations ++ [row] } :=
  { hs with
    reserved := fun r hr => by
      rcases List.mem_append.mp hr with hr | hr
      · exact hs.reserved r hr
      · rw [List.mem_singleton.mp hr]
        exact hquantity }

theorem closeReservation (hs : Coherent s) (intentId : Uuid) (state : ReservationState) :
    Coherent { s with
      riskReservations := Table.updateWhere (RiskReservation.At intentId .active)
        (fun r => { r with state }) s.riskReservations } :=
  { hs with
    reserved := Table.forall_updateWhere hs.reserved fun r hr _ => hs.reserved r hr }

theorem prepare (hs : Coherent s) {i i' : IntentRecord} {order : OrderRecord}
    {prepared : PreparedOrder} {attempt : SubmissionAttempt} (hi : i ∈ s.intents)
    (hpreparing : i.state = .preparing) (hi' : i'.id = i.id) (hprepared : i'.state = .prepared)
    (hpreparedId : prepared.id = s.nextUuid) (hpreparedIntent : prepared.intentId = i.id)
    (hattempt : attempt.preparedOrderId = prepared.id) (horderId : order.id = s.nextUuid + 2)
    (horderIntent : order.intentId = i.id) (horderState : order.state = .prepared)
    (hpositive : 0 < order.originalQuantity)
    (hremaining : order.remainingQuantity = order.originalQuantity) :
    Coherent { s with
      intents := Table.replace IntentRecord.id i' s.intents
      preparedOrders := s.preparedOrders ++ [prepared]
      submissionAttempts := s.submissionAttempts ++ [attempt]
      orders := s.orders ++ [order]
      nextUuid := s.nextUuid + 3 } := by
  -- a PREPARING intent has no order, so the new one is its first
  have hfirst : ∀ o ∈ s.orders, o.intentId ≠ i.id := fun o ho heq => by
    have hordered := paired_ordered (hs.paired_of_mem hi ho heq)
    rw [hpreparing] at hordered
    exact absurd hordered (by decide)
  have hnext : ∀ n, n < s.nextUuid → n < s.nextUuid + 3 := fun n hn => Nat.lt_add_right 3 hn
  constructor
  case intentIds =>
    rw [Table.map_key_replace]
    exact hs.intentIds
  case orderIds =>
    refine Table.nodup_append_row hs.orderIds fun o ho => ?_
    rw [horderId]
    exact (Nat.lt_add_right 2 (hs.ordersDrawn o ho)).ne
  case orderIntents =>
    exact Table.nodup_append_row hs.orderIntents fun o ho => horderIntent ▸ hfirst o ho
  case preparedIds =>
    refine Table.nodup_append_row hs.preparedIds fun p hp => ?_
    rw [hpreparedId]
    exact (hs.preparedDrawn p hp).ne
  case preparedIntents =>
    simp only [List.map_append, List.map_cons, List.map_nil, hs.preparedIntents,
      hpreparedIntent, horderIntent]
  case attempts =>
    simp only [List.map_append, List.map_cons, List.map_nil, hs.attempts, hattempt]
  case intentsDrawn =>
    intro row hrow
    rcases Table.mem_replace.mp hrow with ⟨hrow, -⟩ | ⟨rfl, -⟩
    · exact hnext _ (hs.intentsDrawn row hrow)
    · exact hi' ▸ hnext _ (hs.intentsDrawn i hi)
  case ordersDrawn =>
    intro o ho
    rcases List.mem_append.mp ho with ho | ho
    · exact hnext _ (hs.ordersDrawn o ho)
    · rw [List.mem_singleton.mp ho, horderId]
      exact Nat.lt_succ_self _
  case preparedDrawn =>
    intro p hp
    rcases List.mem_append.mp hp with hp | hp
    · exact hnext _ (hs.preparedDrawn p hp)
    · rw [List.mem_singleton.mp hp, hpreparedId]
      exact Nat.lt_add_of_pos_right (by decide)
  case paired =>
    intro o ho
    rcases List.mem_append.mp ho with ho | ho
    · obtain ⟨owner, howner, hid, hpaired⟩ := hs.paired o ho
      refine ⟨owner, Table.mem_replace.mpr (Or.inl ⟨howner, ?_⟩), hid, hpaired⟩
      rw [hid, hi']
      exact hfirst o ho
    · rw [List.mem_singleton.mp ho]
      refine ⟨i', Table.mem_replace.mpr (Or.inr ⟨rfl, i, hi, hi'.symm⟩), ?_, ?_⟩
      · rw [hi', horderIntent]
      · rw [hprepared, horderState]
        rfl
  case positive =>
    intro o ho
    rcases List.mem_append.mp ho with ho | ho
    · exact hs.positive o ho
    · rw [List.mem_singleton.mp ho]
      exact hpositive
  case unsettled =>
    intro o ho hunsettled
    rcases List.mem_append.mp ho with ho | ho
    · exact hs.unsettled o ho hunsettled
    · rw [List.mem_singleton.mp ho]
      exact hremaining
  case reserved => exact hs.reserved

theorem move (hs : Coherent s) {i i' : IntentRecord} {o o' : OrderRecord}
    {attempts : List SubmissionAttempt} (hi : i ∈ s.intents) (ho : o ∈ s.orders)
    (howner : o.intentId = i.id) (hi' : i'.id = i.id) (hterms : o.SameTerms o')
    (hremaining : o'.state.unsettled = true → o'.remainingQuantity = o'.originalQuantity)
    (hattempts : attempts.map SubmissionAttempt.preparedOrderId =
      s.submissionAttempts.map SubmissionAttempt.preparedOrderId)
    (hlegal : OrderMove.Legal ⟨o.id, (i.state, i'.state), (o.state, o'.state)⟩) :
    Coherent { s with
      intents := Table.replace IntentRecord.id i' s.intents
      orders := Table.replace OrderRecord.id o' s.orders
      submissionAttempts := attempts } := by
  obtain ⟨hid, hintent, -, -, -, -, horiginal⟩ := hterms
  have hsame : ∀ row ∈ s.orders, row.id = o'.id → row = o := fun row hrow heq =>
    Table.eq_of_key_eq hs.orderIds hrow ho (heq.trans hid)
  have hintents : (Table.replace OrderRecord.id o' s.orders).map OrderRecord.intentId =
      s.orders.map OrderRecord.intentId :=
    Table.map_replace fun row hrow heq => by rw [hsame row hrow heq, hintent]
  constructor
  case intentIds =>
    rw [Table.map_key_replace]
    exact hs.intentIds
  case orderIds =>
    rw [Table.map_key_replace]
    exact hs.orderIds
  case orderIntents =>
    rw [hintents]
    exact hs.orderIntents
  case preparedIds => exact hs.preparedIds
  case preparedIntents => exact hs.preparedIntents.trans hintents.symm
  case attempts => exact hattempts.trans hs.attempts
  case intentsDrawn =>
    intro row hrow
    rcases Table.mem_replace.mp hrow with ⟨hrow, -⟩ | ⟨rfl, -⟩
    · exact hs.intentsDrawn row hrow
    · exact hi' ▸ hs.intentsDrawn i hi
  case ordersDrawn =>
    intro row hrow
    rcases Table.mem_replace.mp hrow with ⟨hrow, -⟩ | ⟨rfl, -⟩
    · exact hs.ordersDrawn row hrow
    · exact hid ▸ hs.ordersDrawn o ho
  case preparedDrawn => exact hs.preparedDrawn
  case paired =>
    intro row hrow
    rcases Table.mem_replace.mp hrow with ⟨hrow, hne⟩ | ⟨rfl, -⟩
    · -- another order belongs to another intent
      obtain ⟨owner, howner', hownerId, hpaired⟩ := hs.paired row hrow
      refine ⟨owner, Table.mem_replace.mpr (Or.inl ⟨howner', ?_⟩), hownerId, hpaired⟩
      rw [hownerId, hi', ← howner]
      intro heq
      exact hne (by rw [Table.eq_of_key_eq hs.orderIntents hrow ho heq, hid])
    · exact ⟨i', Table.mem_replace.mpr (Or.inr ⟨rfl, i, hi, hi'.symm⟩),
        by rw [hi', hintent, howner], hlegal.paired⟩
  case positive =>
    intro row hrow
    rcases Table.mem_replace.mp hrow with ⟨hrow, -⟩ | ⟨rfl, -⟩
    · exact hs.positive row hrow
    · rw [horiginal]
      exact hs.positive o ho
  case unsettled =>
    intro row hrow hunsettled
    rcases Table.mem_replace.mp hrow with ⟨hrow, -⟩ | ⟨rfl, -⟩
    · exact hs.unsettled row hrow hunsettled
    · exact hremaining hunsettled
  case reserved => exact hs.reserved

theorem step (hs : Coherent s) (h : LifecycleStep M s s') : Coherent s' := by
  cases h with
  | draw hle => exact hs.draw hle
  | enroll _ hid => exact hs.enroll hid
  | advance hfrom _ hset => exact hs.advance hfrom hset
  | reserve hquantity _ => exact hs.reserve hquantity
  | closeReservation intentId state => exact hs.closeReservation intentId state
  | prepare hi h1 h2 h3 h4 h5 h6 h7 h8 h9 h10 h11 =>
    exact hs.prepare hi h1 h2 h3 h4 h5 h6 h7 h8 h9 h10 h11
  | move hi ho h1 h2 h3 h4 h5 hlegal _ => exact hs.move hi ho h1 h2 h3 h4 h5 hlegal

theorem steps (hs : Coherent s) (h : LifecycleSteps M s s') : Coherent s' := by
  induction h with
  | refl => exact hs
  | tail _ hstep ih => exact ih.step hstep

end Coherent

theorem Coherent.moves {M : OrderMove → Prop} {s s' : Lifecycle} (hs : Coherent s)
    (h : MoveSteps M s s') : Coherent s' :=
  hs.steps h.lifecycle

/-! ## What steps keep -/

namespace LifecycleStep

variable {M : OrderMove → Prop} {s s' : Lifecycle}

/-- An order keeps its terms, and its state too when no move `M` allows leads away from it. -/
theorem order_kept (hs : Coherent s) (h : LifecycleStep M s s') {o : OrderRecord}
    (ho : o ∈ s.orders) :
    ∃ o' ∈ s'.orders, o.SameTerms o' ∧
      ((∀ m, M m → m.orderId = o.id → m.order.1 = o.state → m.order.2 = o.state) →
        o'.state = o.state) := by
  have hsame : ∃ o' ∈ s.orders, o.SameTerms o' ∧
      ((∀ m, M m → m.orderId = o.id → m.order.1 = o.state → m.order.2 = o.state) →
        o'.state = o.state) := ⟨o, ho, .refl o, fun _ => rfl⟩
  cases h with
  | draw _ => exact hsame
  | enroll _ _ => exact hsame
  | advance _ _ _ => exact hsame
  | reserve _ _ => exact hsame
  | closeReservation _ _ => exact hsame
  | prepare _ _ _ _ _ _ _ _ _ _ _ _ =>
    exact ⟨o, List.mem_append_left _ ho, .refl o, fun _ => rfl⟩
  | @move _ _ moved moved' _ _ hmoved _ _ hterms _ _ _ hmove =>
    by_cases hid : o.id = moved'.id
    · have heq : o = moved := Table.eq_of_key_eq hs.orderIds ho hmoved (hid.trans hterms.1)
      subst heq
      exact ⟨moved', Table.mem_replace.mpr (Or.inr ⟨rfl, o, ho, hid⟩), hterms,
        fun hkeep => hkeep _ hmove rfl rfl⟩
    · exact ⟨o, Table.mem_replace.mpr (Or.inl ⟨ho, hid⟩), .refl o, fun _ => rfl⟩

theorem order_related (hs : Coherent s) (h : LifecycleStep M s s')
    (related : OrderState → OrderState → Prop) (hrefl : ∀ state, related state state)
    (hmoves : ∀ m, M m → related m.order.1 m.order.2) {o : OrderRecord} (ho : o ∈ s.orders) :
    ∃ o' ∈ s'.orders, o.SameTerms o' ∧ related o.state o'.state := by
  cases h with
  | prepare _ _ _ _ _ _ _ _ _ _ _ _ =>
    exact ⟨o, List.mem_append_left _ ho, .refl o, hrefl _⟩
  | @move _ _ moved moved' _ _ hmoved _ _ hterms _ _ _ hmove =>
    by_cases hid : o.id = moved'.id
    · obtain rfl : o = moved := Table.eq_of_key_eq hs.orderIds ho hmoved (hid.trans hterms.1)
      exact ⟨moved', Table.mem_replace.mpr (Or.inr ⟨rfl, o, ho, hid⟩), hterms, hmoves _ hmove⟩
    · exact ⟨o, Table.mem_replace.mpr (Or.inl ⟨ho, hid⟩), .refl o, hrefl _⟩
  | _ => exact ⟨o, ho, .refl o, hrefl _⟩

/-- An intent whose submission has begun stays so, and a submitted one stays submitted. -/
theorem intent_kept (hs : Coherent s) (h : LifecycleStep M s s') {i : IntentRecord}
    (hi : i ∈ s.intents) :
    ∃ i' ∈ s'.intents, i'.id = i.id ∧ (i.state.begun = true → i'.state.begun = true) ∧
      (i.state = .submitted → i'.state = .submitted) := by
  have hsame : ∃ i' ∈ s.intents, i'.id = i.id ∧
      (i.state.begun = true → i'.state.begun = true) ∧
      (i.state = .submitted → i'.state = .submitted) := ⟨i, hi, rfl, id, id⟩
  cases h with
  | draw _ => exact hsame
  | enroll _ _ => exact ⟨i, List.mem_append_left _ hi, rfl, id, id⟩
  | @advance id' expected next f hfrom _ hset =>
    refine ⟨_, Table.mem_updateWhere.mpr ⟨i, hi, rfl⟩, ?_⟩
    split
    · -- an unordered intent is neither begun nor submitted
      rename_i hat
      refine ⟨(hset i).1, fun hbegun => ?_, fun hsubmitted => ?_⟩
      · rw [hat.2] at hbegun
        cases expected <;> simp_all [IntentState.unordered, IntentState.begun]
      · rw [← hat.2, hsubmitted] at hfrom
        exact absurd hfrom (by decide)
    · exact ⟨rfl, id, id⟩
  | reserve _ _ => exact hsame
  | closeReservation _ _ => exact hsame
  | @prepare prior i' _ _ _ hprior hpreparing hi' _ _ _ _ _ _ _ _ _ =>
    by_cases hid : i.id = i'.id
    · have heq : i = prior := Table.eq_of_key_eq hs.intentIds hi hprior (hid.trans hi')
      subst heq
      refine ⟨i', Table.mem_replace.mpr (Or.inr ⟨rfl, i, hi, hid⟩), hi', ?_, ?_⟩ <;>
        rw [hpreparing] <;> intro hstate <;> exact absurd hstate (by decide)
    · exact ⟨i, Table.mem_replace.mpr (Or.inl ⟨hi, hid⟩), rfl, id, id⟩
  | @move prior i' _ _ _ hprior _ _ hi' _ _ _ hlegal _ =>
    by_cases hid : i.id = i'.id
    · have heq : i = prior := Table.eq_of_key_eq hs.intentIds hi hprior (hid.trans hi')
      subst heq
      exact ⟨i', Table.mem_replace.mpr (Or.inr ⟨rfl, i, hi, hid⟩), hi', hlegal.begun,
        hlegal.submitted⟩
    · exact ⟨i, Table.mem_replace.mpr (Or.inl ⟨hi, hid⟩), rfl, id, id⟩

/-- An order in a state that no move `M` allows leads to was in that state before. -/
theorem state_origin (h : LifecycleStep M s s') {state : OrderState} (hnew : state ≠ .prepared)
    (hmoves : ∀ m, M m → m.order.2 = state → m.order.1 = state) {o' : OrderRecord}
    (ho' : o' ∈ s'.orders) (hstate : o'.state = state) :
    ∃ o ∈ s.orders, o.id = o'.id ∧ o.state = state := by
  cases h with
  | prepare _ _ _ _ _ _ _ _ _ horderState _ _ =>
    rcases List.mem_append.mp ho' with ho' | ho'
    · exact ⟨o', ho', rfl, hstate⟩
    · rw [List.mem_singleton.mp ho', horderState] at hstate
      exact absurd hstate.symm hnew
  | move _ hmoved _ _ hterms _ _ _ hmove =>
    rcases Table.mem_replace.mp ho' with ⟨ho', -⟩ | ⟨rfl, -⟩
    · exact ⟨o', ho', rfl, hstate⟩
    · exact ⟨_, hmoved, hterms.1.symm, hmoves _ hmove hstate⟩
  | _ => exact ⟨o', ho', rfl, hstate⟩

theorem prepared_prefix (h : LifecycleStep M s s') : s.preparedOrders <+: s'.preparedOrders := by
  cases h with
  | prepare _ _ _ _ _ _ _ _ _ _ _ _ => exact List.prefix_append _ _
  | _ => exact List.prefix_rfl

end LifecycleStep

namespace LifecycleSteps

variable {M : OrderMove → Prop} {s s' : Lifecycle}

theorem order_kept (hs : Coherent s) (h : LifecycleSteps M s s') {o : OrderRecord}
    (ho : o ∈ s.orders) :
    ∃ o' ∈ s'.orders, o.SameTerms o' ∧
      ((∀ m, M m → m.orderId = o.id → m.order.1 = o.state → m.order.2 = o.state) →
        o'.state = o.state) := by
  induction h with
  | refl => exact ⟨o, ho, .refl o, fun _ => rfl⟩
  | tail hsteps hstep ih =>
    obtain ⟨o₁, ho₁, hterms₁, hstate₁⟩ := ih
    obtain ⟨o₂, ho₂, hterms₂, hstate₂⟩ := hstep.order_kept (hs.steps hsteps) ho₁
    refine ⟨o₂, ho₂, hterms₁.trans hterms₂, fun hkeep => ?_⟩
    have hsame := hstate₁ hkeep
    rw [← hsame]
    refine hstate₂ fun m hm hid hfrom => ?_
    rw [hsame] at hfrom ⊢
    exact hkeep m hm (hid.trans hterms₁.1) hfrom

/-- An order keeps its terms, and its state is related to the one before as the moves relate
their states. -/
theorem order_related (hs : Coherent s) (h : LifecycleSteps M s s')
    (related : OrderState → OrderState → Prop) (hrefl : ∀ state, related state state)
    (htrans : ∀ a b c, related a b → related b c → related a c)
    (hmoves : ∀ m, M m → related m.order.1 m.order.2) {o : OrderRecord} (ho : o ∈ s.orders) :
    ∃ o' ∈ s'.orders, o.SameTerms o' ∧ related o.state o'.state := by
  induction h with
  | refl => exact ⟨o, ho, .refl o, hrefl _⟩
  | tail hsteps hstep ih =>
    obtain ⟨o₁, ho₁, hterms₁, hrelated₁⟩ := ih
    obtain ⟨o₂, ho₂, hterms₂, hrelated₂⟩ :=
      hstep.order_related (hs.steps hsteps) related hrefl hmoves ho₁
    exact ⟨o₂, ho₂, hterms₁.trans hterms₂, htrans _ _ _ hrelated₁ hrelated₂⟩

theorem order_persists (hs : Coherent s) (h : LifecycleSteps M s s') {o : OrderRecord}
    (ho : o ∈ s.orders) : ∃ o' ∈ s'.orders, o.SameTerms o' := by
  obtain ⟨o', ho', hterms, -⟩ := order_kept hs h ho
  exact ⟨o', ho', hterms⟩

theorem intent_kept (hs : Coherent s) (h : LifecycleSteps M s s') {i : IntentRecord}
    (hi : i ∈ s.intents) :
    ∃ i' ∈ s'.intents, i'.id = i.id ∧ (i.state.begun = true → i'.state.begun = true) ∧
      (i.state = .submitted → i'.state = .submitted) := by
  induction h with
  | refl => exact ⟨i, hi, rfl, id, id⟩
  | tail hsteps hstep ih =>
    obtain ⟨i₁, hi₁, hid₁, hbegun₁, hsubmitted₁⟩ := ih
    obtain ⟨i₂, hi₂, hid₂, hbegun₂, hsubmitted₂⟩ := hstep.intent_kept (hs.steps hsteps) hi₁
    exact ⟨i₂, hi₂, hid₂.trans hid₁, hbegun₂ ∘ hbegun₁, hsubmitted₂ ∘ hsubmitted₁⟩

theorem state_origin (h : LifecycleSteps M s s') {state : OrderState} (hnew : state ≠ .prepared)
    (hmoves : ∀ m, M m → m.order.2 = state → m.order.1 = state) {o' : OrderRecord}
    (ho' : o' ∈ s'.orders) (hstate : o'.state = state) :
    ∃ o ∈ s.orders, o.id = o'.id ∧ o.state = state := by
  induction h generalizing o' with
  | refl => exact ⟨o', ho', rfl, hstate⟩
  | tail _ hstep ih =>
    obtain ⟨o₁, ho₁, hid₁, hstate₁⟩ := hstep.state_origin hnew hmoves ho' hstate
    obtain ⟨o, ho, hid, hstate⟩ := ih ho₁ hstate₁
    exact ⟨o, ho, hid.trans hid₁, hstate⟩

theorem prepared_prefix (h : LifecycleSteps M s s') :
    s.preparedOrders <+: s'.preparedOrders := by
  induction h with
  | refl => exact List.prefix_rfl
  | tail _ hstep ih => exact ih.trans hstep.prepared_prefix

end LifecycleSteps

end OddsfoxExecution
