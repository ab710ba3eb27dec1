import OddsfoxExecution.Store.Housekeeping

/-!
# The journal

Every transaction that writes something appends its events to
`execution_events` in the order it draws their sequence numbers.  For each
operation this module says which events those are, next to the ones it
broadcasts, and that they name every intent and every order whose state the
transaction changes.  One branch of `transition_order` is left out: it changes an
intent that no event names.
-/

namespace OddsfoxExecution

def Db.intentState (db : Db) (id : Uuid) : Option IntentState :=
  (db.intent? id).map IntentRecord.state

def Db.orderState (db : Db) (id : Uuid) : Option OrderState :=
  (db.order? id).map OrderRecord.state

def ExecutionEvent.NamesIntent (e : ExecutionEvent) (id : Uuid) : Prop :=
  e.resourceType = "intent" ∧ e.resourceId = .uuid id

def ExecutionEvent.NamesOrder (e : ExecutionEvent) (id : Uuid) : Prop :=
  e.resourceType = "order" ∧ e.resourceId = .uuid id

/-- Between the two databases these events were appended to the journal. -/
structure Db.Appends (db : Db) (later : List ExecutionEvent) (db' : Db) : Prop where
  events : db'.executionEvents = db.executionEvents ++ later
  numbered : later.map ExecutionEvent.sequence = List.range' db.nextSequence later.length
  next : db'.nextSequence = db.nextSequence + later.length

namespace Db.Appends

variable {db db₁ db' : Db} {later later' : List ExecutionEvent}

theorem silent (hevents : db'.executionEvents = db.executionEvents)
    (hnext : db'.nextSequence = db.nextSequence) : db.Appends [] db' :=
  ⟨by rw [hevents, List.append_nil], rfl, hnext⟩

theorem event (db : Db) (eventType resourceType : String) (resourceId : ResourceId) :
    db.Appends [(db.appendEvent eventType resourceType resourceId).2]
      (db.appendEvent eventType resourceType resourceId).1 := ⟨rfl, rfl, rfl⟩

theorem trans (h : db.Appends later db₁) (h' : db₁.Appends later' db') :
    db.Appends (later ++ later') db' where
  events := by rw [h'.events, h.events, List.append_assoc]
  numbered := by
    rw [List.map_append, h.numbered, h'.numbered, h.next, List.length_append, List.range'_append_1]
  next := by rw [h'.next, h.next, List.length_append, Nat.add_assoc]

theorem before (h : db₁.Appends later db') (hevents : db₁.executionEvents = db.executionEvents)
    (hnext : db₁.nextSequence = db.nextSequence) : db.Appends later db' :=
  (silent hevents hnext).trans h

end Db.Appends

/-- The events appended name every intent and every order whose state has changed. -/
structure Db.Trail (db : Db) (later : List ExecutionEvent) (db' : Db) : Prop
    extends Db.Appends db later db' where
  intents : ∀ id, db'.intentState id ≠ db.intentState id → ∃ e ∈ later, e.NamesIntent id
  orders : ∀ id, db'.orderState id ≠ db.orderState id → ∃ e ∈ later, e.NamesOrder id

namespace Db.Trail

variable {db db₁ db' : Db} {later later' : List ExecutionEvent}

theorem of_appends (h : db.Appends later db') (hintents : db'.intents = db.intents)
    (horders : db'.orders = db.orders) : db.Trail later db' :=
  { h with
    intents := fun id hne => absurd (by rw [Db.intentState, Db.intent?, hintents]; rfl) hne
    orders := fun id hne => absurd (by rw [Db.orderState, Db.order?, horders]; rfl) hne }

theorem refl (db : Db) : db.Trail [] db := of_appends (.silent rfl rfl) rfl rfl

theorem trans (h : db.Trail later db₁) (h' : db₁.Trail later' db') :
    db.Trail (later ++ later') db' :=
  { h.toAppends.trans h'.toAppends with
    intents := fun id hne => by
      by_cases hfirst : db₁.intentState id = db.intentState id
      · obtain ⟨e, he, hnames⟩ := h'.intents id (hfirst ▸ hne)
        exact ⟨e, List.mem_append_right _ he, hnames⟩
      · obtain ⟨e, he, hnames⟩ := h.intents id hfirst
        exact ⟨e, List.mem_append_left _ he, hnames⟩
    orders := fun id hne => by
      by_cases hfirst : db₁.orderState id = db.orderState id
      · obtain ⟨e, he, hnames⟩ := h'.orders id (hfirst ▸ hne)
        exact ⟨e, List.mem_append_right _ he, hnames⟩
      · obtain ⟨e, he, hnames⟩ := h.orders id hfirst
        exact ⟨e, List.mem_append_left _ he, hnames⟩ }

end Db.Trail

/-! ## Which states an update changes -/

section Changes

variable {db db' : Db} {k id : Uuid}

/-- An update of the intents under one identifier changes the state of that one at most. -/
theorem intent_of_updated {p : IntentRecord → Prop} [DecidablePred p]
    {f : IntentRecord → IntentRecord} (hintents : db'.intents = Table.updateWhere p f db.intents)
    (hid : ∀ i, (f i).id = i.id) (hp : ∀ i, p i → i.id = k)
    (hne : db'.intentState id ≠ db.intentState id) : id = k := by
  by_contra hother
  refine hne (congrArg (Option.map IntentRecord.state) ?_)
  rw [Db.intent?, hintents]
  exact Table.find?_updateWhere_of_ne hid hp hother

theorem intentState_updated {p : IntentRecord → Prop} [DecidablePred p]
    {f : IntentRecord → IntentRecord} (hintents : db'.intents = Table.updateWhere p f db.intents)
    (hid : ∀ i, (f i).id = i.id) :
    db'.intentState id = (db.intent? id).map fun i => (if p i then f i else i).state := by
  rw [Db.intentState, Db.intent?, hintents, Table.find?_updateWhere hid, Option.map_map]
  rfl

theorem intent_of_appended {record : IntentRecord} (hintents : db'.intents = db.intents ++ [record])
    (hne : db'.intentState id ≠ db.intentState id) : id = record.id := by
  by_contra hother
  refine hne (congrArg (Option.map IntentRecord.state) ?_)
  rw [Db.intent?, hintents]
  exact Table.find?_append_row_of_ne hother

theorem order_of_updated {p : OrderRecord → Prop} [DecidablePred p]
    {f : OrderRecord → OrderRecord} (horders : db'.orders = Table.updateWhere p f db.orders)
    (hid : ∀ o, (f o).id = o.id) (hp : ∀ o, p o → o.id = k)
    (hne : db'.orderState id ≠ db.orderState id) : id = k := by
  by_contra hother
  refine hne (congrArg (Option.map OrderRecord.state) ?_)
  rw [Db.order?, horders]
  exact Table.find?_updateWhere_of_ne hid hp hother

theorem order_of_appended {order : OrderRecord} (horders : db'.orders = db.orders ++ [order])
    (hne : db'.orderState id ≠ db.orderState id) : id = order.id := by
  by_contra hother
  refine hne (congrArg (Option.map OrderRecord.state) ?_)
  rw [Db.order?, horders]
  exact Table.find?_append_row_of_ne hother

theorem intentState_eq (hintents : db'.intents = db.intents) (id : Uuid) :
    db'.intentState id = db.intentState id := by
  rw [Db.intentState, Db.intent?, hintents]
  rfl

theorem orderState_eq (horders : db'.orders = db.orders) (id : Uuid) :
    db'.orderState id = db.orderState id := by
  rw [Db.orderState, Db.order?, horders]
  rfl

end Changes

namespace Db.Trail

variable {db db' : Db} {later : List ExecutionEvent} {k k' : Uuid}

theorem of_pair (h : db.Appends later db')
    (hintents : ∀ id, db'.intentState id ≠ db.intentState id → id = k)
    (horders : ∀ id, db'.orderState id ≠ db.orderState id → id = k')
    (hintent : ∃ e ∈ later, e.NamesIntent k) (horder : ∃ e ∈ later, e.NamesOrder k') :
    db.Trail later db' :=
  { h with
    intents := fun id hne => hintents id hne ▸ hintent
    orders := fun id hne => horders id hne ▸ horder }

theorem of_intent (h : db.Appends later db')
    (hintents : ∀ id, db'.intentState id ≠ db.intentState id → id = k)
    (horders : db'.orders = db.orders) (hintent : ∃ e ∈ later, e.NamesIntent k) :
    db.Trail later db' :=
  { h with
    intents := fun id hne => hintents id hne ▸ hintent
    orders := fun id hne => absurd (orderState_eq horders id) hne }

theorem of_order (h : db.Appends later db') (hintents : db'.intents = db.intents)
    (horders : ∀ id, db'.orderState id ≠ db.orderState id → id = k')
    (horder : ∃ e ∈ later, e.NamesOrder k') : db.Trail later db' :=
  { h with
    intents := fun id hne => absurd (intentState_eq hintents id) hne
    orders := fun id hne => horders id hne ▸ horder }

end Db.Trail

theorem Db.Trail.before {db db₁ db' : Db} {later : List ExecutionEvent} (h : db₁.Trail later db')
    (hevents : db₁.executionEvents = db.executionEvents)
    (hnext : db₁.nextSequence = db.nextSequence) (hintents : db₁.intents = db.intents)
    (horders : db₁.orders = db.orders) : db.Trail later db' :=
  (Db.Trail.of_appends (.silent hevents hnext) hintents horders).trans h

theorem Db.Trail.event {db db₁ : Db} {eventType resourceType : String} {resourceId : ResourceId}
    (hevents : db₁.executionEvents = db.executionEvents)
    (hnext : db₁.nextSequence = db.nextSequence) (hintents : db₁.intents = db.intents)
    (horders : db₁.orders = db.orders) :
    db.Trail [(db₁.appendEvent eventType resourceType resourceId).2]
      (db₁.appendEvent eventType resourceType resourceId).1 :=
  .of_appends ((Db.Appends.silent hevents hnext).trans (.event db₁ _ _ _)) hintents horders

/-! ## Before submission -/

section Intents

variable {db : Db}

theorem admitIntent_trail {actorId key : String} {request : OrderIntentRequest} {now : Time}
    {r : Committed Admission} (h : admitIntent actorId key request now db = .ok r) :
    db.Trail r.broadcast r.db := by
  unfold admitIntent at h
  split at h
  · split at h
    · cases h
    · split at h
      · cases h
      · split at h
        · cases h
          exact .refl db
        · cases h
  · split at h
    · cases h
    · dsimp only at h
      split at h
      · cases h
      · cases h
        exact .of_intent ⟨rfl, rfl, rfl⟩ (fun _ => intent_of_appended rfl) rfl
          ⟨_, List.mem_singleton_self _, rfl, rfl⟩

theorem transitionIntent_trail {id : Uuid} {expected next : IntentState}
    {rejection : Option (String × String)} {r : Committed IntentRecord}
    (h : transitionIntent id expected next rejection db = .ok r) : db.Trail r.broadcast r.db := by
  unfold transitionIntent at h
  dsimp only at h
  split at h
  · cases h
  · split at h
    · cases h
    · cases h
      exact .of_intent ⟨rfl, rfl, rfl⟩
        (fun _ => intent_of_updated rfl (fun _ => rfl) fun _ hp => hp.1) rfl
        ⟨_, List.mem_singleton_self _, rfl, rfl⟩

theorem concludeRisk_trail {intentId : Uuid} {decision : RiskDecision}
    {events : List ExecutionEvent} {r : Committed RiskDecision}
    (h : concludeRisk intentId decision events db = .ok r) :
    ∃ event, r.broadcast = events ++ [event] ∧ db.Trail [event] r.db := by
  unfold concludeRisk at h
  dsimp only at h
  split at h
  · cases h
  · cases h
    exact ⟨_, rfl, .of_intent ⟨rfl, rfl, rfl⟩
      (fun _ => intent_of_updated rfl (fun _ => rfl) fun _ hp => hp.1) rfl
      ⟨_, List.mem_singleton_self _, rfl, rfl⟩⟩

theorem reserveRisk_trail {intentId : Uuid} {request : OrderIntentRequest} {market : MarketRules}
    {db' : Db} {event : ExecutionEvent}
    (h : reserveRisk intentId request market db = .ok (db', event)) : db.Trail [event] db' := by
  unfold reserveRisk at h
  split at h
  · cases h
  · split at h
    · cases h
    · split at h
      · cases h
      · split at h
        · cases h
        · cases h
          exact .of_appends ⟨rfl, rfl, rfl⟩ rfl rfl

theorem evaluateAndReserveRisk_trail {intentId : Uuid} {request : OrderIntentRequest}
    {market : MarketRules} {book : OrderBook} {policy : RiskPolicy} {now : Time}
    {r : Committed RiskDecision}
    (h : evaluateAndReserveRisk intentId request market book policy now db = .ok r) :
    db.Trail r.broadcast r.db := by
  unfold evaluateAndReserveRisk at h
  split at h
  · cases h
  · dsimp only at h
    split at h
    · cases h
    · split at h
      · split at h
        · cases h
        · rename_i hreserve
          obtain ⟨event, hbroadcast, htrail⟩ := concludeRisk_trail h
          rw [hbroadcast]
          change db.Trail (([_] ++ [_]) ++ [event]) r.db
          refine .trans (.trans ?_ (reserveRisk_trail hreserve)) htrail
          exact .event rfl rfl rfl rfl
      · obtain ⟨event, hbroadcast, htrail⟩ := concludeRisk_trail h
        rw [hbroadcast]
        refine .trans ?_ htrail
        exact .event rfl rfl rfl rfl

theorem Db.Appends.two {db' : Db} {e e' : ExecutionEvent}
    (hevents : db'.executionEvents = db.executionEvents ++ [e] ++ [e'])
    (he : e.sequence = db.nextSequence) (he' : e'.sequence = db.nextSequence + 1)
    (hnext : db'.nextSequence = db.nextSequence + 2) : db.Appends [e, e'] db' :=
  ⟨by rw [hevents, List.append_assoc]; rfl, by rw [List.map_cons, List.map_singleton, he, he']; rfl,
    hnext⟩

theorem createPreparedOrder_trail {intentId : Uuid} {request : OrderIntentRequest}
    {prepared : PreparedVenueOrder} {version : String} {feeRate : Decimal} {now : Time}
    {r : Committed OrderRecord}
    (h : createPreparedOrder intentId request prepared version feeRate now db = .ok r) :
    db.Trail r.broadcast r.db := by
  unfold createPreparedOrder at h
  split at h
  · cases h
  · split at h
    · cases h
    · dsimp only at h
      split at h
      · cases h
      · split at h
        · cases h
        · split at h
          · cases h
          · split at h
            · cases h
            · cases h
              exact .of_pair (.two rfl rfl rfl rfl)
                (fun _ => intent_of_updated rfl (fun _ => rfl) fun _ hp => hp.1)
                (fun _ => order_of_appended rfl)
                ⟨_, List.mem_cons_self, rfl, rfl⟩
                ⟨_, List.mem_cons_of_mem _ (List.mem_singleton_self _), rfl, rfl⟩

theorem rejectPreparation_trail {intentId : Uuid} {code message : String} {r : Committed Unit}
    (h : rejectPreparation intentId code message db = .ok r) : db.Trail r.broadcast r.db := by
  unfold rejectPreparation at h
  split at h
  · cases h
  · split at h
    · cases h
    · cases h
      exact .of_intent (.two rfl rfl rfl rfl)
        (fun _ => intent_of_updated rfl (fun _ => rfl) fun _ hp => hp.1) rfl
        ⟨_, List.mem_cons_of_mem _ (List.mem_singleton_self _), rfl, rfl⟩

theorem recoverIntent_trail {row : IntentRecord} {db' : Db} {events events' : List ExecutionEvent}
    (h : recoverIntent row db events = .ok (db', events')) :
    ∃ later, events' = events ++ later ∧ db.Trail later db' := by
  unfold recoverIntent at h
  split at h
  · split at h
    · cases h
    · cases h
      exact ⟨[], by simp, .refl db⟩
  · split at h
    · cases h
      exact ⟨[], by simp, .refl db⟩
    · dsimp only at h
      split at h <;> cases h
      · refine ⟨[_, _], List.append_assoc .., .of_intent (.two rfl rfl rfl rfl)
          (fun _ => intent_of_updated rfl (fun _ => rfl) fun _ hp => hp.1) rfl
          ⟨_, List.mem_cons_of_mem _ (List.mem_singleton_self _), rfl, rfl⟩⟩
      · exact ⟨[_], rfl, .of_intent ⟨rfl, rfl, rfl⟩
          (fun _ => intent_of_updated rfl (fun _ => rfl) fun _ hp => hp.1) rfl
          ⟨_, List.mem_singleton_self _, rfl, rfl⟩⟩

theorem recoverIntents_trail {rows : List IntentRecord} {db' : Db}
    {events events' : List ExecutionEvent}
    (h : recoverIntents rows db events = .ok (db', events')) :
    ∃ later, events' = events ++ later ∧ db.Trail later db' := by
  induction rows generalizing db events with
  | nil =>
    cases h
    exact ⟨[], by simp, .refl _⟩
  | cons row rows ih =>
    simp only [recoverIntents] at h
    split at h
    · cases h
    · rename_i hrow
      obtain ⟨first, rfl, hfirst⟩ := recoverIntent_trail hrow
      obtain ⟨rest, rfl, hrest⟩ := ih h
      exact ⟨first ++ rest, List.append_assoc .., hfirst.trans hrest⟩

theorem recoverPreSubmissionWork_trail {r : Committed (List Uuid)}
    (h : recoverPreSubmissionWork db = .ok r) : db.Trail r.broadcast r.db := by
  unfold recoverPreSubmissionWork at h
  dsimp only at h
  split at h
  · cases h
  · rename_i hrows
    cases h
    obtain ⟨later, rfl, htrail⟩ := recoverIntents_trail hrows
    exact htrail

end Intents

/-! ## Orders -/

/-- The operation books a trade that it appends before its other events and broadcasts after
them. -/
def StoreCall.tradesLast (db : Db) : StoreCall → Bool
  | finishSubmission intentId orderId intentState _ venueOrderId _ filledQuantity _ ids =>
    intentState = .submitted &&
      (db.orders.find? fun o => OrderRecord.AtPair orderId intentId .submitting o).any fun o =>
        db.fillsAnew o venueOrderId filledQuantity ids
  | resolveUnknownSubmission unknown venueOrderId state _ filledQuantity _ ids =>
    state ≠ .unknown &&
      (db.orders.find? fun o => OrderRecord.At unknown.orderId .unknown o).any fun o =>
        db.fillsAnew o (some venueOrderId) filledQuantity ids
  | reconcileOrderProjection orderId _ _ totalFilledQuantity _ ids =>
    (db.order? orderId).any fun o =>
      db.fillsAnew o o.venueOrderId (totalFilledQuantity - o.localFilled) ids
  | _ => false

section Orders

variable {db : Db}

/-- A matched fill appends the event it returns, and leaves the intents and the orders. -/
theorem applyMatchedFill_appends (db : Db) (order : OrderRecord) (venueOrderId : Option String)
    (filled : Decimal) (price : Option Decimal) (ids : List String) (now : Time) :
    ∃ trades positions executionEvents nextSequence nextUuid,
      (applyMatchedFill db order venueOrderId filled price ids now).1 =
        { db with trades, positions, executionEvents, nextSequence, nextUuid } ∧
      db.Appends (applyMatchedFill db order venueOrderId filled price ids now).2.toList
        (applyMatchedFill db order venueOrderId filled price ids now).1 := by
  unfold applyMatchedFill
  split
  · exact ⟨_, _, _, _, _, rfl, .silent rfl rfl⟩
  · dsimp only
    split
    · exact ⟨_, _, _, _, _, rfl, .silent rfl rfl⟩
    · exact ⟨_, _, _, _, _, rfl, rfl, rfl, rfl⟩

theorem beginSubmission_trail {intentId orderId : Uuid} {r : Committed Unit}
    (h : beginSubmission intentId orderId db = .ok r) : db.Trail r.broadcast r.db := by
  unfold beginSubmission at h
  split at h
  · cases h
  · split at h
    · cases h
    · split at h
      · cases h
      · cases h
        exact .of_pair (.two rfl rfl rfl rfl)
          (fun _ => intent_of_updated rfl (fun _ => rfl) fun _ hp => hp.1)
          (fun _ => order_of_updated rfl (fun _ => rfl) fun _ hp => hp.1)
          ⟨_, List.mem_cons_self, rfl, rfl⟩
          ⟨_, List.mem_cons_of_mem _ (List.mem_singleton_self _), rfl, rfl⟩

/-- The trade of a fill is appended before the other two events and broadcast after them. -/
theorem finishSubmission_trail {intentId orderId : Uuid} {intentState : IntentState}
    {orderState : OrderState} {venueOrderId : Option String} {responseClass : String}
    {filled : Decimal} {price : Option Decimal} {ids : List String} {now : Time}
    {r : Committed Unit}
    (h : finishSubmission intentId orderId intentState orderState venueOrderId responseClass filled
      price ids now db = .ok r) :
    ∃ pair fill, r.broadcast = pair ++ fill ∧ db.Trail (fill ++ pair) r.db ∧
      ((StoreCall.finishSubmission intentId orderId intentState orderState venueOrderId
        responseClass filled price ids).tradesLast db = false → fill = []) := by
  unfold finishSubmission at h
  split at h
  · cases h
  · split at h
    · cases h
    · rename_i prior hprior
      dsimp only at h
      split at h
      · cases h
      · split at h
        · cases h
        · split at h
          · rename_i hsubmitted
            generalize hfill :
              applyMatchedFill _ prior venueOrderId filled price ids now = result at h
            obtain ⟨_, _, _, _, _, hframe, happends⟩ :=
              applyMatchedFill_appends _ prior venueOrderId filled price ids now
            rw [hfill] at hframe happends
            obtain ⟨db', event⟩ := result
            subst hframe
            cases h
            have hfirst : db.Appends event.toList _ := happends.before rfl rfl
            refine ⟨_, _, rfl, .of_pair (hfirst.trans (.two rfl rfl rfl rfl))
              (fun _ => intent_of_updated rfl (fun _ => rfl) fun _ hp => hp.1)
              (fun _ => order_of_updated rfl (fun _ => rfl) fun _ hp => hp.1)
              ⟨_, List.mem_append_right _ List.mem_cons_self, rfl, rfl⟩
              ⟨_, List.mem_append_right _ (List.mem_cons_of_mem _ (List.mem_singleton_self _)), rfl,
                rfl⟩, fun hnone => ?_⟩
            rw [StoreCall.tradesLast, hprior, decide_eq_true hsubmitted] at hnone
            have hsilent := (congrArg Prod.snd hfill).symm.trans (applyMatchedFill_silent hnone)
            exact congrArg Option.toList hsilent
          · cases h
            refine ⟨[_, _], [], rfl, .of_pair (.two rfl rfl rfl rfl)
              (fun _ => intent_of_updated rfl (fun _ => rfl) fun _ hp => hp.1)
              (fun _ => order_of_updated rfl (fun _ => rfl) fun _ hp => hp.1)
              ⟨_, List.mem_cons_self, rfl, rfl⟩
              ⟨_, List.mem_cons_of_mem _ (List.mem_singleton_self _), rfl, rfl⟩, fun _ => rfl⟩

theorem recoverInterruptedRows_trail {rows : List UnknownSubmission} :
    db.Trail (recoverInterruptedRows rows db).2 (recoverInterruptedRows rows db).1 := by
  induction rows generalizing db with
  | nil => exact .refl _
  | cons row rows ih =>
    have hrow : db.Trail (recoverInterrupted row db).2 (recoverInterrupted row db).1 :=
      .of_pair (.two rfl rfl rfl rfl)
        (fun _ => intent_of_updated rfl (fun _ => rfl) fun _ hp => hp)
        (fun _ => order_of_updated rfl (fun _ => rfl) fun _ hp => hp)
        ⟨_, List.mem_cons_self, rfl, rfl⟩
        ⟨_, List.mem_cons_of_mem _ (List.mem_singleton_self _), rfl, rfl⟩
    exact hrow.trans ih

theorem resolveUnknownSubmission_trail {unknown : UnknownSubmission} {venueOrderId : String}
    {state : OrderState} {remaining filled : Decimal} {price : Option Decimal} {ids : List String}
    {now : Time} {r : Committed Unit}
    (h : resolveUnknownSubmission unknown venueOrderId state remaining filled price ids now db =
      .ok r) :
    ∃ pair fill, r.broadcast = pair ++ fill ∧ db.Trail (fill ++ pair) r.db ∧
      ((StoreCall.resolveUnknownSubmission unknown venueOrderId state remaining filled price
        ids).tradesLast db = false → fill = []) := by
  unfold resolveUnknownSubmission at h
  split at h
  · cases h
    exact ⟨[], [], rfl, .refl db, fun _ => rfl⟩
  · rename_i hsettled
    split at h
    · cases h
    · rename_i prior hprior
      split at h
      · cases h
      · split at h
        · cases h
        · dsimp only at h
          generalize hfill : applyMatchedFill _ prior (some venueOrderId) filled price ids now =
            result at h
          obtain ⟨_, _, _, _, _, hframe, happends⟩ :=
            applyMatchedFill_appends _ prior (some venueOrderId) filled price ids now
          rw [hfill] at hframe happends
          obtain ⟨db', event⟩ := result
          subst hframe
          cases h
          have hfirst : db.Appends event.toList _ := happends.before rfl rfl
          refine ⟨_, _, rfl, .of_pair (hfirst.trans (.two rfl rfl rfl rfl))
            (fun _ => intent_of_updated rfl (fun _ => rfl) fun _ hp => hp.1)
            (fun _ => order_of_updated rfl (fun _ => rfl) fun _ hp => hp.1)
            ⟨_, List.mem_append_right _ (List.mem_cons_of_mem _ (List.mem_singleton_self _)), rfl,
              rfl⟩
            ⟨_, List.mem_append_right _ List.mem_cons_self, rfl, rfl⟩, fun hnone => ?_⟩
          rw [StoreCall.tradesLast, hprior, decide_eq_true hsettled] at hnone
          have hsilent := (congrArg Prod.snd hfill).symm.trans (applyMatchedFill_silent hnone)
          exact congrArg Option.toList hsilent

theorem cancelPreparedOrder_trail {orderId : Uuid} {r : Committed OrderRecord}
    (h : cancelPreparedOrder orderId db = .ok r) : db.Trail r.broadcast r.db := by
  unfold cancelPreparedOrder at h
  split at h
  · cases h
  · cases h
    exact .of_pair (.two rfl rfl rfl rfl)
      (fun _ => intent_of_updated rfl (fun _ => rfl) fun _ hp => hp.1)
      (fun _ => order_of_updated rfl (fun _ => rfl) fun _ hp => hp)
      ⟨_, List.mem_cons_of_mem _ (List.mem_singleton_self _), rfl, rfl⟩
      ⟨_, List.mem_cons_self, rfl, rfl⟩

theorem reconcileOrderProjection_trail {orderId : Uuid} {state : OrderState}
    {remaining total : Decimal} {price : Option Decimal} {ids : List String} {now : Time}
    {r : Committed Unit}
    (h : reconcileOrderProjection orderId state remaining total price ids now db = .ok r) :
    ∃ first fill, r.broadcast = first ++ fill ∧ db.Trail (fill ++ first) r.db ∧
      ((StoreCall.reconcileOrderProjection orderId state remaining total price ids).tradesLast
        db = false → fill = []) := by
  unfold reconcileOrderProjection at h
  split at h
  · cases h
  · rename_i order horder
    split at h
    · cases h
    · split at h
      · cases h
      · dsimp only at h
        split at h
        · cases h
          exact ⟨[], [], rfl, .refl db, fun _ => rfl⟩
        · generalize hfill : applyMatchedFill _ order order.venueOrderId
            (total - order.localFilled) price ids now = result at h
          obtain ⟨_, _, _, _, _, hframe, happends⟩ := applyMatchedFill_appends _ order
            order.venueOrderId (total - order.localFilled) price ids now
          rw [hfill] at hframe happends
          obtain ⟨db', event⟩ := result
          subst hframe
          cases h
          have hfirst : db.Appends event.toList _ := happends.before rfl rfl
          refine ⟨[_], _, rfl, .of_order (hfirst.trans ⟨rfl, rfl, rfl⟩) rfl
            (fun _ => order_of_updated rfl (fun _ => rfl) fun _ hp => hp)
            ⟨_, List.mem_append_right _ (List.mem_singleton_self _), rfl, rfl⟩, fun hnone => ?_⟩
          rw [StoreCall.tradesLast, horder] at hnone
          have hsilent := (congrArg Prod.snd hfill).symm.trans (applyMatchedFill_silent hnone)
          exact congrArg Option.toList hsilent

/-- The venue's answer settles an UNKNOWN order, and with it the UNKNOWN intent it belongs to. -/
def Db.SettlesUnknown (db : Db) (id : Uuid) (next : OrderState) : Prop :=
  (next = .filled ∨ next = .cancelled ∨ next = .expired) ∧
    ∃ o, db.order? id = some o ∧ o.state = .unknown ∧ db.intentState o.intentId = some .unknown

theorem transitionOrder_appends {id : Uuid} {next : OrderState} {venueOrderId : Option String}
    {r : Committed OrderRecord} (h : transitionOrder id next venueOrderId db = .ok r) :
    db.Appends r.broadcast r.db := by
  unfold transitionOrder at h
  split at h
  · cases h
  · split at h
    · cases h
      exact .silent rfl rfl
    · split at h
      · cases h
      · cases h
        exact ⟨rfl, rfl, rfl⟩

/-- An intent that is not UNKNOWN keeps its state when the order is settled. -/
theorem intentState_submitUnknown {k id : Uuid} {db' : Db}
    (hintents : db'.intents = Table.updateWhere (IntentRecord.At k .unknown)
      (fun i => { i with state := .submitted }) db.intents)
    (hk : db.intentState k ≠ some .unknown) : db'.intentState id = db.intentState id := by
  by_contra hne
  obtain rfl := intent_of_updated hintents (fun _ => rfl) (fun _ hp => hp.1) hne
  refine hne ?_
  rw [intentState_updated hintents fun _ => rfl]
  unfold Db.intentState at hk ⊢
  cases hfind : db.intent? id with
  | none => rfl
  | some i =>
    have hstate : i.state ≠ .unknown := by simpa [hfind] using hk
    simp [IntentRecord.At, hstate]

theorem transitionOrder_trail {id : Uuid} {next : OrderState} {venueOrderId : Option String}
    {r : Committed OrderRecord} (h : transitionOrder id next venueOrderId db = .ok r)
    (hsettles : ¬ db.SettlesUnknown id next) : db.Trail r.broadcast r.db := by
  have happends := transitionOrder_appends h
  unfold transitionOrder at h
  split at h
  · cases h
  · rename_i prior hprior
    split at h
    · cases h
      exact .refl db
    · split at h
      · cases h
      · cases h
        refine { happends with intents := fun k hne => ?_, orders := fun k hne => ?_ }
        · refine absurd ?_ hne
          by_cases hterminal : prior.state = .unknown ∧
              (next = .filled ∨ next = .cancelled ∨ next = .expired)
          · refine intentState_submitUnknown (if_pos hterminal) fun hunknown => hsettles ?_
            exact ⟨hterminal.2, prior, hprior, hterminal.1, hunknown⟩
          · exact intentState_eq (if_neg hterminal) k
        · obtain rfl : k = id := order_of_updated (p := fun o => o.id = id)
            (f := fun o => { o with state := next, venueOrderId := venueOrderId.or o.venueOrderId })
            rfl (fun _ => rfl) (fun _ hp => hp) hne
          exact ⟨_, List.mem_singleton_self _, rfl, rfl⟩

/-- The one branch whose trail misses a change: no event names the intent. -/
theorem transitionOrder_silent {id : Uuid} {next : OrderState} {venueOrderId : Option String}
    {r : Committed OrderRecord} (h : transitionOrder id next venueOrderId db = .ok r)
    (hsettles : db.SettlesUnknown id next) :
    ∃ k, r.db.intentState k ≠ db.intentState k ∧
      ∀ later, r.db.executionEvents = db.executionEvents ++ later →
        ∀ e ∈ later, ¬ e.NamesIntent k := by
  obtain ⟨hnext, o, ho, hunknown, hintent⟩ := hsettles
  unfold transitionOrder at h
  rw [ho] at h
  dsimp only at h
  split at h
  · rename_i hpending
    rcases hnext with rfl | rfl | rfl <;> cases hpending.1
  · split at h
    · cases h
    · cases h
      refine ⟨o.intentId, ?_, fun later hlater e he => ?_⟩
      · rw [hintent, intentState_updated (p := IntentRecord.At o.intentId .unknown)
          (f := fun i => { i with state := .submitted }) (if_pos ⟨hunknown, hnext⟩) fun _ => rfl]
        unfold Db.intentState at hintent
        obtain ⟨i, hi, hstate⟩ := Option.map_eq_some_iff.mp hintent
        have hid : i.id = o.intentId := by simpa using List.find?_some hi
        rw [hi]
        simp [IntentRecord.At, hid, hstate]
      · obtain rfl : later = [_] := (List.append_cancel_left hlater).symm
        rw [List.mem_singleton.mp he]
        exact fun hnames => absurd hnames.1 (show ¬ "order" = "intent" by decide)

theorem recordVenueTradeFinality_trail {orderId : Uuid} {venueTradeId : String}
    {status : TradeState} {r : Committed Bool}
    (h : recordVenueTradeFinality orderId venueTradeId status db = .ok r) :
    db.Trail r.broadcast r.db := by
  unfold recordVenueTradeFinality at h
  dsimp only at h
  split at h
  · cases h
    exact .refl db
  · split at h
    · cases h
      exact .refl db
    · cases h
      exact .of_appends ⟨rfl, rfl, rfl⟩ rfl rfl

theorem upsertVenuePositions_trail {current : List PositionRecord}
    {observed : List ObservedVenuePosition} {tokens tokens' : List String} {db' : Db}
    {events events' : List ExecutionEvent}
    (h : upsertVenuePositions current observed tokens db events = .ok (tokens', db', events')) :
    ∃ later, events' = events ++ later ∧ db.Trail later db' := by
  induction observed generalizing tokens db events with
  | nil =>
    cases h
    exact ⟨[], by simp, .refl _⟩
  | cons observed rest ih =>
    simp only [upsertVenuePositions] at h
    split at h
    · cases h
    · split at h
      · cases h
      · split at h
        · exact ih h
        · obtain ⟨later, rfl, htrail⟩ := ih h
          refine ⟨[_] ++ later, List.append_assoc .., .trans ?_ htrail⟩
          exact .event rfl rfl rfl rfl

theorem zeroMissingPositions_trail {tokens : List String} {current : List PositionRecord}
    {events : List ExecutionEvent} :
    ∃ later, (zeroMissingPositions tokens current db events).2 = events ++ later ∧
      db.Trail later (zeroMissingPositions tokens current db events).1 := by
  induction current generalizing db events with
  | nil => exact ⟨[], by simp [zeroMissingPositions], .refl _⟩
  | cons prior rest ih =>
    simp only [zeroMissingPositions]
    split
    · exact ih
    · obtain ⟨later, hevents, htrail⟩ := ih
      refine ⟨[_] ++ later, hevents.trans (List.append_assoc ..), .trans ?_ htrail⟩
      exact .event rfl rfl rfl rfl

theorem reconcileVenuePositions_trail {observed : List ObservedVenuePosition} {r : Committed Unit}
    (h : reconcileVenuePositions observed db = .ok r) : db.Trail r.broadcast r.db := by
  unfold reconcileVenuePositions at h
  dsimp only at h
  split at h
  · cases h
  · rename_i tokens db' events hupsert
    cases h
    obtain ⟨first, hevents, hfirst⟩ := upsertVenuePositions_trail hupsert
    obtain ⟨second, hsecond, htrail⟩ := @zeroMissingPositions_trail db' tokens
      (db.positions.insertionSort fun a b => a.tokenId ≤ b.tokenId) events
    rw [List.nil_append] at hevents
    subst hevents
    rw [hsecond]
    exact hfirst.trans htrail

end Orders

/-! ## Paper fills -/

section Paper

variable {db : Db}

theorem fillCoreOrder_trail {trade : PaperTrade} {venueOrderId venueTradeId : String}
    {fill nextRemaining : Decimal} {state : OrderState} {now : Time} :
    db.Trail (fillCoreOrder trade venueOrderId venueTradeId fill nextRemaining state now db).2
      (fillCoreOrder trade venueOrderId venueTradeId fill nextRemaining state now db).1 := by
  unfold fillCoreOrder
  split
  · exact .refl db
  · rename_i core hcore
    split
    · dsimp only
      generalize hfill : applyMatchedFill _ core (some venueOrderId) fill (some trade.price)
        [venueTradeId] now = result
      obtain ⟨_, _, _, _, _, hframe, happends⟩ := applyMatchedFill_appends _ core
        (some venueOrderId) fill (some trade.price) [venueTradeId] now
      rw [hfill] at hframe happends
      obtain ⟨db', event⟩ := result
      subst hframe
      have hfirst : db.Appends event.toList _ := happends.before rfl rfl
      exact .of_order (hfirst.trans ⟨rfl, rfl, rfl⟩) rfl
        (fun _ => order_of_updated rfl (fun _ => rfl) fun _ hp => hp)
        ⟨_, List.mem_append_right _ (List.mem_singleton_self _), rfl, rfl⟩
    · exact .refl db

theorem fillRestingOrder_trail {trade : PaperTrade} {now : Time} {row : PaperVenueOrder}
    {fill : Decimal} {balances balances' : PaperBalances} {db' : Db}
    {events : List ExecutionEvent}
    (h : fillRestingOrder trade now row fill balances db = .ok (balances', db', events)) :
    db.Trail events db' := by
  unfold fillRestingOrder at h
  dsimp only at h
  split at h
  · cases h
  · cases h
    refine .trans ?_ (.event rfl rfl rfl rfl)
    exact fillCoreOrder_trail.before rfl rfl rfl rfl

theorem applyTradeThrough_trail {trade : PaperTrade} {now : Time}
    {rows : List PaperVenueOrder} {size : Decimal} {count count' : Nat}
    {balances balances' : PaperBalances} {db' : Db} {events events' : List ExecutionEvent}
    (h : applyTradeThrough trade now rows size count balances db events =
      .ok (count', balances', db', events')) :
    ∃ later, events' = events ++ later ∧ db.Trail later db' := by
  induction rows generalizing db size count balances events with
  | nil =>
    cases h
    exact ⟨[], by simp, .refl _⟩
  | cons row rows ih =>
    simp only [applyTradeThrough] at h
    split at h
    · cases h
      exact ⟨[], by simp, .refl _⟩
    · split at h
      · exact ih h
      · split at h
        · cases h
        · rename_i hfill
          obtain ⟨later, rfl, htrail⟩ := ih h
          exact ⟨_ ++ later, List.append_assoc .., (fillRestingOrder_trail hfill).trans htrail⟩

theorem applyPaperTradeThrough_trail {mode : Mode} {trade : PaperTrade} {now : Time}
    {r : Committed Nat} (h : applyPaperTradeThrough mode trade now db = .ok r) :
    db.Trail r.broadcast r.db := by
  unfold applyPaperTradeThrough at h
  split at h
  · cases h
  · split at h
    · cases h
    · dsimp only at h
      split at h
      · cases h
        exact .refl db
      · split at h
        · cases h
        · split at h
          · cases h
          · rename_i hloop
            cases h
            obtain ⟨later, rfl, htrail⟩ := applyTradeThrough_trail hloop
            refine .trans (htrail.before rfl rfl rfl rfl) ?_
            exact .event rfl rfl rfl rfl

end Paper

/-! ## Housekeeping -/

section Housekeeping

variable {db : Db}

/-- The event of a mutation that may carry a key. -/
theorem recordIdempotency_trail {actorId : String} {response : ResponseBody}
    {idempotency : Option Idempotency} {db₁ db₂ : Db} {eventType resourceType : String}
    {resourceId : ResourceId} (h : recordIdempotency actorId response db₁ idempotency = .ok db₂)
    (hevents : db₁.executionEvents = db.executionEvents)
    (hnext : db₁.nextSequence = db.nextSequence) (hintents : db₁.intents = db.intents)
    (horders : db₁.orders = db.orders) :
    db.Trail [(db₂.appendEvent eventType resourceType resourceId).2]
      (db₂.appendEvent eventType resourceType resourceId).1 := by
  obtain ⟨_, rfl⟩ := recordIdempotency_frame h
  exact .event hevents hnext hintents horders

theorem failInterruptedRuns_trail {now : Time} {ids : List Uuid} :
    db.Trail (failInterruptedRuns now ids db).2 (failInterruptedRuns now ids db).1 := by
  induction ids generalizing db with
  | nil => exact .refl _
  | cons id ids ih =>
    change db.Trail ([_] ++ _) _
    refine .trans ?_ ih
    exact .event rfl rfl rfl rfl

theorem insertFindings_silent {id : Uuid} {findings : List String} :
    (insertFindings id findings db).executionEvents = db.executionEvents ∧
      (insertFindings id findings db).nextSequence = db.nextSequence ∧
      (insertFindings id findings db).intents = db.intents ∧
      (insertFindings id findings db).orders = db.orders := by
  induction findings generalizing db with
  | nil => exact ⟨rfl, rfl, rfl, rfl⟩
  | cons finding findings ih => exact ih

theorem failInterruptedBackupRows_trail {ids : List Uuid} :
    db.Trail (failInterruptedBackupRows ids db).2 (failInterruptedBackupRows ids db).1 := by
  induction ids generalizing db with
  | nil => exact .refl _
  | cons id ids ih =>
    change db.Trail ([_] ++ _) _
    refine .trans ?_ ih
    exact .event rfl rfl rfl rfl

theorem query_trail {α : Type} {result : Except StoreError α} {r : Committed α}
    (h : StoreCall.query db result = .ok r) : db.Trail r.broadcast r.db := by
  cases result <;> cases h
  exact .refl db

theorem StoreCall.run_trail_of_house {config : StoreConfig} {now : Time} {call : StoreCall}
    {r : Committed call.Value} (h : call.run config now db = .ok r) (hcall : call.trades = false)
    (hprune : call ≠ .pruneEvents) : db.Trail r.broadcast r.db := by
  cases call with
  | recordRiskDecision =>
    simp only [run, OddsfoxExecution.recordRiskDecision] at h
    split at h
    · cases h
    · cases h
      exact .event rfl rfl rfl rfl
  | setServiceState =>
    simp only [run, OddsfoxExecution.setServiceState] at h
    split at h
    · cases h
    · split at h
      · cases h
      · rename_i hrecord
        cases h
        exact recordIdempotency_trail hrecord rfl rfl rfl rfl
  | createCancellation =>
    simp only [run, OddsfoxExecution.createCancellation] at h
    split at h
    · cases h
    · rename_i hrecord
      cases h
      exact recordIdempotency_trail hrecord rfl rfl rfl rfl
  | finishCancellation =>
    simp only [run, OddsfoxExecution.finishCancellation] at h
    split at h
    · cases h
    · split at h
      · cases h
      · cases h
        exact .event rfl rfl rfl rfl
  | startReconciliation =>
    simp only [run, OddsfoxExecution.startReconciliation] at h
    split at h
    · cases h
    · rename_i hrecord
      cases h
      exact recordIdempotency_trail hrecord rfl rfl rfl rfl
  | failInterruptedReconciliations =>
    cases h
    exact failInterruptedRuns_trail
  | finishReconciliation id findings =>
    simp only [run, OddsfoxExecution.finishReconciliation] at h
    split at h
    · cases h
      exact .event rfl rfl rfl rfl
    · cases h
      obtain ⟨hevents, hnext, hintents, horders⟩ :=
        @insertFindings_silent (db.closeRun id .complete now) id findings
      exact .event hevents hnext hintents horders
  | failReconciliation | completeBackup | failBackup =>
    cases h
    exact .event rfl rfl rfl rfl
  | startBackup =>
    simp only [run, OddsfoxExecution.startBackup] at h
    split at h
    · cases h
    · rename_i hrecord
      cases h
      exact recordIdempotency_trail hrecord rfl rfl rfl rfl
  | failInterruptedBackups =>
    cases h
    exact failInterruptedBackupRows_trail
  | pruneEvents => exact absurd rfl hprune
  | admitIntent | transitionIntent | evaluateAndReserveRisk | createPreparedOrder
  | rejectPreparation | recoverPreSubmissionWork | beginSubmission | finishSubmission
  | recoverInterruptedSubmissions | resolveUnknownSubmission | transitionOrder
  | cancelPreparedOrder | reconcileOrderProjection | recordVenueTradeFinality
  | reconcileVenuePositions | applyPaperTradeThrough => cases hcall
  | _ => exact query_trail h

end Housekeeping

/-! ## All operations -/

/-- The call settles an UNKNOWN intent together with its order. -/
def StoreCall.SettlesUnknown (db : Db) : StoreCall → Prop
  | transitionOrder id next _ => db.SettlesUnknown id next
  | _ => False

/-- Every operation that appends to the journal leaves a trail there, except where it settles an
UNKNOWN intent with its order. -/
theorem StoreCall.run_trail {config : StoreConfig} {now : Time} {db : Db} {call : StoreCall}
    {r : Committed call.Value} (h : call.run config now db = .ok r) (hprune : call ≠ .pruneEvents)
    (hsettles : ¬ call.SettlesUnknown db) :
    ∃ first fill, r.broadcast = first ++ fill ∧ db.Trail (fill ++ first) r.db ∧
      (call.tradesLast db = false → fill = []) := by
  have hplain : db.Trail r.broadcast r.db → ∃ first fill, r.broadcast = first ++ fill ∧
      db.Trail (fill ++ first) r.db ∧ (call.tradesLast db = false → fill = []) := fun htrail =>
    ⟨r.broadcast, [], (List.append_nil _).symm, htrail, fun _ => rfl⟩
  cases htrades : call.trades with
  | false => exact hplain (StoreCall.run_trail_of_house h htrades hprune)
  | true =>
    cases call with
    | admitIntent => exact hplain (admitIntent_trail h)
    | transitionIntent => exact hplain (transitionIntent_trail h)
    | evaluateAndReserveRisk => exact hplain (evaluateAndReserveRisk_trail h)
    | createPreparedOrder => exact hplain (createPreparedOrder_trail h)
    | rejectPreparation => exact hplain (rejectPreparation_trail h)
    | recoverPreSubmissionWork => exact hplain (recoverPreSubmissionWork_trail h)
    | beginSubmission => exact hplain (beginSubmission_trail h)
    | finishSubmission => exact finishSubmission_trail h
    | recoverInterruptedSubmissions =>
      cases h
      exact hplain recoverInterruptedRows_trail
    | resolveUnknownSubmission => exact resolveUnknownSubmission_trail h
    | transitionOrder => exact hplain (transitionOrder_trail h hsettles)
    | cancelPreparedOrder => exact hplain (cancelPreparedOrder_trail h)
    | reconcileOrderProjection => exact reconcileOrderProjection_trail h
    | recordVenueTradeFinality => exact hplain (recordVenueTradeFinality_trail h)
    | reconcileVenuePositions => exact hplain (reconcileVenuePositions_trail h)
    | applyPaperTradeThrough => exact hplain (applyPaperTradeThrough_trail h)
    | _ => cases htrades

end OddsfoxExecution
