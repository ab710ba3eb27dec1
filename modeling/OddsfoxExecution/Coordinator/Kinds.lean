import OddsfoxExecution.Coordinator.Executions

/-!
# The kinds of calls

Which functions place orders, which only look after those there are, and which
touch none: one lemma for each coordinator function, bottom up.
-/

namespace OddsfoxExecution

/-- The calls that take an intent to the venue, from its risk decision on or from the order it was
prepared for before. -/
def Call.places : Call → Bool
  | .venue (.prepare ..) | .venue (.submit ..)
  | .store (.evaluateAndReserveRisk ..) | .store (.createPreparedOrder ..)
  | .store (.preparedSubmission _)
  | .store (.rejectPreparation ..) | .store (.beginSubmission ..)
  | .store (.finishSubmission ..) => true
  | _ => false

/-- The calls that move an intent, an order or what the venue knows of one, or that close a
reconciliation run. -/
def Call.touchesOrders : Call → Bool
  | .venue (.cancel _) | .venue .reconcile | .venue (.findOrder _)
  | .store (.transitionIntent ..) | .store (.recordRiskDecision ..)
  | .store .recoverInterruptedSubmissions | .store .recoverPreSubmissionWork
  | .store (.resolveUnknownSubmission ..) | .store (.transitionOrder ..)
  | .store (.cancelPreparedOrder _) | .store (.reconcileOrderProjection ..)
  | .store (.recordVenueTradeFinality ..) | .store (.reconcileVenuePositions _)
  | .store (.finishCancellation ..) | .store .failInterruptedReconciliations
  | .store (.finishReconciliation ..) | .store (.failReconciliation ..) => true
  | c => c.places

def Call.transfers : Call → Bool
  | .lock _ | .unlock _ | .reserveQueue | .sendPermit _ | .dropPermit => true
  | _ => false

/-- The calls that leave gates and slots alone. -/
def Call.inner (c : Call) : Bool := !c.transfers

/-- The calls that leave gates and slots alone and place no order. -/
def Call.tends (c : Call) : Bool := !c.transfers && !c.places

/-- The calls that leave gates, slots and orders alone. -/
def Call.aside (c : Call) : Bool := !c.transfers && !c.touchesOrders

abbrev Stays {α : Type} (x : Action α) : Prop := Makes (fun c => c.inner = true) x

/-- The function leaves gates and slots alone and places no order. -/
abbrev Tends {α : Type} (x : Action α) : Prop := Makes (fun c => c.tends = true) x

abbrev Aside {α : Type} (x : Action α) : Prop := Makes (fun c => c.aside = true) x

theorem Call.inner_of_tends {c : Call} (h : c.tends = true) : c.inner = true :=
  ((Bool.and_eq_true _ _).mp h).1

theorem Call.touchesOrders_of_places {c : Call} (h : c.places = true) :
    c.touchesOrders = true := by
  unfold touchesOrders
  split <;> first | rfl | exact h

theorem Call.tends_of_aside {c : Call} (h : c.aside = true) : c.tends = true := by
  obtain ⟨hkeeps, htouches⟩ := (Bool.and_eq_true _ _).mp h
  refine (Bool.and_eq_true _ _).mpr ⟨hkeeps, ?_⟩
  cases hplaces : c.places with
  | false => rfl
  | true =>
    rw [Call.touchesOrders_of_places hplaces] at htouches
    cases htouches

theorem Call.tends_of_reconciling {c : Call} (h : c.reconciling = true) : c.tends = true := by
  cases c with
  | store call => cases call <;> first | rfl | cases h
  | venue call => cases call <;> first | rfl | cases h
  | spawn => rfl
  | _ => cases h

theorem Tends.stays {α : Type} {x : Action α} (h : Tends x) : Stays x :=
  h.mono fun _ => Call.inner_of_tends

theorem Aside.tends {α : Type} {x : Action α} (h : Aside x) : Tends x :=
  h.mono fun _ => Call.tends_of_aside

namespace Coordinator

variable {self : Coordinator}

/-! ## Reconciliation -/

theorem tends_halted {actor reason : String} :
    Tends (setServiceState actor .halted reason) := .store rfl

theorem aside_spawnProtectiveCancellation {reason : String} :
    Aside (self.spawnProtectiveCancellation reason) := by
  unfold spawnProtectiveCancellation
  split
  · exact .perform rfl
  · exact .pure

theorem tends_reconcileStarted {id : Uuid} : Tends (self.reconcileStarted id) :=
  (self.reconcileStarted_makes id).mono fun _ => Call.tends_of_reconciling

theorem tends_reconcileInner {trigger : String} : Tends (self.reconcileInner trigger) :=
  (self.reconcileInner_makes trigger).mono fun _ => Call.tends_of_reconciling

/-! ## Cancellation and halting -/

theorem tends_cancelAtVenue {orderId : Uuid} {venueOrderId : Option String} {failed : List Uuid} :
    Tends (self.cancelAtVenue orderId venueOrderId failed) := by
  cases venueOrderId with
  | none => exact .bind (.attempt tends_reconcileInner) fun _ => .pure
  | some venueOrderId =>
    refine .bind (.perform rfl) fun answer => ?_
    split
    · exact .bind (.store rfl) fun _ => .pure
    · exact .bind (.attempt tends_reconcileInner) fun _ => .pure

theorem tends_cancelTarget {orderId : Uuid} {failed : List Uuid} :
    Tends (self.cancelTarget orderId failed) := by
  refine .bind (.store rfl) fun order => ?_
  split
  · exact .pure
  · split
    · exact .bind (.store rfl) fun _ => .pure
    · split
      · exact tends_cancelAtVenue
      · refine .bind (.store rfl) fun pending => ?_
        split
        · exact .pure
        · exact tends_cancelAtVenue

theorem tends_executeCancellation {id : Uuid} {targets : List Uuid} :
    Tends (self.executeCancellation id targets) := by
  have htargets : ∀ failed, Tends (self.cancelTargets targets failed) := by
    induction targets with
    | nil => exact fun _ => .pure
    | cons orderId rest ih => exact fun _ => .bind tends_cancelTarget fun _ => ih _
  exact .bind (htargets []) fun _ => .bind (.store rfl) fun _ => .pure

theorem tends_cancelInner {actor : String} {request : CancellationRequest} :
    Tends (self.cancelInner actor request) := by
  unfold cancelInner
  split
  · exact .throw
  · exact .bind (.store rfl) fun _ => .bind tends_executeCancellation fun _ => .pure

theorem tends_cancelOnHaltInner {reason : String} :
    Tends (self.cancelOnHaltInner reason) := by
  unfold cancelOnHaltInner
  split
  · exact .bind (.attempt tends_cancelInner) fun _ => .pure
  · exact .pure

theorem tends_haltInner {actor reason : String} :
    Tends (self.haltInner actor reason) := by
  unfold haltInner
  split
  · exact .throw
  · exact .bind tends_halted fun _ => tends_cancelOnHaltInner

theorem tends_haltForVenueError {e : VenueError} {trigger : String} :
    Tends (self.haltForVenueError e trigger) := by
  unfold haltForVenueError
  split
  · exact .bind tends_haltInner fun _ => .bind (.attempt tends_reconcileInner) fun _ => .pure
  · exact .pure

/-! ## Health -/

theorem aside_supervisedHeartbeat : Aside supervisedHeartbeat := by
  refine .bind (.perform rfl) fun answer => ?_
  cases answer with
  | ok => exact .perform rfl
  | error | timeout => exact .throw

theorem tends_supervisedHeartbeat : Tends supervisedHeartbeat :=
  aside_supervisedHeartbeat.tends

theorem tends_executionHealthFailure : Tends self.executionHealthFailure := by
  refine .bind (.store rfl) fun latest => .bind (.perform rfl) fun now => ?_
  split
  · exact .pure
  · split
    · refine .bind (.perform rfl) fun age => ?_
      split
      · exact .pure
      · exact .pure
    · exact .pure

/-! ## Startup and resume -/

theorem tends_enqueueAllRecovered {ids : List Uuid} :
    Tends (enqueueAllRecovered ids) := by
  induction ids with
  | nil => exact .pure
  | cons id rest ih =>
    have hone : Tends (enqueueRecovered id) := by
      refine .bind (.store rfl) fun intent => ?_
      split
      · exact .perform rfl
      · exact .pure
    exact .bind hone fun _ => ih

theorem tends_startupControl : Tends startupControl := by
  refine .bind (.store rfl) fun control => ?_
  split
  · exact .bind (.store rfl) fun _ => .pure
  · split
    · exact .pure
    · exact .bind (.store rfl) fun _ => .pure

theorem tends_startupRecovery : Tends self.startupRecovery := by
  have hreplay : ∀ pending, Tends (self.replayCancellations pending) := by
    intro pending
    induction pending with
    | nil => exact .pure
    | cons cancellation rest ih => exact .bind tends_executeCancellation fun _ => ih
  have hrest : Tends (do
      let recoverable ← Action.store .recoverPreSubmissionWork
      let pending ← Action.store .pendingCancellations
      self.replayCancellations pending
      pure recoverable) :=
    .bind (.store rfl) fun _ => .bind (.store rfl) fun _ => .bind (hreplay _) fun _ => .pure
  refine .bind (.store rfl) fun _ => .bind (.store rfl) fun _ => .bind (.store rfl)
    fun interrupted => ?_
  dsimp only
  split
  · exact .bind (.store rfl) fun _ => hrest
  · exact hrest

theorem tends_startupChecks {latched : Bool} : Tends (self.startupChecks latched) := by
  have hrest : Tends self.startupReconciliation := by
    refine .bind tends_reconcileInner fun _ => ?_
    split
    · refine .bind (.attempt tends_supervisedHeartbeat) fun result => ?_
      cases result with
      | ok => exact .pure
      | error => exact tends_haltInner
    · exact .pure
  unfold startupChecks
  dsimp only
  split
  · exact .bind tends_cancelInner fun _ => hrest
  · exact hrest

theorem tends_startupInner : Tends self.startupInner := by
  refine .bind tends_startupControl fun latched => ?_
  refine .bind tends_startupRecovery fun recoverable => ?_
  refine .bind tends_startupChecks fun _ => .bind (.store rfl) fun control => ?_
  split
  · exact .perform rfl
  · exact .bind (.store rfl) fun _ => tends_enqueueAllRecovered

theorem tends_resumeInner {actor reason : String} {idempotency : Option Idempotency} :
    Tends (self.resumeInner actor reason idempotency) := by
  unfold resumeInner
  split
  · exact .throw
  · refine .bind (.store rfl) fun control => ?_
    split
    · exact .throw
    · refine .bind tends_reconcileInner fun _ => .bind tends_supervisedHeartbeat fun _ => ?_
      refine .bind (.store rfl) fun unresolved => ?_
      split
      · exact .throw
      · exact .bind (.store rfl) fun _ => .bind (.perform rfl) fun _ => tends_enqueueAllRecovered

/-! ## Processing an intent -/

theorem stays_halting {actor reason trigger : String} : Stays (do
    self.haltInner actor reason
    let _ ← Action.attempt (self.reconcileInner trigger)
    pure ()) :=
  .bind tends_haltInner.stays fun _ => .bind (.attempt tends_reconcileInner.stays) fun _ => .pure

theorem stays_recordSubmission {intentId orderId : Uuid} {prepared : PreparedVenueOrder}
    {submission : Except VenueError VenueSubmission} :
    Stays (self.recordSubmission intentId orderId prepared submission) := by
  unfold recordSubmission
  split
  · exact .store rfl
  · split
    · exact .bind (.store rfl) fun _ => stays_halting
    · refine .bind (.store rfl) fun _ => ?_
      split
      · exact stays_halting
      · exact .pure

theorem stays_submitPrepared {intentId orderId : Uuid} {prepared : PreparedVenueOrder}
    {request : OrderIntentRequest} :
    Stays (self.submitPrepared intentId orderId prepared request) := by
  refine .bind (.store rfl) fun control => ?_
  split
  · refine .bind (.store rfl) fun intent => ?_
    split
    · exact .perform rfl
    · exact .pure
  · refine .bind (.perform rfl) fun begun => ?_
    split
    · exact .bind (.perform rfl) fun _ => stays_recordSubmission
    · exact .perform rfl
    · exact .throw

theorem stays_prepareAndSubmit {intentId : Uuid} {request : OrderIntentRequest}
    {market : MarketRules} :
    Stays (self.prepareAndSubmit intentId request market) := by
  refine .bind (.store rfl) fun _ => .bind (.perform rfl) fun answer => ?_
  cases answer with
  | error e =>
    exact .bind (.store rfl) fun _ => tends_haltForVenueError.stays
  | timeout => exact .store rfl
  | ok prepared => exact .bind (.store rfl) fun order => stays_submitPrepared

theorem tends_rejectReceived {intentId : Uuid} {code message : String} :
    Tends (rejectReceived intentId code message) :=
  .bind (.store rfl) fun _ => .pure

theorem tends_rejectValidating {intentId : Uuid} {code message : String} :
    Tends (self.rejectValidating intentId code message) :=
  .bind (.store rfl) fun _ => .bind (.store rfl) fun _ => .pure

theorem tends_marketData {intentId : Uuid} {request : OrderIntentRequest} :
    Tends (self.marketData intentId request) := by
  refine .bind (.perform rfl) fun answer => ?_
  cases answer with
  | error e =>
    exact .bind tends_rejectValidating fun _ => .bind tends_haltForVenueError fun _ => .pure
  | timeout => exact .bind tends_rejectValidating fun _ => .pure
  | ok market =>
    refine .bind (.perform rfl) fun answer => ?_
    cases answer with
    | error e =>
      exact .bind tends_rejectValidating fun _ => .bind tends_haltForVenueError fun _ => .pure
    | timeout => exact .bind tends_rejectValidating fun _ => .pure
    | ok book => exact .pure

theorem stays_processReceived {intentId : Uuid} {request : OrderIntentRequest} :
    Stays (self.processReceived intentId request) := by
  refine .bind (.store rfl) fun _ => .bind (.perform rfl) fun now => ?_
  split
  · exact .bind (.store rfl) fun _ => .bind (.store rfl) fun _ => .pure
  · refine .bind (tends_marketData.stays) fun data => ?_
    split
    · exact .pure
    · refine .bind (.perform rfl) fun now => ?_
      split
      · exact tends_rejectValidating.stays
      · refine .bind (.store rfl) fun decision => ?_
        split
        · exact stays_prepareAndSubmit
        · exact .pure

theorem stays_processReady {intentId : Uuid} :
    Stays (self.processReady intentId) := by
  refine .bind (.store rfl) fun intent => ?_
  split
  · exact .bind (.store rfl) fun persisted => stays_submitPrepared
  · split
    · exact stays_processReceived
    · exact .throw

theorem stays_processIntentInner {intentId : Uuid} :
    Stays (self.processIntentInner intentId) := by
  have hreconciled : Stays (self.processReconciled intentId) := by
    refine .bind (tends_executionHealthFailure.stays)
      fun failure => ?_
    cases failure with
    | some reason =>
      exact .bind tends_haltInner.stays fun _ => tends_rejectReceived.stays
    | none =>
      refine .bind (.store rfl) fun control => ?_
      split
      · exact stays_processReady
      · exact tends_rejectReceived.stays
  refine .bind (.perform rfl) fun required => ?_
  split
  · exact .bind (.attempt tends_reconcileInner.stays) fun _ =>
      hreconciled
  · exact hreconciled

end Coordinator

end OddsfoxExecution
