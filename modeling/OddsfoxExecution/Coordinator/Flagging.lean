import OddsfoxExecution.Coordinator.Promises

/-!
# Which orders a reconciliation flags

A reconciliation reports and cancels the orders that the venue's snapshot shows
and the journal does not know.  `FlagPromise` says so of the calls of a task:
what it reports and cancels comes from a snapshot and from what it read of the
journal after it.  Every task keeps it; `Heeds` is the judgement that a
function does, whatever was called before.
-/

namespace OddsfoxExecution

open Coordinator (unexpectedOrderIds knownVenueOrderIds)

/-! ## The texts of the findings -/

/-- The finding of a venue order the journal does not know. -/
def unexpectedFinding (venueOrderId : String) : String :=
  "unexpected venue order " ++ venueOrderId ++ " has no local journal record"

theorem unexpectedFinding_inj {id id' : String} (h : unexpectedFinding id = unexpectedFinding id') :
    id = id' := by
  unfold unexpectedFinding at h
  have hchars := congrArg String.toList h
  simp only [String.toList_append, List.append_cancel_right_eq,
    List.append_cancel_left_eq] at hchars
  exact String.toList_inj.mp hchars

theorem unexpectedFinding_ne {id text : String} (h : text.toList.head? ≠ some 'u') :
    unexpectedFinding id ≠ text := by
  have hhead : (unexpectedFinding id).toList.head? = some 'u' := by
    unfold unexpectedFinding
    simp only [String.toList_append, List.head?_append]
    rfl
  intro heq
  exact h (heq ▸ hhead)

/-! ## What a flag rests on -/

def Call.cancels : Call → Bool
  | .venue (.cancel _) => true
  | _ => false

/-- The calls of a reconciliation since the venue answered, in the loop over
`unexpected_order_ids`. -/
def InLoop (known : List OrderRecord) (deterministicOrderIds : List String) (since : Calls) :
    Prop :=
  ∃ cancels, since =
      cancels ++ [done .deterministicOrderIds deterministicOrderIds, done .knownOrders known] ∧
    ∀ e ∈ cancels, e.1.cancels = true

/-- The findings of unexpected orders are among those of `reported` or about one of `ids`. -/
def Accounts (reported ids findings : List String) : Prop :=
  ∀ id, unexpectedFinding id ∈ findings → unexpectedFinding id ∈ reported ∨ id ∈ ids

theorem Accounts.append {reported ids findings : List String} {text : String}
    (h : Accounts reported ids findings) (htext : ∀ id, unexpectedFinding id ≠ text) :
    Accounts reported ids (findings ++ [text]) := by
  intro id hmem
  rcases List.mem_append.mp hmem with hmem | hmem
  · exact h id hmem
  · exact absurd (List.mem_singleton.mp hmem) (htext id)

theorem Accounts.flag {reported ids findings : List String} {id : String}
    (h : Accounts reported ids findings) (hid : id ∈ ids) :
    Accounts reported ids (findings ++ [unexpectedFinding id]) := by
  intro id' hmem
  rcases List.mem_append.mp hmem with hmem | hmem
  · exact h id' hmem
  · rw [unexpectedFinding_inj (List.mem_singleton.mp hmem)]
    exact Or.inr hid

/-- A reconciliation flags what the snapshot shows and the journal, read after it, does not
know. -/
def FlagPromise (made : Calls) : Call → Prop
  | .venue (.cancel id) => ∀ since result earlier known deterministicOrderIds,
      made = since ++ asked .reconcile (.ok result) :: earlier →
      InLoop known deterministicOrderIds since →
      id ∈ unexpectedOrderIds result.observedOrders
        (knownVenueOrderIds known deterministicOrderIds)
  | .store (.finishReconciliation _ findings) =>
      ∃ later known deterministicOrderIds result earlier,
        made = later ++ done .deterministicOrderIds deterministicOrderIds ::
          done .knownOrders known :: asked .reconcile (.ok result) :: earlier ∧
        (∀ e ∈ later, e.1 ≠ .venue .reconcile) ∧
        Accounts result.criticalFindings
          (unexpectedOrderIds result.observedOrders
            (knownVenueOrderIds known deterministicOrderIds)) findings
  | _ => True

/-- The call neither flags an order nor asks for a snapshot. -/
def Call.plain : Call → Bool
  | .venue (.cancel _) | .venue .reconcile | .store (.finishReconciliation ..) => false
  | _ => true

theorem flagPromise_plain {made : Calls} {c : Call} (h : c.plain = true) : FlagPromise made c := by
  unfold FlagPromise
  split
  · cases h
  · cases h
  · trivial

/-- A cancellation after a call that is none and that did not read the prepared orders is not one
of the loop. -/
theorem flagPromise_cancel {made : Calls} {e : Sigma Call.Answer} {id : String}
    (hcancels : e.1.cancels = false) (hread : e.1 ≠ .store .deterministicOrderIds) :
    FlagPromise (e :: made) (.venue (.cancel id)) := by
  rintro since result earlier known deterministicOrderIds hmade ⟨cancels, rfl, hall⟩
  cases cancels with
  | nil =>
    obtain ⟨rfl, -⟩ := List.cons.inj hmade
    exact absurd rfl hread
  | cons e' cancels =>
    obtain ⟨rfl, -⟩ := List.cons.inj hmade
    rw [hall e List.mem_cons_self] at hcancels
    cases hcancels

/-- In the loop the promise is about the identifiers the loop is over. -/
theorem flagPromise_loop {cancels earlier : Calls} {known : List OrderRecord}
    {deterministicOrderIds : List String} {result : ReconciliationResult} {id : String}
    (hall : ∀ e ∈ cancels, e.1.cancels = true)
    (hid : id ∈ unexpectedOrderIds result.observedOrders
      (knownVenueOrderIds known deterministicOrderIds)) :
    FlagPromise (cancels ++ done .deterministicOrderIds deterministicOrderIds ::
      done .knownOrders known :: asked .reconcile (.ok result) :: earlier)
      (.venue (.cancel id)) := by
  rintro since result' earlier' known' deterministicOrderIds' hmade ⟨cancels', rfl, hall'⟩
  rw [List.append_assoc] at hmade
  obtain ⟨-, hread, hrest⟩ := split_unique (p := fun e : Sigma Call.Answer => ¬ e.1.cancels = true)
    hmade (fun e he h => h (hall e he)) (fun e he h => h (hall' e he)) (fun h => nomatch h)
    fun h => nomatch h
  cases hread
  cases hrest
  exact hid

/-! ## The loops of a reconciliation -/

/-- Whatever came before, the function makes plain calls only and its value satisfies `Q`. -/
def Yields {α : Type} (x : Action α) (Q : α → Prop) : Prop :=
  ∀ made, x.run.wp (fun _ c => c.plain = true) (fun _ result => ∀ a, result = .ok a → Q a) made

namespace Yields

variable {α β : Type} {x : Action α} {f : α → Action β} {P : α → Prop} {Q : β → Prop}

theorem pure {a : α} (h : P a) : Yields (Pure.pure a) P := by
  intro made a' heq
  cases heq
  exact h

theorem throw {e : CoordinatorError} : Yields (MonadExcept.throw e) P :=
  fun _ _ heq => nomatch heq

theorem bind (hx : Yields x P) (hf : ∀ a, P a → Yields (f a) Q) : Yields (x >>= f) Q := by
  intro made
  rw [Prog.wp_run_bind]
  refine Prog.wp_mono (hx made) fun made' result h => ?_
  cases result with
  | ok a => exact hf a (h a rfl) made'
  | error e => exact fun _ heq => nomatch heq

theorem perform {c : Call} (hplain : c.plain = true) :
    Yields (Action.perform c) fun _ => True := fun _ => ⟨hplain, fun _ _ _ => trivial⟩

theorem store {call : StoreCall} (hplain : (Call.store call).plain = true) :
    Yields (Action.store call) fun _ => True := by
  intro made
  rw [Action.wp_store]
  exact ⟨hplain, fun _ _ _ => trivial, fun _ _ _ => trivial⟩

/-- The rule's use in a longer function: what is behind it stays behind it. -/
theorem wp (h : Yields x P) (made : Calls) :
    x.run.wp FlagPromise (fun made' result =>
      (∃ added, made' = added ++ made ∧ ∀ e ∈ added, e.1.plain = true) ∧
        ∀ a, result = .ok a → P a) made := by
  refine Prog.wp_promise (Prog.wp_invariant (h made) ⟨[], rfl, fun _ he => nomatch he⟩ ?_)
    fun _ _ => flagPromise_plain
  rintro made' c r ⟨added, rfl, hadded⟩ hplain
  refine ⟨⟨c, r⟩ :: added, rfl, fun e he => ?_⟩
  rcases List.mem_cons.mp he with rfl | he
  · exact hplain
  · exact hadded e he

end Yields

section Loops

variable {reported ids : List String}

theorem findVenueOrder_yields {id : String} :
    Yields (Coordinator.findVenueOrder id) fun _ => True := by
  refine .bind (.perform rfl) fun answer _ => ?_
  cases answer with
  | ok observed => exact .pure trivial
  | error e => exact .throw
  | timeout => exact .throw

theorem projectActiveOrders_yields {observed : List ObservedVenueOrder} {orders : List OrderRecord}
    {findings : List String} (h : Accounts reported ids findings) :
    Yields (Coordinator.projectActiveOrders observed orders findings) (Accounts reported ids) := by
  induction orders generalizing findings with
  | nil => exact .pure h
  | cons order orders ih =>
    unfold Coordinator.projectActiveOrders
    refine .bind (P := fun _ => True) ?_ fun found _ => ?_
    · unfold Coordinator.observeOrder
      split
      · exact .pure trivial
      · exact findVenueOrder_yields
    · cases found with
      | none =>
        exact ih (h.append fun _ => unexpectedFinding_ne (by simp))
      | some found =>
        dsimp only
        split
        · exact ih (h.append fun _ => unexpectedFinding_ne (by simp))
        · exact .bind (.store rfl) fun _ _ => ih h

theorem unresolvedFinding_ne {unknown : UnknownSubmission} (id : String) :
    unexpectedFinding id ≠ Coordinator.unresolvedFinding unknown := by
  unfold unexpectedFinding Coordinator.unresolvedFinding
  intro h
  have hchars := congrArg String.toList h
  simp at hchars

theorem resolveUnknownSubmissions_yields {unknown : List UnknownSubmission}
    {findings : List String} (h : Accounts reported ids findings) :
    Yields (Coordinator.resolveUnknownSubmissions unknown findings) (Accounts reported ids) := by
  induction unknown generalizing findings with
  | nil => exact .pure h
  | cons row unknown ih =>
    unfold Coordinator.resolveUnknownSubmissions
    refine .bind findVenueOrder_yields fun found _ => ?_
    cases found with
    | none => exact ih (h.append unresolvedFinding_ne)
    | some found =>
      dsimp only
      split
      · exact ih (h.append unresolvedFinding_ne)
      · exact .bind (.store rfl) fun _ _ => ih h

theorem orderIdsForVenueIds_yields {venueOrderIds : List String} :
    Yields (Coordinator.orderIdsForVenueIds venueOrderIds) fun _ => True := by
  induction venueOrderIds with
  | nil => exact .pure trivial
  | cons id venueOrderIds ih =>
    exact .bind (.store rfl) fun _ _ => .bind ih fun _ _ => .pure trivial

theorem recordObservedTrades_yields {trades : List ObservedVenueTrade} {findings : List String}
    (h : Accounts reported ids findings) :
    Yields (Coordinator.recordObservedTrades trades findings) (Accounts reported ids) := by
  induction trades generalizing findings with
  | nil => exact .pure h
  | cons trade trades ih =>
    unfold Coordinator.recordObservedTrades
    refine .bind orderIdsForVenueIds_yields fun orderIds _ => ?_
    split
    · refine .bind (.store rfl) fun linked _ => ?_
      split
      · exact ih h
      · exact ih (h.append fun _ => unexpectedFinding_ne (by simp))
    · exact ih (h.append fun _ => unexpectedFinding_ne (by simp))
    · exact ih (h.append fun _ => unexpectedFinding_ne (by simp))

end Loops

namespace Coordinator

variable {self : Coordinator}

/-- The loop over `unexpected_order_ids` asks for cancellations only, each of one of them. -/
theorem flagUnexpectedOrders_flags {known : List OrderRecord}
    {deterministicOrderIds : List String} {result : ReconciliationResult} {earlier : Calls}
    {unexpected : List String}
    (hunexpected : unexpected = unexpectedOrderIds result.observedOrders
      (knownVenueOrderIds known deterministicOrderIds))
    {ids findings : List String} (hids : ∀ id ∈ ids, id ∈ unexpected)
    (hfindings : Accounts result.criticalFindings unexpected findings) {cancels : Calls}
    (hall : ∀ e ∈ cancels, e.1.cancels = true) :
    (self.flagUnexpectedOrders ids findings).run.wp FlagPromise (fun made result' =>
      (∃ cancels', made = cancels' ++ done .deterministicOrderIds deterministicOrderIds ::
        done .knownOrders known :: asked .reconcile (.ok result) :: earlier ∧
          ∀ e ∈ cancels', e.1.cancels = true) ∧
        ∀ findings', result' = .ok findings' →
          Accounts result.criticalFindings unexpected findings')
      (cancels ++ done .deterministicOrderIds deterministicOrderIds ::
        done .knownOrders known :: asked .reconcile (.ok result) :: earlier) := by
  induction ids generalizing findings cancels with
  | nil =>
    refine ⟨⟨cancels, rfl, hall⟩, fun findings' heq => ?_⟩
    cases heq
    exact hfindings
  | cons id ids ih =>
    have hid : id ∈ unexpected := hids id List.mem_cons_self
    have hrest : ∀ id ∈ ids, id ∈ unexpected := fun id' hid' =>
      hids id' (List.mem_cons_of_mem _ hid')
    have hflag := hfindings.flag hid
    unfold flagUnexpectedOrders
    split
    · refine Action.wp_performBind.mpr ⟨flagPromise_loop hall (hunexpected ▸ hid), fun r => ?_⟩
      have hall' : ∀ e ∈ (⟨.venue (.cancel id), r⟩ : Sigma Call.Answer) :: cancels,
          e.1.cancels = true := List.forall_mem_cons.mpr ⟨rfl, hall⟩
      cases r with
      | ok value => exact ih hrest hflag hall'
      | error e => exact ih hrest (hflag.append fun _ => unexpectedFinding_ne (by simp)) hall'
      | timeout => exact ih hrest (hflag.append fun _ => unexpectedFinding_ne (by simp)) hall'
    · exact ih hrest hflag hall

/-- What the findings of a reconciliation say of unexpected orders comes from the snapshot. -/
theorem collectFindings_flags {result : ReconciliationResult} {earlier : Calls} :
    (self.collectFindings result).run.wp FlagPromise (fun made result' =>
      ∀ findings, result' = .ok findings → ∃ later known deterministicOrderIds,
        made = later ++ done .deterministicOrderIds deterministicOrderIds ::
          done .knownOrders known :: asked .reconcile (.ok result) :: earlier ∧
        (∀ e ∈ later, e.1 ≠ .venue .reconcile) ∧
        Accounts result.criticalFindings
          (unexpectedOrderIds result.observedOrders
            (knownVenueOrderIds known deterministicOrderIds)) findings)
      (asked .reconcile (.ok result) :: earlier) := by
  unfold collectFindings
  refine Action.wp_storeBind.mpr ⟨trivial, fun known => ?_, fun _ _ heq => nomatch heq⟩
  refine Action.wp_storeBind.mpr ⟨trivial, fun deterministicOrderIds => ?_,
    fun _ _ heq => nomatch heq⟩
  rw [Prog.wp_run_bind]
  have hnone : ∀ e ∈ ([] : Calls), e.1.cancels = true := fun _ he => nomatch he
  refine Prog.wp_mono (flagUnexpectedOrders_flags rfl (fun _ hid => hid) (fun _ h => Or.inl h)
    hnone) fun made flagged h => ?_
  obtain ⟨⟨cancels, rfl, hall⟩, hflagged⟩ := h
  cases flagged with
  | error e => exact fun _ heq => nomatch heq
  | ok flagged =>
    have hfindings := hflagged flagged rfl
    -- the rest of the loops add no finding of an unexpected order and ask for no snapshot
    refine Prog.wp_mono (Yields.wp (.bind (projectActiveOrders_yields hfindings)
      fun _ hfindings => .bind (.store rfl) fun _ _ =>
        .bind (resolveUnknownSubmissions_yields hfindings) fun _ hfindings =>
          recordObservedTrades_yields hfindings) _) fun made result' h findings heq => ?_
    obtain ⟨⟨added, rfl, hplain⟩, hresult⟩ := h
    refine ⟨added ++ cancels, known, deterministicOrderIds, by simp, fun e he hreconcile => ?_,
      hresult findings heq⟩
    rcases List.mem_append.mp he with he | he
    · have hcall := hplain e he
      rw [hreconcile] at hcall
      cases hcall
    · have hcancel := hall e he
      rw [hreconcile] at hcancel
      cases hcancel

end Coordinator

/-! ## Every task keeps the promise -/

/-- Whatever came before, the function makes each call under the promise. -/
def Heeds {α : Type} (x : Action α) : Prop :=
  ∀ made, x.run.wp FlagPromise (fun _ _ => True) made

namespace Heeds

variable {α β : Type} {x : Action α} {f : α → Action β}

theorem pure {a : α} : Heeds (Pure.pure a) := fun _ => trivial

theorem throw {e : CoordinatorError} : Heeds (MonadExcept.throw e : Action α) := fun _ => trivial

theorem bind (hx : Heeds x) (hf : ∀ a, Heeds (f a)) : Heeds (x >>= f) := by
  intro made
  rw [Prog.wp_run_bind]
  refine Prog.wp_mono (hx made) fun made result _ => ?_
  cases result with
  | ok a => exact hf a made
  | error e => trivial

theorem perform {c : Call} (h : ∀ made, FlagPromise made c) : Heeds (Action.perform c) :=
  fun made => ⟨h made, fun _ => trivial⟩

theorem store {call : StoreCall} (h : ∀ made, FlagPromise made (.store call)) :
    Heeds (Action.store call) := by
  intro made
  rw [Action.wp_store]
  exact ⟨h made, fun _ => trivial, fun _ => trivial⟩

theorem attempt (hx : Heeds x) : Heeds (Action.attempt x) := by
  intro made
  exact Prog.wp_run_lift.mpr (Prog.wp_mono (hx made) fun _ _ _ => trivial)

theorem withGate {gate : Gate} (hx : Heeds x) : Heeds (Action.withGate gate x) := by
  refine bind (perform fun _ => trivial) fun _ => bind (attempt hx) fun result =>
    bind (perform fun _ => trivial) fun _ => ?_
  cases result with
  | ok a => exact pure
  | error e => exact throw

end Heeds

namespace Coordinator

variable {self : Coordinator}

/-! ### Reconciliation and cancellation -/

theorem spawnProtectiveCancellation_heeds {reason : String} :
    Heeds (self.spawnProtectiveCancellation reason) := by
  unfold spawnProtectiveCancellation
  split
  · exact .perform fun _ => trivial
  · exact .pure

theorem reconcileStartedInner_heeds {id : Uuid} : Heeds (self.reconcileStartedInner id) := by
  intro made
  unfold reconcileStartedInner
  refine Action.wp_performBind.mpr ⟨trivial, fun answer => ?_⟩
  have hfailed : ∀ (e : VenueError), Heeds (do
      Action.store (.failReconciliation id e.text)
      setServiceState "system" .halted "reconciliation failed"
      self.spawnProtectiveCancellation "reconciliation failed"
      throw (.venue e) : Action Uuid) := fun e =>
    .bind (.store fun _ => trivial) fun _ => .bind (.store fun _ => trivial) fun _ =>
      .bind spawnProtectiveCancellation_heeds fun _ => .throw
  cases answer with
  | error e => exact hfailed e _
  | timeout => exact hfailed _ _
  | ok result =>
    dsimp only [VenueAnswer.orElse]
    rw [Prog.wp_run_bind]
    refine Prog.wp_mono collectFindings_flags fun made collected hcollected => ?_
    cases collected with
    | error e => trivial
    | ok findings =>
      obtain ⟨later, known, deterministicOrderIds, rfl, hlater, haccounts⟩ :=
        hcollected findings rfl
      refine Action.wp_storeBind.mpr ⟨trivial, fun _ => ?_, fun _ => trivial⟩
      refine Action.wp_storeBind.mpr ⟨?_, fun _ => ?_, fun _ => trivial⟩
      · refine ⟨done (.reconcileVenuePositions result.observedPositions) _ :: later, known,
          deterministicOrderIds, result, made, rfl, ?_, haccounts⟩
        exact List.forall_mem_cons.mpr ⟨fun h => (nomatch h), hlater⟩
      · refine Action.wp_storeBind.mpr ⟨trivial, fun _ => ?_, fun _ => trivial⟩
        split
        · trivial
        · refine Action.wp_storeBind.mpr ⟨trivial, fun _ => ?_, fun _ => trivial⟩
          exact Heeds.bind spawnProtectiveCancellation_heeds (fun _ => .pure) _

theorem haltAfterFailedReconciliation_heeds : Heeds self.haltAfterFailedReconciliation := by
  refine .bind (.perform fun _ => trivial) fun control => ?_
  cases control with
  | error e => exact .pure
  | ok control =>
    dsimp only
    split
    · exact .pure
    · refine .bind (.perform fun _ => trivial) fun written => ?_
      cases written with
      | ok _ => exact spawnProtectiveCancellation_heeds
      | error e => exact .pure

theorem closeFailedReconciliation_heeds {id : Uuid} {e : CoordinatorError} :
    Heeds (self.closeFailedReconciliation id e) := by
  refine .bind (.perform fun _ => trivial) fun record => ?_
  cases record with
  | error e => exact haltAfterFailedReconciliation_heeds
  | ok record =>
    dsimp only
    split
    · exact .bind (.perform fun _ => trivial) fun _ => haltAfterFailedReconciliation_heeds
    · exact haltAfterFailedReconciliation_heeds

theorem reconcileStarted_heeds {id : Uuid} : Heeds (self.reconcileStarted id) := by
  refine .bind (.attempt reconcileStartedInner_heeds) fun result => ?_
  cases result with
  | ok id => exact .pure
  | error e => exact .bind closeFailedReconciliation_heeds fun _ => .throw

theorem reconcileInner_heeds {trigger : String} : Heeds (self.reconcileInner trigger) :=
  .bind (.store fun _ => trivial) fun _ => reconcileStarted_heeds

/-- The cancellation of a target is asked for right after the order was read or moved. -/
theorem cancelAtVenue_heeds {orderId : Uuid} {venueOrderId : Option String}
    {failedOrderIds : List Uuid} {e : Sigma Call.Answer} {made : Calls}
    (hcancels : e.1.cancels = false) (hread : e.1 ≠ .store .deterministicOrderIds) :
    (self.cancelAtVenue orderId venueOrderId failedOrderIds).run.wp FlagPromise
      (fun _ _ => True) (e :: made) := by
  cases venueOrderId with
  | none => exact Heeds.bind (.attempt reconcileInner_heeds) (fun _ => .pure) _
  | some venueOrderId =>
    unfold cancelAtVenue
    refine Action.wp_performBind.mpr ⟨flagPromise_cancel hcancels hread, fun answer => ?_⟩
    cases answer with
    | ok cancellation =>
      exact Action.wp_storeBind.mpr ⟨trivial, fun _ => trivial, fun _ => trivial⟩
    | error e => exact Heeds.bind (.attempt reconcileInner_heeds) (fun _ => .pure) _
    | timeout => exact Heeds.bind (.attempt reconcileInner_heeds) (fun _ => .pure) _

theorem cancelTarget_heeds {orderId : Uuid} {failedOrderIds : List Uuid} :
    Heeds (self.cancelTarget orderId failedOrderIds) := by
  intro made
  unfold cancelTarget
  refine Action.wp_storeBind.mpr ⟨trivial, fun order => ?_, fun _ => trivial⟩
  split
  · trivial
  · split
    · exact Action.wp_storeBind.mpr ⟨trivial, fun _ => trivial, fun _ => trivial⟩
    · split
      · exact cancelAtVenue_heeds rfl fun h => nomatch h
      · refine Action.wp_storeBind.mpr ⟨trivial, fun pending => ?_, fun _ => trivial⟩
        split
        · trivial
        · exact cancelAtVenue_heeds rfl fun h => nomatch h

theorem cancelTargets_heeds {targets failedOrderIds : List Uuid} :
    Heeds (self.cancelTargets targets failedOrderIds) := by
  induction targets generalizing failedOrderIds with
  | nil => exact .pure
  | cons orderId targets ih => exact .bind cancelTarget_heeds fun _ => ih

theorem executeCancellation_heeds {id : Uuid} {targets : List Uuid} :
    Heeds (self.executeCancellation id targets) :=
  .bind cancelTargets_heeds fun _ => .bind (.store fun _ => trivial) fun _ => .pure

theorem cancelInner_heeds {actor : String} {request : CancellationRequest} :
    Heeds (self.cancelInner actor request) := by
  unfold cancelInner
  split
  · exact .throw
  · exact .bind (.store fun _ => trivial) fun _ => .bind executeCancellation_heeds fun _ => .pure

theorem cancelOnHaltInner_heeds {reason : String} : Heeds (self.cancelOnHaltInner reason) := by
  unfold cancelOnHaltInner
  split
  · exact .bind (.attempt cancelInner_heeds) fun _ => .pure
  · exact .pure

theorem reconcile_heeds {trigger : String} : Heeds (self.reconcile trigger) :=
  .withGate reconcileInner_heeds

theorem cancel_heeds {actor : String} {request : CancellationRequest} :
    Heeds (self.cancel actor request) :=
  .withGate (.withGate cancelInner_heeds)

/-! ### Halting and processing an intent -/

theorem setServiceState_heeds {actor reason : String} {next : ServiceState} :
    Heeds (setServiceState actor next reason) := .store fun _ => trivial

theorem halt_heeds {actor reason : String} : Heeds (self.halt actor reason) := by
  unfold halt
  split
  · exact .throw
  · exact .bind setServiceState_heeds fun _ => .withGate cancelOnHaltInner_heeds

theorem haltIdempotent_heeds {actor key reason : String} :
    Heeds (self.haltIdempotent actor key reason) := by
  unfold haltIdempotent
  split
  · exact .throw
  · exact .bind (.store fun _ => trivial) fun _ => spawnProtectiveCancellation_heeds

theorem haltInner_heeds {actor reason : String} : Heeds (self.haltInner actor reason) := by
  unfold haltInner
  split
  · exact .throw
  · exact .bind setServiceState_heeds fun _ => cancelOnHaltInner_heeds

theorem haltThenReconcile_heeds {actor reason trigger : String} : Heeds (do
    self.haltInner actor reason
    let _ ← Action.attempt (self.reconcileInner trigger)) :=
  .bind haltInner_heeds fun _ => .bind (.attempt reconcileInner_heeds) fun _ => .pure

theorem haltForVenueError_heeds {e : VenueError} {trigger : String} :
    Heeds (self.haltForVenueError e trigger) := by
  unfold haltForVenueError
  split
  · exact haltThenReconcile_heeds
  · exact .pure

theorem supervisedHeartbeat_heeds : Heeds supervisedHeartbeat := by
  refine .bind (.perform fun _ => trivial) fun answer => ?_
  cases answer with
  | ok _ => exact .perform fun _ => trivial
  | error e => exact .throw
  | timeout => exact .throw

theorem executionHealthFailure_heeds : Heeds self.executionHealthFailure := by
  refine .bind (.store fun _ => trivial) fun latest =>
    .bind (.perform fun _ => trivial) fun now => ?_
  split
  · exact .pure
  · split
    · refine .bind (.perform fun _ => trivial) fun age => ?_
      split <;> exact .pure
    · exact .pure

theorem recordSubmission_heeds {intentId orderId : Uuid} {prepared : PreparedVenueOrder}
    {submission : Except VenueError VenueSubmission} :
    Heeds (self.recordSubmission intentId orderId prepared submission) := by
  unfold recordSubmission
  split
  · exact .store fun _ => trivial
  · split
    · exact .bind (.store fun _ => trivial) fun _ => haltThenReconcile_heeds
    · refine .bind (.store fun _ => trivial) fun _ => ?_
      split
      · exact haltThenReconcile_heeds
      · exact .pure

theorem submitPrepared_heeds {intentId orderId : Uuid} {prepared : PreparedVenueOrder}
    {request : OrderIntentRequest} :
    Heeds (self.submitPrepared intentId orderId prepared request) := by
  refine .bind (.store fun _ => trivial) fun control => ?_
  split
  · refine .bind (.store fun _ => trivial) fun intent => ?_
    split
    · exact .perform fun _ => trivial
    · exact .pure
  · refine .bind (.perform fun _ => trivial) fun begun => ?_
    split
    · exact .bind (.perform fun _ => trivial) fun _ => recordSubmission_heeds
    · exact .perform fun _ => trivial
    · exact .throw

theorem rejectReceived_heeds {intentId : Uuid} {code message : String} :
    Heeds (rejectReceived intentId code message) :=
  .bind (.store fun _ => trivial) fun _ => .pure

theorem rejectValidating_heeds {intentId : Uuid} {code message : String} :
    Heeds (self.rejectValidating intentId code message) :=
  .bind (.store fun _ => trivial) fun _ => .bind (.store fun _ => trivial) fun _ => .pure

theorem marketData_heeds {intentId : Uuid} {request : OrderIntentRequest} :
    Heeds (self.marketData intentId request) := by
  refine .bind (.perform fun _ => trivial) fun answer => ?_
  cases answer with
  | error e =>
    exact .bind rejectValidating_heeds fun _ => .bind haltForVenueError_heeds fun _ => .pure
  | timeout => exact .bind rejectValidating_heeds fun _ => .pure
  | ok market =>
    refine .bind (.perform fun _ => trivial) fun answer => ?_
    cases answer with
    | error e =>
      exact .bind rejectValidating_heeds fun _ => .bind haltForVenueError_heeds fun _ => .pure
    | timeout => exact .bind rejectValidating_heeds fun _ => .pure
    | ok book => exact .pure

theorem prepareAndSubmit_heeds {intentId : Uuid} {request : OrderIntentRequest}
    {market : MarketRules} : Heeds (self.prepareAndSubmit intentId request market) := by
  refine .bind (.store fun _ => trivial) fun _ => .bind (.perform fun _ => trivial) fun answer => ?_
  cases answer with
  | error e => exact .bind (.store fun _ => trivial) fun _ => haltForVenueError_heeds
  | timeout => exact .store fun _ => trivial
  | ok prepared => exact .bind (.store fun _ => trivial) fun _ => submitPrepared_heeds

theorem processReceived_heeds {intentId : Uuid} {request : OrderIntentRequest} :
    Heeds (self.processReceived intentId request) := by
  refine .bind (.store fun _ => trivial) fun _ => .bind (.perform fun _ => trivial) fun now => ?_
  split
  · exact .bind (.store fun _ => trivial) fun _ => .bind (.store fun _ => trivial) fun _ => .pure
  · refine .bind marketData_heeds fun data => ?_
    cases data with
    | none => exact .pure
    | some data =>
      refine .bind (.perform fun _ => trivial) fun _ => ?_
      split
      · exact rejectValidating_heeds
      · refine .bind (.store fun _ => trivial) fun decision => ?_
        split
        · exact prepareAndSubmit_heeds
        · exact .pure

theorem processReady_heeds {intentId : Uuid} : Heeds (self.processReady intentId) := by
  refine .bind (.store fun _ => trivial) fun intent => ?_
  split
  · exact .bind (.store fun _ => trivial) fun _ => submitPrepared_heeds
  · split
    · exact processReceived_heeds
    · exact .throw

theorem processReconciled_heeds {intentId : Uuid} : Heeds (self.processReconciled intentId) := by
  refine .bind executionHealthFailure_heeds fun failure => ?_
  cases failure with
  | some reason => exact .bind haltInner_heeds fun _ => rejectReceived_heeds
  | none =>
    refine .bind (.store fun _ => trivial) fun control => ?_
    split
    · exact processReady_heeds
    · exact rejectReceived_heeds

theorem processIntentInner_heeds {intentId : Uuid} :
    Heeds (self.processIntentInner intentId) := by
  refine .bind (.perform fun _ => trivial) fun required => ?_
  split
  · exact .bind (.attempt reconcileInner_heeds) fun _ => processReconciled_heeds
  · exact processReconciled_heeds

/-! ### The tasks -/

theorem enqueueAllRecovered_heeds {ids : List Uuid} : Heeds (enqueueAllRecovered ids) := by
  induction ids with
  | nil => exact .pure
  | cons id ids ih =>
    refine .bind (.bind (.store fun _ => trivial) fun intent => ?_) fun _ => ih
    split
    · exact .perform fun _ => trivial
    · exact .pure

theorem startupControl_heeds : Heeds startupControl := by
  refine .bind (.store fun _ => trivial) fun control => ?_
  split
  · exact .bind setServiceState_heeds fun _ => .pure
  · split
    · exact .pure
    · exact .bind setServiceState_heeds fun _ => .pure

theorem replayCancellations_heeds {pending : List CancellationRecord} :
    Heeds (self.replayCancellations pending) := by
  induction pending with
  | nil => exact .pure
  | cons cancellation pending ih => exact .bind executeCancellation_heeds fun _ => ih

theorem startupRecovery_heeds : Heeds self.startupRecovery := by
  have hrecover : Heeds (do
      let recoverable ← Action.store .recoverPreSubmissionWork
      let pending ← Action.store .pendingCancellations
      self.replayCancellations pending
      pure recoverable : Action (List Uuid)) :=
    .bind (.store fun _ => trivial) fun _ => .bind (.store fun _ => trivial) fun _ =>
      .bind replayCancellations_heeds fun _ => .pure
  refine .bind (.store fun _ => trivial) fun _ => .bind (.store fun _ => trivial) fun _ =>
    .bind (.store fun _ => trivial) fun interrupted => ?_
  split
  · exact .bind setServiceState_heeds fun _ => hrecover
  · exact hrecover

theorem startupReconciliation_heeds : Heeds self.startupReconciliation := by
  refine .bind reconcileInner_heeds fun _ => ?_
  split
  · refine .bind (.attempt supervisedHeartbeat_heeds) fun beat => ?_
    cases beat with
    | ok _ => exact .pure
    | error e => exact haltInner_heeds
  · exact .pure

theorem startupChecks_heeds {latched : Bool} : Heeds (self.startupChecks latched) := by
  unfold startupChecks
  dsimp only
  split
  · exact .bind cancelInner_heeds fun _ => startupReconciliation_heeds
  · exact startupReconciliation_heeds

theorem startupDecision_heeds {recoverable : List Uuid} :
    Heeds (startupDecision recoverable) := by
  refine .bind (.store fun _ => trivial) fun control => ?_
  split
  · exact .perform fun _ => trivial
  · exact .bind setServiceState_heeds fun _ => enqueueAllRecovered_heeds

theorem resumeInner_heeds {actor reason : String} {idempotency : Option Idempotency} :
    Heeds (self.resumeInner actor reason idempotency) := by
  unfold resumeInner
  split
  · exact .throw
  · refine .bind (.store fun _ => trivial) fun control => ?_
    split
    · exact .throw
    · refine .bind reconcileInner_heeds fun _ => .bind supervisedHeartbeat_heeds fun _ =>
        .bind (.store fun _ => trivial) fun unresolved => ?_
      split
      · exact .throw
      · exact .bind (.store fun _ => trivial) fun _ => .bind (.perform fun _ => trivial)
          fun _ => enqueueAllRecovered_heeds

theorem shutdown_heeds {cancelOnHalt : Bool} : Heeds (self.shutdown cancelOnHalt) := by
  have hrest : Heeds (do
      let _ ← self.reconcile "shutdown"
      setServiceState "system" .halted
        "graceful shutdown completed; explicit resume is required") :=
    .bind reconcile_heeds fun _ => setServiceState_heeds
  refine .bind setServiceState_heeds fun _ => ?_
  split
  · exact .bind cancel_heeds fun _ => hrest
  · exact hrest

theorem heartbeatTick_heeds : Heeds self.heartbeatTick := by
  have hhalt : ∀ reason trigger, Heeds (do
      let _ ← Action.attempt (self.halt "system" reason)
      let _ ← Action.attempt (self.reconcile trigger)) := fun reason trigger =>
    .bind (.attempt halt_heeds) fun _ => .bind (.attempt reconcile_heeds) fun _ => .pure
  refine .bind (.perform fun _ => trivial) fun answer => ?_
  cases answer with
  | error e => exact hhalt _ _
  | timeout => exact hhalt _ _
  | ok _ =>
    refine .bind (.perform fun _ => trivial) fun _ => .bind (.perform fun _ => trivial)
      fun required => ?_
    split
    · exact .bind (.attempt reconcile_heeds) fun _ => .pure
    · exact .pure

theorem unlessReplayed_heeds {actorId key operation : String} {body : RequestBody}
    {mutation : Action Unit} (h : Heeds mutation) :
    Heeds (unlessReplayed actorId key operation body mutation) := by
  refine .bind (.store fun _ => trivial) fun replay => ?_
  cases replay with
  | none => exact h
  | some answer => exact .pure

theorem handleSubmitIntent_heeds {actorId key : String} {request : OrderIntentRequest} :
    Heeds (handleSubmitIntent actorId key request) := by
  refine .bind (.store fun _ => trivial) fun replay => ?_
  cases replay with
  | some record => exact .pure
  | none =>
    refine .bind (.perform fun _ => trivial) fun reserved => ?_
    split
    · refine .bind (.perform fun _ => trivial) fun admitted => ?_
      split
      · exact .perform fun _ => trivial
      · exact .perform fun _ => trivial
      · exact .bind (.perform fun _ => trivial) fun _ => .throw
    · exact .throw

theorem handleCancel_heeds {actorId key : String} {request : CancellationRequest} :
    Heeds (handleCancel actorId key request) := by
  refine unlessReplayed_heeds ?_
  split
  · exact .throw
  · exact .bind (.store fun _ => trivial) fun _ => .perform fun _ => trivial

/-- An operation of the background writes no report of a reconciliation. -/
theorem background_heeds {call : StoreCall} (hcall : call.background = true) :
    Heeds (Action.store call) := by
  cases call with
  | finishReconciliation => cases hcall
  | _ => exact .store fun _ => trivial

theorem handleHalt_heeds {actorId key reason : String} :
    Heeds (self.handleHalt actorId key reason) := by
  unfold handleHalt
  split
  · exact unlessReplayed_heeds haltIdempotent_heeds
  · exact .throw

theorem handleResume_heeds {actorId key reason : String} :
    Heeds (self.handleResume actorId key reason) := by
  unfold handleResume
  split
  · exact unlessReplayed_heeds (.withGate resumeInner_heeds)
  · exact .throw

theorem program_heeds {m m' : Memory} {task : Task}
    (harrives : task.arrives self.requiresHeartbeat m m') :
    (self.program task).wp FlagPromise (fun _ _ => True) [] := by
  suffices h : Heeds (self.action task) from h []
  cases task with
  | main =>
    refine .bind (.withGate (.bind startupControl_heeds fun _ => ?_)) fun _ =>
      .perform fun _ => trivial
    exact .bind startupRecovery_heeds fun _ => .bind startupChecks_heeds fun _ =>
      startupDecision_heeds
  | worker intentId =>
    exact .bind (.attempt (.withGate (.withGate processIntentInner_heeds))) fun _ =>
      .perform fun _ => trivial
  | scheduledReconciliation => exact .bind reconcile_heeds fun _ => .pure
  | heartbeat => exact heartbeatTick_heeds
  | shutdown => exact shutdown_heeds
  | submitIntent => exact handleSubmitIntent_heeds
  | cancel => exact handleCancel_heeds
  | halt => exact handleHalt_heeds
  | resume => exact handleResume_heeds
  | reconcile =>
    exact unlessReplayed_heeds (.bind (.store fun _ => trivial) fun _ =>
      .perform fun _ => trivial)
  | cancellation => exact .withGate (.withGate executeCancellation_heeds)
  | reconciliation => exact .bind (.withGate reconcileStarted_heeds) fun _ => .pure
  | protectiveCancellation => exact .bind cancel_heeds fun _ => .pure
  | operation call => exact .bind (background_heeds harrives.1) fun _ => .pure

end Coordinator

end OddsfoxExecution
