import OddsfoxExecution.Coordinator.Promises

/-!
# How the functions keep the promise

One lemma for each coordinator function, bottom up, by the rules of `Does`.
-/

namespace OddsfoxExecution

namespace Coordinator

variable {self : Coordinator} {task : Task} {known : Calls}

theorem quietly_halted {actor reason : String} :
    Quietly task known (setServiceState actor .halted reason) :=
  .store rfl fun _ _ => ⟨rfl, trivial⟩

theorem quietly_spawnProtectiveCancellation {reason : String} :
    Quietly task known (self.spawnProtectiveCancellation reason) := by
  unfold spawnProtectiveCancellation
  split
  · exact .perform rfl fun _ _ => trivial
  · exact .pure trivial

/-! ## Reconciliation -/

theorem does_findVenueOrder {id : String} :
    Does task known (findVenueOrder id) fun added result =>
      ∀ observed, result = .ok (some observed) →
        asked (.findOrder id) (.ok (some observed)) ∈ added := by
  refine .performBind rfl (fun _ _ => trivial) fun answer => ?_
  cases answer with
  | ok observed => exact .pure fun _ h => by cases h; exact List.mem_cons_self
  | error e => exact .throw fun _ h => nomatch h
  | timeout => exact .throw fun _ h => nomatch h

theorem quietly_flagUnexpectedOrders {ids findings : List String} :
    Quietly task known (self.flagUnexpectedOrders ids findings) := by
  induction ids generalizing known findings with
  | nil => exact .pure trivial
  | cons id rest ih =>
    unfold flagUnexpectedOrders
    split
    · refine .performBind rfl (fun _ _ => trivial) fun answer => ?_
      cases answer with
      | ok => exact ih
      | error => exact ih
      | timeout => exact ih
    · exact ih

/-- The observation of an order comes from the snapshot or from a lookup. -/
theorem does_observeOrder {observedOrders : List ObservedVenueOrder} {id : String} :
    Does task known (observeOrder observedOrders id) fun added result =>
      ∀ observed, result = .ok (some observed) →
        (observed ∈ observedOrders ∧ observed.venueOrderId = id) ∨
          asked (.findOrder id) (.ok (some observed)) ∈ added := by
  unfold observeOrder
  split
  · rename_i found hfound
    refine .pure fun observed h => Or.inl ?_
    cases h
    obtain ⟨hmem, hid⟩ := find?_mem hfound
    exact ⟨List.mem_reverse.mp hmem, hid⟩
  · exact .mono does_findVenueOrder fun _ _ h observed hobserved => Or.inr (h observed hobserved)

theorem quietly_projectActiveOrders {result : ReconciliationResult} {orders : List OrderRecord}
    {findings : List String} (rows : List OrderRecord)
    (hreconcile : asked .reconcile (.ok result) ∈ known)
    (hrows : done .knownOrders rows ∈ known)
    (horders : ∀ order ∈ orders, order ∈ rows ∧ order.state.active = true) :
    Quietly task known (projectActiveOrders result.observedOrders orders findings) := by
  induction orders generalizing known findings with
  | nil => exact .pure trivial
  | cons order rest ih =>
    have hrest : ∀ order ∈ rest, order ∈ rows ∧ order.state.active = true :=
      fun other hother => horders other (List.mem_cons_of_mem _ hother)
    obtain ⟨hrow, hactive⟩ := horders order List.mem_cons_self
    unfold projectActiveOrders
    refine .bind does_observeOrder (fun observation before hobserved => ?_) fun _ _ _ => trivial
    have hreconcile' := List.mem_append_right before hreconcile
    have hrows' := List.mem_append_right before hrows
    cases observation with
    | none => exact ih hreconcile' hrows' hrest
    | some observed =>
      dsimp only
      split
      · exact ih hreconcile' hrows' hrest
      · rename_i hstate
        refine .storeBind rfl (fun made hmade => ?_) (fun _ => ?_) fun _ => trivial
        · refine ⟨hstate, rows, order, observed.venueOrderId, hmade _ hrows', hrow, rfl, hactive,
            ?_⟩
          rcases hobserved observed rfl with ⟨hmem, hid⟩ | hlookup
          · exact Or.inl ⟨result, hmade _ hreconcile', hmem, hid⟩
          · exact Or.inr (hmade _ (List.mem_append_left _ hlookup))
        · exact ih (List.mem_cons_of_mem _ hreconcile') (List.mem_cons_of_mem _ hrows') hrest

theorem does_resolveUnknownSubmissions {unknown rows : List UnknownSubmission}
    {findings : List String} (hrows : done .unknownSubmissions rows ∈ known)
    (hunknown : ∀ u ∈ unknown, u ∈ rows) :
    Does task known (resolveUnknownSubmissions unknown findings) fun added result =>
      ∀ found, result = .ok found → found = [] → findings = [] ∧
        ∀ u ∈ unknown, ∃ venueOrderId state remaining filled price ids,
          done (.resolveUnknownSubmission u venueOrderId state remaining filled price ids) () ∈
            added := by
  induction unknown generalizing known findings with
  | nil => exact .pure fun found h hnone => by cases h; exact ⟨hnone, fun _ hu => nomatch hu⟩
  | cons u rest ih =>
    have hrest : ∀ u ∈ rest, u ∈ rows := fun v hv => hunknown v (List.mem_cons_of_mem _ hv)
    have hfound : ∀ {known : Calls}, done .unknownSubmissions rows ∈ known →
        ∀ before : Calls, Does task known
          (resolveUnknownSubmissions rest (findings ++ [unresolvedFinding u]))
          fun added result => ∀ found, result = .ok found → found = [] → findings = [] ∧
            ∀ v ∈ u :: rest, ∃ venueOrderId state remaining filled price ids,
              done (.resolveUnknownSubmission v venueOrderId state remaining filled price ids)
                () ∈ added ++ before := by
      intro known hrows before
      refine (ih hrows hrest).mono fun added result h found hresult hnone => ?_
      exact absurd (h found hresult hnone).1 (List.append_ne_nil_of_right_ne_nil _ (by simp))
    unfold resolveUnknownSubmissions
    refine .bind does_findVenueOrder (fun observation before hobserved => ?_) fun _ _ _ _ h =>
      nomatch h
    have hrows' := List.mem_append_right before hrows
    cases observation with
    | none => exact hfound hrows' before
    | some observed =>
      dsimp only
      split
      · exact hfound hrows' before
      · rename_i hstate
        refine .storeBind rfl (fun made hmade => ?_) (fun _ => ?_) fun _ _ h => nomatch h
        · exact ⟨hstate, ⟨rows, hmade _ hrows', hunknown u List.mem_cons_self⟩,
            hmade _ (List.mem_append_left _ (hobserved observed rfl))⟩
        · refine (ih (List.mem_cons_of_mem _ hrows') hrest).mono
            fun added result h found hresult hnone => ?_
          obtain ⟨hfindings, hresolved⟩ := h found hresult hnone
          refine ⟨hfindings, fun v hv => ?_⟩
          rcases List.mem_cons.mp hv with rfl | hv
          · exact ⟨_, _, _, _, _, _, List.mem_append_left _
              (List.mem_append_right _ List.mem_cons_self)⟩
          · obtain ⟨w, st, rem, fi, pr, ids, hmem⟩ := hresolved v hv
            exact ⟨w, st, rem, fi, pr, ids, List.mem_append_left _ (List.mem_append_left _ hmem)⟩

theorem quietly_orderIdsForVenueIds {ids : List String} :
    Quietly task known (orderIdsForVenueIds ids) := by
  induction ids generalizing known with
  | nil => exact .pure trivial
  | cons id rest ih =>
    refine .storeBind rfl (fun _ _ => trivial) (fun orderId => ?_) fun _ => trivial
    exact ih.bind (fun _ _ _ => .pure trivial) fun _ _ _ => trivial

theorem does_recordObservedTrades {trades : List ObservedVenueTrade} {findings : List String} :
    Does task known (recordObservedTrades trades findings) fun _ result =>
      ∀ found, result = .ok found → found = [] → findings = [] := by
  induction trades generalizing known findings with
  | nil => exact .pure fun found h hnone => by cases h; exact hnone
  | cons trade rest ih =>
    have hfound : ∀ {known : Calls} {finding : String}, Does task known
        (recordObservedTrades rest (findings ++ [finding])) fun _ result =>
          ∀ found, result = .ok found → found = [] → findings = [] := by
      intro known finding
      refine ih.mono fun _ _ h found hresult hnone => ?_
      exact absurd (h found hresult hnone) (List.append_ne_nil_of_right_ne_nil _ (by simp))
    unfold recordObservedTrades
    refine .bind quietly_orderIdsForVenueIds (fun orderIds before _ => ?_) fun _ _ _ _ h =>
      nomatch h
    match orderIds with
    | [orderId] =>
      refine .storeBind rfl (fun _ _ => trivial) (fun linked => ?_) fun _ _ h => nomatch h
      split
      · exact ih
      · exact hfound
    | [] => exact hfound
    | _ :: _ :: _ => exact hfound

/-- The unknown submissions a reconciliation read, all of them resolved if it found nothing. -/
def ResolvedIn (findings : List String) (added : Calls) : Prop :=
  ∃ (unknown : List UnknownSubmission) (c₁ c₂ : Calls),
    added = c₂ ++ done .unknownSubmissions unknown :: c₁ ∧
      (findings = [] → ∀ u ∈ unknown, ∃ venueOrderId state remaining filled price ids,
        done (.resolveUnknownSubmission u venueOrderId state remaining filled price ids) () ∈ c₂)

theorem ResolvedIn.extend {findings : List String} {added : Calls} (h : ResolvedIn findings added)
    (after before : Calls) : ResolvedIn findings (after ++ (added ++ before)) := by
  obtain ⟨unknown, c₁, c₂, rfl, hresolved⟩ := h
  refine ⟨unknown, c₁ ++ before, after ++ c₂, by simp, fun hnone u hu => ?_⟩
  obtain ⟨w, st, rem, fi, pr, ids, hmem⟩ := hresolved hnone u hu
  exact ⟨w, st, rem, fi, pr, ids, List.mem_append_right _ hmem⟩

theorem does_collectFindings {result : ReconciliationResult}
    (hreconcile : asked .reconcile (.ok result) ∈ known) :
    Does task known (self.collectFindings result) fun added outcome =>
      ∀ findings, outcome = .ok findings → ResolvedIn findings added := by
  unfold collectFindings
  refine .storeBind rfl (fun _ _ => trivial) (fun rows => ?_) fun _ _ h => nomatch h
  refine .storeBind rfl (fun _ _ => trivial) (fun ids => ?_) fun _ _ h => nomatch h
  refine .bind quietly_flagUnexpectedOrders (fun _ flagged _ => ?_) fun _ _ _ _ h => nomatch h
  have hactive : ∀ order ∈ rows.filter fun order => order.state.active,
      order ∈ rows ∧ order.state.active = true := fun _ horder => List.mem_filter.mp horder
  refine Does.bind (quietly_projectActiveOrders rows
    (List.mem_append_right flagged (List.mem_cons_of_mem _ (List.mem_cons_of_mem _ hreconcile)))
    (List.mem_append_right flagged (List.mem_cons_of_mem _ List.mem_cons_self)) hactive)
    (fun _ projected _ => ?_) fun _ _ _ _ h => nomatch h
  refine .storeBind rfl (fun _ _ => trivial) (fun unknown => ?_) fun _ _ h => nomatch h
  refine Does.bind (does_resolveUnknownSubmissions List.mem_cons_self fun _ hu => hu)
    (fun findings resolved hresolved => ?_) fun _ _ _ _ h => nomatch h
  refine .mono does_recordObservedTrades fun recorded outcome hrecorded found houtcome => ?_
  refine ⟨unknown, projected ++ (flagged ++ [done .deterministicOrderIds ids,
    done .knownOrders rows]), recorded ++ resolved, ?_, fun hnone u hu => ?_⟩
  · simp only [List.append_assoc, List.cons_append, List.nil_append]
  · obtain ⟨_, hall⟩ := hresolved findings rfl (hrecorded found houtcome hnone)
    obtain ⟨w, st, rem, fi, pr, ids, hmem⟩ := hall u hu
    exact ⟨w, st, rem, fi, pr, ids, List.mem_append_right _ hmem⟩

/-- A reconciliation that returns without an error ends well. -/
theorem does_reconcileStartedInner {id : Uuid} (hstarted : RunStarted task known id) :
    Does task known (self.reconcileStartedInner id) fun added result =>
      ∀ id', result = .ok id' → id' = id ∧ ∃ (findings : List String) (c₁ c₃ : Calls),
        added = c₃ ++ done (.finishReconciliation id findings) () :: c₁ ∧
          ResolvedIn findings c₁ ∧ (findings ≠ [] → HaltWritten c₃) := by
  unfold reconcileStartedInner
  refine .performBind rfl (fun _ _ => trivial) fun answer => ?_
  cases hanswer : answer.orElse (.unavailable "reconciliation deadline exceeded") with
  | error e =>
    dsimp only
    refine .storeBind rfl (fun _ _ => trivial) (fun _ => ?_) fun _ _ h => nomatch h
    refine .bind quietly_halted (fun _ _ _ => ?_) fun _ _ _ _ h => nomatch h
    refine .bind quietly_spawnProtectiveCancellation (fun _ _ _ => ?_) fun _ _ _ _ h => nomatch h
    exact .throw fun _ h => nomatch h
  | ok result =>
    dsimp only
    have hreconcile : answer = .ok result := by
      cases answer <;> simp_all [VenueAnswer.orElse]
    subst hreconcile
    refine (does_collectFindings List.mem_cons_self).bind (fun findings collected hcollected => ?_)
      fun _ _ _ _ h => nomatch h
    refine .storeBind rfl (fun _ _ => trivial) (fun _ => ?_) fun _ _ h => nomatch h
    refine .storeBind rfl (fun made hmade => ?_) (fun _ => ?_) fun _ _ h => nomatch h
    · exact hstarted.mono fun e he => hmade e (by simp [he])
    refine .storeBind rfl (fun _ _ => trivial) (fun pruned => ?_) fun _ _ h => nomatch h
    have hresolved := (hcollected findings rfl).extend
      [done (.reconcileVenuePositions result.observedPositions) ()]
      [asked .reconcile (.ok result)]
    split
    · rename_i hnone
      refine .pure fun id' h => ?_
      cases h
      exact ⟨rfl, findings, _, [done .pruneEvents pruned], by simp, hresolved, fun hsome =>
        absurd (List.isEmpty_iff.mp hnone) hsome⟩
    · refine .storeBind rfl (fun _ _ => ⟨rfl, trivial⟩) (fun _ => ?_) fun _ _ h => nomatch h
      refine .bind quietly_spawnProtectiveCancellation (fun _ spawned _ => .pure fun id' h => ?_)
        fun _ _ _ _ h => nomatch h
      cases h
      refine ⟨rfl, findings, _, spawned ++ [done (.setServiceState "system" .halted
        "critical reconciliation finding" none none) (), done .pruneEvents pruned], by simp,
        hresolved, fun _ => ?_⟩
      exact ⟨_, _, List.mem_append_right _ List.mem_cons_self⟩

theorem quietly_haltAfterFailedReconciliation :
    Quietly task known self.haltAfterFailedReconciliation := by
  refine .performBind rfl (fun _ _ => trivial) fun control => ?_
  cases control with
  | error => exact .pure trivial
  | ok control =>
    dsimp only
    split
    · exact .pure trivial
    · refine .performBind rfl (fun _ _ => ⟨rfl, trivial⟩) fun written => ?_
      cases written with
      | error => exact .pure trivial
      | ok => exact quietly_spawnProtectiveCancellation

/-- The run is closed whatever the control state turns out to be. -/
theorem quietly_closeFailedReconciliation {id : Uuid} {e : CoordinatorError} :
    Quietly task known (self.closeFailedReconciliation id e) := by
  unfold closeFailedReconciliation
  refine .performBind rfl (fun _ _ => trivial) fun record => ?_
  cases record with
  | error => exact quietly_haltAfterFailedReconciliation
  | ok record =>
    dsimp only
    split
    · exact .performBind rfl (fun _ _ => trivial) fun _ => quietly_haltAfterFailedReconciliation
    · exact quietly_haltAfterFailedReconciliation

theorem does_reconcileStarted {id : Uuid} (hstarted : RunStarted task known id) :
    Does task known (self.reconcileStarted id) fun added result =>
      ∀ id', result = .ok id' → id' = id ∧ ∃ (findings : List String) (c₁ c₃ : Calls),
        added = c₃ ++ done (.finishReconciliation id findings) () :: c₁ ∧
          ResolvedIn findings c₁ ∧ (findings ≠ [] → HaltWritten c₃) := by
  unfold reconcileStarted
  refine (does_reconcileStartedInner hstarted).attemptBind fun result before hresult => ?_
  cases result with
  | ok id' =>
    refine .pure fun id'' h => ?_
    cases h
    exact hresult id' rfl
  | error e =>
    refine .bind quietly_closeFailedReconciliation (fun _ _ _ => ?_) fun _ _ _ _ h => nomatch h
    exact .throw fun _ h => nomatch h

/-- A reconciliation either resolves all it finds or halts the service. -/
theorem does_reconcileInner {trigger : String} :
    Does task known (self.reconcileInner trigger) fun added result =>
      ∀ id, result = .ok id → Reconciled id added := by
  unfold reconcileInner
  refine .storeBind rfl (fun _ _ => trivial) (fun id => ?_) fun _ _ h => nomatch h
  refine (does_reconcileStarted (Or.inr ⟨trigger, none, List.mem_cons_self⟩)).mono
    fun added result h id' hresult => ?_
  obtain ⟨rfl, findings, c₁, c₃, rfl, ⟨unknown, d₁, d₂, rfl, hresolved⟩, hhalt⟩ := h id' hresult
  refine ⟨trigger, unknown, findings, d₁, d₂, c₃, by simp, ?_⟩
  by_cases hnone : findings = []
  · exact Or.inl ⟨hnone, hresolved hnone⟩
  · exact Or.inr (hhalt hnone)

/-! ## Cancellation and halting -/

theorem quietly_cancelAtVenue {orderId : Uuid} {venueOrderId : Option String}
    {failed : List Uuid} {order : OrderRecord} (hread : done (.getOrder orderId) order ∈ known)
    (hvenue : order.venueOrderId = venueOrderId) :
    Quietly task known (self.cancelAtVenue orderId venueOrderId failed) := by
  cases venueOrderId with
  | none =>
    exact .attemptBind does_reconcileInner fun _ _ _ => .pure trivial
  | some v =>
    refine .performBind rfl (fun _ _ => trivial) fun answer => ?_
    cases answer with
    | ok cancellation =>
      refine .storeBind rfl (fun made hmade => ?_) (fun _ => .pure trivial) fun _ => trivial
      exact ⟨rfl, Or.inr ⟨order, v, cancellation, hmade _ (List.mem_cons_of_mem _ hread), hvenue,
        hmade _ List.mem_cons_self, rfl⟩⟩
    | error | timeout =>
      exact .attemptBind does_reconcileInner fun _ _ _ => .pure trivial

theorem quietly_cancelTarget {orderId : Uuid} {failed : List Uuid} :
    Quietly task known (self.cancelTarget orderId failed) := by
  refine .storeBind rfl (fun _ _ => trivial) (fun order => ?_) fun _ => trivial
  split
  · exact .pure trivial
  · split
    · exact .storeBind rfl (fun _ _ => trivial) (fun _ => .pure trivial) fun _ => trivial
    · split
      · exact quietly_cancelAtVenue List.mem_cons_self rfl
      · refine .storeBind rfl (fun _ _ => ⟨rfl, Or.inl rfl⟩) (fun pending => ?_) fun _ => trivial
        split
        · exact .pure trivial
        · exact quietly_cancelAtVenue (List.mem_cons_of_mem _ List.mem_cons_self) rfl

theorem quietly_cancelTargets {targets failed : List Uuid} :
    Quietly task known (self.cancelTargets targets failed) := by
  induction targets generalizing known failed with
  | nil => exact .pure trivial
  | cons target rest ih =>
    exact .bind quietly_cancelTarget (fun _ _ _ => ih) fun _ _ _ => trivial

theorem quietly_executeCancellation {id : Uuid} {targets : List Uuid} :
    Quietly task known (self.executeCancellation id targets) := by
  refine .bind quietly_cancelTargets (fun _ _ _ => ?_) fun _ _ _ => trivial
  exact .storeBind rfl (fun _ _ => trivial) (fun _ => .pure trivial) fun _ => trivial

theorem quietly_cancelInner {actor : String} {request : CancellationRequest} :
    Quietly task known (self.cancelInner actor request) := by
  unfold cancelInner
  split
  · exact .throw trivial
  · refine .storeBind rfl (fun _ _ => trivial) (fun created => ?_) fun _ => trivial
    exact .bind quietly_executeCancellation (fun _ _ _ => .pure trivial) fun _ _ _ => trivial

theorem quietly_cancelOnHaltInner {reason : String} :
    Quietly task known (self.cancelOnHaltInner reason) := by
  unfold cancelOnHaltInner
  split
  · exact .attemptBind quietly_cancelInner fun _ _ _ => .pure trivial
  · exact .pure trivial

theorem quietly_haltInner {actor reason : String} :
    Quietly task known (self.haltInner actor reason) := by
  unfold haltInner
  split
  · exact .throw trivial
  · exact .bind quietly_halted (fun _ _ _ => quietly_cancelOnHaltInner) fun _ _ _ => trivial

theorem quietly_haltForVenueError {e : VenueError} {trigger : String} :
    Quietly task known (self.haltForVenueError e trigger) := by
  unfold haltForVenueError
  split
  · refine .bind quietly_haltInner (fun _ _ _ => ?_) fun _ _ _ => trivial
    exact .attemptBind does_reconcileInner fun _ _ _ => .pure trivial
  · exact .pure trivial

/-! ## Submission -/

/-- Quiet calls after a calm start, as the end of a function that keeps its gates. -/
theorem wp_quietly {α : Type} {x : Action α} {made : Calls} (h : Quietly task [] x)
    (hcalm : Calm made) :
    x.run.wp (Promise task) (fun made' _ => Calm made' ∧ ∀ gate, Holds gate made' ↔ Holds gate made)
      made :=
  h.wp hcalm (fun _ he => nomatch he) fun _ _ hquiet _ =>
    ⟨hcalm.append hquiet, fun _ => holds_append hquiet⟩

theorem wp_ambiguousHalt {made : Calls} (hunserved : ∀ e ∈ made, e.1 ≠ .serve)
    (hidle : ¬ Submits made) :
    (self.haltInner "system" "ambiguous venue submission").run.wp (Promise task)
      (fun made' _ => Calm made' ∧ ∀ gate, Holds gate made' ↔ Holds gate made) made := by
  have hreason : ¬ trimIsEmpty "ambiguous venue submission" = true := by decide
  unfold haltInner
  rw [if_neg hreason]
  refine Action.wp_storeBind.mpr ⟨⟨hunserved, fun _ => rfl, fun h => absurd h hidle, rfl, trivial⟩,
    fun value => ?_, fun e => ?_⟩
  · refine Prog.wp_mono (wp_quietly quietly_cancelOnHaltInner ?_) fun _ _ h => ⟨h.1, h.2⟩
    exact .of_cons hunserved (fun h => (nomatch h)) id id
  · exact ⟨.of_cons hunserved (fun h => (nomatch h)) id id, fun _ => Iff.rfl⟩

theorem recordedCall_eq (intentId orderId : Uuid) (prepared : PreparedVenueOrder)
    (result : Except VenueError VenueSubmission) :
    ∃ intentState orderState venueOrderId cls filled price ids,
      recordedCall intentId orderId prepared result = .finishSubmission intentId orderId
        intentState orderState venueOrderId cls filled price ids := by
  cases result with
  | ok s => exact ⟨_, _, _, _, _, _, _, rfl⟩
  | error e =>
    unfold recordedCall
    dsimp only
    split <;> exact ⟨_, _, _, _, _, _, _, rfl⟩

theorem wp_recordSubmission {intentId orderId : Uuid} {prepared : PreparedVenueOrder}
    {request : OrderIntentRequest} {answer : VenueAnswer VenueSubmission} {earlier : Calls}
    (hunserved : ∀ e ∈ earlier, e.1 ≠ .serve) (hholds : Holds .safety earlier) :
    (self.recordSubmission intentId orderId prepared (submissionResult answer)).run.wp
      (Promise (.worker intentId))
      (fun made' _ => Calm made' ∧ ∀ gate, Holds gate made' ↔ Holds gate earlier)
      (asked (.submit prepared request) answer ::
        done (.beginSubmission intentId orderId) () :: earlier) := by
  have hbegun : ∀ e ∈ done (.beginSubmission intentId orderId) () :: earlier, e.1 ≠ .serve :=
    unserved_cons hunserved fun h => (nomatch h)
  have hserved : ∀ e ∈ asked (.submit prepared request) answer ::
      done (.beginSubmission intentId orderId) () :: earlier, e.1 ≠ .serve :=
    unserved_cons hbegun fun h => (nomatch h)
  have hpromise : ∀ call, call = recordedCall intentId orderId prepared (submissionResult answer) →
      Promise (.worker intentId) (asked (.submit prepared request) answer ::
        done (.beginSubmission intentId orderId) () :: earlier) (.store call) := by
    rintro call hcall
    obtain ⟨_, _, _, _, _, _, _, hfinish⟩ :=
      recordedCall_eq intentId orderId prepared (submissionResult answer)
    subst hcall
    rw [hfinish]
    exact ⟨hserved, fun h => h.elim, fun _ => rfl, rfl, hholds, prepared, request, answer, earlier,
      rfl, hfinish.symm⟩
  cases hresult : submissionResult answer with
  | ok s =>
    refine Action.wp_store.mpr ⟨hpromise _ (by rw [hresult]; rfl), fun _ => ?_, fun e => ?_⟩
    · exact ⟨.of_cons hserved (fun h => (nomatch h)) id id, fun _ => Iff.rfl⟩
    · exact ⟨.of_cons hserved (fun h => (nomatch h)) id id, fun _ => Iff.rfl⟩
  | error e =>
    unfold recordSubmission
    dsimp only
    split
    · rename_i hambiguous
      refine Action.wp_storeBind.mpr ⟨hpromise _ (by rw [hresult]; simp [recordedCall, hambiguous]),
        fun value => ?_, fun e => ?_⟩
      · rw [Prog.wp_run_bind]
        refine Prog.wp_mono (wp_ambiguousHalt (unserved_cons hserved fun h => (nomatch h)) id) ?_
        intro made' result ⟨hcalm, hgates⟩
        cases result with
        | error => exact ⟨hcalm, hgates⟩
        | ok =>
          have hreconcile : Quietly (.worker intentId) []
              (Action.attempt (self.reconcileInner "ambiguous_submission") >>= fun _ => pure ()) :=
            .attemptBind does_reconcileInner fun _ _ _ => .pure trivial
          refine Prog.wp_mono (wp_quietly hreconcile hcalm) fun _ _ h => ⟨h.1, fun gate => ?_⟩
          exact (h.2 gate).trans (hgates gate)
      · refine ⟨.of_cons hserved (fun h => (nomatch h)) (fun h => (nomatch h)) id, fun _ => Iff.rfl⟩
    · rename_i hdefinitive
      refine Action.wp_storeBind.mpr
        ⟨hpromise _ (by rw [hresult]; simp [recordedCall, hdefinitive]),
        fun value => ?_, fun e => ?_⟩
      · have hcalm : Calm (done (.finishSubmission intentId orderId .submitted .rejected none
            "DEFINITIVE_REJECTION" 0 none []) value :: asked (.submit prepared request) answer ::
              done (.beginSubmission intentId orderId) () :: earlier) :=
          .of_cons hserved (fun h => (nomatch h)) id id
        split
        · refine wp_quietly ?_ hcalm
          refine .bind quietly_haltInner (fun _ _ _ => ?_) fun _ _ _ => trivial
          exact .attemptBind does_reconcileInner fun _ _ _ => .pure trivial
        · exact ⟨hcalm, fun _ => Iff.rfl⟩
      · exact ⟨.of_cons hserved (fun h => (nomatch h)) id id, fun _ => Iff.rfl⟩

/-- The task holds the safety gate and knows the intent's prepared order. -/
def Submittable (intentId orderId : Uuid) (prepared : PreparedVenueOrder) (made : Calls) : Prop :=
  Holds .safety made ∧ PreparedIn made intentId orderId prepared

theorem keeps_submitPrepared {intentId orderId : Uuid} {prepared : PreparedVenueOrder}
    {request : OrderIntentRequest} :
    Keeps (.worker intentId) (Submittable intentId orderId prepared)
      (self.submitPrepared intentId orderId prepared request) := by
  intro made hcalm ⟨hholds, hprepared⟩
  refine Action.wp_storeBind.mpr
    ⟨hcalm.promise trivial, fun control => ?_, fun e => ?_⟩
  all_goals have hread : ∀ r, Calm (⟨.store .serviceState, r⟩ :: made) := fun r =>
    .of_cons hcalm.unserved (fun h => (nomatch h)) id id
  · split
    · refine Prog.wp_mono (wp_quietly ?_ (hread _)) fun _ _ h => ⟨h.1, h.2⟩
      refine .storeBind rfl (fun _ _ => trivial) (fun intent => ?_) fun _ => trivial
      split
      · exact .perform rfl fun _ _ => trivial
      · exact .pure trivial
    · refine Action.wp_performBind.mpr
        ⟨(hread _).promise ⟨rfl, hholds⟩, fun begun => ?_⟩
      have hbegun : ∀ e, Calm (⟨.store (.beginSubmission intentId orderId), Except.error e⟩ ::
          done .serviceState control :: made) := fun e =>
        .of_cons (hread _).unserved (fun h => (nomatch h)) id fun h => nomatch h
      cases begun with
      | ok =>
        refine Action.wp_performBind.mpr ⟨⟨unserved_cons (hread _).unserved fun h => (nomatch h),
          fun h => h.elim, fun _ => rfl, intentId, orderId, _, rfl, hprepared.cons⟩,
          fun answer => ?_⟩
        exact wp_recordSubmission (hread _).unserved hholds
      | error e =>
        cases e with
        | newRiskDisabled =>
          refine Prog.wp_mono (wp_quietly ?_ (hbegun _)) fun _ _ h => ⟨h.1, h.2⟩
          exact .perform rfl fun _ _ => trivial
        | _ => exact ⟨hbegun _, fun _ => Iff.rfl⟩
  · exact ⟨hread _, fun _ => Iff.rfl⟩

/-! ## Processing an intent -/

theorem quietly_transitionIntent {intentId : Uuid} {expected next : IntentState}
    {error : Option (String × String)} (hadvances : expected.advances next = true) :
    Quietly task known (Action.store (.transitionIntent intentId expected next error)) :=
  .store rfl fun _ _ => hadvances

theorem quietly_rejectReceived {intentId : Uuid} {code message : String} :
    Quietly task known (rejectReceived intentId code message) :=
  (quietly_transitionIntent rfl).bind (fun _ _ _ => .pure trivial) fun _ _ _ => trivial

theorem quietly_rejectValidating {intentId : Uuid} {code message : String} :
    Quietly task known (self.rejectValidating intentId code message) := by
  refine .storeBind rfl (fun _ _ => trivial) (fun _ => ?_) fun _ => trivial
  exact (quietly_transitionIntent rfl).bind (fun _ _ _ => .pure trivial) fun _ _ _ => trivial

theorem quietly_marketData {intentId : Uuid} {request : OrderIntentRequest} :
    Quietly task known (self.marketData intentId request) := by
  have hrefused : ∀ {known : Calls} {code message : String} {e : VenueError} {trigger : String},
      Quietly task known (do
        self.rejectValidating intentId code message
        self.haltForVenueError e trigger
        pure (none : Option (MarketRules × OrderBook))) :=
    .bind quietly_rejectValidating (fun _ _ _ => .bind quietly_haltForVenueError
      (fun _ _ _ => .pure trivial) fun _ _ _ => trivial) fun _ _ _ => trivial
  have hlate : ∀ {known : Calls} {code message : String}, Quietly task known (do
      self.rejectValidating intentId code message
      pure (none : Option (MarketRules × OrderBook))) :=
    .bind quietly_rejectValidating (fun _ _ _ => .pure trivial) fun _ _ _ => trivial
  refine .performBind rfl (fun _ _ => trivial) fun rules => ?_
  cases rules with
  | error => exact hrefused
  | timeout => exact hlate
  | ok market =>
    refine .performBind rfl (fun _ _ => trivial) fun book => ?_
    cases book with
    | error => exact hrefused
    | timeout => exact hlate
    | ok => exact .pure trivial

theorem keeps_prepareAndSubmit {intentId : Uuid} {request : OrderIntentRequest}
    {market : MarketRules} :
    Keeps (.worker intentId) (Holds .safety) (self.prepareAndSubmit intentId request market) := by
  refine .bindHolding (quietly_transitionIntent rfl) fun _ _ _ => ?_
  refine .bindHolding (.perform rfl fun _ _ => trivial) fun answer _ _ => ?_
  cases answer with
  | error e =>
    refine .ofQuietly (.storeBind rfl (fun _ _ => trivial) (fun _ => ?_) fun _ => trivial)
    exact quietly_haltForVenueError
  | timeout => exact .ofQuietly (.store rfl fun _ _ => trivial)
  | ok prepared =>
    refine .bindQuietly (.storeValue rfl fun _ _ => trivial)
      (fun _ _ _ he => absurd he List.not_mem_nil)
      fun order before hquiet hbefore => .weaken keeps_submitPrepared ?_
    rintro _ ⟨earlier, rfl, hholds⟩
    refine ⟨(holds_append hquiet).mpr hholds, Or.inr ⟨_, _, _, order, ?_, rfl⟩⟩
    rw [hbefore order rfl]
    exact List.mem_append_left _ List.mem_cons_self

theorem keeps_processReceived {intentId : Uuid} {request : OrderIntentRequest} :
    Keeps (.worker intentId) (Holds .safety) (self.processReceived intentId request) := by
  refine .bindHolding (quietly_transitionIntent rfl) fun _ _ _ => ?_
  refine .bindHolding (.perform rfl fun _ _ => trivial) fun now _ _ => ?_
  split
  · refine .ofQuietly (.storeBind rfl (fun _ _ => trivial) (fun _ => ?_) fun _ => trivial)
    exact (quietly_transitionIntent rfl).bind (fun _ _ _ => .pure trivial) fun _ _ _ => trivial
  · refine .bindHolding quietly_marketData fun data _ _ => ?_
    cases data with
    | none => exact .pure
    | some data =>
      refine .bindHolding (.perform rfl fun _ _ => trivial) fun _ _ _ => ?_
      split
      · exact .ofQuietly quietly_rejectValidating
      · refine .bindHolding (.store rfl fun _ _ => trivial) fun decision _ _ => ?_
        split
        · exact keeps_prepareAndSubmit
        · exact .pure

theorem keeps_processReady {intentId : Uuid} :
    Keeps (.worker intentId) (Holds .safety) (self.processReady intentId) := by
  refine .bindHolding (.store rfl fun _ _ => trivial) fun intent _ _ => ?_
  split
  · refine .bindQuietly (.storeValue rfl fun _ _ => trivial)
      (fun _ _ _ he => absurd he List.not_mem_nil)
      fun persisted before hquiet hbefore => .weaken keeps_submitPrepared ?_
    rintro _ ⟨earlier, rfl, hholds⟩
    refine ⟨(holds_append hquiet).mpr hholds, Or.inl ⟨persisted, ?_, rfl, rfl⟩⟩
    rw [hbefore persisted rfl]
    exact List.mem_append_left _ List.mem_cons_self
  · split
    · exact keeps_processReceived
    · exact .throw

theorem quietly_executionHealthFailure :
    Quietly task known self.executionHealthFailure := by
  refine .storeBind rfl (fun _ _ => trivial) (fun latest => ?_) fun _ => trivial
  refine .performBind rfl (fun _ _ => trivial) fun now => ?_
  split
  · exact .pure trivial
  · split
    · refine .performBind rfl (fun _ _ => trivial) fun age => ?_
      split <;> exact .pure trivial
    · exact .pure trivial

theorem keeps_processReconciled {intentId : Uuid} :
    Keeps (.worker intentId) (Holds .safety) (self.processReconciled intentId) := by
  refine .bindHolding quietly_executionHealthFailure fun failure _ _ => ?_
  cases failure with
  | some reason =>
    exact .ofQuietly (.bind quietly_haltInner (fun _ _ _ => quietly_rejectReceived)
      fun _ _ _ => trivial)
  | none =>
    refine .bindHolding (.store rfl fun _ _ => trivial) fun control _ _ => ?_
    split
    · exact keeps_processReady
    · exact .ofQuietly quietly_rejectReceived

theorem keeps_processIntentInner {intentId : Uuid} :
    Keeps (.worker intentId) (Holds .safety) (self.processIntentInner intentId) := by
  refine .bindHolding (.perform rfl fun _ _ => trivial) fun required _ _ => ?_
  split
  · exact .bindHolding (.attempt does_reconcileInner) fun _ _ _ => keeps_processReconciled
  · exact keeps_processReconciled

def Free (made : Calls) : Prop := ∀ gate, ¬ Holds gate made

theorem free_stable {made made' : Calls} (h : Free made)
    (hsame : ∀ gate, Holds gate made' ↔ Holds gate made) : Free made' :=
  fun gate hholds => h gate ((hsame gate).mp hholds)

theorem keeps_processIntent {intentId : Uuid} :
    Keeps (.worker intentId) Free (self.processIntent intentId) := by
  refine .withGate (fun made hfree => hfree .safety) (.withGate ?_ ?_)
  · rintro _ ⟨earlier, rfl, hfree⟩ hholds
    exact hholds.elim (fun h => nomatch h) (hfree _)
  · refine .weaken keeps_processIntentInner ?_
    rintro _ ⟨_, rfl, _, rfl, _⟩
    exact Or.inr (Or.inl rfl)

/-! ## Startup -/

theorem quietly_enqueueAllRecovered {ids : List Uuid}
    (hmay : ∀ made, (∀ e ∈ known, e ∈ made) → MayEnqueue task made) :
    Quietly task known (enqueueAllRecovered ids) := by
  induction ids generalizing known with
  | nil => exact .pure trivial
  | cons id rest ih =>
    have henqueue : Quietly task known (enqueueRecovered id) := by
      refine .storeBind rfl (fun _ _ => trivial) (fun intent => ?_) fun _ => trivial
      split
      · refine .perform rfl fun made hknown => hmay made fun e he => ?_
        exact hknown e (List.mem_cons_of_mem _ he)
      · exact .pure trivial
    refine henqueue.bind (fun _ _ _ => ih fun made hknown => ?_) fun _ _ _ => trivial
    exact hmay made fun e he => hknown e (List.mem_append_right _ he)

/-- The startup holds its gate and has seen to the control state it found. -/
structure Starting (made : Calls) : Prop where
  calm : Calm made
  gates : ∀ gate, Holds gate made ↔ gate = .safety
  controlled : Controlled made
  unready : ¬ ReadyWritten made

theorem controlled_append {made : Calls} (h : Controlled made) (added : Calls) :
    Controlled (added ++ made) := by
  rcases h with ⟨control, hmem, hstate⟩ | ⟨actor, next, reason, hmem⟩
  · exact Or.inl ⟨control, List.mem_append_right _ hmem, hstate⟩
  · exact Or.inr ⟨actor, next, reason, List.mem_append_right _ hmem⟩

theorem readyWritten_append {made added : Calls} (hquiet : AllQuiet added) :
    ReadyWritten (added ++ made) ↔ ReadyWritten made := by
  constructor
  · rintro ⟨actor, reason, idempotency, expected, hmem⟩
    rcases List.mem_append.mp hmem with hmem | hmem
    · exact absurd (hquiet _ hmem) (by simp [Call.quiet])
    · exact ⟨actor, reason, idempotency, expected, hmem⟩
  · rintro ⟨actor, reason, idempotency, expected, hmem⟩
    exact ⟨actor, reason, idempotency, expected, List.mem_append_right _ hmem⟩

theorem Starting.append {made added : Calls} (h : Starting made) (hquiet : AllQuiet added) :
    Starting (added ++ made) where
  calm := h.calm.append hquiet
  gates := fun gate => (holds_append hquiet).trans (h.gates gate)
  controlled := controlled_append h.controlled added
  unready := fun hready => h.unready ((readyWritten_append hquiet).mp hready)

/-- What the startup still promises after a part of it: its gate, and after a success more. -/
def StartingAfter {α : Type} (made : Calls) (result : Except CoordinatorError α) : Prop :=
  Calm made ∧ Holds .safety made ∧ ∀ value, result = .ok value → Starting made

theorem StartingAfter.of {α : Type} {made : Calls} {result : Except CoordinatorError α}
    (h : Starting made) : StartingAfter made result :=
  ⟨h.calm, (h.gates .safety).mpr rfl, fun _ _ => h⟩

theorem StartingAfter.error {α : Type} {made : Calls} {e : CoordinatorError} (hcalm : Calm made)
    (hholds : Holds .safety made) : StartingAfter made (.error e : Except CoordinatorError α) :=
  ⟨hcalm, hholds, fun _ h => nomatch h⟩

theorem Starting.wp {α : Type} {x : Action α} {made : Calls} (h : Starting made)
    (hx : Quietly .main [] x) : x.run.wp (Promise .main) StartingAfter made :=
  hx.wp h.calm (fun _ he => nomatch he) fun _ _ hquiet _ => .of (h.append hquiet)

theorem Starting.bind {α β : Type} {x : Action α} {f : α → Action β} {made : Calls}
    (h : Starting made) (hx : Quietly .main [] x)
    (hf : ∀ a made', Starting made' → (f a).run.wp (Promise .main) StartingAfter made') :
    (x >>= f).run.wp (Promise .main) StartingAfter made := by
  rw [Prog.wp_run_bind]
  refine Prog.wp_mono (h.wp hx) fun made' result ⟨hcalm, hholds, hstarting⟩ => ?_
  cases result with
  | error e => exact .error hcalm hholds
  | ok a => exact hf a made' (hstarting a rfl)

theorem wp_startupControl :
    startupControl.run.wp (Promise .main) StartingAfter [⟨.lock .safety, ()⟩] := by
  have hlocked : Calm [⟨.lock .safety, ()⟩] :=
    .of_cons (fun _ he => nomatch he) (fun h => (nomatch h)) id id
  have hread : ∀ r, Calm [⟨.store .serviceState, r⟩, ⟨.lock .safety, ()⟩] := fun r =>
    .of_cons hlocked.unserved (fun h => (nomatch h)) id id
  -- a control write after the read, which ends the part
  have hwrite : ∀ (control : ControlState) (actor reason : String) (next : ServiceState)
      (latched : Bool), next ≠ .ready →
      ControlPromise .main [done .serviceState control, ⟨.lock .safety, ()⟩] next none →
      (do setServiceState actor next reason; pure latched : Action Bool).run.wp (Promise .main)
        StartingAfter [done .serviceState control, ⟨.lock .safety, ()⟩] := by
    intro control actor reason next latched hnext hpromise
    refine Action.wp_storeBind.mpr
      ⟨(hread _).promise ⟨hpromise, trivial⟩, fun _ => ?_, fun e => ?_⟩
    · refine .of ⟨.of_cons (hread _).unserved (fun h => (nomatch h)) id id, fun gate => ?_,
        Or.inr ⟨actor, next, reason, List.mem_cons_self⟩, ?_⟩
      · exact ⟨fun h => h.elim Eq.symm False.elim, fun h => Or.inl h.symm⟩
      · rintro ⟨_, _, _, _, hmem⟩
        rcases List.mem_cons.mp hmem with heq | hmem
        · cases heq
          exact hnext rfl
        · rcases List.mem_cons.mp hmem with heq | hmem
          · cases heq
          · cases List.mem_singleton.mp hmem
    · exact .error (.of_cons (hread _).unserved (fun h => (nomatch h)) id id) (Or.inl rfl)
  refine Action.wp_storeBind.mpr
    ⟨hlocked.promise trivial, fun control => ?_, fun e => ?_⟩
  · split
    · exact hwrite control _ _ _ _ (by decide) rfl
    · rename_i hrunning
      split
      · rename_i hhalted
        refine .of ⟨hread _, fun gate => ?_, Or.inl ⟨control, List.mem_cons_self, hhalted⟩, ?_⟩
        · exact ⟨fun h => h.elim Eq.symm False.elim, fun h => Or.inl h.symm⟩
        · rintro ⟨_, _, _, _, hmem⟩
          rcases List.mem_cons.mp hmem with heq | hmem
          · cases heq
          · cases List.mem_singleton.mp hmem
      · rename_i hlive
        exact hwrite control _ _ _ _ (by decide) ⟨rfl, rfl, control, _, rfl, hlive, hrunning⟩
  · exact .error (hread _) (Or.inl rfl)

theorem quietly_replayCancellations {pending : List CancellationRecord} :
    Quietly task known (self.replayCancellations pending) := by
  induction pending generalizing known with
  | nil => exact .pure trivial
  | cons cancellation rest ih =>
    exact .bind quietly_executeCancellation (fun _ _ _ => ih) fun _ _ _ => trivial

theorem wp_startupRecovery {made : Calls} (h : Starting made) :
    self.startupRecovery.run.wp (Promise .main) StartingAfter made := by
  have hrest : Quietly .main [] (do
      let recoverable ← Action.store .recoverPreSubmissionWork
      let pending ← Action.store .pendingCancellations
      self.replayCancellations pending
      pure recoverable) := by
    refine .storeBind rfl (fun _ _ => trivial) (fun recoverable => ?_) fun _ => trivial
    refine .storeBind rfl (fun _ _ => trivial) (fun pending => ?_) fun _ => trivial
    exact .bind quietly_replayCancellations (fun _ _ _ => .pure trivial) fun _ _ _ => trivial
  refine h.bind (.store rfl fun _ _ => trivial) fun _ made h => ?_
  refine h.bind (.store rfl fun _ _ => trivial) fun _ made h => ?_
  refine Action.wp_storeBind.mpr ⟨h.calm.promise
    ⟨rfl, (h.gates .safety).mpr rfl, h.controlled, h.unready⟩, fun interrupted => ?_, fun e => ?_⟩
  · have hrecovered : Starting (done .recoverInterruptedSubmissions interrupted :: made) := by
      refine ⟨.of_cons h.calm.unserved (fun h => (nomatch h)) id id, h.gates,
        controlled_append h.controlled [_], ?_⟩
      rintro ⟨actor, reason, idempotency, expected, hmem⟩
      rcases List.mem_cons.mp hmem with heq | hmem
      · cases heq
      · exact h.unready ⟨actor, reason, idempotency, expected, hmem⟩
    dsimp only
    split
    · exact hrecovered.bind quietly_halted fun _ _ h => h.wp hrest
    · exact hrecovered.wp hrest
  · exact .error (.of_cons h.calm.unserved (fun h => (nomatch h)) id id) ((h.gates .safety).mpr rfl)

def HasReconciled (added : Calls) : Prop :=
  ∃ (id : Uuid) (after mid before : Calls), added = after ++ (mid ++ before) ∧ Reconciled id mid

theorem HasReconciled.extend {added : Calls} (h : HasReconciled added) (after before : Calls) :
    HasReconciled (after ++ (added ++ before)) := by
  obtain ⟨id, a, mid, b, rfl, hreconciled⟩ := h
  exact ⟨id, after ++ a, mid, b ++ before, by simp, hreconciled⟩

theorem does_supervisedHeartbeat :
    Does task known supervisedHeartbeat fun added result => result = .ok () →
      added = [⟨.markHealthyHeartbeat, ()⟩, asked .heartbeat (.ok ())] := by
  refine .performBind rfl (fun _ _ => trivial) fun answer => ?_
  cases answer with
  | ok =>
    intro made hcalm _
    refine Action.wp_perform.mpr
      ⟨hcalm.promise trivial, fun _ => ?_⟩
    exact ⟨[⟨.markHealthyHeartbeat, ()⟩], rfl, allQuiet_singleton rfl, fun _ => rfl⟩
  | error => exact .throw fun h => nomatch h
  | timeout => exact .throw fun h => nomatch h

theorem does_startupReconciliation :
    Does task known self.startupReconciliation fun added result =>
      result = .ok () → HasReconciled added := by
  refine .bind does_reconcileInner (fun id before hreconciled => ?_) fun _ _ _ h => nomatch h
  have hdone : ∀ added, HasReconciled (added ++ before) := fun added =>
    ⟨id, added, before, [], by simp, hreconciled id rfl⟩
  split
  · refine .attemptBind does_supervisedHeartbeat fun result beat _ => ?_
    cases result with
    | ok => exact .pure fun _ => hdone ([] ++ beat)
    | error =>
      dsimp only
      refine Does.mono quietly_haltInner ?_
      exact fun added _ _ _ => hdone (added ++ beat)
  · exact .pure fun _ => hdone []

theorem does_startupChecks {latched : Bool} :
    Does task known (self.startupChecks latched) fun added result =>
      result = .ok () → HasReconciled added := by
  unfold startupChecks
  dsimp only
  split
  · refine Does.bind quietly_cancelInner (fun _ before _ => ?_) fun _ _ _ h => nomatch h
    refine Does.mono does_startupReconciliation fun added _ h hok => ?_
    exact (h hok).extend [] before
  · exact does_startupReconciliation

/-- READY is written on what was read after the reconciliation of the startup. -/
theorem wp_startupDecision {recoverable : List Uuid} {made earlier added : Calls}
    (h : Starting made) (hmade : made = added ++ earlier) (hquiet : AllQuiet added)
    (hreconciled : HasReconciled added) :
    (startupDecision recoverable).run.wp (Promise .main)
      (fun made' _ => Calm made' ∧ Holds .safety made' ∧ Controlled made') made := by
  have hread : ∀ r, Calm (⟨.store .serviceState, r⟩ :: made) := fun r =>
    .of_cons h.calm.unserved (fun h => (nomatch h)) id id
  have hholds : Holds .safety made := (h.gates .safety).mpr rfl
  have hquietly : ∀ {x : Action Unit} {made : Calls}, Quietly .main [] x → Calm made →
      Holds .safety made → Controlled made → x.run.wp (Promise .main)
        (fun made' _ => Calm made' ∧ Holds .safety made' ∧ Controlled made') made :=
    fun hx hcalm hholds hcontrolled => hx.wp hcalm (fun _ he => nomatch he)
      fun added _ hquiet _ => ⟨hcalm.append hquiet, (holds_append hquiet).mpr hholds,
        controlled_append hcontrolled added⟩
  refine Action.wp_storeBind.mpr
    ⟨h.calm.promise trivial, fun control => ?_,
      fun e => ⟨hread _, hholds, controlled_append h.controlled [_]⟩⟩
  have hcontrolled : Controlled (done .serviceState control :: made) :=
    controlled_append h.controlled [_]
  split
  · exact hquietly (.perform rfl fun _ _ => trivial) (hread _) hholds hcontrolled
  · rename_i hlive
    refine Action.wp_storeBind.mpr ⟨(hread _).promise ?_, fun _ => ?_, fun _ => ?_⟩
    · obtain ⟨id, after, mid, before, rfl, hmid⟩ := hreconciled
      refine And.intro ?_ trivial
      refine ⟨rfl, hholds, hcontrolled, control, after, id, mid, before ++ earlier, ?_, hlive,
        fun e he => hquiet e (List.mem_append_left _ he),
        fun e he => hquiet e (List.mem_append_right _ (List.mem_append_left _ he)), hmid⟩
      rw [hmade]
      simp
    · have hready : Quietly .main
          [done (.setServiceState "system" .ready "startup checks passed" none none) ()]
          (enqueueAllRecovered recoverable) :=
        quietly_enqueueAllRecovered fun made hknown =>
          Or.inl ⟨rfl, _, _, _, _, hknown _ List.mem_cons_self⟩
      have hwritten : Calm (done (.setServiceState "system" .ready "startup checks passed" none
          none) () :: done .serviceState control :: made) :=
        .of_cons (hread _).unserved (fun h => (nomatch h)) id id
      refine hready.wp hwritten (fun e he => List.mem_singleton.mp he ▸ List.mem_cons_self)
        fun added _ hquiet _ => ⟨hwritten.append hquiet, (holds_append hquiet).mpr hholds,
          controlled_append (controlled_append hcontrolled [_]) added⟩
    · refine ⟨?_, hholds, controlled_append hcontrolled [_]⟩
      exact .of_cons (hread _).unserved (fun h => (nomatch h)) id id

theorem wp_startup : self.startup.run.wp (Promise .main) (fun made result =>
    Calm made ∧ ∀ value, result = .ok value → Controlled made) [] := by
  have hempty : Calm [] := ⟨fun _ he => (nomatch he), id, id⟩
  -- an error or the end of the startup drops the gate
  have hunlock : ∀ {made : Calls} {result : Except CoordinatorError Unit}, Calm made →
      Holds .safety made → (∀ value, result = .ok value → Controlled made) →
      Calm made ∧ Holds .safety made ∧ Calm (⟨.unlock .safety, ()⟩ :: made) ∧
        ∀ value, result = .ok value → Controlled (⟨.unlock .safety, ()⟩ :: made) :=
    fun hcalm hholds hcontrolled => ⟨hcalm, hholds,
      .of_cons hcalm.unserved (fun h => (nomatch h)) id id,
      fun value h => controlled_append (hcontrolled value h) [_]⟩
  refine wp_withGate hempty ?_
  unfold startupInner
  rw [Prog.wp_run_bind]
  refine Prog.wp_mono wp_startupControl fun made result ⟨hcalm, hholds, hstarting⟩ => ?_
  cases result with
  | error e => exact hunlock hcalm hholds fun _ h => nomatch h
  | ok latched =>
    dsimp only
    rw [Prog.wp_run_bind]
    refine Prog.wp_mono (wp_startupRecovery (hstarting latched rfl))
      fun made result ⟨hcalm, hholds, hstarting⟩ => ?_
    cases result with
    | error e => exact hunlock hcalm hholds fun _ h => nomatch h
    | ok recoverable =>
      have hstarting := hstarting recoverable rfl
      dsimp only
      rw [Prog.wp_run_bind]
      refine does_startupChecks.wp hcalm (fun _ he => absurd he List.not_mem_nil)
        fun added result hquiet hreconciled => ?_
      cases result with
      | error e =>
        exact hunlock (hcalm.append hquiet) ((holds_append hquiet).mpr hholds) fun _ h => nomatch h
      | ok =>
        refine Prog.wp_mono (wp_startupDecision (hstarting.append hquiet) rfl hquiet
          (hreconciled rfl)) fun made _ ⟨hcalm, hholds, hcontrolled⟩ => ?_
        exact hunlock hcalm hholds fun _ _ => hcontrolled

/-! ## Resume and shutdown -/

/-- READY is written at the revision that was read before the reconciliation. -/
theorem keeps_resumeInner {actorId key actor reason : String} {idempotency : Option Idempotency}
    {why : String} (hrecord : RecordsAs ["control.halt", "control.resume"] idempotency) :
    Keeps (.resume actorId key why) (Holds .safety)
      (self.resumeInner actor reason idempotency) := by
  unfold resumeInner
  split
  · exact .throw
  refine .bindQuietly (.storeValue rfl fun _ _ => trivial)
    (fun _ _ _ he => absurd he List.not_mem_nil) fun control before hread hbefore => ?_
  split
  · exact .throw
  rename_i hhalted
  have hhalted : control.state = .halted := not_not.mp hhalted
  refine .bindQuietly does_reconcileInner (fun _ _ _ he => absurd he List.not_mem_nil)
    fun id added hquiet hreconciled => ?_
  refine .bindQuietly does_supervisedHeartbeat (fun _ _ _ he => absurd he List.not_mem_nil)
    fun _ beat hbeatQuiet hbeat => ?_
  refine .bindQuietly (.storeValue rfl fun _ _ => trivial)
    (fun _ _ _ he => absurd he List.not_mem_nil) fun unresolved counted hcountedQuiet hcounted => ?_
  split
  · exact .throw
  rintro made hcalm ⟨_, rfl, _, rfl, _, rfl, earlier, rfl, hholds⟩
  obtain rfl := hbefore control rfl
  obtain rfl := hbeat rfl
  obtain rfl := hcounted unresolved rfl
  refine Action.wp_storeBind.mpr ⟨hcalm.promise ?_,
    fun _ => ?_, fun _ => ?_⟩
  · refine And.intro ?_ hrecord
    refine ⟨⟨actorId, key, why, rfl⟩, ?_, [done .unresolvedCriticalFindings unresolved,
      ⟨.markHealthyHeartbeat, ()⟩], id, added, control, earlier, rfl, hhalted, rfl, ?_, hquiet,
      hreconciled id rfl⟩
    · rw [holds_append hcountedQuiet, holds_append hbeatQuiet, holds_append hquiet,
        holds_append hread]
      exact hholds
    · exact hcountedQuiet.append (allQuiet_singleton rfl)
  · refine Prog.wp_mono (wp_quietly ?_ ?_) fun _ _ h => ⟨h.1, h.2⟩
    · exact .performBind rfl (fun _ _ => trivial) fun _ =>
        quietly_enqueueAllRecovered fun _ _ => Or.inr ⟨actorId, key, why, rfl⟩
    · exact .of_cons hcalm.unserved (fun h => (nomatch h)) (fun h => h) fun h => h
  · exact ⟨.of_cons hcalm.unserved (fun h => (nomatch h)) (fun h => h) fun h => h, fun _ => Iff.rfl⟩

theorem keeps_resumeIdempotent {actorId key reason : String} {actor key' reason' : String} :
    Keeps (.resume actorId key reason) Free (self.resumeIdempotent actor key' reason') := by
  refine .withGate (fun made hfree => hfree .safety)
    ((keeps_resumeInner (by simp [RecordsAs])).weaken ?_)
  rintro _ ⟨earlier, rfl, -⟩
  exact Or.inl rfl

theorem keeps_gated {α : Type} {gate : Gate} {x : Action α} (hx : Quietly task [] x) :
    Keeps task Free (Action.withGate gate x) :=
  .withGate (fun _ hfree => hfree gate) (.ofQuietly hx)

theorem keeps_cancellation {α : Type} {x : Action α} (hx : Quietly task [] x) :
    Keeps task Free (Action.withGate .cancellation (Action.withGate .orderLifecycle x)) := by
  refine .withGate (fun _ hfree => hfree .cancellation) (.withGate ?_ (.ofQuietly hx))
  rintro _ ⟨earlier, rfl, hfree⟩ hholds
  exact hholds.elim (fun h => nomatch h) (hfree _)

theorem keeps_reconcile {trigger : String} : Keeps task Free (self.reconcile trigger) :=
  keeps_gated does_reconcileInner.quietly

theorem keeps_cancel {actor : String} {request : CancellationRequest} :
    Keeps task Free (self.cancel actor request) :=
  keeps_cancellation quietly_cancelInner

theorem keeps_halt {actor reason : String} : Keeps task Free (self.halt actor reason) := by
  unfold halt
  split
  · exact .throw
  · exact .bind (.ofQuietly quietly_halted) (fun _ _ => free_stable) fun _ =>
      keeps_gated quietly_cancelOnHaltInner

theorem keeps_shutdown {cancelOnHalt : Bool} :
    Keeps .shutdown Free (self.shutdown cancelOnHalt) := by
  have hrest : Keeps .shutdown Free (do
      let _ ← self.reconcile "shutdown"
      setServiceState "system" .halted
        "graceful shutdown completed; explicit resume is required") :=
    .bind keeps_reconcile (fun _ _ => free_stable) fun _ => .ofQuietly quietly_halted
  refine .bind (.store (fun _ _ => ⟨⟨rfl, rfl⟩, trivial⟩) (fun _ _ => id) fun _ _ => id)
    (fun _ _ => free_stable) fun _ => ?_
  dsimp only
  split
  · exact .bind keeps_cancel (fun _ _ => free_stable) fun _ => hrest
  · exact hrest

theorem keeps_heartbeatTick : Keeps .heartbeat Free self.heartbeatTick := by
  have hhalted : ∀ reason trigger, Keeps .heartbeat Free (do
      let _ ← Action.attempt (self.halt "system" reason)
      let _ ← Action.attempt (self.reconcile trigger)
      pure ()) := fun _ _ =>
    .attemptBind keeps_halt (fun _ _ => free_stable) fun _ =>
      .attemptBind keeps_reconcile (fun _ _ => free_stable) fun _ => .pure
  refine .bind (.ofQuietly (.perform rfl fun _ _ => trivial)) (fun _ _ => free_stable)
    fun answer => ?_
  cases answer with
  | error => exact hhalted _ _
  | timeout => exact hhalted _ _
  | ok =>
    refine .bind (.ofQuietly (.perform rfl fun _ _ => trivial)) (fun _ _ => free_stable)
      fun _ => ?_
    refine .bind (.ofQuietly (.perform rfl fun _ _ => trivial)) (fun _ _ => free_stable)
      fun required => ?_
    split
    · exact .attemptBind keeps_reconcile (fun _ _ => free_stable) fun _ => .pure
    · exact .pure

/-! ## API handlers -/

theorem keeps_unlessReplayed {actorId key operation : String} {body : RequestBody}
    {mutation : Action Unit} (h : Keeps task Free mutation) :
    Keeps task Free (unlessReplayed actorId key operation body mutation) := by
  refine .bind (.ofQuietly (.store rfl fun _ _ => trivial)) (fun _ _ => free_stable)
    fun replay => ?_
  split
  · exact .pure
  · exact h

theorem quietly_handleSubmitIntent {actorId key : String} {request : OrderIntentRequest} :
    Quietly (.submitIntent actorId key request) known (handleSubmitIntent actorId key request) := by
  refine .storeBind rfl (fun _ _ => trivial) (fun replay => ?_) fun _ => trivial
  split
  · exact .pure trivial
  · refine .performBind rfl (fun _ _ => trivial) fun reserved => ?_
    split
    · refine .performBind rfl (fun _ _ => trivial) fun admission => ?_
      split
      · exact .perform rfl fun _ _ => ⟨actorId, key, request, rfl⟩
      · exact .perform rfl fun _ _ => trivial
      · exact .performBind rfl (fun _ _ => trivial) fun _ => .throw trivial
    · exact .throw trivial

theorem keeps_handleCancel {actorId key : String} {request : CancellationRequest} :
    Keeps task Free (handleCancel actorId key request) := by
  refine keeps_unlessReplayed ?_
  split
  · exact .throw
  · refine .ofQuietly (.storeBind rfl (fun _ _ => List.mem_singleton_self _) (fun created => ?_)
      fun _ => trivial)
    exact .perform rfl fun _ _ => trivial

theorem keeps_handleHalt {actorId key reason : String} :
    Keeps task Free (self.handleHalt actorId key reason) := by
  unfold handleHalt
  split
  · refine keeps_unlessReplayed ?_
    unfold haltIdempotent
    split
    · exact .throw
    · refine .ofQuietly (.storeBind rfl (fun _ _ => ⟨rfl, List.mem_cons_self⟩) (fun _ => ?_)
        fun _ => trivial)
      exact quietly_spawnProtectiveCancellation
  · exact .throw

theorem keeps_handleResume {actorId key reason : String} :
    Keeps (.resume actorId key reason) Free (self.handleResume actorId key reason) := by
  unfold handleResume
  split
  · exact keeps_unlessReplayed keeps_resumeIdempotent
  · exact .throw

theorem keeps_handleReconcile {actorId key : String} :
    Keeps task Free (handleReconcile actorId key) := by
  refine keeps_unlessReplayed (.ofQuietly ?_)
  refine .storeBind rfl (fun _ _ => List.mem_singleton_self _) (fun id => ?_) fun _ => trivial
  exact .perform rfl fun _ hmade => ⟨_, _, hmade _ List.mem_cons_self⟩

/-! ## Every task -/

theorem quietly_background {call : StoreCall} (hcall : call.background = true) :
    Quietly task known (Action.store call) := by
  cases call with
  | startBackup actor idempotency =>
    refine .store rfl fun _ _ => ?_
    cases idempotency with
    | none => trivial
    | some idempotency => exact List.mem_singleton.mpr (of_decide_eq_true hcall)
  | _ =>
    first
    | exact .store rfl fun _ _ => trivial
    | cases hcall

theorem keeps_action (hoperation : ∀ call, task = .operation call → call.background = true)
    (hmain : task ≠ .main) : Keeps task Free (self.action task) := by
  cases task with
  | main => exact absurd rfl hmain
  | worker =>
    exact .attemptBind keeps_processIntent (fun _ _ => free_stable) fun _ =>
      .ofQuietly (.perform rfl fun _ _ => trivial)
  | scheduledReconciliation => exact .bindPure keeps_reconcile
  | heartbeat => exact keeps_heartbeatTick
  | shutdown => exact keeps_shutdown
  | submitIntent => exact .ofQuietly quietly_handleSubmitIntent
  | cancel => exact keeps_handleCancel
  | halt => exact keeps_handleHalt
  | resume => exact keeps_handleResume
  | reconcile => exact keeps_handleReconcile
  | cancellation => exact keeps_cancellation quietly_executeCancellation
  | reconciliation =>
    exact .bindPure (keeps_gated (does_reconcileStarted (Or.inl rfl)).quietly)
  | protectiveCancellation => exact .bindPure keeps_cancel
  | operation call => exact .bindPure (.ofQuietly (quietly_background (hoperation call rfl)))

/-- Every task that may begin keeps its promise. -/
theorem program_promised {m m' : Memory} (harrives : task.arrives self.requiresHeartbeat m m') :
    (self.program task).wp (Promise task) (fun _ _ => True) [] := by
  have hcalm : Calm [] := ⟨fun _ he => (nomatch he), id, id⟩
  have hfree : Free [] := fun _ => id
  by_cases hmain : task = .main
  · subst hmain
    refine (Prog.wp_run_bind (x := self.startup)).mpr (Prog.wp_mono wp_startup ?_)
    intro made result ⟨hcalm', hcontrolled⟩
    cases result with
    | error => trivial
    | ok value =>
      exact Action.wp_perform.mpr ⟨hcalm'.promise ⟨rfl, hcontrolled value rfl⟩, fun _ => trivial⟩
  · refine Prog.wp_mono (keeps_action ?_ hmain [] hcalm hfree) fun _ _ _ => trivial
    rintro call rfl
    exact harrives.1

end Coordinator

end OddsfoxExecution
