import OddsfoxExecution.Coordinator.Gates
import OddsfoxExecution.Expiry
import OddsfoxExecution.ExposureAgreement
import OddsfoxExecution.Library.Traces
import OddsfoxExecution.Store.PreparedOrders

/-!
# Where a submission comes from

Every order that reaches the venue goes back, through the journal and over any
number of processes, to one turn of its intent's worker: that turn read the
intent, found its request valid, looked at the market and the book, had the
risk approved for that very request, and had the venue prepare the order.
-/

namespace OddsfoxExecution

/-! ## What the worker has behind it when it creates an order -/

/-- The task read the intent and found its request valid, the market and the book in order, and
the risk approved. -/
structure Coordinator.Approved (executor : Coordinator) (intentId : Uuid)
    (request : OrderIntentRequest) (market : MarketRules) (made : Calls) : Prop where
  intent : ∃ intent, done (.getIntent intentId) intent ∈ made ∧ intent.state = .received ∧
    intent.request = request
  valid : ∃ now, (⟨.now, now⟩ : Sigma Call.Answer) ∈ made ∧ request.validate now = .ok ()
  rules : asked (.marketRules request.conditionId request.tokenId) (.ok market) ∈ made
  risk : ∃ book now decision, asked (.orderBook request.tokenId) (.ok book) ∈ made ∧
    (⟨.now, now⟩ : Sigma Call.Answer) ∈ made ∧
    executor.validateFreshnessAndIncrements request market book now = .ok () ∧
    done (.evaluateAndReserveRisk intentId request market book executor.policy) decision ∈ made ∧
    decision.approved = true

theorem Coordinator.Approved.mono {self : Coordinator} {intentId : Uuid}
    {request : OrderIntentRequest} {market : MarketRules} {made made' : Calls}
    (h : self.Approved intentId request market made) (hsub : made ⊆ made') :
    self.Approved intentId request market made' := by
  obtain ⟨⟨intent, hread, hintent⟩, ⟨now, hnow, hvalid⟩, hrules, risk⟩ := h
  obtain ⟨book, later, decision, hbook, hlater, hfresh, hdecided, happroved⟩ := risk
  exact ⟨⟨intent, hsub hread, hintent⟩, ⟨now, hsub hnow, hvalid⟩, hsub hrules,
    book, later, decision, hsub hbook, hsub hlater, hfresh, hsub hdecided, happroved⟩

/-- Only a worker creates an order, one the venue prepared for the approved request. -/
def CreationPromise (self : Coordinator) (task : Task) (made : Calls) (c : Call) : Prop :=
  ∀ intentId request prepared version feeRate,
    c = .store (.createPreparedOrder intentId request prepared version feeRate) →
      task = .worker intentId ∧ version = self.policy.version ∧
        asked (.prepare intentId request) (.ok prepared) ∈ made ∧
        ∃ market, self.Approved intentId request market made ∧
          feeRate = max market.makerFeeRate market.takerFeeRate

def Call.creates : Call → Bool
  | .store call => call.creates
  | _ => false

theorem creation_of_other {self : Coordinator} {task : Task} {made : Calls} {c : Call}
    (hc : c.creates = false) : CreationPromise self task made c := by
  rintro intentId request prepared version feeRate rfl
  cases hc

theorem Call.not_creates_of_tends {c : Call} (h : c.tends = true) : c.creates = false := by
  cases hcreates : c.creates with
  | false => rfl
  | true =>
    unfold creates at hcreates
    split at hcreates
    · unfold StoreCall.creates at hcreates
      split at hcreates
      · cases h
      · cases hcreates
    · cases hcreates

abbrev CreatesNone {α : Type} (x : Action α) : Prop := Makes (fun c => c.creates = false) x

theorem Tends.createsNone {α : Type} {x : Action α} (h : Tends x) : CreatesNone x :=
  h.mono fun _ => Call.not_creates_of_tends

theorem CreatesNone.promised {α : Type} {x : Action α} (h : CreatesNone x) {self : Coordinator}
    {task : Task} {made : Calls} :
    x.run.wp (CreationPromise self task) (fun _ _ => True) made :=
  Prog.wp_promise (h made) fun _ _ hc => creation_of_other hc

/-- What comes after a function that creates no order keeps the promise if it does so wherever it
begins. -/
theorem CreatesNone.promisedBind {α β : Type} {x : Action α} {f : α → Action β}
    (h : CreatesNone x) {self : Coordinator} {task : Task} {made : Calls}
    (hf : ∀ a made, (f a).run.wp (CreationPromise self task) (fun _ _ => True) made) :
    (x >>= f).run.wp (CreationPromise self task) (fun _ _ => True) made := by
  rw [Prog.wp_run_bind]
  refine Prog.wp_mono h.promised fun made' result _ => ?_
  cases result with
  | ok a => exact hf a made'
  | error e => trivial

namespace Coordinator

variable {self : Coordinator} {intentId : Uuid} {request : OrderIntentRequest}

/-! ## The worker's functions -/

theorem createsNone_recordSubmission {orderId : Uuid} {prepared : PreparedVenueOrder}
    {submission : Except VenueError VenueSubmission} :
    CreatesNone (self.recordSubmission intentId orderId prepared submission) := by
  have hhalt : ∀ reason trigger, CreatesNone (do
      self.haltInner "system" reason
      let _ ← Action.attempt (self.reconcileInner trigger)) := fun _ _ =>
    .bind tends_haltInner.createsNone fun _ =>
      .bind (.attempt tends_reconcileInner.createsNone) fun _ => .pure
  unfold recordSubmission
  split
  · exact .store rfl
  · split
    · exact .bind (.store rfl) fun _ => hhalt _ _
    · refine .bind (.store rfl) fun _ => ?_
      split
      · exact hhalt _ _
      · exact .pure

theorem createsNone_submitPrepared {orderId : Uuid} {prepared : PreparedVenueOrder} :
    CreatesNone (self.submitPrepared intentId orderId prepared request) := by
  refine .bind (.store rfl) fun control => ?_
  split
  · refine .bind (.store rfl) fun intent => ?_
    split
    · exact .perform rfl
    · exact .pure
  · refine .bind (.perform rfl) fun begun => ?_
    split
    · exact .bind (.perform rfl) fun _ => createsNone_recordSubmission
    · exact .perform rfl
    · exact .throw

/-- The market and the book a worker goes on with are what the venue answered. -/
theorem gives_marketData :
    Prog.Gives (fun c : Call => c.tends = true) (self.marketData intentId request)
      fun added data => ∀ market book, data = some (market, book) →
        asked (.marketRules request.conditionId request.tokenId) (.ok market) ∈ added ∧
          asked (.orderBook request.tokenId) (.ok book) ∈ added := by
  -- whatever is done where an answer is missing, nothing is given
  have hnone : ∀ {x : Action Unit}, Tends x →
      Prog.Gives (fun c : Call => c.tends = true) (x >>= fun _ => pure none)
        fun _ (data : Option (MarketRules × OrderBook)) => data = none := fun hx =>
    .bind (.of_calls hx) fun _ _ _ => .pure rfl
  have hhalted : ∀ code message e trigger,
      Prog.Gives (fun c : Call => c.tends = true) (do
        self.rejectValidating intentId code message
        self.haltForVenueError e trigger
        pure none) fun _ (data : Option (MarketRules × OrderBook)) => data = none := fun _ _ _ _ =>
    .bind (.of_calls tends_rejectValidating) fun _ _ _ => hnone tends_haltForVenueError
  refine .performBind rfl fun answer => ?_
  cases answer with
  | error e => exact (hhalted _ _ _ _).mono fun _ _ hdata _ _ h => nomatch hdata.symm.trans h
  | timeout =>
    exact (hnone tends_rejectValidating).mono fun _ _ hdata _ _ h => nomatch hdata.symm.trans h
  | ok market =>
    refine .performBind rfl fun answer => ?_
    cases answer with
    | error e => exact (hhalted _ _ _ _).mono fun _ _ hdata _ _ h => nomatch hdata.symm.trans h
    | timeout =>
      exact (hnone tends_rejectValidating).mono fun _ _ hdata _ _ h => nomatch hdata.symm.trans h
    | ok book =>
      refine .pure fun market' book' hdata => ?_
      cases hdata
      simp

theorem prepareAndSubmit_creates {market : MarketRules} {made : Calls}
    (happroved : self.Approved intentId request market made) :
    (self.prepareAndSubmit intentId request market).run.wp
      (CreationPromise self (.worker intentId)) (fun _ _ => True) made := by
  refine Action.wp_storeBind.mpr ⟨creation_of_other rfl, fun _ => ?_, fun _ => trivial⟩
  refine Action.wp_performBind.mpr ⟨creation_of_other rfl, fun answer => ?_⟩
  cases answer with
  | error e =>
    exact CreatesNone.promised (.bind (.store rfl) fun _ => tends_haltForVenueError.createsNone)
  | timeout => exact CreatesNone.promised (.store rfl)
  | ok prepared =>
    refine Action.wp_storeBind.mpr ⟨?_, fun _ => createsNone_submitPrepared.promised,
      fun _ => trivial⟩
    rintro _ _ _ _ _ ⟨⟩
    exact ⟨rfl, rfl, List.mem_cons_self, market,
      happroved.mono fun _ he => List.mem_cons_of_mem _ (List.mem_cons_of_mem _ he), rfl⟩

/-- The worker creates the order of an intent it found RECEIVED and approved. -/
theorem processReceived_creates {made : Calls} {intent : IntentRecord}
    (hread : done (.getIntent intentId) intent ∈ made) (hreceived : intent.state = .received)
    (hrequest : intent.request = request) :
    (self.processReceived intentId request).run.wp
      (CreationPromise self (.worker intentId)) (fun _ _ => True) made := by
  refine Action.wp_storeBind.mpr ⟨creation_of_other rfl, fun _ => ?_, fun _ => trivial⟩
  refine Action.wp_performBind.mpr ⟨creation_of_other rfl, fun now => ?_⟩
  split
  · exact CreatesNone.promised (.bind (.store rfl) fun _ => .bind (.store rfl) fun _ => .pure)
  · rename_i hvalid
    refine gives_marketData.wpBind (I := fun _ => True) trivial (fun _ _ _ _ _ => trivial)
      (fun _ _ _ hc => creation_of_other (Call.not_creates_of_tends hc))
      (fun added data _ hdata => ?_) fun _ _ _ => trivial
    split
    · exact CreatesNone.promised .pure
    · rename_i market book
      obtain ⟨hmarket, hbook⟩ := hdata market book rfl
      refine Action.wp_performBind.mpr ⟨creation_of_other rfl, fun later => ?_⟩
      split
      · exact tends_rejectValidating.createsNone.promised
      · rename_i hfresh
        refine Action.wp_storeBind.mpr ⟨creation_of_other rfl, fun decision => ?_,
          fun _ => trivial⟩
        split
        · rename_i happroved
          refine prepareAndSubmit_creates ⟨⟨intent, by simp [hread], hreceived, hrequest⟩,
            ⟨now, by simp, hvalid⟩, by simp [hmarket], book, later, decision, by simp [hbook],
            by simp, hfresh, List.mem_cons_self, happroved⟩
        · exact CreatesNone.promised .pure

theorem processReady_creates {made : Calls} :
    (self.processReady intentId).run.wp (CreationPromise self (.worker intentId))
      (fun _ _ => True) made := by
  refine Action.wp_storeBind.mpr ⟨creation_of_other rfl, fun intent => ?_, fun _ => trivial⟩
  split
  · exact CreatesNone.promised (.bind (.store rfl) fun _ => createsNone_submitPrepared)
  · split
    · exact processReceived_creates List.mem_cons_self ‹_› rfl
    · exact CreatesNone.promised .throw

theorem processReconciled_creates {made : Calls} :
    (self.processReconciled intentId).run.wp (CreationPromise self (.worker intentId))
      (fun _ _ => True) made := by
  refine tends_executionHealthFailure.createsNone.promisedBind fun failure made => ?_
  cases failure with
  | some reason =>
    exact CreatesNone.promised
      (.bind tends_haltInner.createsNone fun _ => tends_rejectReceived.createsNone)
  | none =>
    refine CreatesNone.promisedBind (.store rfl) fun control made => ?_
    split
    · exact processReady_creates
    · exact tends_rejectReceived.createsNone.promised

theorem processIntentInner_creates {made : Calls} :
    (self.processIntentInner intentId).run.wp (CreationPromise self (.worker intentId))
      (fun _ _ => True) made := by
  refine CreatesNone.promisedBind (.perform rfl) fun required made => ?_
  split
  · exact CreatesNone.promisedBind (.attempt tends_reconcileInner.createsNone)
      fun _ _ => processReconciled_creates
  · exact processReconciled_creates

/-- A gate around a function changes nothing about what it creates. -/
theorem creates_withGate {α : Type} {task : Task} {gate : Gate} {x : Action α} {made : Calls}
    (hx : ∀ made, x.run.wp (CreationPromise self task) (fun _ _ => True) made) :
    (Action.withGate gate x).run.wp (CreationPromise self task) (fun _ _ => True) made := by
  refine Action.wp_performBind.mpr ⟨creation_of_other rfl, fun _ => ?_⟩
  refine Action.wp_attemptBind.mpr (Prog.wp_mono (hx _) fun made result _ => ?_)
  refine Action.wp_performBind.mpr ⟨creation_of_other rfl, fun _ => ?_⟩
  cases result <;> trivial

/-- Every task creates only orders of approved intents; none but a worker's turn creates any. -/
theorem program_creates {m m' : Memory} {task : Task}
    (harrives : task.arrives self.requiresHeartbeat m m') :
    (self.program task).wp (CreationPromise self task) (fun _ _ => True) [] := by
  cases task with
  | worker intentId =>
    refine Action.wp_attemptBind.mpr (Prog.wp_mono (creates_withGate fun _ =>
      creates_withGate fun _ => processIntentInner_creates) fun made result _ => ?_)
    exact Action.wp_perform.mpr ⟨creation_of_other rfl, fun _ => trivial⟩
  | _ =>
    refine Prog.wp_mono (Prog.wp_promise (program_gated harrives) ?_) fun _ _ _ => trivial
    rintro made c hgated intentId request prepared version feeRate rfl
    obtain ⟨⟨id, htask⟩, -⟩ := hgated.placing rfl
    cases htask

end Coordinator

/-! ## Where the rows come from -/

/-- An earlier call of the run created the row. -/
def JournaledIn (history : List CallEvent) (row : PreparedOrder) : Prop :=
  ∃ k ∈ history, ∃ request prepared version feeRate order,
    k.entry =
        done (.createPreparedOrder row.intentId request prepared version feeRate) order ∧
      row.Journals prepared

theorem JournaledIn.cons {history : List CallEvent} {row : PreparedOrder}
    (h : JournaledIn history row) (e : CallEvent) : JournaledIn (e :: history) row := by
  obtain ⟨k, hk, hcreated⟩ := h
  exact ⟨k, List.mem_cons_of_mem _ hk, hcreated⟩

/-- A store operation leaves the prepared orders, or adds the one it creates. -/
theorem StoreCall.after_journaled {config : StoreConfig} {now : Time} {db : Db}
    (call : StoreCall) {row : PreparedOrder}
    (hrow : row ∈ (call.after config now db).preparedOrders) :
    row ∈ db.preparedOrders ∨ ∃ request prepared version feeRate order,
      (⟨.store call, call.answer config now db⟩ : Sigma Call.Answer) =
          done (.createPreparedOrder row.intentId request prepared version feeRate) order ∧
        row.Journals prepared := by
  unfold StoreCall.after at hrow
  cases hrun : call.run config now db with
  | error e =>
    rw [hrun] at hrow
    exact Or.inl hrow
  | ok r =>
    rw [hrun] at hrow
    cases hcreates : call.creates with
    | false => exact Or.inl ((StoreCall.run_prepared hrun hcreates).prepared ▸ hrow)
    | true =>
      cases call with
      | createPreparedOrder intentId request prepared version feeRate =>
        obtain ⟨new, hrows, rfl, hjournals⟩ := createPreparedOrder_row hrun
        rcases List.mem_append.mp (hrows ▸ hrow) with hold | hnew
        · exact Or.inl hold
        · obtain rfl := List.mem_singleton.mp hnew
          refine Or.inr ⟨request, prepared, version, feeRate, r.value, ?_, hjournals⟩
          unfold StoreCall.answer
          rw [hrun]
          rfl
      | _ => cases hcreates

namespace Coordinator.Reaches

variable {self : Coordinator} {config : StoreConfig} {guard : CallGuard} {s : System}

/-- Every prepared row of a run was created by one of its calls. -/
theorem journaled (h : self.Reaches config guard s) :
    ∀ row ∈ s.memory.db.preparedOrders, JournaledIn s.history row := by
  induction h with
  | start => exact fun row hrow => absurd hrow List.not_mem_nil
  | @call p t task made c next r memory hp ht hanswer hguard ih =>
    intro row hrow
    have hrow : row ∈ memory.db.preparedOrders := hrow
    by_cases hstore : ∃ call, c = .store call
    · obtain ⟨call, rfl⟩ := hstore
      obtain ⟨now, rfl, rfl⟩ := hanswer
      rcases call.after_journaled hrow with hold | ⟨request, prepared, version, rate, order, hnew⟩
      · exact (ih row hold).cons _
      · exact ⟨_, List.mem_cons_self, request, prepared, version, rate, order, hnew⟩
    · rw [(Call.answers_db hanswer fun call heq => hstore ⟨call, heq⟩).1] at hrow
      exact (ih row hrow).cons _
  | arrive _ harrives ih =>
    obtain ⟨hdb, -⟩ := Task.arrives_frame harrives
    exact fun row hrow => ih row (hdb ▸ hrow)
  | drop _ _ _ ih => exact ih
  | surroundings _ hchange ih =>
    obtain ⟨_, ⟨_, _, _, _, _, _, rfl⟩, rfl⟩ := hchange
    exact ih
  | crash _ ih => exact ih

/-- What was read of an intent is what the intent asks for to this day. -/
theorem request_stays (h : self.Reaches config guard s) {e : CallEvent} (he : e ∈ s.history)
    {intentId : Uuid} {intent : IntentRecord}
    (hread : e.entry = done (.getIntent intentId) intent) :
    ∃ i ∈ s.memory.db.intents, i.id = intentId ∧ i.request = intent.request := by
  obtain ⟨hpast, now, r, hrun, hvalue, -⟩ := h.committed he hread
  obtain ⟨hfound, -⟩ := StoreCall.query_ok hrun
  split at hfound
  · cases hfound
  · rename_i i₀ hi₀
    obtain ⟨hmem, hid₀⟩ := find?_mem hi₀
    have hsame : i₀ = intent := (Except.ok.inj hfound).trans hvalue
    subst hsame
    obtain ⟨i, hi, hterms⟩ := List.mem_map.mp
      (h.storeRun.terms_stay _ hpast i₀.terms (List.mem_map_of_mem hmem))
    simp only [IntentRecord.terms, Prod.mk.injEq] at hterms
    exact ⟨i, hi, hterms.1.trans hid₀, hterms.2.2.2.2⟩

theorem request_same (h : self.Reaches config guard s) {e e' : CallEvent} (he : e ∈ s.history)
    (he' : e' ∈ s.history) {intentId : Uuid} {intent intent' : IntentRecord}
    (hread : e.entry = done (.getIntent intentId) intent)
    (hread' : e'.entry = done (.getIntent intentId) intent') :
    intent.request = intent'.request := by
  obtain ⟨i, hi, hid, hrequest⟩ := h.request_stays he hread
  obtain ⟨i', hi', hid', hrequest'⟩ := h.request_stays he' hread'
  obtain rfl : i = i' :=
    Table.eq_of_key_eq h.coherent.intentIds hi hi' (hid.trans hid'.symm)
  exact hrequest.symm.trans hrequest'

end Coordinator.Reaches

/-! ## Where a submission comes from -/

/-- The order as the venue prepared it, or as the journal gives it back. -/
def Restored (original prepared : PreparedVenueOrder) : Prop :=
  prepared = original ∨ ∃ text, original.normalizedJson.canonical = some text ∧
    prepared = { original with normalizedJson := ⟨text, some text⟩ }

/-- The call created the order of the intent in a turn of its worker that had the request approved,
from what the venue prepared for it. -/
structure Coordinator.CreatedIn (executor : Coordinator) (intentId : Uuid)
    (request : OrderIntentRequest) (prepared : PreparedVenueOrder) (k : CallEvent)
    (earlier : List CallEvent) : Prop where
  task : k.task = .worker intentId
  created : ∃ original market order, k.entry = done (.createPreparedOrder intentId request original
      executor.policy.version (max market.makerFeeRate market.takerFeeRate)) order ∧
    asked (.prepare intentId request) (.ok original) ∈ ownCalls k.thread earlier ∧
    Restored original prepared ∧
    executor.Approved intentId request market (ownCalls k.thread earlier)

/-- The call approved the risk of the request by `evaluate`, on the portfolio of the database it
found. -/
def Coordinator.Evaluates (executor : Coordinator) (intentId : Uuid)
    (request : OrderIntentRequest) (market : MarketRules) (book : OrderBook) (d : CallEvent) :
    Prop :=
  ∃ now r snapshot,
    d.entry = done (.evaluateAndReserveRisk intentId request market book executor.policy) r.value ∧
    evaluateAndReserveRisk intentId request market book executor.policy now d.found.db = .ok r ∧
    d.found.db.riskSnapshot request.conditionId request.tokenId now = .ok snapshot ∧
    r.value = executor.policy.evaluate request market book snapshot ∧ r.value.approved = true

theorem preparedSubmission_row {db : Db} {intentId : Uuid} {persisted : PreparedSubmission}
    (h : preparedSubmission intentId db = .ok persisted) :
    ∃ row ∈ db.preparedOrders, row.intentId = intentId ∧
      ∀ {original : PreparedVenueOrder}, row.Journals original →
        Restored original persisted.venueOrder := by
  unfold preparedSubmission at h
  split at h
  · cases h
  · rename_i rest hrows
    split at h
    · cases h
    · cases h
      have hrow : persisted ∈ db.preparedSubmissions intentId := hrows ▸ List.mem_cons_self
      simp only [Db.preparedSubmissions, List.mem_flatMap, List.mem_filter, List.mem_map,
        decide_eq_true_eq] at hrow
      obtain ⟨o, ⟨-, howner, -⟩, p, ⟨hp, hintent⟩, -, -, rfl⟩ := hrow
      refine ⟨p, hp, hintent.trans howner, fun hjournals => Or.inr ⟨p.normalizedJson,
        hjournals.normalized, ?_⟩⟩
      simp only [PreparedSubmission.venueOrder, hjournals.signed, hjournals.orderId,
        hjournals.signer, hjournals.funder, hjournals.protocol, hjournals.sdk]

namespace Coordinator.Reaches

variable {self : Coordinator} {config : StoreConfig} {guard : CallGuard} {s : System}

theorem creation_kept (h : self.Reaches config guard s) {after before : List CallEvent}
    {e : CallEvent} (heq : s.history = after ++ e :: before) :
    CreationPromise self e.task (ownCalls e.thread before) e.entry.1 :=
  Machine.Reaches.kept (fun _ _ _ harrives => program_creates harrives) h heq

/-- The creation of the order a worker goes on to submit. -/
theorem prepared_created (h : self.Reaches config guard s) {t : Nat} {intentId orderId : Uuid}
    {prepared : PreparedVenueOrder}
    (hprepared : PreparedIn (ownCalls t s.history) intentId orderId prepared) :
    ∃ k ∈ s.history, ∃ request original version feeRate order,
      k.entry = done (.createPreparedOrder intentId request original version feeRate) order ∧
        Restored original prepared := by
  rcases hprepared with ⟨persisted, hmem, -, rfl⟩ | ⟨request, version, feeRate, order, hmem, -⟩
  · -- read from the journal, perhaps by a later process than the one that wrote it
    obtain ⟨e, he, -, hentry⟩ := mem_ownCalls.mp hmem
    obtain ⟨after, before, heq⟩ := List.append_of_mem he
    obtain ⟨p, next, memory, hp, hmemory, rfl, -⟩ := h.moment heq
    have hp : self.Reaches config guard p := hp
    obtain ⟨-, now, r, hrun, rfl, -⟩ := h.committed he hentry
    obtain ⟨row, hrow, rfl, hrestored⟩ := preparedSubmission_row (StoreCall.query_ok hrun).1
    obtain ⟨k, hk, request, original, version, feeRate, order, hcreated, hjournals⟩ :=
      hp.journaled row (hmemory ▸ hrow)
    exact ⟨k, heq ▸ by simp [hk], request, original, version, feeRate, order, hcreated,
      hrestored hjournals⟩
  · obtain ⟨e, he, -, hentry⟩ := mem_ownCalls.mp hmem
    exact ⟨e, he, request, prepared, version, feeRate, order, hentry, Or.inl rfl⟩

/-- The creation behind a submission is of the very request that is submitted. -/
theorem submission_created (h : self.Reaches config guard s) {after before : List CallEvent}
    {e : CallEvent} (heq : s.history = after ++ e :: before) {prepared : PreparedVenueOrder}
    {request : OrderIntentRequest} {answer : VenueAnswer VenueSubmission}
    (hentry : e.entry = asked (.submit prepared request) answer) :
    ∃ intentId between k earlier, e.task = .worker intentId ∧
      before = between ++ k :: earlier ∧ self.CreatedIn intentId request prepared k earlier := by
  obtain ⟨intentId, b, between, earlier, rfl, horigin⟩ := h.origin heq hentry
  obtain ⟨orderId, hprepared⟩ := horigin.prepared
  -- the creation, at the moment the submission began
  have heqb : s.history = (after ++ e :: between) ++ b :: earlier := by simp [heq]
  obtain ⟨p, next, memory, hp, -, rfl, -⟩ := h.moment heqb
  have hp : self.Reaches config guard p := hp
  obtain ⟨k, hk, request', original, version, feeRate, order, hcreated, hrestored⟩ :=
    hp.prepared_created hprepared
  obtain ⟨a, earliest, hsplit⟩ := List.append_of_mem hk
  have heqk : s.history = (after ++ e :: between ++ b :: a) ++ k :: earliest := by
    simp [heq, hsplit]
  have hkept := h.creation_kept heqk
  rw [hcreated] at hkept
  obtain ⟨htask, rfl, hasked, market, happroved, rfl⟩ := hkept _ _ _ _ _ rfl
  -- both turns read the intent, and read the same request
  have hvetted := Machine.Reaches.kept (fun _ task _ _ => program_vets task) h heq intentId
    prepared request horigin.task (congrArg Sigma.fst hentry)
  obtain ⟨own, intent, first, hown, hrequest, -⟩ := hvetted
  obtain ⟨e₁, he₁, -, hread₁⟩ := mem_ownCalls.mp
    (hown ▸ List.mem_append_right _ List.mem_cons_self :
      done (.getIntent intentId) intent ∈ ownCalls e.thread (between ++ b :: p.history))
  obtain ⟨intent', hmem, -, hrequest'⟩ := happroved.intent
  obtain ⟨e₂, he₂, -, hread₂⟩ := mem_ownCalls.mp hmem
  have hsame := h.request_same (heq ▸ by simp_all) (heqk ▸ by simp [he₂]) hread₁ hread₂
  rw [hrequest, hrequest'] at hsame
  subst hsame
  exact ⟨intentId, between ++ b :: a, k, earliest, horigin.task, by simp [hsplit], htask,
    original, market, order, hcreated, hasked, hrestored, happroved⟩

/-- The approval was given by `evaluate` on the portfolio the database had at the time. -/
theorem approval_evaluated (h : self.Reaches config guard s) {t : Nat} {intentId : Uuid}
    {request : OrderIntentRequest} {market : MarketRules} {earlier : List CallEvent}
    (hsub : earlier ⊆ s.history)
    (happroved : self.Approved intentId request market (ownCalls t earlier)) :
    ∃ d ∈ earlier, d.thread = t ∧ ∃ book,
      asked (.orderBook request.tokenId) (.ok book) ∈ ownCalls t earlier ∧
        self.Evaluates intentId request market book d := by
  obtain ⟨book, now, decision, hbook, -, -, hdecided, hdecision⟩ := happroved.risk
  obtain ⟨d, hd, hthread, hentry⟩ := mem_ownCalls.mp hdecided
  obtain ⟨-, later, r, hrun, rfl, -⟩ := h.committed (hsub hd) hentry
  obtain ⟨snapshot, row, hsnapshot, hvalue, -⟩ := evaluateAndReserveRisk_approved hrun hdecision
  exact ⟨d, hd, hthread, book, hbook, later, r, snapshot, hentry, hrun, hsnapshot, hvalue,
    hdecision⟩

/-- An order reaches the venue only after a turn of its intent's worker that found the intent
RECEIVED and its request valid, the market and the book as the venue gave them in order, and the
risk approved by `evaluate` on the portfolio the database had, and had the venue prepare the order;
the submission is of that very request, in the form the journal keeps.  The turn may be one of an
earlier process. -/
theorem submission_origin (h : self.Reaches config guard s) {after before : List CallEvent}
    {e : CallEvent} (heq : s.history = after ++ e :: before) {prepared : PreparedVenueOrder}
    {request : OrderIntentRequest} {answer : VenueAnswer VenueSubmission}
    (hentry : e.entry = asked (.submit prepared request) answer) :
    ∃ intentId between k earlier, e.task = .worker intentId ∧
      before = between ++ k :: earlier ∧ self.CreatedIn intentId request prepared k earlier ∧
      ∃ d ∈ earlier, d.thread = k.thread ∧ ∃ market book,
        self.Approved intentId request market (ownCalls k.thread earlier) ∧
          asked (.orderBook request.tokenId) (.ok book) ∈ ownCalls k.thread earlier ∧
          self.Evaluates intentId request market book d := by
  obtain ⟨intentId, between, k, earlier, htask, rfl, hcreated⟩ := h.submission_created heq hentry
  obtain ⟨-, market, -, -, -, -, happroved⟩ := hcreated.created
  obtain ⟨d, hd, hthread, book, hbook, hevaluates⟩ :=
    h.approval_evaluated (fun x hx => by simp [heq, hx]) happroved
  exact ⟨intentId, between, k, earlier, htask, rfl, hcreated, d, hd, hthread, market, book,
    happroved, hbook, hevaluates⟩

end Coordinator.Reaches

/-- The submission of the schedule goes back to the one turn of its worker. -/
theorem submission_origin_first :
    ∃ (s : System) (e : CallEvent) (before : List CallEvent) (prepared : PreparedVenueOrder)
      (request : OrderIntentRequest) (answer : VenueAnswer VenueSubmission) (intentId : Uuid)
      (between : List CallEvent) (k : CallEvent) (earlier : List CallEvent),
      sampleCoordinator.Reaches samplePaperStore (fun _ _ _ => True) s ∧
        e :: before <:+ s.history ∧ e.entry = asked (.submit prepared request) answer ∧
        e.task = .worker intentId ∧ before = between ++ k :: earlier ∧
        sampleCoordinator.CreatedIn intentId request prepared k earlier ∧
        ∃ d ∈ earlier, d.thread = k.thread ∧ ∃ market book,
          sampleCoordinator.Approved intentId request market (ownCalls k.thread earlier) ∧
            asked (.orderBook request.tokenId) (.ok book) ∈ ownCalls k.thread earlier ∧
            sampleCoordinator.Evaluates intentId request market book d := by
  have hsample : (sampleCoordinator.execute samplePaperStore (fun _ _ => true)
      submissionSchedule System.initial).any
        (fun s => s.history.any (submits 6)) = true := by
    decide +kernel
  obtain ⟨s, h, hsome⟩ := Coordinator.exists_of_execute (fun _ _ _ _ => trivial) hsample
  obtain ⟨e, he, hsubmits⟩ := List.any_eq_true.mp hsome
  obtain ⟨after, before, heq⟩ := List.append_of_mem he
  obtain ⟨-, prepared, request, answer, hentry⟩ := submits_iff.mp hsubmits
  obtain ⟨intentId, between, k, earlier, horigin⟩ := h.submission_origin heq hentry
  exact ⟨s, e, before, prepared, request, answer, intentId, between, k, earlier, h,
    heq ▸ List.suffix_append _ _, hentry, horigin⟩

end OddsfoxExecution
