import OddsfoxExecution.Polymarket.Promises

/-!
# How the methods of the live venue keep their promises

One lemma for each method and each handler, by the rules of `Gives`.
-/

namespace OddsfoxExecution

variable {self : PolymarketVenue}

/-! ## Market data and orders -/

theorem plainly_ensureTradingAllowed :
    Plainly self.ensureTradingAllowed fun added _ => TradingAllowed self added := by
  unfold PolymarketVenue.ensureTradingAllowed
  refine (plainly_client rfl).bind ?_
  rintro version _ rfl
  split
  · exact .throw
  · rename_i hversion
    obtain rfl := not_not.mp hversion
    refine (plainly_client rfl).bind ?_
    rintro geoblock _ rfl
    split
    · exact .throw
    · rename_i hblocked
      refine (plainly_client rfl).bind ?_
      rintro closedOnly _ rfl
      split
      · exact .throw
      · rename_i hclosed
        obtain rfl := Bool.eq_false_of_not_eq_true hclosed
        exact .pure ⟨by simp, ⟨geoblock, by simp, Bool.eq_false_of_not_eq_true hblocked⟩, by simp⟩

theorem plainly_waitForWs (channel : Channel) (attempts : Nat) :
    Plainly (waitForWs channel attempts) fun _ _ => True := by
  induction attempts with
  | zero => exact .throw
  | succ attempts ih =>
    refine (plainly_perform rfl).bind fun connected _ _ => ?_
    split
    · exact .pure trivial
    · exact (plainly_perform rfl).bind fun _ _ _ => ih

theorem plainly_subscribe {tokenId : String} :
    Plainly (self.subscribe tokenId) fun _ _ => True :=
  plainly_orThrow.bind fun _ _ _ => (plainly_client rfl).bind fun _ _ _ =>
    (plainly_client rfl).bind fun _ _ _ => (plainly_perform rfl).bind fun _ _ _ =>
      (plainly_perform rfl).bind fun _ _ _ => .pure trivial

theorem plainly_cacheIsHealthy {tokenId : String} :
    Plainly (PolymarketVenue.cacheIsHealthy tokenId) fun _ _ => True := by
  refine (plainly_perform rfl).bind fun book _ _ => ?_
  split
  · exact (plainly_perform rfl).calls
  · exact .pure trivial

theorem plainly_subscribeUnlessHealthy {tokenId : String} :
    Plainly (self.subscribeUnlessHealthy tokenId) fun _ _ => True := by
  refine (plainly_perform rfl).bind fun subscriptions _ _ => ?_
  split
  · refine plainly_cacheIsHealthy.bind fun healthy _ _ => ?_
    split
    · exact .pure trivial
    · exact (plainly_perform rfl).bind fun _ _ _ => plainly_subscribe
  · exact plainly_subscribe

theorem plainly_marketRules {conditionId tokenId : String} :
    Plainly (self.marketRules conditionId tokenId) fun _ _ => True := by
  refine plainly_ensureTradingAllowed.bind fun _ _ _ => ?_
  have hsubscription : Plainly (self.ensureMarketSubscription tokenId) fun _ _ => True := by
    refine (gives_withLock plainly_subscribeUnlessHealthy rfl rfl).bind fun subscribed _ _ => ?_
    split
    · exact plainly_waitForWs .market 100
    · exact .pure trivial
  refine hsubscription.bind fun _ _ _ => ?_
  refine (plainly_client rfl).bind fun market _ _ => ?_
  split
  · exact (plainly_perform rfl).bind fun _ _ _ => .pure trivial
  · exact .throw

theorem plainly_fetchOrderBook {tokenId : String} :
    Plainly (self.fetchOrderBook tokenId) fun added book => ∃ token fetched,
      self.parseU256 tokenId = .ok token ∧ answered (.orderBook token) fetched ∈ added ∧
        bookIsConsistent book = true ∧
        book = ⟨fetched.bids, fetched.asks, fetched.timestamp, fetched.hash⟩ := by
  refine plainly_orThrow.bind ?_
  rintro token _ ⟨rfl, htoken⟩
  refine (plainly_client rfl).bind ?_
  rintro fetched _ rfl
  dsimp only
  split
  · rename_i hconsistent
    exact .pure ⟨token, fetched, htoken, by simp, hconsistent, rfl⟩
  · exact .throw

theorem plainly_orderBook {tokenId : String} :
    Plainly (self.orderBook tokenId) (Served self tokenId) := by
  have hfetch : ∀ before : VenueCalls, Plainly (self.fetchOrderBook tokenId)
      fun added book => Served self tokenId (added ++ before) book := fun before =>
    plainly_fetchOrderBook.mono fun _ _ ⟨token, fetched, htoken, hadded, hrest⟩ =>
      Or.inr ⟨token, fetched, htoken, List.mem_append_left _ hadded, hrest⟩
  refine (plainly_perform rfl).bind ?_
  rintro cached _ rfl
  cases cached with
  | none => exact hfetch _
  | some book =>
    refine (plainly_perform rfl).bind ?_
    rintro now _ rfl
    split
    · rename_i hfresh
      exact .pure (Or.inl ⟨now, rfl, hfresh⟩)
    · simpa using hfetch [⟨.now, now⟩, ⟨.cachedBook tokenId, some book⟩]

theorem plainly_signOrder {request : OrderIntentRequest} :
    Plainly (self.signOrder request) fun added signed => ∃ order,
      added = [answered (.sign order) signed] := by
  refine plainly_orThrow.bind ?_
  rintro tokenId _ ⟨rfl, -⟩
  refine plainly_orThrow.bind ?_
  rintro price _ ⟨rfl, -⟩
  refine plainly_orThrow.bind ?_
  rintro quantity _ ⟨rfl, -⟩
  refine plainly_orThrow.bind ?_
  rintro order _ ⟨rfl, -⟩
  refine (plainly_client rfl).mono ?_
  rintro _ signed rfl
  exact ⟨order, rfl⟩

theorem plainly_ensureBalanceAndAllowance {request : OrderIntentRequest} {exchange : String} :
    Plainly (self.ensureBalanceAndAllowance request exchange) fun added _ =>
      Covered self request exchange added := by
  refine plainly_orThrow.bind ?_
  rintro tokenId _ ⟨rfl, htoken⟩
  refine (plainly_client rfl).bind ?_
  rintro balance _ rfl
  refine plainly_orThrow.bind ?_
  rintro quantity _ ⟨rfl, hquantity⟩
  refine plainly_orThrow.bind ?_
  rintro price _ ⟨rfl, hprice⟩
  dsimp only
  split
  · exact .throw
  · rename_i hbalance
    refine plainly_orThrow.bind ?_
    rintro allowance _ ⟨rfl, hallowance⟩
    split
    · exact .throw
    · rename_i hallowed
      refine .pure ⟨tokenId, quantity, price, balance, allowance, htoken, hquantity, hprice, ?_,
        not_lt.mp hbalance, hallowance, not_lt.mp hallowed⟩
      simp

theorem plainly_prepare {request : OrderIntentRequest} :
    Plainly (self.prepare request) (PreparedFrom self request) := by
  unfold PolymarketVenue.prepare
  refine plainly_ensureTradingAllowed.bind fun _ before hallowed => ?_
  refine plainly_signOrder.bind ?_
  rintro signed _ ⟨order, rfl⟩
  refine (plainly_client rfl).bind ?_
  rintro negRisk _ rfl
  split
  · exact .throw
  · rename_i exchange hexchange
    refine plainly_ensureBalanceAndAllowance.bind fun _ covering hcovered => ?_
    split
    · exact .throw
    · exact .throw
    · rename_i payload normalized hpayload _
      refine .pure ⟨⟨?_, ?_, ?_⟩, order, signed, negRisk, exchange, payload, by simp, by simp,
        hexchange, ?_, rfl, hpayload, rfl⟩
      · simp [hallowed.version]
      · obtain ⟨geoblock, hmem, hblocked⟩ := hallowed.geoblock
        exact ⟨geoblock, by simp [hmem], hblocked⟩
      · simp [hallowed.closedOnly]
      · obtain ⟨tokenId, quantity, price, balance, allowance, htoken, hquantity, hprice, hmem,
          hrest⟩ := hcovered
        exact ⟨tokenId, quantity, price, balance, allowance, htoken, hquantity, hprice,
          by simp [hmem], hrest⟩

theorem plainly_cancel {venueOrderId : String} :
    Plainly (PolymarketVenue.cancel venueOrderId) fun added _ => ∃ response,
      answered (.cancelOrder venueOrderId) response ∈ added ∧
        venueOrderId ∈ response.canceled := by
  refine (plainly_client rfl).bind ?_
  rintro response _ rfl
  split
  · rename_i hcanceled
    exact .pure ⟨response, by simp, hcanceled⟩
  · exact .throw

theorem plainly_findOrder {venueOrderId : String} :
    Plainly (PolymarketVenue.findOrder venueOrderId) fun _ _ => True := by
  refine (plainly_perform rfl).bind fun answer _ _ => ?_
  cases answer with
  | ok order => exact .pure trivial
  | error e =>
    dsimp only
    split
    · exact .pure trivial
    · exact .throw

theorem plainly_marketStreamAlive :
    Plainly PolymarketVenue.marketStreamAlive fun _ _ => True := by
  refine (gives_withLock (plainly_perform rfl) rfl rfl).bind fun subscriptions _ _ => ?_
  split
  · exact .pure trivial
  · exact (plainly_perform rfl).calls

/-! ## From plain calls to promises -/

theorem promise_of_plain {task : PolymarketTask} {made : VenueCalls} {c : PolymarketCall}
    (htask : task ≠ .method .reconcile) (hc : c.plain = true) :
    PolymarketPromise self task made c := by
  cases c with
  | client call =>
    refine ⟨fun h => absurd h htask, ?_⟩
    rintro heartbeatId rfl
    cases hc
  | load | storeReconciled | reply => cases hc
  | _ => trivial

theorem promise_of_loaded {made : VenueCalls} {c : PolymarketCall}
    (hloaded : ∀ g, ∃ value, ⟨.load g, value⟩ ∈ made) (hc : c.plain = true) :
    PolymarketPromise self (.method .reconcile) made c := by
  cases c with
  | client call =>
    refine ⟨fun _ => hloaded, ?_⟩
    rintro heartbeatId rfl
    cases hc
  | load | storeReconciled | reply => cases hc
  | _ => trivial

theorem promised_of_plainly {call : VenueCall} {x : VenueAction call.Value}
    {Q : VenueCalls → call.Value → Prop} (hcall : call ≠ .reconcile) (h : Plainly x Q)
    (hok : ∀ made value, Q made value → MethodPromise self made call (.ok value))
    (herror : ∀ made e, MethodPromise self made call (.error e)) :
    x.run.wp (PolymarketPromise self (.method call))
      (fun made result => MethodPromise self made call result) [] := by
  refine h.wp (I := fun _ => True) trivial (fun _ _ _ _ _ => trivial)
    (fun made c _ hc => promise_of_plain (by simpa using hcall) hc) ?_
  intro added result _ hresult
  rw [List.append_nil]
  cases result with
  | ok value => exact hok added value (hresult value rfl)
  | error e => exact herror added e

/-! ## Submission -/

theorem submission_ok {side : Side} {response : PostOrderResponse} {submission : VenueSubmission}
    (h : PolymarketVenue.submission side response = .ok submission) :
    response.success = true ∧ submission.state = mapOrderStatus response.status ∧
      submission.state ≠ .unknown := by
  unfold PolymarketVenue.submission at h
  split at h
  · cases h
  · rename_i hsuccess
    split at h
    · cases h
    · rename_i hknown
      cases h
      exact ⟨Bool.eq_true_of_not_eq_false hsuccess, rfl, hknown⟩

theorem submission_ambiguous_iff {side : Side} {response : PostOrderResponse} :
    (∃ reason, PolymarketVenue.submission side response = .error (.ambiguous reason)) ↔
      OutcomeUnknown (.ok response) := by
  unfold PolymarketVenue.submission OutcomeUnknown
  by_cases hsuccess : response.success = false
  · simp [hsuccess]
  · by_cases hknown : mapOrderStatus response.status = .unknown
    · simp [hknown, hsuccess]
    · simp [hknown, hsuccess]

theorem classifySubmissionError_ambiguous_iff {e : SdkError} :
    (∃ reason, classifySubmissionError e = .ambiguous reason) ↔ OutcomeUnknown (.error e) := by
  unfold classifySubmissionError OutcomeUnknown
  cases hstatus : e.status with
  | some status =>
    by_cases hrestart : status.statusCode = 425
    · simp [hstatus, hrestart]
    · by_cases hmismatch : containsText status.message "order_version_mismatch" = true
      · simp [hstatus, hrestart, hmismatch]
      · by_cases hserver : status.isServerError = true
        · simp [hstatus, hrestart, hmismatch, hserver]
        · simp [hstatus, hrestart, hmismatch, hserver]
  | none =>
    cases hkind : e.kind <;> simp [classifyPreSubmitError, hstatus, hkind]

theorem submittedAs_unsent {request : OrderIntentRequest} {reason : String} :
    SubmittedAs request [] (.error (.rejected reason)) where
  once := Nat.zero_le 1
  sent := fun _ => ⟨reason, rfl⟩
  ok := fun _ h => nomatch h
  ambiguous := by simp [posted]

theorem promised_submit {prepared : PreparedVenueOrder} {request : OrderIntentRequest} :
    (self.submit prepared request).run.wp
      (PolymarketPromise self (.method (.submit prepared request)))
      (fun made result => SubmittedAs request made result) [] := by
  unfold PolymarketVenue.submit
  split
  · exact submittedAs_unsent
  · rename_i payload _
    cases hsigned : self.reconstructSignedOrder payload with
    | error e => exact submittedAs_unsent
    | ok signed =>
      refine VenueAction.wp_performBind.mpr
        ⟨promise_of_plain (by simp) rfl, fun answer => ?_⟩
      cases answer with
      | ok response =>
        have hend : SubmittedAs request [answered (.postOrder signed) response]
            (PolymarketVenue.submission request.side response) :=
          { once := by simp [posted]
            sent := fun h => by simp [posted] at h
            ok := fun submission h => ⟨response, rfl, h⟩
            ambiguous := by simpa [posted] using submission_ambiguous_iff }
        dsimp only
        cases hsubmission : PolymarketVenue.submission request.side response with
        | ok submission =>
          rw [hsubmission] at hend
          exact hend
        | error e =>
          rw [hsubmission] at hend
          exact hend
      | error e =>
        exact
          { once := by simp [posted]
            sent := fun h => by simp [posted] at h
            ok := fun _ h => nomatch h
            ambiguous := by
              simpa [posted] using classifySubmissionError_ambiguous_iff }

/-! ## Reconciliation and heartbeat -/

theorem ReadAs.extend {answers : AccountAnswers} {added made : VenueCalls}
    (h : ReadAs self answers added) (hmade : ∀ e ∈ added, e ∈ made) : ReadAs self answers made :=
  ⟨h.1, h.2.1, h.2.2.1, fun e he => hmade e (h.2.2.2.1 e he), hmade _ h.2.2.2.2⟩

theorem promised_reconcile :
    self.reconcile.run.wp (PolymarketPromise self (.method .reconcile))
      (fun made result => MethodPromise self made .reconcile result) [] := by
  unfold PolymarketVenue.reconcile
  refine VenueAction.wp_performBind.mpr ⟨fun _ value hvalue => by simp at hvalue, fun users => ?_⟩
  refine VenueAction.wp_performBind.mpr ⟨fun _ value hvalue => by simp at hvalue, fun gaps => ?_⟩
  -- from here on the trace shows both loads
  let Loaded : VenueCalls → Prop := fun made =>
    ⟨.load .userEvents, users⟩ ∈ made ∧ ⟨.load .streamGaps, gaps⟩ ∈ made
  have hkeep : ∀ made c r, Loaded made → PolymarketCall.plain c = true →
      Loaded (⟨c, r⟩ :: made) := fun made c r h _ =>
    ⟨List.mem_cons_of_mem _ h.1, List.mem_cons_of_mem _ h.2⟩
  have hplain : ∀ made c, Loaded made → PolymarketCall.plain c = true →
      PolymarketPromise self (.method .reconcile) made c := fun made c h hc => by
    refine promise_of_loaded (fun g => ?_) hc
    cases g with
    | userEvents => exact ⟨users, h.1⟩
    | streamGaps => exact ⟨gaps, h.2⟩
  have hstart : Loaded [⟨.load .streamGaps, gaps⟩, ⟨.load .userEvents, users⟩] := by
    simp [Loaded]
  refine plainly_ensureTradingAllowed.wpBind hstart hkeep hplain ?_ fun _ _ _ => trivial
  intro checks _ hchecks _
  refine VenueAction.wp_performBind.mpr ⟨hplain _ _ hchecks rfl, fun connected => ?_⟩
  split
  · refine plainly_readAccount.wpBind (hkeep _ _ connected hchecks rfl) hkeep hplain ?_
      fun _ _ _ => trivial
    rintro reading read hreading ⟨answers, hanswers, hresult⟩
    refine plainly_marketStreamAlive.wpBind hreading hkeep hplain ?_ fun _ _ _ => trivial
    intro asking alive hasking _
    split
    · refine VenueAction.wp_performBind.mpr
        ⟨⟨rfl, hasking.2, answers, hanswers.extend fun e he => by simp [he]⟩, fun _ => ?_⟩
      refine VenueAction.wp_performBind.mpr ⟨⟨rfl, List.mem_cons_of_mem _ hasking.1, answers,
        hanswers.extend fun e he => by simp [he]⟩, fun _ => ?_⟩
      exact ⟨answers, hanswers.extend fun e he => by simp [he], hresult⟩
    · trivial
  · trivial

/-- Once a check of the gaps has passed, a heartbeat may be posted. -/
theorem Checked.extend {g : Generation} {made : VenueCalls} (h : Checked g made)
    (e : Sigma PolymarketCall.Answer) : Checked g (e :: made) := by
  obtain ⟨value, between, before, rfl⟩ := h
  exact ⟨value, e :: between, before, rfl⟩

theorem promised_heartbeat :
    PolymarketVenue.heartbeat.run.wp (PolymarketPromise self (.method .heartbeat))
      (fun _ _ => True) [] := by
  have hplain : ∀ made c, True → PolymarketCall.plain c = true →
      PolymarketPromise self (.method .heartbeat) made c := fun made c _ hc =>
    promise_of_plain (by simp) hc
  unfold PolymarketVenue.heartbeat
  refine VenueAction.wp_performBind.mpr ⟨hplain _ _ trivial rfl, fun connected => ?_⟩
  split
  · refine plainly_marketStreamAlive.wpBind trivial (fun _ _ _ _ _ => trivial) hplain ?_
      fun _ _ _ => trivial
    intro asking alive _ _
    split
    · refine VenueAction.wp_performBind.mpr ⟨fun h => by simp at h, fun gaps => ?_⟩
      refine VenueAction.wp_performBind.mpr ⟨trivial, fun reconciled => ?_⟩
      split
      · rename_i heq
        obtain rfl : reconciled = gaps := heq.symm
        let Allowed : PolymarketCall → Prop := fun c => ∀ made, Checked .streamGaps made →
          PolymarketPromise self (.method .heartbeat) made c
        have hpost : Prog.Gives Allowed PolymarketVenue.postHeartbeat fun _ _ => True := by
          refine (Prog.Gives.perform (Q := fun _ _ => True) (fun _ _ => trivial)
            fun _ => trivial).bind fun heartbeatId _ _ => ?_
          refine (gives_client fun made hchecked =>
            ⟨fun h => by simp at h, fun _ _ => hchecked⟩).bind fun response _ _ => ?_
          split
          · exact .throw
          · exact .perform (fun _ _ => trivial) fun _ => trivial
        refine (gives_withLock hpost (fun _ _ => trivial) (fun _ _ => trivial)).wp
          (I := Checked .streamGaps) ⟨reconciled, [], _, rfl⟩ (fun _ c r h _ => h.extend ⟨c, r⟩)
          (fun made c hchecked hc => hc made hchecked) fun _ _ _ _ => trivial
      · trivial
    · trivial
  · trivial

/-! ## Tasks -/

/-- A task that bumps and changes books makes no call that needs anything. -/
theorem promised_bumpGaps {task : PolymarketTask} {gaps : Nat} {made : VenueCalls} :
    (bumpGaps gaps).run.wp (PolymarketPromise self task) (fun _ _ => True) made := by
  induction gaps generalizing made with
  | zero => trivial
  | succ gaps ih => exact VenueAction.wp_performBind.mpr ⟨trivial, fun _ => ih⟩

theorem promised_changeBooks {task : PolymarketTask} {update : BookUpdate} {made : VenueCalls} :
    (changeBooks update).run.wp (PolymarketPromise self task) (fun _ _ => True) made :=
  VenueAction.wp_performBind.mpr ⟨trivial, fun _ => promised_bumpGaps⟩

theorem promised_observedAtOrNow {task : PolymarketTask} {timestamp : Option Time}
    {made : VenueCalls} :
    (observedAtOrNow timestamp).run.wp (PolymarketPromise self task) (fun _ _ => True) made := by
  cases timestamp with
  | some observedAt => trivial
  | none => exact ⟨trivial, fun _ => trivial⟩

theorem promised_onBookMessage {task : PolymarketTask} {tokenId : String}
    {message : StreamMessage BookMessage} {made : VenueCalls} :
    (onBookMessage tokenId message).run.wp (PolymarketPromise self task) (fun _ _ => True)
      made := by
  cases message with
  | ok book =>
    refine Prog.wp_run_bind.mpr (Prog.wp_mono promised_observedAtOrNow fun _ result _ => ?_)
    cases result with
    | ok observedAt => exact promised_changeBooks
    | error e => trivial
  | error | ended => exact promised_changeBooks

theorem promised_onPriceMessage {task : PolymarketTask} {tokenId : String}
    {message : StreamMessage PriceMessage} {made : VenueCalls} :
    (onPriceMessage tokenId message).run.wp (PolymarketPromise self task)
      (fun _ _ => True) made := by
  cases message with
  | ok change =>
    refine Prog.wp_run_bind.mpr (Prog.wp_mono promised_observedAtOrNow fun _ result _ => ?_)
    cases result with
    | ok observedAt => exact promised_changeBooks
    | error e => trivial
  | error | ended => exact promised_changeBooks

theorem promised_method (call : VenueCall) :
    (self.method call).run.wp (PolymarketPromise self (.method call))
      (fun made result => MethodPromise self made call result) [] := by
  cases call with
  | marketRules conditionId tokenId =>
    exact promised_of_plainly (by simp) plainly_marketRules (fun _ _ _ => trivial)
      fun _ _ => trivial
  | orderBook tokenId =>
    exact promised_of_plainly (by simp) plainly_orderBook (fun _ _ h => h) fun _ _ => trivial
  | prepare intentId request =>
    exact promised_of_plainly (by simp) plainly_prepare (fun _ _ h => h) fun _ _ => trivial
  | submit prepared request => exact promised_submit
  | cancel venueOrderId =>
    exact promised_of_plainly (by simp) plainly_cancel (fun _ _ h => h) fun _ _ => trivial
  | reconcile => exact promised_reconcile
  | findOrder venueOrderId =>
    exact promised_of_plainly (by simp) plainly_findOrder (fun _ _ _ => trivial)
      fun _ _ => trivial
  | heartbeat => exact Prog.wp_mono promised_heartbeat fun _ _ _ => trivial

/-- Every task keeps its promise. -/
theorem polymarket_promised (task : PolymarketTask) :
    (self.program task).wp (PolymarketPromise self task) (fun _ _ => True) [] := by
  cases task with
  | method call =>
    refine Prog.wp_run_bind.mpr (Prog.wp_run_lift.mpr ?_)
    exact Prog.wp_mono (promised_method call) fun _ _ h => ⟨⟨rfl, h⟩, fun _ => trivial⟩
  | reconciliationRequired =>
    refine Prog.wp_run_bind.mpr ?_
    refine VenueAction.wp_performBind.mpr ⟨fun _ value hvalue => by simp at hvalue,
      fun events => ?_⟩
    refine VenueAction.wp_performBind.mpr ⟨trivial, fun reconciled => ?_⟩
    exact ⟨⟨events, reconciled, rfl, rfl⟩, fun _ => trivial⟩
  | userMessage message => cases message <;> exact ⟨trivial, fun _ => trivial⟩
  | bookMessage tokenId message => exact promised_onBookMessage
  | priceMessage tokenId message => exact promised_onPriceMessage

end OddsfoxExecution
