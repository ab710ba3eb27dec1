import OddsfoxExecution.Coordinator.Runs
import OddsfoxExecution.Polymarket.Generations

/-!
# What the live venue tells the executor

The replies of `reconcile`, `prepare`, `submit` and `cancel` in every run: a
reconciliation reports exactly what it read, an order is prepared only for an
account that may trade and can cover it, and a submission whose outcome nobody
knows is ambiguous.
-/

namespace OddsfoxExecution

/-- The answer the executor's call of the venue gets when its deadline does not pass. -/
def VenueAnswer.ofExcept {α : Type} : Except VenueError α → VenueAnswer α
  | .ok value => .ok value
  | .error e => .error e

namespace PolymarketVenue.Reaches

variable {self : PolymarketVenue} {s : PolymarketSystem} {after before : List VenueEvent}
  {e : VenueEvent}

/-- A reconciliation reports what its requests were answered with, after following every listing to
its end or its bound and asking once for the allowance of every token that occurs; it has no
finding exactly when nothing in those answers calls for one. -/
theorem reconcile_reports (h : self.Reaches s) {result : ReconciliationResult}
    (heq : s.history = after ++ e :: before)
    (he : e.entry = ⟨.reply (.method .reconcile (.ok result)), ()⟩) :
    ∃ answers : AccountAnswers, answers.Complete self ∧
      (∀ request ∈ answers.requests, request ∈ ownCalls e.thread before) ∧
      result = answers.result ∧ (result.criticalFindings = [] ↔ answers.Clean) := by
  have hpromise := h.kept heq
  rw [he] at hpromise
  obtain ⟨-, answers, hread, rfl⟩ := hpromise
  have hbefore : s.history = (after ++ [e]) ++ before := by
    rw [heq]
    simp
  exact ⟨answers, h.complete_of_readAs hbefore hread, hread.2.2.2.1, rfl,
    answers.criticalFindings_eq_nil_iff⟩

/-- An order is prepared only for an account that may trade, holds what the order needs and has
allowed the exchange of the signed token to take it, all by answers to this preparation. -/
theorem prepare_vetted (h : self.Reaches s) {intentId : Uuid} {request : OrderIntentRequest}
    {prepared : PreparedVenueOrder} (heq : s.history = after ++ e :: before)
    (he : e.entry = ⟨.reply (.method (.prepare intentId request) (.ok prepared)), ()⟩) :
    TradingAllowed self (ownCalls e.thread before) ∧ ∃ order signed negRisk exchange payload,
      answered (.sign order) signed ∈ ownCalls e.thread before ∧
      answered (.negRisk signed.tokenId) negRisk ∈ ownCalls e.thread before ∧
      self.exchange negRisk = some exchange ∧
      Covered self request exchange (ownCalls e.thread before) ∧
      prepared.deterministicOrderId = self.signingHash signed exchange ∧
      signed.payload = .inr payload ∧ prepared.signedPayloadJson = some payload := by
  have hpromise := h.kept heq
  rw [he] at hpromise
  exact hpromise.2

/-- A submission posts at most one order.  It is ambiguous exactly when it posted one and the
answer leaves open whether the venue took it; an acknowledged one never has the state UNKNOWN. -/
theorem submit_reports (h : self.Reaches s) {prepared : PreparedVenueOrder}
    {request : OrderIntentRequest} {result : Except VenueError VenueSubmission}
    (heq : s.history = after ++ e :: before)
    (he : e.entry = ⟨.reply (.method (.submit prepared request) result), ()⟩) :
    (posted (ownCalls e.thread before)).length ≤ 1 ∧
      (posted (ownCalls e.thread before) = [] → ∃ reason, result = .error (.rejected reason)) ∧
      ((∃ reason, result = .error (.ambiguous reason)) ↔
        ∃ answer ∈ posted (ownCalls e.thread before), OutcomeUnknown answer) ∧
      ∀ m task, VenueDecides m task (asked (.submit prepared request) (.ofExcept result)) := by
  have hpromise := h.kept heq
  rw [he] at hpromise
  obtain ⟨-, hsubmitted⟩ := hpromise
  refine ⟨hsubmitted.once, hsubmitted.sent, hsubmitted.ambiguous, ?_⟩
  intro m task prepared' request' submission hasked
  cases result with
  | error e => cases hasked
  | ok value =>
    cases hasked
    obtain ⟨response, -, hresponse⟩ := hsubmitted.ok value rfl
    exact (submission_ok hresponse).2.2

end PolymarketVenue.Reaches

/-! ## One reply of each -/

/-- The latest call of a task that ran alone is its reply. -/
def repliedWith (test : VenueReply → Bool) : Sigma PolymarketCall.Answer → Bool
  | ⟨.reply reply, _⟩ => test reply
  | _ => false

theorem exists_reply (turns : VenueSchedule) (test : VenueReply → Bool)
    (h : ((sampleVenueAdapter.player.play turns PolymarketSystem.initial).any
      fun s => s.history.head?.any fun e => repliedWith test e.entry) = true) :
    ∃ s e before reply, sampleVenueAdapter.Reaches s ∧ s.history = [] ++ e :: before ∧
      e.entry = ⟨.reply reply, ()⟩ ∧ test reply = true := by
  obtain ⟨s, e, before, hs, heq, htest⟩ := exists_latest turns (repliedWith test) h
  unfold repliedWith at htest
  split at htest
  · rename_i reply _ hentry
    exact ⟨s, e, before, reply, hs, heq, hentry, htest⟩
  · cases htest

def VenueReply.reconciled : VenueReply → Bool
  | .method .reconcile (.ok _) => true
  | _ => false

theorem reconcile_reports_run : ∃ s e before result, sampleVenueAdapter.Reaches s ∧
    s.history = [] ++ e :: before ∧
    e.entry = ⟨.reply (.method .reconcile (.ok result)), ()⟩ ∧
    ∃ answers : AccountAnswers, answers.Complete sampleVenueAdapter ∧
      (∀ request ∈ answers.requests, request ∈ ownCalls e.thread before) ∧
      result = answers.result ∧ (result.criticalFindings = [] ↔ answers.Clean) := by
  obtain ⟨s, e, before, reply, hs, heq, he, htest⟩ := exists_reply
    [.arrive (.method .reconcile), .calls 0 17 sampleClients] VenueReply.reconciled
    (by decide +kernel)
  unfold VenueReply.reconciled at htest
  split at htest
  · exact ⟨s, e, before, _, hs, heq, he, hs.reconcile_reports heq he⟩
  · cases htest

def VenueReply.prepared : VenueReply → Bool
  | .method (.prepare ..) (.ok _) => true
  | _ => false

theorem prepare_vetted_run : ∃ s e before intentId request prepared,
    sampleVenueAdapter.Reaches s ∧ s.history = [] ++ e :: before ∧
    e.entry = ⟨.reply (.method (.prepare intentId request) (.ok prepared)), ()⟩ ∧
    TradingAllowed sampleVenueAdapter (ownCalls e.thread before) ∧
    ∃ order signed negRisk exchange payload,
      answered (.sign order) signed ∈ ownCalls e.thread before ∧
      answered (.negRisk signed.tokenId) negRisk ∈ ownCalls e.thread before ∧
      sampleVenueAdapter.exchange negRisk = some exchange ∧
      Covered sampleVenueAdapter request exchange (ownCalls e.thread before) ∧
      prepared.deterministicOrderId = sampleVenueAdapter.signingHash signed exchange ∧
      signed.payload = .inr payload ∧ prepared.signedPayloadJson = some payload := by
  obtain ⟨s, e, before, reply, hs, heq, he, htest⟩ := exists_reply
    [.arrive (.method (.prepare 1 sampleRequest)), .calls 0 7 sampleClients] VenueReply.prepared
    (by decide +kernel)
  unfold VenueReply.prepared at htest
  split at htest
  · exact ⟨s, e, before, _, _, _, hs, heq, he, hs.prepare_vetted heq he⟩
  · cases htest

def VenueReply.submitted : VenueReply → Bool
  | .method (.submit ..) _ => true
  | _ => false

theorem submit_reports_run : ∃ s e before prepared request result,
    sampleVenueAdapter.Reaches s ∧ s.history = [] ++ e :: before ∧
    e.entry = ⟨.reply (.method (.submit prepared request) result), ()⟩ ∧
    (posted (ownCalls e.thread before)).length ≤ 1 ∧
    (posted (ownCalls e.thread before) = [] → ∃ reason, result = .error (.rejected reason)) ∧
    ((∃ reason, result = .error (.ambiguous reason)) ↔
      ∃ answer ∈ posted (ownCalls e.thread before), OutcomeUnknown answer) ∧
    ∀ m task, VenueDecides m task (asked (.submit prepared request) (.ofExcept result)) := by
  obtain ⟨s, e, before, reply, hs, heq, he, htest⟩ := exists_reply
    [.arrive (.method (.submit (samplePrepared "first") sampleRequest)),
      .calls 0 2 sampleClients] VenueReply.submitted (by decide +kernel)
  unfold VenueReply.submitted at htest
  split at htest
  · exact ⟨s, e, before, _, _, _, hs, heq, he, hs.submit_reports heq he⟩
  · cases htest

end OddsfoxExecution
