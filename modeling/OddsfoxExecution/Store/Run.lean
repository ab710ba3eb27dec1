import OddsfoxExecution.Store.Effects

/-!
# Runs of the store

The databases a store goes through under any sequence of the operations the
coordinator can issue, from the database the migrations create.  Crashes and
restarts leave the database alone, so a run is indifferent to them.  An
operation may act on what an earlier read returned: the arguments of a
projection and of a resolution were read from some database of the run's past.
-/

namespace OddsfoxExecution

/-- What the coordinator asks of the store, after the databases of `past`. -/
def StoreCall.Allowed (past : List Db) : StoreCall → Prop
  | transitionIntent _ expected next _ => expected.advances next = true
  | finishSubmission _ _ intentState orderState .. =>
    intentState = .submitted ∨ intentState = .unknown ∧ orderState = .unknown
  | resolveUnknownSubmission unknown .. => ∃ earlier ∈ past, unknown ∈ earlier.unknownSubmissions
  | reconcileOrderProjection orderId .. =>
    ∃ earlier ∈ past, ∃ o ∈ earlier.knownOrders, o.id = orderId ∧ o.state.active = true
  | _ => True

/-- The paper venue writes its own tables, the starting positions and the event log. -/
def Db.PaperFrame (db db' : Db) : Prop :=
  ∃ paperAccount paperInventory paperVenueOrders positions executionEvents nextSequence,
    db' = { db with
      paperAccount, paperInventory, paperVenueOrders, positions, executionEvents, nextSequence }

/-- A run of the store: the database it has reached and those before it, latest first.  `guard`
is a condition every operation of the run meets in the database it finds. -/
inductive StoreRun (config : StoreConfig) (guard : StoreCall → Db → Prop) : Db → List Db → Prop
  | initial : StoreRun config guard Db.initial []
  | call {db : Db} {past : List Db} (call : StoreCall) (now : Time)
      (hrun : StoreRun config guard db past) (hallowed : call.Allowed (db :: past))
      (hguard : guard call db) : StoreRun config guard (call.after config now db) (db :: past)
  | venue {db db' : Db} {past : List Db} (hrun : StoreRun config guard db past)
      (hframe : db.PaperFrame db') : StoreRun config guard db' (db :: past)

/-- The databases every operation the coordinator can issue leads to. -/
def Reachable (config : StoreConfig) (db : Db) : Prop :=
  ∃ past, StoreRun config (fun _ _ => True) db past

theorem Db.PaperFrame.lifecycle_eq {db db' : Db} (h : db.PaperFrame db') :
    db'.lifecycle = db.lifecycle := by
  obtain ⟨_, _, _, _, _, _, rfl⟩ := h
  rfl

/-- The past of a run leads to its present. -/
structure Leads (db : Db) (past : List Db) : Prop where
  coherent : Coherent db.lifecycle
  steps : ∀ earlier ∈ past, Coherent earlier.lifecycle ∧
    LifecycleSteps (fun _ => True) earlier.lifecycle db.lifecycle

namespace Leads

variable {db : Db} {past : List Db}

theorem cons (h : Leads db past) : Leads db (db :: past) where
  coherent := h.coherent
  steps := fun earlier hearlier => by
    rcases List.mem_cons.mp hearlier with rfl | hpast
    · exact ⟨h.coherent, .refl⟩
    · exact h.steps earlier hpast

theorem next {db' : Db} (h : Leads db past) {M : OrderMove → Prop}
    (hsteps : LifecycleSteps M db.lifecycle db'.lifecycle) : Leads db' (db :: past) where
  coherent := h.coherent.steps hsteps
  steps := fun earlier hearlier => by
    obtain ⟨hcoherent, hlead⟩ := h.cons.steps earlier hearlier
    exact ⟨hcoherent, hlead.trans (hsteps.mono fun _ _ => trivial)⟩

theorem order {o : OrderRecord} (h : Leads db past) {earlier : Db} (hearlier : earlier ∈ past)
    (ho : o ∈ earlier.orders) : ∃ o' ∈ db.orders, o.SameTerms o' :=
  (h.steps earlier hearlier).2.order_persists (h.steps earlier hearlier).1 ho

/-- What `unknown_submissions` once read still names the intent of its order. -/
theorem unknown_owner (h : Leads db past) {unknown : UnknownSubmission}
    (hread : ∃ earlier ∈ db :: past, unknown ∈ earlier.unknownSubmissions) :
    ∀ o ∈ db.orders, o.id = unknown.orderId → o.intentId = unknown.intentId := by
  intro o ho hid
  obtain ⟨earlier, hearlier, hread⟩ := hread
  simp only [Db.unknownSubmissions, List.mem_flatMap, List.mem_filter, Db.preparedJoin,
    List.mem_map] at hread
  obtain ⟨o₀, ⟨ho₀, -⟩, p, -, rfl⟩ := hread
  obtain ⟨o₁, ho₁, hterms⟩ := h.cons.order hearlier ho₀
  have hsame : o = o₁ := Table.eq_of_key_eq h.coherent.orderIds ho ho₁ (hid.trans hterms.1.symm)
  rw [hsame, hterms.2.1]

theorem submitted_of_active (h : Leads db past) {earlier : Db} (hearlier : earlier ∈ past)
    {o : OrderRecord} (ho : o ∈ earlier.orders) (hactive : o.state.active = true)
    {o' : OrderRecord} (ho' : o' ∈ db.orders) (hid : o'.id = o.id) {i : IntentRecord}
    (hi : i ∈ db.intents) (howner : i.id = o'.intentId) : i.state = .submitted := by
  obtain ⟨hcoherent, hsteps⟩ := h.steps earlier hearlier
  obtain ⟨i₀, hi₀, howner₀, hpaired⟩ := hcoherent.owner ho
  obtain ⟨i₁, hi₁, hid₁, -, hsubmitted⟩ := hsteps.intent_kept hcoherent hi₀
  obtain ⟨o₁, ho₁, hterms⟩ := h.order hearlier ho
  have ho' : o' = o₁ := Table.eq_of_key_eq h.coherent.orderIds ho' ho₁ (hid.trans hterms.1.symm)
  have hi : i = i₁ := Table.eq_of_key_eq h.coherent.intentIds hi hi₁ (by
    rw [howner, ho', hterms.2.1, howner₀, hid₁])
  rw [hi]
  exact hsubmitted (paired_active hactive hpaired)

/-- An order that a snapshot once found active belongs to a submitted intent. -/
theorem projected_submitted (h : Leads db past) {orderId : Uuid}
    (hread : ∃ earlier ∈ db :: past, ∃ o ∈ earlier.knownOrders, o.id = orderId ∧
      o.state.active = true) :
    ∀ o ∈ db.orders, o.id = orderId → ∀ i ∈ db.intents, i.id = o.intentId →
      i.state = .submitted := by
  intro o ho hid i hi howner
  obtain ⟨earlier, hearlier, o₀, hknown, rfl, hactive⟩ := hread
  exact h.cons.submitted_of_active hearlier (List.mem_filter.mp hknown).1 hactive ho hid hi howner

end Leads

/-- The operations on intents that have no order yet. -/
def StoreCall.early : StoreCall → Bool
  | admitIntent .. | transitionIntent .. | evaluateAndReserveRisk .. | createPreparedOrder ..
  | rejectPreparation .. | recoverPreSubmissionWork => true
  | _ => false

/-- No answer of the venue reports an order as UNKNOWN. -/
def StoreCall.Truthful : StoreCall → Prop
  | finishSubmission _ _ intentState orderState .. =>
      intentState = .submitted → orderState ≠ .unknown
  | resolveUnknownSubmission _ _ state .. => state ≠ .unknown
  | reconcileOrderProjection _ observedState .. => observedState ≠ .unknown
  | _ => True

theorem StoreCall.Moves.honest {call : StoreCall} {m : OrderMove} (h : call.Moves m)
    (hnot : ∀ id next venueOrderId, call ≠ .transitionOrder id next venueOrderId)
    (htruthful : call.Truthful) : m.Honest := by
  intro hunknown hsubmitted
  cases call with
  | transitionOrder id next venueOrderId => exact absurd rfl (hnot id next venueOrderId)
  | beginSubmission | cancelPreparedOrder =>
    subst h
    cases hunknown
  | finishSubmission =>
    subst h
    exact absurd hunknown (htruthful hsubmitted)
  | recoverInterruptedSubmissions => cases (congrArg Prod.snd h.1).symm.trans hsubmitted
  | resolveUnknownSubmission => exact absurd ((congrArg Prod.snd h.2).symm.trans hunknown) htruthful
  | reconcileOrderProjection _ observed =>
    have hstate := h.2.symm.trans hunknown
    rcases projectedState_cases m.order.1 observed with heq | heq <;> rw [heq] at hstate
    · cases hstate
    · exact absurd hstate htruthful
  | applyPaperTradeThrough =>
    rcases h.2 with heq | heq | heq <;> cases heq.symm.trans hunknown
  | _ => exact h.elim

/-- What an operation on orders does to the lifecycle: it only moves orders with their intents. -/
theorem StoreCall.after_moves {db : Db} {past : List Db} (hleads : Leads db past)
    (config : StoreConfig) (now : Time) (call : StoreCall) (hallowed : call.Allowed (db :: past))
    (hearly : call.early = false) :
    MoveSteps (fun m => call.Moves m ∧ (call.Truthful → m.Honest)) db.lifecycle
      (call.after config now db).lifecycle := by
  have hs := hleads.coherent
  unfold StoreCall.after
  cases hrun : call.run config now db with
  | error e => exact .refl
  | ok r =>
    dsimp only
    have hmoves : ∀ {s s' : Lifecycle}, MoveSteps call.Moves s s' →
        (∀ id next venueOrderId, call ≠ .transitionOrder id next venueOrderId) →
        MoveSteps (fun m => call.Moves m ∧ (call.Truthful → m.Honest)) s s' :=
      fun hsteps hnot => hsteps.mono fun _ hm => ⟨hm, hm.honest hnot⟩
    cases call with
    | admitIntent | transitionIntent | evaluateAndReserveRisk | createPreparedOrder
    | rejectPreparation | recoverPreSubmissionWork => cases hearly
    | transitionOrder =>
      exact (transitionOrder_steps hs hrun).mono fun _ hm => ⟨hm.1, fun _ => hm.2⟩
    | beginSubmission => exact hmoves (beginSubmission_steps hs hrun) (fun _ _ _ h => nomatch h)
    | finishSubmission =>
      exact hmoves (finishSubmission_steps hs hallowed hrun) (fun _ _ _ h => nomatch h)
    | recoverInterruptedSubmissions =>
      exact hmoves (recoverInterruptedSubmissions_steps hs hrun) (fun _ _ _ h => nomatch h)
    | resolveUnknownSubmission =>
      exact hmoves (resolveUnknownSubmission_steps hs (hleads.unknown_owner hallowed) hrun)
        (fun _ _ _ h => nomatch h)
    | cancelPreparedOrder =>
      exact hmoves (cancelPreparedOrder_steps hs hrun) (fun _ _ _ h => nomatch h)
    | reconcileOrderProjection =>
      exact hmoves (reconcileOrderProjection_steps hs (hleads.projected_submitted hallowed) hrun)
        (fun _ _ _ h => nomatch h)
    | applyPaperTradeThrough =>
      exact hmoves (applyPaperTradeThrough_steps hs hrun) (fun _ _ _ h => nomatch h)
    | recordVenueTradeFinality => rw [recordVenueTradeFinality_lifecycle hrun]
    | reconcileVenuePositions => rw [reconcileVenuePositions_lifecycle hrun]
    | _ => exact (StoreCall.run_keepsHouse hrun rfl).steps

/-- What any operation the coordinator issues does to the lifecycle. -/
theorem StoreCall.after_steps {db : Db} {past : List Db} (hleads : Leads db past)
    (config : StoreConfig) (now : Time) (call : StoreCall) (hallowed : call.Allowed (db :: past)) :
    LifecycleSteps call.Moves db.lifecycle (call.after config now db).lifecycle := by
  cases hearly : call.early with
  | false =>
    exact (call.after_moves hleads config now hallowed hearly).lifecycle.mono fun _ => And.left
  | true =>
    unfold StoreCall.after
    cases hrun : call.run config now db with
    | error e => exact .refl
    | ok r =>
      cases call with
      | admitIntent => exact admitIntent_steps hrun
      | transitionIntent => exact transitionIntent_steps hallowed hrun
      | evaluateAndReserveRisk => exact evaluateAndReserveRisk_steps hrun
      | createPreparedOrder => exact createPreparedOrder_steps hleads.coherent hrun
      | rejectPreparation => exact rejectPreparation_steps hrun
      | recoverPreSubmissionWork => exact recoverPreSubmissionWork_steps hrun
      | _ => cases hearly

namespace StoreRun

variable {config : StoreConfig} {guard : StoreCall → Db → Prop} {db : Db} {past : List Db}

theorem leads (h : StoreRun config guard db past) : Leads db past := by
  induction h with
  | initial => exact ⟨Coherent.initial, fun _ hearlier => absurd hearlier List.not_mem_nil⟩
  | call call now _ hallowed _ ih => exact ih.next (call.after_steps ih config now hallowed)
  | venue _ hframe ih => exact ih.next (M := fun _ => True) (hframe.lifecycle_eq ▸ .refl)

theorem coherent (h : StoreRun config guard db past) : Coherent db.lifecycle := h.leads.coherent

theorem mono {guard' : StoreCall → Db → Prop} (hsub : ∀ call db, guard call db → guard' call db)
    (h : StoreRun config guard db past) : StoreRun config guard' db past := by
  induction h with
  | initial => exact .initial
  | call call now _ hallowed hguard ih => exact .call call now ih hallowed (hsub _ _ hguard)
  | venue _ hframe ih => exact .venue ih hframe

end StoreRun

theorem Reachable.coherent {config : StoreConfig} {db : Db} (h : Reachable config db) :
    Coherent db.lifecycle := by
  obtain ⟨past, hrun⟩ := h
  exact hrun.coherent

/-! ## Playing operations -/

instance (past : List Db) : DecidablePred (StoreCall.Allowed past) := fun call => by
  unfold StoreCall.Allowed
  split <;> infer_instance

/-- The database and the past that a list of operations leads to, if each of them is allowed. -/
def play (config : StoreConfig) (now : Time) :
    List StoreCall → Db → List Db → Option (Db × List Db)
  | [], db, past => some (db, past)
  | call :: calls, db, past =>
    if call.Allowed (db :: past) then
      play config now calls (call.after config now db) (db :: past)
    else none

theorem play_run {config : StoreConfig} {guard : StoreCall → Db → Prop} {now : Time}
    {calls : List StoreCall} {db db' : Db} {past past' : List Db}
    (hrun : StoreRun config guard db past) (hguard : ∀ call ∈ calls, ∀ db, guard call db)
    (h : play config now calls db past = some (db', past')) :
    StoreRun config guard db' past' := by
  induction calls generalizing db past with
  | nil =>
    cases h
    exact hrun
  | cons call calls ih =>
    simp only [play] at h
    split at h
    · exact ih (.call call now hrun ‹_› (hguard call List.mem_cons_self db))
        (fun other hother => hguard other (List.mem_cons_of_mem _ hother)) h
    · cases h

/-- What a check of the database a list of operations leads to shows. -/
theorem exists_of_play {config : StoreConfig} {now : Time} {calls : List StoreCall}
    {check : Db × List Db → Bool} (h : (play config now calls Db.initial []).any check = true) :
    ∃ db past, play config now calls Db.initial [] = some (db, past) ∧ Reachable config db ∧
      check (db, past) = true := by
  obtain ⟨⟨db, past⟩, hplay, hcheck⟩ := (Option.any_eq_true _ _).mp h
  exact ⟨db, past, hplay, ⟨past, play_run .initial (fun _ _ _ => trivial) hplay⟩, hcheck⟩

def samplePaperStore : StoreConfig := { mode := .paper, eventRetention := 1000000 }

/-- A live store that keeps every event. -/
def sampleLiveStore : StoreConfig := { mode := .live, eventRetention := 1000000 }

/-- A resting buy of ten shares at one half. -/
def sampleRequest : OrderIntentRequest where
  conditionId := "condition"
  tokenId := "7"
  side := .buy
  timeInForce := .gtc
  quantity := { unit := .shares, value := "10" }
  limitPrice := some "0.5"
  worstPrice := none
  expiresAt := none
  postOnly := false
  clientContext := { strategy := none, strategyOrderId := none, correlationId := none }

def sampleMarket : MarketRules where
  conditionId := "condition"
  tokenId := "7"
  active := true
  closed := false
  acceptingOrders := true
  tickSize := 1 / 100
  minimumOrderSize := 1
  negativeRisk := false
  makerFeeRate := 0
  takerFeeRate := 0
  observedAt := 0

def sampleBook : OrderBook where
  bids := [⟨49 / 100, 1000⟩]
  asks := [⟨51 / 100, 1000⟩]
  observedAt := 0
  hash := some "book"

def samplePolicy : RiskPolicy where
  version := "sample"
  allowedConditionIds := []
  allowedTokenIds := []
  allowedSides := [.buy, .sell]
  allowedTimeInForce := [.gtc, .gtd, .fok, .fak]
  maxQuotePerOrder := 1000
  maxSharesPerOrder := 1000
  maxOpenOrders := 10
  maxOpenNotionalPerMarket := 1000
  maxNetPositionPerToken := 1000
  maxGrossExposure := 1000
  maxDailyMatchedNotional := 1000
  maxWorstPriceDistance := 1
  minVisibleDepth := 1
  maxMarketMetadataAgeSeconds := 60
  maxOrderBookAgeSeconds := 60
  maxUserStreamAgeSeconds := 60
  maxReconciliationAgeSeconds := 600
  cancelOnHalt := true

def samplePrepared (deterministicOrderId : String) : PreparedVenueOrder where
  deterministicOrderId
  normalizedJson := { raw := "[]", canonical := some "[]" }
  signedPayloadJson := some "[]"
  signerAddress := none
  funderAddress := none
  protocolVersion := 2
  sdkVersion := "sample"

/-- The operations of a READY service that admit an intent under a key and prepare its order; the
intent's and the order's identifiers are those the store draws. -/
def prepareSample (key : String) (intentId : Uuid) : List StoreCall :=
  [.admitIntent "operator" key sampleRequest,
    .transitionIntent intentId .received .validating none,
    .evaluateAndReserveRisk intentId sampleRequest sampleMarket sampleBook samplePolicy,
    .transitionIntent intentId .approved .preparing none,
    .createPreparedOrder intentId sampleRequest (samplePrepared key) "sample" 0]

/-- A service that turns READY; its first intent gets the identifier 3, its order 7. -/
def readySample : List StoreCall :=
  [.setServiceState "system" .ready "startup checks passed" none none]

/-- The operations after which the first order of a READY service rests at the venue. -/
def restingSample : List StoreCall :=
  readySample ++ prepareSample "first" 3 ++
    [.beginSubmission 3 7,
      .finishSubmission 3 7 .submitted .live (some "first") "VENUE_RESPONSE" 0 none []]

/-- The operations after which the submission of the first order has ended without an answer. -/
def unknownSample : List StoreCall :=
  readySample ++ prepareSample "first" 3 ++
    [.beginSubmission 3 7,
      .finishSubmission 3 7 .unknown .unknown (some "first") "VENUE_RESPONSE" 0 none []]

end OddsfoxExecution
