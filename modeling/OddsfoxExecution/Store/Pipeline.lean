import OddsfoxExecution.Store.ExposureEffects
import OddsfoxExecution.Store.Run

/-!
# Runs of the risk pipeline

The databases an executor goes through that starts with nothing but positions
and admits every order under one policy.  Whatever evidence the operations
accept, a potential that fills drain stays below a bound every admission keeps.
-/

namespace OddsfoxExecution

/-- What the callers of the store promise: an intent moves as its processing does, and is evaluated
under the policy and prepared with its own request. -/
def StoreCall.Issued (policy : RiskPolicy) (db : Db) : StoreCall → Prop
  | transitionIntent _ expected next _ => expected.advances next = true
  | evaluateAndReserveRisk intentId request _ _ evaluated =>
    evaluated = policy ∧ ∀ i ∈ db.intents, i.id = intentId → i.request = request
  | createPreparedOrder intentId request .. =>
    ∀ i ∈ db.intents, i.id = intentId → i.request = request
  | _ => True

/-- The operation takes over what the venue says of the positions. -/
def StoreCall.reportsPositions : StoreCall → Bool
  | reconcileVenuePositions .. => true
  | _ => false

/-- The operation agrees with the orders: a projection is of an order in one of the states
`projects`, and a paper trade fills what the core orders have left. -/
def StoreCall.Agrees (projects : OrderState → Prop) (db : Db) : StoreCall → Prop
  | reconcileOrderProjection orderId .. => ∀ o ∈ db.orders, o.id = orderId → projects o.state
  | applyPaperTradeThrough trade => PaperAgrees db trade
  | _ => True

/-- It also changes positions only by fills of admitted orders: it takes over no positions of the
venue. -/
def StoreCall.Books (projects : OrderState → Prop) (db : Db) : StoreCall → Prop
  | reconcileOrderProjection orderId .. => ∀ o ∈ db.orders, o.id = orderId → projects o.state
  | applyPaperTradeThrough trade => PaperAgrees db trade
  | reconcileVenuePositions .. => False
  | _ => True

theorem StoreCall.Books.agrees {projects : OrderState → Prop} {db : Db} {call : StoreCall}
    (h : call.Books projects db) : call.Agrees projects db := by
  cases call with
  | reconcileOrderProjection | applyPaperTradeThrough => exact h
  | _ => trivial

theorem StoreCall.Books.unreported {projects : OrderState → Prop} {db : Db} {call : StoreCall}
    (h : call.Books projects db) : call.reportsPositions = false := by
  cases call with
  | reconcileVenuePositions => exact h.elim
  | _ => rfl

/-- An order that is open and whose submission is not in flight. -/
def OrderState.projectable (state : OrderState) : Prop :=
  state.terminal = false ∧ state ≠ .submitting

instance : DecidablePred OrderState.projectable := fun state =>
  inferInstanceAs (Decidable (state.terminal = false ∧ state ≠ .submitting))

theorem OrderState.exposed_of_terminal {state : OrderState} (h : state.terminal = false) :
    state.exposed = true := by
  cases state <;> first
    | rfl
    | cases h

/-- What any operation of the pipeline but a report of positions does to exposure. -/
theorem StoreCall.after_exposures {policy : RiskPolicy} {db : Db} (h : Tracked db.exposures)
    (config : StoreConfig) (now : Time) (call : StoreCall) (hissued : call.Issued policy db)
    (hagrees : call.Agrees OrderState.projectable db) (hreports : call.reportsPositions = false) :
    ExposureSteps (call.conditions now db) db.exposures (call.after config now db).exposures := by
  unfold StoreCall.after
  cases hrun : call.run config now db with
  | error e => exact .refl
  | ok r =>
    cases call with
    | admitIntent => exact admitIntent_exposures hrun
    | transitionIntent => exact transitionIntent_exposures h hissued hrun
    | evaluateAndReserveRisk => exact evaluateAndReserveRisk_exposures h hissued.2 hrun
    | createPreparedOrder => exact createPreparedOrder_exposures h hissued hrun
    | rejectPreparation => exact rejectPreparation_exposures h hrun
    | recoverPreSubmissionWork => exact recoverPreSubmissionWork_exposures h hrun
    | beginSubmission => exact beginSubmission_exposures h hrun
    | finishSubmission => exact finishSubmission_exposures h hrun
    | recoverInterruptedSubmissions => exact recoverInterruptedSubmissions_exposures h hrun
    | resolveUnknownSubmission => exact resolveUnknownSubmission_exposures h hrun
    | transitionOrder => exact transitionOrder_exposures h hrun
    | cancelPreparedOrder => exact cancelPreparedOrder_exposures h hrun
    | reconcileOrderProjection =>
      refine reconcileOrderProjection_exposures h (fun o ho hid => ?_) hrun
      obtain ⟨hterminal, hsubmitting⟩ := hagrees o ho hid
      exact ⟨OrderState.exposed_of_terminal hterminal, hsubmitting⟩
    | recordVenueTradeFinality => rw [recordVenueTradeFinality_exposures hrun]
    | applyPaperTradeThrough => exact applyPaperTradeThrough_exposures h hagrees hrun
    | reconcileVenuePositions => cases hreports
    | _ => exact (StoreCall.run_keepsHouse hrun rfl).exposures

/-- A report of positions replaces these and leaves the rest of exposure alone. -/
theorem StoreCall.after_reported {db : Db} (h : Tracked db.exposures) (config : StoreConfig)
    (now : Time) {call : StoreCall} (hreports : call.reportsPositions = true) :
    ∃ positions, (call.after config now db).exposures = { db.exposures with positions } ∧
      (positions.map PositionRecord.tokenId).Nodup := by
  unfold StoreCall.after
  cases hrun : call.run config now db with
  | error e => exact ⟨db.positions, rfl, h.tokens⟩
  | ok r =>
    cases call with
    | reconcileVenuePositions => exact ⟨_, reconcileVenuePositions_exposures hrun h.tokens⟩
    | _ => cases hreports

theorem StoreCall.after_tracked {policy : RiskPolicy} {db : Db} (h : Tracked db.exposures)
    (config : StoreConfig) (now : Time) (call : StoreCall) (hissued : call.Issued policy db)
    (hagrees : call.Agrees OrderState.projectable db) :
    Tracked (call.after config now db).exposures := by
  cases hreports : call.reportsPositions with
  | false => exact h.steps (call.after_exposures h config now hissued hagrees hreports)
  | true =>
    obtain ⟨positions, hexposures, htokens⟩ := StoreCall.after_reported h config now hreports
    rw [hexposures]
    exact { h with tokens := htokens }

/-- What an admission finds within the limits of the policy. -/
theorem StoreCall.enters_within {policy : RiskPolicy} {now : Time} {db : Db} {call : StoreCall}
    {c : Commitment} (hissued : call.Issued policy db)
    (h : (call.conditions now db).enters db.portfolio c) :
    policy.Within c.side c.quantity c.notional
      (db.portfolio.snapshot c.conditionId c.tokenId now) := by
  obtain ⟨-, intentId, request, market, book, evaluated, rfl, happroved, hcommitment⟩ := h
  obtain rfl : evaluated = policy := hissued.1
  obtain ⟨quantity, price, shares, quote, hquantity, hprice, hexposure, rfl⟩ :=
    OrderIntentRequest.exposure_of_commitment hcommitment
  have hpositive := conservativeExposure_pos (OrderIntentRequest.quantityDecimal_pos hquantity)
    (OrderIntentRequest.protectionPrice_pos hprice).1 hexposure
  have hnotional : (reservationFor 0 request market price shares quote).commitment.notional =
      quote := mul_div_cancel_right₀ quote hpositive.1.ne'
  rw [hnotional]
  exact RiskPolicy.within_of_approved hquantity hprice hexposure happroved

/-- An operation keeps a potential it drains below a bound that its admission keeps, if a report of
positions does not raise it. -/
theorem StoreCall.after_bounded {policy : RiskPolicy} {db : Db} (h : Tracked db.exposures)
    (config : StoreConfig) {now : Time} {call : StoreCall} (hissued : call.Issued policy db)
    (hagrees : call.Agrees OrderState.projectable db) {φ : PortfolioPotential} {bound : Decimal}
    (hreports : call.reportsPositions = true →
      φ.of (call.after config now db).portfolio ≤ φ.of db.portfolio)
    (hdrains : φ.Drains (Turns (call.conditions now db).charges (call.conditions now db).fills))
    (henters : ∀ c, (call.conditions now db).enters db.portfolio c →
      φ.of db.portfolio ≤ bound → φ.of db.portfolio + φ.claim c ≤ bound)
    (hnow : φ.of db.portfolio ≤ bound) : φ.of (call.after config now db).portfolio ≤ bound := by
  cases hcase : call.reportsPositions with
  | true => exact (hreports hcase).trans hnow
  | false =>
    have hsteps := (call.after_exposures h config now hissued hagrees hcase).portfolio h
    refine hdrains.bounded (fun p c henter hbefore => ?_) hsteps hnow
    obtain ⟨rfl, -⟩ := id henter
    exact henters c henter hbefore

/-- Nothing has been admitted yet, and no token has two positions. -/
structure Db.Untraded (db : Db) : Prop where
  intents : db.intents = []
  riskReservations : db.riskReservations = []
  orders : db.orders = []
  trades : db.trades = []
  tokens : (db.positions.map PositionRecord.tokenId).Nodup

/-- What the paper venue writes as it commits and cancels its own orders. -/
def Db.PaperWrites (db db' : Db) : Prop :=
  ∃ paperAccount paperInventory paperVenueOrders executionEvents nextSequence,
    db' = { db with
      paperAccount, paperInventory, paperVenueOrders, executionEvents, nextSequence }

/-- A run of the risk pipeline under one policy, from a database with nothing but positions.
`start` is a condition on the positions, `guard` one that every operation meets. -/
inductive PipelineRun (config : StoreConfig) (policy : RiskPolicy) (start : Db → Prop)
    (guard : Time → StoreCall → Db → Prop) : Db → Prop
  | start {db : Db} (huntraded : db.Untraded) (hstart : start db) :
      PipelineRun config policy start guard db
  | call {db : Db} (call : StoreCall) (now : Time) (hrun : PipelineRun config policy start guard db)
      (hissued : call.Issued policy db) (hguard : guard now call db) :
      PipelineRun config policy start guard (call.after config now db)
  | venue {db db' : Db} (hrun : PipelineRun config policy start guard db)
      (hwrites : db.PaperWrites db') : PipelineRun config policy start guard db'

theorem Db.PaperWrites.exposures {db db' : Db} (h : db.PaperWrites db') :
    db'.exposures = db.exposures := by
  obtain ⟨_, _, _, _, _, rfl⟩ := h
  rfl

theorem Db.PaperWrites.portfolio {db db' : Db} (h : db.PaperWrites db') :
    db'.portfolio = db.portfolio := congrArg Exposures.portfolio h.exposures

theorem Db.Untraded.tracked {db : Db} (h : db.Untraded) : Tracked db.exposures := by
  obtain ⟨hintents, hreservations, horders, htrades, htokens⟩ := h
  constructor <;> simp_all [Db.exposures]

theorem Db.Untraded.portfolio {db : Db} (h : db.Untraded) :
    db.portfolio = { pending := 0, held := holdings db.positions, booked := 0 } := by
  simp [Db.portfolio, Exposures.portfolio, Db.exposures, h.orders, h.riskReservations, h.trades]

namespace PipelineRun

variable {config : StoreConfig} {policy : RiskPolicy} {start : Db → Prop}
  {guard : Time → StoreCall → Db → Prop} {db : Db}

theorem tracked
    (hagrees : ∀ now call db, guard now call db → call.Agrees OrderState.projectable db)
    (h : PipelineRun config policy start guard db) : Tracked db.exposures := by
  induction h with
  | start huntraded _ => exact huntraded.tracked
  | call call now _ hissued hguard ih =>
    exact call.after_tracked ih config now hissued (hagrees _ _ _ hguard)
  | venue _ hwrites ih => exact hwrites.exposures ▸ ih

/-- A potential that the operations drain stays below a bound that every admission keeps, if no
report of positions raises it. -/
theorem bounded {φ : PortfolioPotential} {bound : Decimal}
    (hagrees : ∀ now call db, guard now call db → call.Agrees OrderState.projectable db)
    (hreports : ∀ now call db, Tracked db.exposures → guard now call db →
      call.reportsPositions = true → φ.of (call.after config now db).portfolio ≤ φ.of db.portfolio)
    (hstart : ∀ db : Db, db.Untraded → start db → φ.of db.portfolio ≤ bound)
    (hdrains : ∀ now call db, guard now call db → φ.Drains
      (Turns (call.conditions now db).charges (call.conditions now db).fills))
    (henters : ∀ now (call : StoreCall) db c, call.Issued policy db → guard now call db →
      (call.conditions now db).enters db.portfolio c → φ.of db.portfolio ≤ bound →
        φ.of db.portfolio + φ.claim c ≤ bound)
    (h : PipelineRun config policy start guard db) : φ.of db.portfolio ≤ bound := by
  induction h with
  | start huntraded hstarted => exact hstart _ huntraded hstarted
  | @call db call now hrun hissued hguard ih =>
    have htracked := hrun.tracked hagrees
    exact call.after_bounded htracked config hissued (hagrees _ _ _ hguard)
      (hreports now call db htracked hguard) (hdrains now call db hguard)
      (fun c => henters now call db c hissued hguard) ih
  | venue _ hwrites ih => exact hwrites.portfolio ▸ ih

end PipelineRun

/-! ## Playing operations -/

def StoreCall.issued (policy : RiskPolicy) (db : Db) : StoreCall → Bool
  | transitionIntent _ expected next _ => expected.advances next
  | evaluateAndReserveRisk intentId request _ _ evaluated =>
    decide (evaluated = policy) && db.intents.all fun i => i.id ≠ intentId ∨ i.request = request
  | createPreparedOrder intentId request .. =>
    db.intents.all fun i => i.id ≠ intentId ∨ i.request = request
  | _ => true

theorem StoreCall.issued_iff (policy : RiskPolicy) (db : Db) (call : StoreCall) :
    call.issued policy db = true ↔ call.Issued policy db := by
  cases call <;> simp [issued, Issued, imp_iff_not_or]

instance (policy : RiskPolicy) (db : Db) : DecidablePred (StoreCall.Issued policy db) :=
  fun call => decidable_of_iff _ (call.issued_iff policy db)

/-- A decision of `Agrees` that no paper trade passes. -/
def StoreCall.agrees (projects : OrderState → Bool) (db : Db) : StoreCall → Bool
  | reconcileOrderProjection orderId .. =>
    db.orders.all fun o => o.id ≠ orderId ∨ projects o.state
  | applyPaperTradeThrough _ => false
  | _ => true

def StoreCall.books (projects : OrderState → Bool) (db : Db) (call : StoreCall) : Bool :=
  call.agrees projects db && !call.reportsPositions

section Sound

variable {projects : OrderState → Bool} {p : OrderState → Prop} {db : Db} {call : StoreCall}

theorem StoreCall.agrees_sound (hprojects : ∀ state, projects state = true → p state)
    (h : call.agrees projects db = true) : call.Agrees p db := by
  cases call with
  | reconcileOrderProjection orderId =>
    intro o ho hid
    rcases of_decide_eq_true (List.all_eq_true.mp h o ho) with hne | hstate
    · exact absurd hid hne
    · exact hprojects _ hstate
  | applyPaperTradeThrough => cases h
  | _ => trivial

theorem StoreCall.books_sound (hprojects : ∀ state, projects state = true → p state)
    (h : call.books projects db = true) : call.Books p db := by
  obtain ⟨hagrees, hreports⟩ := (Bool.and_eq_true _ _).mp h
  have hagrees := StoreCall.agrees_sound hprojects hagrees
  cases call with
  | reconcileOrderProjection | applyPaperTradeThrough => exact hagrees
  | reconcileVenuePositions => cases hreports
  | _ => trivial

end Sound

/-- The database a list of operations leads to, if each of them is issued and meets the guard. -/
def playPipeline (config : StoreConfig) (policy : RiskPolicy)
    (holds : Time → StoreCall → Db → Bool) :
    List (Time × StoreCall) → Db → Option Db
  | [], db => some db
  | (now, call) :: calls, db =>
    if call.Issued policy db ∧ holds now call db = true then
      playPipeline config policy holds calls (call.after config now db)
    else none

/-- What every operation of a list keeps holds of the database the list leads to. -/
theorem playPipeline_induction {config : StoreConfig} {policy : RiskPolicy} {I : Db → Prop}
    {holds : Time → StoreCall → Db → Bool} {calls : List (Time × StoreCall)}
    (hstep : ∀ entry ∈ calls, ∀ db, I db → entry.2.Issued policy db →
      holds entry.1 entry.2 db = true → I (entry.2.after config entry.1 db))
    {db db' : Db} (hI : I db) (h : playPipeline config policy holds calls db = some db') :
    I db' := by
  induction calls generalizing db with
  | nil =>
    cases h
    exact hI
  | cons entry calls ih =>
    obtain ⟨hentry, hrest⟩ := List.forall_mem_cons.mp hstep
    simp only [playPipeline] at h
    split at h
    · rename_i hcall
      exact ih hrest (hentry db hI hcall.1 hcall.2) h
    · cases h

/-- What a check of the database a list of operations leads to shows. -/
theorem exists_of_playPipeline {config : StoreConfig} {policy : RiskPolicy} {start : Db → Prop}
    (guard : Time → StoreCall → Db → Prop) {holds : Time → StoreCall → Db → Bool}
    (hholds : ∀ now call db, PipelineRun config policy start guard db →
      holds now call db = true → guard now call db)
    {calls : List (Time × StoreCall)} {db : Db} (huntraded : db.Untraded) (hstart : start db)
    {check : Db → Bool} (h : (playPipeline config policy holds calls db).any check = true) :
    ∃ db', PipelineRun config policy start guard db' ∧ check db' = true := by
  obtain ⟨db', hplay, hcheck⟩ := (Option.any_eq_true _ _).mp h
  exact ⟨db', playPipeline_induction (fun entry _ db hrun hissued hcall =>
    .call entry.2 entry.1 hrun hissued (hholds _ _ _ hrun hcall)) (.start huntraded hstart) hplay,
    hcheck⟩

theorem exists_ok_of_any {ε α : Type} {result : Except ε α} {check : α → Bool}
    (h : result.toOption.any check = true) : ∃ a, result = .ok a ∧ check a = true := by
  cases result with
  | error e => cases h
  | ok a => exact ⟨a, rfl, h⟩

/-- A READY service that has admitted nothing; its first intent gets the identifier 1. -/
def readyDb : Db := { Db.initial with
  controlState := { state := .ready, reason := "startup checks passed", revision := 1 } }

theorem readyDb_untraded : readyDb.Untraded := ⟨rfl, rfl, rfl, rfl, List.nodup_nil⟩

def atTime (now : Time) (calls : List StoreCall) : List (Time × StoreCall) :=
  calls.map fun call => (now, call)

/-- The operations that admit an intent under a policy and begin to submit its order; the intent
draws `intentId`, its order the identifier four later. -/
def submitSample (policy : RiskPolicy) (request : OrderIntentRequest) (key : String)
    (intentId : Uuid) : List StoreCall :=
  [.admitIntent "operator" key request,
    .transitionIntent intentId .received .validating none,
    .evaluateAndReserveRisk intentId request sampleMarket sampleBook policy,
    .transitionIntent intentId .approved .preparing none,
    .createPreparedOrder intentId request (samplePrepared key) policy.version 0,
    .beginSubmission intentId (intentId + 4)]

end OddsfoxExecution
