import OddsfoxExecution.Store.Pipeline

/-!
# Count, market and position caps over whole runs

A cap is checked once, when an order is admitted.  Each capped quantity is a
potential of the portfolio that every later operation drains: what a fill adds
to a position it takes from the pending quantity.  A projection of an order
whose submission is in flight is left out: the recovery of interrupted
submissions opens such an order again.
-/

namespace OddsfoxExecution

/-- The number of open orders and active reservations. -/
def openOrderPotential : PortfolioPotential where
  claim _ := 1
  weight _ := 0
  record _ := 0

/-- The open notional of one market. -/
def marketPotential (conditionId : String) : PortfolioPotential where
  claim c := if c.conditionId = conditionId then c.notional else 0
  weight _ := 0
  record _ := 0

/-- The position of one token once every pending order of one side has filled, counted towards
that side. -/
def positionPotential (tokenId : String) (side : Side) : PortfolioPotential where
  claim c := if c.tokenId = tokenId ∧ c.side = side then c.quantity else 0
  weight token := if token = tokenId then side.signed 1 else 0
  record _ := 0

section Values

variable (p : Portfolio)

theorem openOrderPotential_of : openOrderPotential.of p = p.pending.card := by
  simp [Potential.of, Potential.worth, openOrderPotential]

theorem marketPotential_of (conditionId : String) :
    (marketPotential conditionId).of p =
      p.total fun c => if c.conditionId = conditionId then c.notional else 0 := by
  simp [Potential.of, Potential.worth, marketPotential, Portfolio.total]

theorem positionPotential_of (tokenId : String) (side : Side) :
    (positionPotential tokenId side).of p = side.signed (p.held tokenId) +
      p.total fun c => if c.tokenId = tokenId ∧ c.side = side then c.quantity else 0 := by
  have hheld : (p.held.sum fun token shares => (if token = tokenId then side.signed 1 else 0) *
      shares) = side.signed (p.held tokenId) := by
    rw [Finsupp.sum_eq_single tokenId]
    · rw [if_pos rfl]
      cases side <;> simp [Side.signed]
    · intro token _ hne
      rw [if_neg hne, zero_mul]
    · exact fun _ => mul_zero _
  simp only [Potential.of, Potential.worth, positionPotential, hheld, Portfolio.total,
    Multiset.map_const', Multiset.sum_replicate, nsmul_zero, add_zero]
  rw [add_comm]

end Values

section Drains

variable {charges : Commitment → Decimal → Prop} {fills : Commitment → Fill → Prop}

theorem openOrderPotential_drains : openOrderPotential.Drains (Turns charges fills) := by
  refine PortfolioPotential.drains ?_ ?_ ?_ ?_ <;> simp [openOrderPotential]

theorem marketPotential_drains (conditionId : String) :
    (marketPotential conditionId).Drains (Turns charges fills) := by
  refine PortfolioPotential.drains (fun c feeRate _ _ => le_rfl) (fun c hsound => ?_)
    (fun c quantity hsound _ hle => ?_) (fun c f quantity hsound _ hpositive hle _ => ?_)
  · dsimp only [marketPotential]
    split
    · exact hsound.notional_nonneg
    · exact le_rfl
  · dsimp only [marketPotential]
    split
    · exact hsound.notional_le hle
    · exact le_rfl
  · dsimp only [marketPotential]
    rw [zero_mul, add_zero, add_zero]
    split
    · exact hsound.notional_le (by linarith)
    · exact le_rfl

theorem positionPotential_drains (tokenId : String) (side : Side) :
    (positionPotential tokenId side).Drains (Turns charges fills) := by
  refine PortfolioPotential.drains (fun c feeRate _ _ => le_rfl) (fun c hsound => ?_)
    (fun c quantity hsound _ hle => ?_) (fun c f quantity hsound _ hpositive hle _ => ?_)
  · dsimp only [positionPotential]
    split
    · exact hsound.quantity
    · exact le_rfl
  · dsimp only [positionPotential]
    split
    · exact hle
    · exact le_rfl
  · dsimp only [positionPotential]
    by_cases htoken : c.tokenId = tokenId
    · by_cases hside : c.side = side
      · have hmoved : side.signed 1 * c.side.signed f.size = f.size := by
          rw [hside]
          cases side <;> simp [Side.signed]
        simp only [htoken, hside, true_and, if_true] at hmoved ⊢
        linarith
      · have hmoved : side.signed 1 * c.side.signed f.size = -f.size := by
          cases hc : c.side <;> cases side <;> simp_all [Side.signed]
        simp only [htoken, hside, true_and, if_true, if_false, hmoved]
        linarith
    · simp [htoken]

end Drains

/-! ## The caps -/

/-- The caps a snapshot of the risk engine is kept within. -/
structure CapsHold (policy : RiskPolicy) (snapshot : RiskSnapshot) : Prop where
  openOrders : snapshot.openOrderCount ≤ policy.maxOpenOrders
  market : snapshot.marketOpenNotional ≤ policy.maxOpenNotionalPerMarket
  short : -policy.maxNetPositionPerToken ≤ snapshot.tokenPosition - snapshot.tokenPendingSells
  long : snapshot.tokenPosition + snapshot.tokenPendingBuys ≤ policy.maxNetPositionPerToken

def PositionsWithin (policy : RiskPolicy) (db : Db) : Prop :=
  ∀ p ∈ db.positions, |p.shares| ≤ policy.maxNetPositionPerToken

section Runs

variable {config : StoreConfig} {policy : RiskPolicy} {guard : Time → StoreCall → Db → Prop}
  {db : Db}

theorem held_within (hvalid : policy.validate = .ok ()) (huntraded : db.Untraded)
    (hstart : PositionsWithin policy db) (tokenId : String) :
    |holdings db.positions tokenId| ≤ policy.maxNetPositionPerToken := by
  rw [holdings_apply huntraded.tokens]
  cases hfound : db.positions.find? fun p => decide (p.tokenId = tokenId) with
  | none =>
    rw [Option.elim, abs_zero]
    exact RiskPolicy.limits_nonneg hvalid ("max_net_position_per_token", _)
      (by simp [RiskPolicy.decimalLimits])
  | some p => exact hstart p (find?_mem hfound).1

/-- In a run that takes over no positions of the venue. -/
theorem PipelineRun.bounded_of_books {start : Db → Prop} {φ : PortfolioPotential} {bound : Decimal}
    (h : PipelineRun config policy start guard db)
    (hbooks : ∀ now call db, guard now call db → call.Books OrderState.projectable db)
    (hstart : ∀ db : Db, db.Untraded → start db → φ.of db.portfolio ≤ bound)
    (hdrains : ∀ now call db, guard now call db → φ.Drains
      (Turns (call.conditions now db).charges (call.conditions now db).fills))
    (henters : ∀ now (call : StoreCall) db c, call.Issued policy db → guard now call db →
      (call.conditions now db).enters db.portfolio c → φ.of db.portfolio ≤ bound →
        φ.of db.portfolio + φ.claim c ≤ bound) : φ.of db.portfolio ≤ bound := by
  refine h.bounded (fun _ _ _ hguard => (hbooks _ _ _ hguard).agrees) ?_ hstart hdrains henters
  intro now call db _ hguard hreports
  cases (hbooks _ _ _ hguard).unreported.symm.trans hreports

theorem openOrders_bounded
    (hbooks : ∀ now call db, guard now call db → call.Books OrderState.projectable db)
    (h : PipelineRun config policy (PositionsWithin policy) guard db) :
    openOrderPotential.of db.portfolio ≤ policy.maxOpenOrders := by
  refine h.bounded_of_books hbooks (fun db huntraded _ => ?_)
    (fun _ _ _ _ => openOrderPotential_drains) (fun now call db c hissued _ henter _ => ?_)
  · rw [openOrderPotential_of, huntraded.portfolio]
    simp
  · have hcount : db.portfolio.pending.card + 1 ≤ policy.maxOpenOrders :=
      (StoreCall.enters_within hissued henter).openOrders
    rw [openOrderPotential_of]
    change (db.portfolio.pending.card : Decimal) + 1 ≤ policy.maxOpenOrders
    exact_mod_cast hcount

theorem market_bounded (hvalid : policy.validate = .ok ())
    (hbooks : ∀ now call db, guard now call db → call.Books OrderState.projectable db)
    (h : PipelineRun config policy (PositionsWithin policy) guard db) (conditionId : String) :
    (marketPotential conditionId).of db.portfolio ≤ policy.maxOpenNotionalPerMarket := by
  refine h.bounded_of_books hbooks (fun db huntraded _ => ?_)
    (fun _ _ _ _ => marketPotential_drains conditionId)
    (fun now call db c hissued _ henter hnow => ?_)
  · rw [marketPotential_of, huntraded.portfolio, Portfolio.total, Multiset.map_zero,
      Multiset.sum_zero]
    exact RiskPolicy.limits_nonneg hvalid ("max_open_notional_per_market", _)
      (by simp [RiskPolicy.decimalLimits])
  · have hmarket := (StoreCall.enters_within hissued henter).market
    by_cases hcondition : c.conditionId = conditionId
    · have hclaim : (marketPotential conditionId).claim c = c.notional := if_pos hcondition
      rw [hclaim, marketPotential_of, ← hcondition]
      exact hmarket
    · have hclaim : (marketPotential conditionId).claim c = 0 := if_neg hcondition
      rw [hclaim, add_zero]
      exact hnow

theorem position_bounded (hvalid : policy.validate = .ok ())
    (hbooks : ∀ now call db, guard now call db → call.Books OrderState.projectable db)
    (h : PipelineRun config policy (PositionsWithin policy) guard db) (tokenId : String)
    (side : Side) :
    (positionPotential tokenId side).of db.portfolio ≤ policy.maxNetPositionPerToken := by
  refine h.bounded_of_books hbooks (fun db huntraded hstart => ?_)
    (fun _ _ _ _ => positionPotential_drains tokenId side)
    (fun now call db c hissued _ henter hnow => ?_)
  · rw [positionPotential_of, huntraded.portfolio, Portfolio.total, Multiset.map_zero,
      Multiset.sum_zero, add_zero]
    obtain ⟨hlow, hhigh⟩ := abs_le.mp (held_within hvalid huntraded hstart tokenId)
    cases side
    · exact hhigh
    · exact neg_le.mp hlow
  · by_cases hclaim : c.tokenId = tokenId ∧ c.side = side
    · have hwithin := StoreCall.enters_within hissued henter
      have hvalue : (positionPotential tokenId side).claim c = c.quantity := if_pos hclaim
      obtain ⟨rfl, rfl⟩ := hclaim
      rw [hvalue, positionPotential_of]
      cases hside : c.side
      · have hlong := (abs_le.mp hwithin.long).2
        rw [hside, if_pos rfl] at hlong
        exact hlong
      · have hshort := (abs_le.mp hwithin.short).1
        rw [hside, if_pos rfl] at hshort
        change -(db.portfolio.held c.tokenId) + db.portfolio.total _ + c.quantity ≤ _
        change -policy.maxNetPositionPerToken ≤ db.portfolio.held c.tokenId -
          db.portfolio.total _ - c.quantity at hshort
        linarith
    · have hvalue : (positionPotential tokenId side).claim c = 0 := if_neg hclaim
      rw [hvalue, add_zero]
      exact hnow

end Runs

/-- In every run under one valid policy, from positions within the position limit, whose
projections are of orders neither terminal nor SUBMITTING, every snapshot is within the caps. -/
theorem caps_hold_over_runs {config : StoreConfig} {policy : RiskPolicy}
    (hvalid : policy.validate = .ok ()) {db : Db}
    (h : PipelineRun config policy (PositionsWithin policy)
      (fun _ call db => call.Books OrderState.projectable db) db)
    (conditionId tokenId : String) (now : Time) :
    ∃ snapshot, db.riskSnapshot conditionId tokenId now = .ok snapshot ∧
      CapsHold policy snapshot := by
  have hbooks : ∀ (now : Time) (call : StoreCall) (db : Db),
      call.Books OrderState.projectable db → call.Books OrderState.projectable db :=
    fun _ _ _ => id
  have htracked := h.tracked fun _ _ _ hguard => hguard.agrees
  refine ⟨_, Db.riskSnapshot_eq htracked conditionId tokenId now, ?_, ?_, ?_, ?_⟩
  · have hcount := openOrders_bounded hbooks h
    rw [openOrderPotential_of] at hcount
    exact_mod_cast hcount
  · have hmarket := market_bounded hvalid hbooks h conditionId
    rw [marketPotential_of] at hmarket
    exact hmarket
  · have hshort := position_bounded hvalid hbooks h tokenId .sell
    rw [positionPotential_of] at hshort
    change -(db.portfolio.held tokenId) + db.portfolio.total _ ≤ _ at hshort
    change -policy.maxNetPositionPerToken ≤ db.portfolio.held tokenId - db.portfolio.total _
    linarith
  · have hlong := position_bounded hvalid hbooks h tokenId .buy
    rw [positionPotential_of] at hlong
    exact hlong

theorem readyDb_positionsWithin (policy : RiskPolicy) : PositionsWithin policy readyDb :=
  fun _ h => (nomatch h)

/-- A snapshot with a resting order is within the caps. -/
theorem caps_hold_over_runs_resting :
    ∃ db : Db, db.orders.map OrderRecord.state = [.live] ∧
      ∃ snapshot, db.riskSnapshot "condition" "7" 0 = .ok snapshot ∧
        CapsHold samplePolicy snapshot := by
  have hsample : (playPipeline samplePaperStore samplePolicy
      (fun _ call db => call.books (fun state => decide state.projectable) db)
      (atTime 0 (submitSample samplePolicy sampleRequest "first" 1 ++
        [.finishSubmission 1 5 .submitted .live (some "first") "VENUE_RESPONSE" 0 none []]))
      readyDb).any (fun db => db.orders.map OrderRecord.state = [.live]) = true := by
    decide +kernel
  obtain ⟨db, hrun, horders⟩ := exists_of_playPipeline _
    (fun _ _ _ _ h => StoreCall.books_sound (fun _ => of_decide_eq_true) h) readyDb_untraded
    (readyDb_positionsWithin _) hsample
  exact ⟨db, of_decide_eq_true horders,
    caps_hold_over_runs (by decide +kernel) hrun "condition" "7" 0⟩

def singleOrderPolicy : RiskPolicy := { samplePolicy with maxOpenOrders := 1 }

/-- A SUBMITTING order is projected CANCELLED, another order takes its place, and the recovery of
interrupted submissions opens the first order again: two orders are open where one is allowed. -/
theorem caps_fail_after_recovery : singleOrderPolicy.validate = .ok () ∧
    ∃ db, PipelineRun samplePaperStore singleOrderPolicy (PositionsWithin singleOrderPolicy)
        (fun _ call db => call.Books (fun state => state.terminal = false) db) db ∧
      ∃ snapshot, db.riskSnapshot "condition" "7" 0 = .ok snapshot ∧
        ¬ CapsHold singleOrderPolicy snapshot := by
  refine ⟨by decide +kernel, ?_⟩
  have hsample : (playPipeline samplePaperStore singleOrderPolicy
      (fun _ call db => call.books (fun state => state.terminal = false) db)
      (atTime 0 (submitSample singleOrderPolicy sampleRequest "first" 1 ++
        [.reconcileOrderProjection 5 .cancelled 10 0 none []] ++
        submitSample singleOrderPolicy sampleRequest "second" 6 ++
        [.recoverInterruptedSubmissions])) readyDb).any
      (fun db => (db.riskSnapshot "condition" "7" 0).toOption.any
        fun snapshot => singleOrderPolicy.maxOpenOrders < snapshot.openOrderCount) = true := by
    decide +kernel
  obtain ⟨db, hrun, hcheck⟩ := exists_of_playPipeline _
    (fun _ _ _ _ h => StoreCall.books_sound (fun _ => of_decide_eq_true) h) readyDb_untraded
    (readyDb_positionsWithin _) hsample
  obtain ⟨snapshot, hsnapshot, hcount⟩ := exists_ok_of_any hcheck
  exact ⟨db, hrun, snapshot, hsnapshot, fun hcaps =>
    absurd hcaps.openOrders (not_le.mpr (of_decide_eq_true hcount))⟩

end OddsfoxExecution
