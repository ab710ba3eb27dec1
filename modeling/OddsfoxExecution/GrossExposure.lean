import Mathlib.Algebra.Order.BigOperators.Group.Finset
import OddsfoxExecution.Store.Pipeline

/-!
# Gross exposure over whole runs

An open buy counts its quote with fees, a share held counts one: a fill raises
gross exposure whenever a share costs less than one.  The worst case values each
commitment at the larger of the two, for tokens that end up long and tokens that
end up short.  Fills drain the worst case, so it stays below the cap where every
admission looks at it; the engine looks at the open value only.
-/

namespace OddsfoxExecution

/-- What the snapshot counts for one open share of a commitment. -/
def Commitment.openGross (c : Commitment) : Decimal :=
  if c.side = .buy then c.quoteExposure / c.originalQuantity * (1 + c.feeRate) else 0

/-- What one share of a commitment can count for, where its token ends up long or short. -/
def Commitment.unitGross (long : Bool) (c : Commitment) : Decimal :=
  max c.openGross (if decide (c.side = .buy) = long then 1 else 0)

/-- The worst case of gross exposure where the tokens `long` end up long and the others short. -/
def grossPotential (long : String → Bool) : PortfolioPotential where
  claim c := c.unitGross (long c.tokenId) * c.quantity
  weight token := if long token then 1 else -1
  record _ := 0

theorem Commitment.unitGross_nonneg (long : Bool) (c : Commitment) : 0 ≤ c.unitGross long := by
  refine le_max_of_le_right ?_
  split
  · exact zero_le_one
  · exact le_rfl

theorem Commitment.Sound.unitGross_mul_le {c : Commitment} (h : c.Sound) (long : Bool) :
    c.unitGross long * c.quantity ≤ max c.openGross 1 * c.quantity := by
  refine mul_le_mul_of_nonneg_right (max_le_max_left _ ?_) h.quantity
  split
  · exact le_rfl
  · exact zero_le_one

theorem Commitment.signed_le_unitGross (long : Bool) (c : Commitment) {size : Decimal}
    (hsize : 0 < size) :
    (if long then 1 else -1) * c.side.signed size ≤ c.unitGross long * size := by
  by_cases hway : decide (c.side = .buy) = long
  · have hmoved : (if long then 1 else -1) * c.side.signed size = size := by
      cases hside : c.side <;> simp [← hway, hside, Side.signed]
    rw [hmoved]
    refine le_mul_of_one_le_left hsize.le (le_max_of_le_right ?_)
    rw [if_pos hway]
  · have hmoved : (if long then 1 else -1) * c.side.signed size = -size := by
      cases hside : c.side <;> cases long <;> simp_all [Side.signed]
    have hnonneg := mul_nonneg (c.unitGross_nonneg long) hsize.le
    linarith

theorem grossPotential_drains {charges : Commitment → Decimal → Prop}
    {fills : Commitment → Fill → Prop}
    (hcharges : ∀ c feeRate, charges c feeRate → feeRate = c.feeRate) (long : String → Bool) :
    (grossPotential long).Drains (Turns charges fills) := by
  refine PortfolioPotential.drains (fun c feeRate _ hcharge => ?_)
    (fun c hsound => mul_nonneg (c.unitGross_nonneg _) hsound.quantity)
    (fun c quantity _ _ hle => mul_le_mul_of_nonneg_left hle (c.unitGross_nonneg _))
    (fun c f quantity _ _ hpositive hle _ => ?_)
  · rw [hcharges c feeRate hcharge]
  · have hmoved := c.signed_le_unitGross (long c.tokenId) hpositive
    have hclaim := mul_le_mul_of_nonneg_left hle (c.unitGross_nonneg (long c.tokenId))
    rw [mul_add] at hclaim
    change c.unitGross (long c.tokenId) * quantity + _ + 0 ≤ _
    change _ ≤ c.unitGross (long c.tokenId) * c.quantity
    simp only [grossPotential]
    linarith

theorem Commitment.openGross_mul (c : Commitment) : c.openGross * c.quantity =
    if c.side = .buy then c.notional * (1 + c.feeRate) else 0 := by
  unfold openGross notional
  split
  · ring
  · exact zero_mul _

theorem grossPotential_of (long : String → Bool) (p : Portfolio) : (grossPotential long).of p =
    p.total (fun c => c.unitGross (long c.tokenId) * c.quantity) +
      p.held.sum fun token shares => (if long token then 1 else -1) * shares := by
  simp [Potential.of, Potential.worth, grossPotential, Portfolio.total]

theorem Portfolio.total_le {p : Portfolio} {f g : Commitment → Decimal}
    (h : ∀ c ∈ p.pending, f c ≤ g c) : p.total f ≤ p.total g :=
  Multiset.sum_map_le_sum_map _ _ h

theorem signed_eq_abs (shares : Decimal) :
    (if 0 ≤ shares then 1 else -1) * shares = |shares| := by
  split
  · rw [one_mul, abs_of_nonneg ‹_›]
  · rw [neg_one_mul, abs_of_neg (not_le.mp ‹_›)]

/-- What the snapshot reports is one of the cases the worst case covers. -/
theorem grossExposure_le {p : Portfolio} (hsound : ∀ c ∈ p.pending, c.Sound)
    (conditionId tokenId : String) (now : Time) :
    (p.snapshot conditionId tokenId now).grossExposure ≤
      (grossPotential fun token => decide (0 ≤ p.held token)).of p := by
  have hopen : p.total (fun c => if c.side = .buy then c.notional * (1 + c.feeRate) else 0) ≤
      p.total fun c => c.unitGross (decide (0 ≤ p.held c.tokenId)) * c.quantity := by
    refine Portfolio.total_le fun c hc => ?_
    rw [← c.openGross_mul]
    exact mul_le_mul_of_nonneg_right (le_max_left _ _) (hsound c hc).quantity
  have hheld : (p.held.sum fun token shares =>
      (if decide (0 ≤ p.held token) then 1 else -1) * shares) =
        p.held.sum fun _ shares => |shares| := by
    refine Finset.sum_congr rfl fun token _ => ?_
    simp only [decide_eq_true_eq]
    exact signed_eq_abs _
  rw [grossPotential_of, hheld]
  exact add_le_add_left hopen _

/-! ## The cap -/

/-- The order is charged the fee rate its risk was reserved with. -/
def StoreCall.ChargesReserved (db : Db) : StoreCall → Prop
  | createPreparedOrder intentId _ _ _ feeRate =>
    ∀ r ∈ db.riskReservations, RiskReservation.At intentId .active r → feeRate = r.feeRate
  | _ => True

/-- What the operation admits keeps the worst case within the cap, however the open orders fill. -/
def StoreCall.GrossCovered (policy : RiskPolicy) (now : Time) (db : Db) (call : StoreCall) : Prop :=
  ∀ c, (call.conditions now db).enters db.portfolio c → ∀ long,
    (grossPotential long).of db.portfolio + (grossPotential long).claim c ≤ policy.maxGrossExposure

/-- A report of the venue leaves the shares held as they are, so that positions change by fills
only. -/
def StoreCall.KeepsHeld (db : Db) : StoreCall → Prop
  | reconcileVenuePositions observed =>
    ∀ r, OddsfoxExecution.reconcileVenuePositions observed db = .ok r →
      ∀ tokenId, r.db.positionShares tokenId = db.positionShares tokenId
  | _ => True

/-- The gross exposure of the starting positions is within the cap. -/
def GrossWithin (policy : RiskPolicy) (db : Db) : Prop :=
  (db.positions.map fun p => |p.shares|).sum ≤ policy.maxGrossExposure

instance (policy : RiskPolicy) : DecidablePred (GrossWithin policy) := fun db =>
  inferInstanceAs (Decidable ((db.positions.map fun p => |p.shares|).sum ≤ policy.maxGrossExposure))

theorem StoreCall.ChargesReserved.charges {now : Time} {db : Db} {call : StoreCall}
    (h : call.ChargesReserved db) (c : Commitment) (feeRate : Decimal)
    (hcharges : (call.conditions now db).charges c feeRate) : feeRate = c.feeRate := by
  obtain ⟨intentId, _, _, _, rfl, r, hr, hactive, rfl⟩ := hcharges
  exact h r hr hactive

/-- A bound of every worst case: each share counts for the larger of its two values. -/
theorem grossPotential_le {db : Db} (htracked : Tracked db.exposures) (long : String → Bool) :
    (grossPotential long).of db.portfolio ≤
      (db.commitments.map fun c => max c.openGross 1 * c.quantity).sum +
        (db.positions.map fun p => |p.shares|).sum := by
  have htokens : (db.positions.map PositionRecord.tokenId).Nodup := htracked.tokens
  rw [← holdings_abs htokens, ← db.total_portfolio, grossPotential_of]
  refine add_le_add (Portfolio.total_le fun c hc => ?_) (Finset.sum_le_sum fun token _ => ?_)
  · rw [db.pending_portfolio] at hc
    exact (htracked.commitments_sound hc).unitGross_mul_le _
  · dsimp only
    split
    · rw [one_mul]
      exact le_abs_self _
    · rw [neg_one_mul]
      exact neg_le_abs _

/-- The operations the cap is kept by: positions change by fills only, orders are charged as
reserved, and admissions look at the worst case. -/
structure GrossGuard (policy : RiskPolicy) (now : Time) (call : StoreCall) (db : Db) : Prop where
  agrees : call.Agrees OrderState.projectable db
  keeps : call.KeepsHeld db
  charges : call.ChargesReserved db
  covered : call.GrossCovered policy now db

/-- A report that leaves the shares held as they are leaves the portfolio as it is. -/
theorem StoreCall.KeepsHeld.portfolio {config : StoreConfig} {now : Time} {db : Db}
    {call : StoreCall} (h : call.KeepsHeld db) (htracked : Tracked db.exposures)
    (hreports : call.reportsPositions = true) :
    (call.after config now db).portfolio = db.portfolio := by
  obtain ⟨positions, hexposures, htokens⟩ := StoreCall.after_reported htracked config now hreports
  have hpositions : positions = (call.after config now db).positions :=
    (congrArg Exposures.positions hexposures).symm
  have hshares : ∀ tokenId,
      (call.after config now db).positionShares tokenId = db.positionShares tokenId := by
    cases call with
    | reconcileVenuePositions observed =>
      unfold StoreCall.after
      cases hrun : (StoreCall.reconcileVenuePositions observed).run config now db with
      | error e => exact fun _ => rfl
      | ok r => exact h r hrun
    | _ => cases hreports
  have hheld : holdings positions = holdings db.positions := by
    ext tokenId
    rw [← Db.positionShares_eq htracked.tokens, ← hshares,
      Db.positionShares_eq (hpositions ▸ htokens), hpositions]
  rw [Db.portfolio, hexposures, Exposures.portfolio, hheld]
  rfl

/-- In every run under one policy, from positions within the cap, whose admissions keep the worst
case within the cap, every snapshot is within the cap. -/
theorem gross_exposure_holds_over_runs {config : StoreConfig} {policy : RiskPolicy} {db : Db}
    (h : PipelineRun config policy (GrossWithin policy) (GrossGuard policy) db)
    (conditionId tokenId : String) (now : Time) :
    ∃ snapshot, db.riskSnapshot conditionId tokenId now = .ok snapshot ∧
      snapshot.grossExposure ≤ policy.maxGrossExposure := by
  have hagrees := fun now call db (hguard : GrossGuard policy now call db) => hguard.agrees
  have htracked := h.tracked hagrees
  have hworst : ∀ long, (grossPotential long).of db.portfolio ≤ policy.maxGrossExposure := by
    intro long
    refine h.bounded hagrees (fun now call db htracked hguard hreports => ?_)
      (fun db huntraded hstart => ?_) (fun now call db hguard => ?_)
      (fun now call db c _ hguard henter _ => hguard.covered c henter long)
    · rw [hguard.keeps.portfolio htracked hreports]
    · have hle := grossPotential_le huntraded.tracked long
      have hempty : db.commitments = [] := by
        simp [Db.commitments, huntraded.orders, huntraded.riskReservations]
      rw [hempty, List.map_nil, List.sum_nil, zero_add] at hle
      exact hle.trans hstart
    · exact grossPotential_drains hguard.charges.charges long
  have hsound : ∀ c ∈ db.portfolio.pending, c.Sound := by
    intro c hc
    rw [db.pending_portfolio] at hc
    exact htracked.commitments_sound hc
  exact ⟨_, Db.riskSnapshot_eq htracked conditionId tokenId now,
    (grossExposure_le hsound conditionId tokenId now).trans (hworst _)⟩

def StoreCall.chargesReserved (db : Db) : StoreCall → Bool
  | createPreparedOrder intentId _ _ _ feeRate =>
    db.riskReservations.all fun r => ¬ RiskReservation.At intentId .active r ∨ feeRate = r.feeRate
  | _ => true

theorem StoreCall.chargesReserved_iff (db : Db) (call : StoreCall) :
    call.chargesReserved db = true ↔ call.ChargesReserved db := by
  cases call <;> simp [chargesReserved, ChargesReserved, imp_iff_not_or]

instance (db : Db) : DecidablePred (StoreCall.ChargesReserved db) := fun call =>
  decidable_of_iff _ (call.chargesReserved_iff db)

/-- A decision of `KeepsHeld` that a report passes only if no row changes. -/
def StoreCall.keepsHeld (db : Db) : StoreCall → Bool
  | reconcileVenuePositions observed =>
    match OddsfoxExecution.reconcileVenuePositions observed db with
    | .ok r => r.db.positions = db.positions
    | .error _ => true
  | _ => true

theorem StoreCall.keepsHeld_sound {db : Db} {call : StoreCall} (h : call.keepsHeld db = true) :
    call.KeepsHeld db := by
  cases call with
  | reconcileVenuePositions observed =>
    intro r hrun tokenId
    simp only [keepsHeld, hrun, decide_eq_true_eq] at h
    rw [Db.positionShares, h, Db.positionShares]
  | _ => trivial

/-- A check of what an operation admits against the bound of the worst cases. -/
def StoreCall.grossCovers (policy : RiskPolicy) (db : Db) : StoreCall → Bool
  | evaluateAndReserveRisk _ request market _ _ =>
    (request.commitment market).all fun c =>
      ((c :: db.commitments).map fun c => max c.openGross 1 * c.quantity).sum +
        (db.positions.map fun p => |p.shares|).sum ≤ policy.maxGrossExposure
  | _ => true

theorem StoreCall.grossCovers_sound {policy : RiskPolicy} {now : Time} {db : Db} {call : StoreCall}
    (htracked : Tracked db.exposures) (h : call.grossCovers policy db = true) :
    call.GrossCovered policy now db := by
  intro c henter long
  obtain ⟨-, intentId, request, market, book, evaluated, rfl, -, hcommitment⟩ := henter
  rw [grossCovers, hcommitment] at h
  have hbound := of_decide_eq_true h
  have hnow := grossPotential_le htracked long
  have hclaim := (OrderIntentRequest.commitment_sound hcommitment).unitGross_mul_le
    (long c.tokenId)
  rw [List.map_cons, List.sum_cons] at hbound
  change _ + c.unitGross (long c.tokenId) * c.quantity ≤ _
  linarith

/-- A filled buy whose shares the venue reports is within the cap where the cap allows a unit for
each share. -/
theorem gross_exposure_holds_over_runs_filled :
    ∃ db : Db, db.orders.map OrderRecord.state = [.filled] ∧
      ∃ snapshot, db.riskSnapshot "condition" "7" 0 = .ok snapshot ∧
        snapshot.grossExposure ≤ samplePolicy.maxGrossExposure := by
  have hstart : GrossWithin samplePolicy readyDb := by decide +kernel
  have hsample : (playPipeline samplePaperStore samplePolicy
      (fun _ call db => call.agrees (fun state => decide state.projectable) db &&
        call.keepsHeld db && decide (call.ChargesReserved db) && call.grossCovers samplePolicy db)
      (atTime 0 (submitSample samplePolicy sampleRequest "first" 1 ++
        [.finishSubmission 1 5 .submitted .filled (some "first") "VENUE_RESPONSE" 10 (some (1 / 2))
            ["trade"],
          .reconcileVenuePositions [{ tokenId := "7", conditionId := "condition", shares := 10 }]]))
      readyDb).any (fun db => db.orders.map OrderRecord.state = [.filled]) = true := by
    decide +kernel
  obtain ⟨db, hrun, horders⟩ := exists_of_playPipeline (GrossGuard samplePolicy)
    (fun _ _ _ hbefore h => by
      simp only [Bool.and_eq_true, decide_eq_true_eq] at h
      exact ⟨StoreCall.agrees_sound (fun _ => of_decide_eq_true) h.1.1.1,
        StoreCall.keepsHeld_sound h.1.1.2, h.1.2,
        StoreCall.grossCovers_sound (hbefore.tracked fun _ _ _ hguard => hguard.agrees) h.2⟩)
    readyDb_untraded hstart hsample
  exact ⟨db, of_decide_eq_true horders, gross_exposure_holds_over_runs hrun "condition" "7" 0⟩

def tightGrossPolicy : RiskPolicy := { samplePolicy with maxGrossExposure := 5 }

/-- An order to buy 10 shares at 0.50 is admitted for its quote of 5 and fills: the 10 shares count
for 10 where the cap is 5. -/
theorem gross_exposure_exceeded_by_fill : tightGrossPolicy.validate = .ok () ∧
    ∃ db, PipelineRun samplePaperStore tightGrossPolicy (GrossWithin tightGrossPolicy)
        (fun _ call db => call.Books OrderState.projectable db ∧ call.ChargesReserved db) db ∧
      ∃ snapshot, db.riskSnapshot "condition" "7" 0 = .ok snapshot ∧
        tightGrossPolicy.maxGrossExposure < snapshot.grossExposure := by
  refine ⟨by decide +kernel, ?_⟩
  have hstart : GrossWithin tightGrossPolicy readyDb := by decide +kernel
  have hsample : (playPipeline samplePaperStore tightGrossPolicy
      (fun _ call db => call.books (fun state => decide state.projectable) db &&
        decide (call.ChargesReserved db))
      (atTime 0 (submitSample tightGrossPolicy sampleRequest "first" 1 ++
        [.finishSubmission 1 5 .submitted .filled (some "first") "VENUE_RESPONSE" 10 (some (1 / 2))
          ["trade"]])) readyDb).any
      (fun db => (db.riskSnapshot "condition" "7" 0).toOption.any
        fun snapshot => tightGrossPolicy.maxGrossExposure < snapshot.grossExposure) = true := by
    decide +kernel
  obtain ⟨db, hrun, hcheck⟩ := exists_of_playPipeline
    (fun _ call db => call.Books OrderState.projectable db ∧ call.ChargesReserved db)
    (fun _ _ _ _ h => by
      simp only [Bool.and_eq_true, decide_eq_true_eq] at h
      exact ⟨StoreCall.books_sound (fun _ => of_decide_eq_true) h.1, h.2⟩)
    readyDb_untraded hstart hsample
  obtain ⟨snapshot, hsnapshot, hgross⟩ := exists_ok_of_any hcheck
  exact ⟨db, hrun, snapshot, hsnapshot, of_decide_eq_true hgross⟩

end OddsfoxExecution
