import Mathlib.Algebra.Order.BigOperators.Group.Multiset
import OddsfoxExecution.Store.Pipeline

/-!
# Daily matched notional over whole runs

An admission adds the notional of its own order to what has matched on the day;
what the orders already open may still match is left out.  The worst case of a
day adds it: a buy at its price, a sale at one, the price no match reaches.
Matches drain the worst case, so the notional of every day stays below the cap
where every admission looks at it.
-/

namespace OddsfoxExecution

/-- What has matched on a day and what the open orders may still match. -/
def dailyPotential (day : Time) : PortfolioPotential where
  claim c := (if c.side = .buy then c.price else 1) * c.quantity
  weight _ := 0
  record f := if startOfDay f.createdAt = day then f.price * f.size else 0

def matchedPotential (day : Time) : PortfolioPotential := { dailyPotential day with claim _ := 0 }

theorem Commitment.Sound.worstPrice_nonneg {c : Commitment} (h : c.Sound) :
    0 ≤ if c.side = .buy then c.price else 1 := by
  split
  · exact h.price.le
  · exact zero_le_one

theorem dailyPotential_drains {charges : Commitment → Decimal → Prop}
    {fills : Commitment → Fill → Prop}
    (hprotected : ∀ c f, fills c f → f.price ≤ if c.side = .buy then c.price else 1)
    (day : Time) :
    (dailyPotential day).Drains (Turns charges fills) := by
  refine PortfolioPotential.drains (fun c feeRate _ _ => le_rfl)
    (fun c hsound => mul_nonneg hsound.worstPrice_nonneg hsound.quantity)
    (fun c quantity hsound _ hle => mul_le_mul_of_nonneg_left hle hsound.worstPrice_nonneg)
    (fun c f quantity hsound _ hpositive hle hfills => ?_)
  have hrecord : (dailyPotential day).record f ≤
      (if c.side = .buy then c.price else 1) * f.size := by
    dsimp only [dailyPotential]
    split
    · exact mul_le_mul_of_nonneg_right (hprotected c f hfills) hpositive.le
    · exact mul_nonneg hsound.worstPrice_nonneg hpositive.le
  have hclaim := mul_le_mul_of_nonneg_left hle hsound.worstPrice_nonneg
  rw [mul_add] at hclaim
  change (if c.side = .buy then c.price else 1) * quantity + 0 * _ + _ ≤
    (if c.side = .buy then c.price else 1) * c.quantity
  linarith

/-- Fills of another day leave what has matched on a day as it is. -/
theorem matchedPotential_drains {charges : Commitment → Decimal → Prop}
    {fills : Commitment → Fill → Prop} {day : Time}
    (hother : ∀ c f, fills c f → startOfDay f.createdAt ≠ day) :
    (matchedPotential day).Drains (Turns charges fills) := by
  refine PortfolioPotential.drains (fun _ _ _ _ => le_rfl) (fun _ _ => le_rfl)
    (fun _ _ _ _ _ => le_rfl) (fun c f quantity _ _ _ _ hfills => ?_)
  simp [matchedPotential, dailyPotential, hother c f hfills]

theorem matchedPotential_le {p : Portfolio} (hsound : ∀ c ∈ p.pending, c.Sound) (day : Time) :
    (matchedPotential day).of p ≤ (dailyPotential day).of p := by
  have hopen : (p.pending.map (matchedPotential day).claim).sum ≤
      (p.pending.map (dailyPotential day).claim).sum :=
    Multiset.sum_map_le_sum_map _ _ fun c hc =>
      mul_nonneg (hsound c hc).worstPrice_nonneg (hsound c hc).quantity
  exact add_le_add_left (add_le_add_left hopen _) _

/-- The notional of the trade rows created on a day. -/
def Db.matchedOn (db : Db) (day : Time) : Decimal :=
  ((db.trades.filter fun t => startOfDay t.createdAt = day).map fun t => t.price * t.size).sum

theorem matchedPotential_of (db : Db) (day : Time) :
    (matchedPotential day).of db.portfolio = db.matchedOn day := by
  have hmatched : (db.portfolio.booked.map (matchedPotential day).record).sum =
      db.matchedOn day := by
    rw [Db.matchedOn, Table.sum_filter (fun t : TradeRecord => startOfDay t.createdAt = day)]
    change (((db.trades.map TradeRecord.fill : List Fill) : Multiset Fill).map _).sum = _
    rw [Multiset.map_coe, Multiset.sum_coe, List.map_map]
    rfl
  have hopen : (db.portfolio.pending.map (matchedPotential day).claim).sum = 0 := by
    simp [matchedPotential]
  have hheld : (db.portfolio.held.sum fun token shares =>
      (matchedPotential day).weight token * shares) = 0 := by
    simp [matchedPotential, dailyPotential]
  rw [Potential.of, Potential.worth, hmatched, hopen, hheld, zero_add, zero_add]

/-! ## The cap -/

/-- The fills an operation reports are within the price protection of their orders. -/
def StoreCall.Protected (db : Db) (call : StoreCall) : Prop :=
  ∀ o ∈ db.orders, call.Fills db o → ∀ price, call.fillPrice = some price →
    match o.side with
    | .buy => price ≤ o.price
    | .sell => o.price ≤ price

/-- What the operation admits keeps the worst case within the cap, of its day and of any later. -/
def StoreCall.DailyCovered (policy : RiskPolicy) (now : Time) (db : Db) (call : StoreCall) : Prop :=
  ∀ c, (call.conditions now db).enters db.portfolio c → ∀ day, startOfDay now ≤ day →
    (dailyPotential day).of db.portfolio + (dailyPotential day).claim c ≤
      policy.maxDailyMatchedNotional

/-- A run of the risk pipeline under a clock that never goes back. -/
inductive ClockedRun (config : StoreConfig) (policy : RiskPolicy)
    (guard : Time → StoreCall → Db → Prop) : Time → Db → Prop
  | start {db : Db} (clock : Time) (huntraded : db.Untraded) :
      ClockedRun config policy guard clock db
  | call {clock : Time} {db : Db} (call : StoreCall) (now : Time)
      (hrun : ClockedRun config policy guard clock db) (hclock : clock ≤ now)
      (hissued : call.Issued policy db) (hguard : guard now call db) :
      ClockedRun config policy guard now (call.after config now db)
  | venue {clock : Time} {db db' : Db} (hrun : ClockedRun config policy guard clock db)
      (hwrites : db.PaperWrites db') : ClockedRun config policy guard clock db'

/-- The operations the cap is kept by: fills are of admitted orders and within their price
protection, and admissions look at the worst case. -/
structure DailyGuard (policy : RiskPolicy) (now : Time) (call : StoreCall) (db : Db) : Prop where
  agrees : call.Agrees OrderState.projectable db
  protects : call.Protected db
  covered : call.DailyCovered policy now db

theorem startOfDay_mono {a b : Time} (h : a ≤ b) : startOfDay a ≤ startOfDay b := by
  have hmono : ∀ a b : Int, a ≤ b → a - a % 86400000 ≤ b - b % 86400000 := by omega
  exact hmono a b h

/-- A protected fill matches at most at the worst price of its order. -/
theorem StoreCall.Protected.le_worstPrice {now : Time} {db : Db} {call : StoreCall}
    (h : call.Protected db) (c : Commitment) (f : Fill)
    (hfills : (call.conditions now db).fills c f) :
    f.price ≤ if c.side = .buy then c.price else 1 := by
  obtain ⟨hreported, -, -, hlt, o, ho, hfilled, hside, hprice⟩ := hfills
  have hprotected := h o ho hfilled f.price hreported
  rw [hside, hprice]
  cases hcase : o.side with
  | buy =>
    rw [hcase] at hprotected
    exact hprotected
  | sell => exact hlt.le

/-- A report of positions leaves a potential alone that does not count them. -/
theorem reported_of {config : StoreConfig} {now : Time} {db : Db} {call : StoreCall}
    {φ : PortfolioPotential} (htracked : Tracked db.exposures) (hweight : φ.weight = fun _ => 0)
    (hreports : call.reportsPositions = true) :
    φ.of (call.after config now db).portfolio = φ.of db.portfolio := by
  obtain ⟨positions, hexposures, -⟩ := StoreCall.after_reported htracked config now hreports
  have hunheld : ∀ held : String →₀ Decimal,
      (held.sum fun token shares => φ.weight token * shares) = 0 := by
    intro held
    simp [hweight]
  rw [Db.portfolio, hexposures, Potential.of, Potential.of, Potential.worth, Potential.worth,
    hunheld, hunheld]
  rfl

namespace ClockedRun

variable {config : StoreConfig} {policy : RiskPolicy} {guard : Time → StoreCall → Db → Prop}
  {clock : Time} {db : Db}

theorem pipeline (h : ClockedRun config policy guard clock db) :
    PipelineRun config policy (fun _ => True) guard db := by
  induction h with
  | start _ huntraded => exact .start huntraded trivial
  | call call now _ _ hissued hguard ih => exact .call call now ih hissued hguard
  | venue _ hwrites ih => exact .venue ih hwrites

/-- The worst case of every day to come and what has matched on any day are within the cap. -/
theorem bounded (hvalid : policy.validate = .ok ())
    (h : ClockedRun config policy (DailyGuard policy) clock db) :
    (∀ day, startOfDay clock ≤ day →
      (dailyPotential day).of db.portfolio ≤ policy.maxDailyMatchedNotional) ∧
    ∀ day, (matchedPotential day).of db.portfolio ≤ policy.maxDailyMatchedNotional := by
  induction h with
  | start clock huntraded =>
    have hcap : 0 ≤ policy.maxDailyMatchedNotional :=
      RiskPolicy.limits_nonneg hvalid ("max_daily_matched_notional", _)
        (by simp [RiskPolicy.decimalLimits])
    rw [huntraded.portfolio]
    constructor <;> intros <;>
      simpa [Potential.of, Potential.worth, matchedPotential, dailyPotential] using hcap
  | @call clock db call now hrun hclock hissued hguard ih =>
    have htracked := hrun.pipeline.tracked fun _ _ _ hguard => hguard.agrees
    have hafter := call.after_tracked htracked config now hissued hguard.agrees
    have hworst : ∀ day, startOfDay now ≤ day →
        (dailyPotential day).of (call.after config now db).portfolio ≤
          policy.maxDailyMatchedNotional := fun day hday =>
      call.after_bounded htracked config hissued hguard.agrees
        (fun hreports => (reported_of htracked rfl hreports).le)
        (dailyPotential_drains hguard.protects.le_worstPrice day)
        (fun c henter _ => hguard.covered c henter day hday)
        (ih.1 day ((startOfDay_mono hclock).trans hday))
    refine ⟨hworst, fun day => ?_⟩
    by_cases hday : startOfDay now = day
    · refine (matchedPotential_le (fun c hc => ?_) day).trans (hworst day hday.le)
      rw [Db.pending_portfolio] at hc
      exact hafter.commitments_sound hc
    · refine call.after_bounded htracked config hissued hguard.agrees
        (fun hreports => (reported_of htracked rfl hreports).le)
        (matchedPotential_drains fun _ f hfills => ?_) (fun c _ hnow => ?_) (ih.2 day)
      · rw [hfills.2.1]
        exact hday
      · exact (add_zero _).trans_le hnow
  | venue _ hwrites ih => exact hwrites.portfolio ▸ ih

end ClockedRun

/-- In every run under one valid policy whose fills are within their orders' price protection and
whose admissions keep the worst case within the cap, the notional matched on any day is within the
cap. -/
theorem daily_notional_holds_over_runs {config : StoreConfig} {policy : RiskPolicy}
    (hvalid : policy.validate = .ok ()) {clock : Time} {db : Db}
    (h : ClockedRun config policy (DailyGuard policy) clock db) (day : Time) :
    db.matchedOn day ≤ policy.maxDailyMatchedNotional :=
  matchedPotential_of db day ▸ (h.bounded hvalid).2 day

def StoreCall.protects (db : Db) (call : StoreCall) : Bool :=
  call.fillPrice.all fun price => db.orders.all fun o =>
    match o.side with
    | .buy => price ≤ o.price
    | .sell => o.price ≤ price

theorem StoreCall.protects_sound {db : Db} {call : StoreCall} (h : call.protects db = true) :
    call.Protected db := by
  intro o ho _ price hreported
  rw [protects, hreported] at h
  have hprotected := List.all_eq_true.mp h o ho
  cases hside : o.side <;> rw [hside] at hprotected <;> exact of_decide_eq_true hprotected

/-- A check of what an operation admits before anything has matched. -/
def StoreCall.dailyCovers (policy : RiskPolicy) (db : Db) : StoreCall → Bool
  | evaluateAndReserveRisk _ request market _ _ =>
    (request.commitment market).all fun c => db.trades.isEmpty &&
      ((c :: db.commitments).map fun c => (if c.side = .buy then c.price else 1) * c.quantity).sum ≤
        policy.maxDailyMatchedNotional
  | _ => true

theorem StoreCall.dailyCovers_sound {policy : RiskPolicy} {now : Time} {db : Db} {call : StoreCall}
    (h : call.dailyCovers policy db = true) : call.DailyCovered policy now db := by
  intro c henter day _
  obtain ⟨-, intentId, request, market, book, evaluated, rfl, -, hcommitment⟩ := henter
  rw [dailyCovers, hcommitment] at h
  simp only [Option.all_some, Bool.and_eq_true, decide_eq_true_eq, List.isEmpty_iff] at h
  have hbooked : db.portfolio.booked = 0 := by
    change ((db.trades.map TradeRecord.fill : List Fill) : Multiset Fill) = 0
    rw [h.1]
    rfl
  have hopen : (dailyPotential day).of db.portfolio = (db.commitments.map fun c =>
      (if c.side = .buy then c.price else 1) * c.quantity).sum := by
    rw [← db.total_portfolio]
    simp [Potential.of, Potential.worth, hbooked, dailyPotential, Portfolio.total]
  rw [hopen, add_comm]
  exact h.2

/-- A list of operations made at one time, each issued and within the guard, is a clocked run. -/
theorem exists_clocked_of_playPipeline {config : StoreConfig} {policy : RiskPolicy}
    (guard : Time → StoreCall → Db → Prop) {holds : Time → StoreCall → Db → Bool}
    (hholds : ∀ now call db, holds now call db = true → guard now call db) {now : Time}
    {calls : List StoreCall} {db : Db} (huntraded : db.Untraded) {check : Db → Bool}
    (h : (playPipeline config policy holds (atTime now calls) db).any check = true) :
    ∃ db', ClockedRun config policy guard now db' ∧ check db' = true := by
  obtain ⟨db', hplay, hcheck⟩ := (Option.any_eq_true _ _).mp h
  refine ⟨db', playPipeline_induction (fun entry hentry db hrun hissued hcall => ?_)
    (.start now huntraded) hplay, hcheck⟩
  obtain ⟨call, -, rfl⟩ := List.mem_map.mp hentry
  exact .call call now hrun le_rfl hissued (hholds _ _ _ hcall)

/-- An order that has filled matches its notional. -/
theorem daily_notional_holds_over_runs_filled : ∃ db : Db,
    db.matchedOn 0 = 5 ∧ db.matchedOn 0 ≤ samplePolicy.maxDailyMatchedNotional := by
  have hsample : (playPipeline samplePaperStore samplePolicy
      (fun _ call db => call.agrees (fun state => decide state.projectable) db &&
        call.protects db && call.dailyCovers samplePolicy db)
      (atTime 0 (submitSample samplePolicy sampleRequest "first" 1 ++
        [.finishSubmission 1 5 .submitted .filled (some "first") "VENUE_RESPONSE" 10 (some (1 / 2))
            ["trade"],
          .reconcileVenuePositions []])) readyDb).any (fun db => db.matchedOn 0 = 5) = true := by
    decide +kernel
  obtain ⟨db, hrun, hmatched⟩ := exists_clocked_of_playPipeline (DailyGuard samplePolicy)
    (fun _ _ _ h => by
      simp only [Bool.and_eq_true] at h
      exact ⟨StoreCall.agrees_sound (fun _ => of_decide_eq_true) h.1.1,
        StoreCall.protects_sound h.1.2, StoreCall.dailyCovers_sound h.2⟩)
    readyDb_untraded hsample
  exact ⟨db, of_decide_eq_true hmatched,
    daily_notional_holds_over_runs (by decide +kernel) hrun 0⟩

def tightDailyPolicy : RiskPolicy := { samplePolicy with maxDailyMatchedNotional := 8 }

/-- Two orders of notional 5 are admitted while nothing has matched, and both fill on one day: 10
has matched where the cap is 8. -/
theorem daily_notional_exceeded_by_two_orders : tightDailyPolicy.validate = .ok () ∧
    ∃ db, ClockedRun samplePaperStore tightDailyPolicy
        (fun _ call db => call.Books OrderState.projectable db ∧ call.Protected db) 0 db ∧
      tightDailyPolicy.maxDailyMatchedNotional < db.matchedOn 0 := by
  refine ⟨by decide +kernel, ?_⟩
  have hsample : (playPipeline samplePaperStore tightDailyPolicy
      (fun _ call db => call.books (fun state => decide state.projectable) db && call.protects db)
      (atTime 0 (submitSample tightDailyPolicy sampleRequest "first" 1 ++
        [.finishSubmission 1 5 .submitted .live (some "first") "VENUE_RESPONSE" 0 none []] ++
        submitSample tightDailyPolicy sampleRequest "second" 6 ++
        [.finishSubmission 6 10 .submitted .live (some "second") "VENUE_RESPONSE" 0 none [],
          .reconcileOrderProjection 5 .filled 0 10 (some (1 / 2)) ["trade-1"],
          .reconcileOrderProjection 10 .filled 0 10 (some (1 / 2)) ["trade-2"]])) readyDb).any
      (fun db => tightDailyPolicy.maxDailyMatchedNotional < db.matchedOn 0) = true := by
    decide +kernel
  obtain ⟨db, hrun, hmatched⟩ := exists_clocked_of_playPipeline
    (fun _ call db => call.Books OrderState.projectable db ∧ call.Protected db)
    (fun _ _ _ h => by
      simp only [Bool.and_eq_true] at h
      exact ⟨StoreCall.books_sound (fun _ => of_decide_eq_true) h.1, StoreCall.protects_sound h.2⟩)
    readyDb_untraded hsample
  exact ⟨db, hrun, of_decide_eq_true hmatched⟩

end OddsfoxExecution
