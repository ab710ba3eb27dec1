import OddsfoxExecution.Coordinator.System

/-!
# Executions of single functions

A coordinator function that runs to its end while the others do as they like.
The log lists its calls, each with the memory that answered it.  The rules read
an execution along the structure of the function; `Makes` bounds the calls a
function can make.
-/

namespace OddsfoxExecution

/-- Where a function runs: the configuration of its store, its thread, and what the others may do
to the memory between two of its calls. -/
structure Setting where
  config : StoreConfig
  thread : Nat
  others : Memory → Memory → Prop

abbrev Log : Type := List (Memory × Sigma Call.Answer)

variable {α β : Type}

def Setting.Runs (S : Setting) (x : Action α) (m : Memory) (log : Log)
    (result : Except CoordinatorError α) (m' : Memory) : Prop :=
  Prog.Runs S.others (fun m c r m' => c.answers S.config m S.thread r m') x.run m log result m'

/-- What `?` makes of the answer of a store operation. -/
def StoreCall.outcome {call : StoreCall} : call.Response → Except CoordinatorError call.Value
  | .ok value => .ok value
  | .error e => .error (.store e)

namespace Setting

variable {S : Setting} {m m' : Memory} {log : Log}

theorem runs_pure {a : α} {result : Except CoordinatorError α} :
    S.Runs (pure a) m log result m' ↔ log = [] ∧ result = .ok a ∧ m' = m :=
  Prog.runs_run_pure

theorem runs_throw {e : CoordinatorError} {result : Except CoordinatorError α} :
    S.Runs (throw e) m log result m' ↔ log = [] ∧ result = .error e ∧ m' = m :=
  Prog.runs_run_throw

theorem runs_bind {x : Action α} {f : α → Action β} {result : Except CoordinatorError β} :
    S.Runs (x >>= f) m log result m' ↔
      (∃ e, S.Runs x m log (.error e) m' ∧ result = .error e) ∨
        ∃ first a m₁ second, S.Runs x m first (.ok a) m₁ ∧ S.Runs (f a) m₁ second result m' ∧
          log = first ++ second :=
  Prog.runs_run_bind

theorem runs_perform {c : Call} {result : Except CoordinatorError c.Answer} :
    S.Runs (Action.perform c) m log result m' ↔
      ∃ m₁ r, S.others m m₁ ∧ c.answers S.config m₁ S.thread r m' ∧ log = [(m₁, ⟨c, r⟩)] ∧
        result = .ok r := by
  refine Prog.runs_run_lift.trans ⟨?_, ?_⟩
  · rintro ⟨r, hrun, rfl⟩
    obtain ⟨m₁, r', m₂, rest, hothers, hanswer, hrest, rfl⟩ := Prog.runs_call.mp hrun
    obtain ⟨rfl, rfl, rfl⟩ := Prog.runs_pure.mp hrest
    exact ⟨m₁, r, hothers, hanswer, rfl, rfl⟩
  · rintro ⟨m₁, r, hothers, hanswer, rfl, rfl⟩
    exact ⟨r, .call hothers hanswer .pure, rfl⟩

theorem runs_store {call : StoreCall} {result : Except CoordinatorError call.Value} :
    S.Runs (Action.store call) m log result m' ↔
      ∃ m₁ now, S.others m m₁ ∧
        log = [(m₁, ⟨.store call, call.answer S.config now m₁.db⟩)] ∧
        result = StoreCall.outcome (call.answer S.config now m₁.db) ∧
        m' = { m₁ with db := call.after S.config now m₁.db, past := m₁.db :: m₁.past } := by
  refine runs_bind.trans ⟨?_, ?_⟩
  · rintro (⟨e, hrun, -⟩ | ⟨first, r, m₁, second, hfirst, hsecond, rfl⟩)
    · obtain ⟨_, _, _, _, _, hresult⟩ := runs_perform.mp hrun
      cases hresult
    · obtain ⟨m₂, r', hothers, ⟨now, rfl, rfl⟩, rfl, hresult⟩ := runs_perform.mp hfirst
      cases hresult
      refine ⟨m₂, now, hothers, ?_⟩
      revert hsecond
      cases call.answer S.config now m₂.db with
      | ok value =>
        intro hsecond
        obtain ⟨rfl, rfl, rfl⟩ := runs_pure.mp hsecond
        exact ⟨rfl, rfl, rfl⟩
      | error e =>
        intro hsecond
        obtain ⟨rfl, rfl, rfl⟩ := runs_throw.mp hsecond
        exact ⟨rfl, rfl, rfl⟩
  · rintro ⟨m₁, now, hothers, rfl, rfl, rfl⟩
    refine Or.inr ⟨_, call.answer S.config now m₁.db, _, [],
      runs_perform.mpr ⟨m₁, _, hothers, ⟨now, rfl, rfl⟩, rfl, rfl⟩, ?_, rfl⟩
    cases call.answer S.config now m₁.db with
    | ok value => exact runs_pure.mpr ⟨rfl, rfl, rfl⟩
    | error e => exact runs_throw.mpr ⟨rfl, rfl, rfl⟩

theorem runs_attempt {x : Action α} {result : Except CoordinatorError (Except CoordinatorError α)} :
    S.Runs (Action.attempt x) m log result m' ↔
      ∃ outcome, S.Runs x m log outcome m' ∧ result = .ok outcome :=
  Prog.runs_run_lift

theorem runs_performBind {c : Call} {f : c.Answer → Action β}
    {result : Except CoordinatorError β} :
    S.Runs (Action.perform c >>= f) m log result m' ↔
      ∃ m₁ r m₂ rest, S.others m m₁ ∧ c.answers S.config m₁ S.thread r m₂ ∧
        S.Runs (f r) m₂ rest result m' ∧ log = (m₁, ⟨c, r⟩) :: rest := by
  refine runs_bind.trans ⟨?_, ?_⟩
  · rintro (⟨e, hrun, -⟩ | ⟨first, r, m₁, rest, hfirst, hrest, rfl⟩)
    · obtain ⟨_, _, _, _, _, hresult⟩ := runs_perform.mp hrun
      cases hresult
    · obtain ⟨m₀, r, hothers, hanswer, rfl, hresult⟩ := runs_perform.mp hfirst
      cases hresult
      exact ⟨m₀, r, m₁, rest, hothers, hanswer, hrest, rfl⟩
  · rintro ⟨m₀, r, m₁, rest, hothers, hanswer, hrest, rfl⟩
    exact Or.inr ⟨_, r, m₁, rest, runs_perform.mpr ⟨m₀, r, hothers, hanswer, rfl, rfl⟩, hrest, rfl⟩

theorem runs_attemptBind {x : Action α} {f : Except CoordinatorError α → Action β}
    {result : Except CoordinatorError β} :
    S.Runs (Action.attempt x >>= f) m log result m' ↔
      ∃ first outcome m₁ rest, S.Runs x m first outcome m₁ ∧ S.Runs (f outcome) m₁ rest result m' ∧
        log = first ++ rest := by
  refine runs_bind.trans ⟨?_, ?_⟩
  · rintro (⟨e, hrun, -⟩ | ⟨first, outcome, m₁, rest, hfirst, hrest, rfl⟩)
    · obtain ⟨_, _, hresult⟩ := runs_attempt.mp hrun
      cases hresult
    · obtain ⟨outcome, hfirst, hresult⟩ := runs_attempt.mp hfirst
      cases hresult
      exact ⟨first, outcome, m₁, rest, hfirst, hrest, rfl⟩
  · rintro ⟨first, outcome, m₁, rest, hfirst, hrest, rfl⟩
    exact Or.inr ⟨first, outcome, m₁, rest, runs_attempt.mpr ⟨outcome, hfirst, rfl⟩, hrest, rfl⟩

/-- What a function that succeeded did after one of its store operations. -/
theorem runs_storeOk {call : StoreCall} {f : call.Value → Action β} {b : β}
    (hrun : S.Runs (Action.store call >>= f) m log (.ok b) m') :
    ∃ m₁ now value rest, S.others m m₁ ∧ call.answer S.config now m₁.db = .ok value ∧
      S.Runs (f value) { m₁ with db := call.after S.config now m₁.db, past := m₁.db :: m₁.past }
        rest (.ok b) m' ∧ log = (m₁, ⟨.store call, Except.ok value⟩) :: rest := by
  rcases runs_bind.mp hrun with ⟨e, -, hresult⟩ | ⟨first, value, m₂, rest, hfirst, hrest, rfl⟩
  · cases hresult
  · obtain ⟨m₁, now, hothers, rfl, houtcome, rfl⟩ := runs_store.mp hfirst
    cases hanswer : call.answer S.config now m₁.db with
    | ok value' =>
      rw [hanswer] at houtcome
      cases houtcome
      exact ⟨m₁, now, value, rest, hothers, hanswer, hrest, rfl⟩
    | error e =>
      rw [hanswer] at houtcome
      cases houtcome

/-- The calls under a gate stand between its lock and its release. -/
theorem runs_withGate {gate : Gate} {x : Action α} {result : Except CoordinatorError α}
    (hrun : S.Runs (Action.withGate gate x) m log result m') :
    ∃ m₁ m₂ inner m₃ m₄, S.Runs x m₂ inner result m₃ ∧
      log = (m₁, ⟨.lock gate, ()⟩) :: inner ++ [(m₄, ⟨.unlock gate, ()⟩)] := by
  obtain ⟨m₁, ⟨⟩, m₂, _, -, -, hattempt, rfl⟩ := runs_performBind.mp hrun
  obtain ⟨inner, outcome, m₃, _, hinner, hunlock, rfl⟩ := runs_attemptBind.mp hattempt
  obtain ⟨m₄, ⟨⟩, _, _, -, -, hrest, rfl⟩ := runs_performBind.mp hunlock
  cases outcome with
  | ok value =>
    obtain ⟨rfl, rfl, -⟩ := runs_pure.mp hrest
    exact ⟨m₁, m₂, inner, m₃, m₄, hinner, rfl⟩
  | error e =>
    obtain ⟨rfl, rfl, -⟩ := runs_throw.mp hrest
    exact ⟨m₁, m₂, inner, m₃, m₄, hinner, rfl⟩

end Setting

/-- A service nobody else uses. -/
def aloneSetting : Setting := { config := samplePaperStore, thread := 0, others := Eq }

/-! ## The calls a function can make -/

/-- The function makes no call but those in `K`. -/
def Makes (K : Call → Prop) (x : Action α) : Prop :=
  ∀ made, x.run.wp (fun _ c => K c) (fun _ _ => True) made

namespace Makes

variable {K : Call → Prop} {x : Action α} {f : α → Action β}

theorem pure {a : α} : Makes K (Pure.pure a : Action α) := fun _ => trivial

theorem throw {e : CoordinatorError} : Makes K (MonadExcept.throw e : Action α) := fun _ => trivial

theorem bind (hx : Makes K x) (hf : ∀ a, Makes K (f a)) : Makes K (x >>= f) := by
  intro made
  rw [Prog.wp_run_bind]
  refine Prog.wp_mono (hx made) ?_
  intro made result _
  cases result with
  | ok a => exact hf a made
  | error e => trivial

theorem perform {c : Call} (h : K c) : Makes K (Action.perform c) := fun _ => ⟨h, fun _ => trivial⟩

theorem store {call : StoreCall} (h : K (.store call)) : Makes K (Action.store call) := by
  intro made
  rw [Action.wp_store]
  exact ⟨h, fun _ => trivial, fun _ => trivial⟩

theorem attempt (hx : Makes K x) : Makes K (Action.attempt x) := by
  intro made
  exact Prog.wp_run_lift.mpr (Prog.wp_mono (hx made) fun _ _ _ => trivial)

theorem mono {K' : Call → Prop} (hx : Makes K x) (h : ∀ c, K c → K' c) : Makes K' x := by
  intro made
  exact Prog.wp_promise (hx made) fun _ c hc => h c hc

end Makes

theorem Setting.Runs.calls {S : Setting} {x : Action α} {m m' : Memory} {log : Log}
    {result : Except CoordinatorError α} (hrun : S.Runs x m log result m') {K : Call → Prop}
    (hx : Makes K x) : ∀ e ∈ log, K e.2.1 :=
  Prog.Runs.calls hrun (hx [])

/-! ## The calls of a reconciliation -/

def Call.collecting : Call → Bool
  | .venue (.cancel _) | .venue (.findOrder _) => true
  | .store .knownOrders | .store .deterministicOrderIds | .store .unknownSubmissions
  | .store (.reconcileOrderProjection ..) | .store (.resolveUnknownSubmission ..)
  | .store (.orderIdForVenueId _) | .store (.recordVenueTradeFinality ..) => true
  | _ => false

def Call.reconciling : Call → Bool
  | .venue .reconcile | .spawn (.protectiveCancellation _) => true
  | .store (.startReconciliation ..) | .store (.reconcileVenuePositions _)
  | .store (.finishReconciliation ..) | .store (.failReconciliation ..)
  | .store (.getReconciliation _) | .store .pruneEvents | .store .serviceState
  | .store (.setServiceState _ .halted _ none _) => true
  | c => c.collecting

theorem Call.reconciling_of_collecting {c : Call} (h : c.collecting = true) :
    c.reconciling = true := by
  unfold reconciling
  split <;> first | rfl | exact h

namespace Coordinator

variable (self : Coordinator)

theorem flagUnexpectedOrders_makes (ids findings : List String) :
    Makes (fun c => c.collecting = true) (self.flagUnexpectedOrders ids findings) := by
  induction ids generalizing findings with
  | nil => exact .pure
  | cons id ids ih =>
    unfold flagUnexpectedOrders
    split
    · refine .bind (.perform rfl) fun answer => ?_
      cases answer <;> exact ih _
    · exact ih _

theorem findVenueOrder_makes (id : String) :
    Makes (fun c => c.collecting = true) (findVenueOrder id) := by
  refine .bind (.perform rfl) fun answer => ?_
  cases answer with
  | ok observed => exact .pure
  | error e => exact .throw
  | timeout => exact .throw

theorem projectActiveOrders_makes (observed : List ObservedVenueOrder) (orders : List OrderRecord)
    (findings : List String) :
    Makes (fun c => c.collecting = true) (projectActiveOrders observed orders findings) := by
  induction orders generalizing findings with
  | nil => exact .pure
  | cons order orders ih =>
    unfold projectActiveOrders
    refine .bind ?_ fun found => ?_
    · unfold observeOrder
      split
      · exact .pure
      · exact findVenueOrder_makes _
    · cases found with
      | none => exact ih _
      | some found =>
        dsimp only
        split
        · exact ih _
        · exact .bind (.store rfl) fun _ => ih _

theorem resolveUnknownSubmissions_makes (unknown : List UnknownSubmission)
    (findings : List String) :
    Makes (fun c => c.collecting = true) (resolveUnknownSubmissions unknown findings) := by
  induction unknown generalizing findings with
  | nil => exact .pure
  | cons row unknown ih =>
    unfold resolveUnknownSubmissions
    refine .bind (findVenueOrder_makes _) fun found => ?_
    cases found with
    | none => exact ih _
    | some found =>
      dsimp only
      split
      · exact ih _
      · exact .bind (.store rfl) fun _ => ih _

theorem orderIdsForVenueIds_makes (ids : List String) :
    Makes (fun c => c.collecting = true) (orderIdsForVenueIds ids) := by
  induction ids with
  | nil => exact .pure
  | cons id ids ih => exact .bind (.store rfl) fun _ => .bind ih fun _ => .pure

theorem recordObservedTrades_makes (trades : List ObservedVenueTrade) (findings : List String) :
    Makes (fun c => c.collecting = true) (recordObservedTrades trades findings) := by
  induction trades generalizing findings with
  | nil => exact .pure
  | cons trade trades ih =>
    unfold recordObservedTrades
    refine .bind (orderIdsForVenueIds_makes _) fun ids => ?_
    split
    · refine .bind (.store rfl) fun linked => ?_
      split <;> exact ih _
    · exact ih _
    · exact ih _

theorem collectFindings_makes (result : ReconciliationResult) :
    Makes (fun c => c.collecting = true) (self.collectFindings result) :=
  .bind (.store rfl) fun _ => .bind (.store rfl) fun _ =>
    .bind (self.flagUnexpectedOrders_makes _ _) fun _ =>
    .bind (projectActiveOrders_makes _ _ _) fun _ => .bind (.store rfl) fun _ =>
    .bind (resolveUnknownSubmissions_makes _ _) fun _ => recordObservedTrades_makes _ _

theorem spawnProtectiveCancellation_makes (reason : String) :
    Makes (fun c => c.reconciling = true) (self.spawnProtectiveCancellation reason) := by
  unfold spawnProtectiveCancellation
  split
  · exact .perform rfl
  · exact .pure

theorem reconcileStartedInner_makes (id : Uuid) :
    Makes (fun c => c.reconciling = true) (self.reconcileStartedInner id) := by
  refine .bind (.perform rfl) fun answer => ?_
  cases answer.orElse (VenueError.unavailable "reconciliation deadline exceeded") with
  | error e =>
    exact .bind (.store rfl) fun _ => .bind (.store rfl) fun _ =>
      .bind (self.spawnProtectiveCancellation_makes _) fun _ => .throw
  | ok result =>
    refine .bind ((self.collectFindings_makes result).mono fun c => Call.reconciling_of_collecting)
      fun findings => .bind (.store rfl) fun _ => .bind (.store rfl) fun _ =>
      .bind (.store rfl) fun _ => ?_
    split
    · exact .pure
    · exact .bind (.store rfl) fun _ =>
        .bind (self.spawnProtectiveCancellation_makes _) fun _ => .pure

theorem haltAfterFailedReconciliation_makes :
    Makes (fun c => c.reconciling = true) self.haltAfterFailedReconciliation := by
  refine .bind (.perform rfl) fun control => ?_
  cases control with
  | error e => exact .pure
  | ok control =>
    dsimp only
    split
    · exact .pure
    · refine .bind (.perform rfl) fun written => ?_
      cases written with
      | ok _ => exact self.spawnProtectiveCancellation_makes _
      | error e => exact .pure

theorem closeFailedReconciliation_makes (id : Uuid) (error : CoordinatorError) :
    Makes (fun c => c.reconciling = true) (self.closeFailedReconciliation id error) := by
  refine .bind (.perform rfl) fun record => ?_
  cases record with
  | error e => exact self.haltAfterFailedReconciliation_makes
  | ok record =>
    dsimp only
    split
    · exact .bind (.perform rfl) fun _ => self.haltAfterFailedReconciliation_makes
    · exact self.haltAfterFailedReconciliation_makes

theorem reconcileStarted_makes (id : Uuid) :
    Makes (fun c => c.reconciling = true) (self.reconcileStarted id) := by
  refine .bind (self.reconcileStartedInner_makes id).attempt fun result => ?_
  cases result with
  | ok id => exact .pure
  | error e => exact .bind (self.closeFailedReconciliation_makes id e) fun _ => .throw

theorem reconcileInner_makes (trigger : String) :
    Makes (fun c => c.reconciling = true) (self.reconcileInner trigger) :=
  .bind (.store rfl) fun id => self.reconcileStarted_makes id

end Coordinator

end OddsfoxExecution
