import OddsfoxExecution.Coordinator.System

/-!
# What every task promises

A promise about each call a coordinator task makes, stated over the calls the
task has made before: which answers its arguments come from, which gate it
holds, and who writes which control state on what grounds.  `Does` is the
judgement that a function keeps the promise through quiet calls only, those
that leave gates, submissions and the READY state alone; its rules follow the
structure of the functions.
-/

namespace OddsfoxExecution

/-- The calls of one task, latest first. -/
abbrev Calls : Type := Trace Call.Answer

abbrev done (call : StoreCall) (value : call.Value) : Sigma Call.Answer :=
  ⟨.store call, Except.ok value⟩

abbrev asked (call : VenueCall) (answer : VenueAnswer call.Value) : Sigma Call.Answer :=
  ⟨.venue call, answer⟩

/-! ## What a task has behind it -/

def Holds (gate : Gate) : Calls → Prop
  | [] => False
  | ⟨.lock g, _⟩ :: made => g = gate ∨ Holds gate made
  | ⟨.unlock g, _⟩ :: made => g ≠ gate ∧ Holds gate made
  | _ :: made => Holds gate made

def LeavesUnknown : Calls → Prop
  | ⟨.store (.finishSubmission _ _ .unknown _ _ _ _ _ _), r⟩ :: _ => r = Except.ok ()
  | _ => False

/-- The last call began a submission, or had the venue answer one. -/
def Submits : Calls → Prop
  | ⟨.store (.beginSubmission _ _), r⟩ :: _ => r = Except.ok ()
  | ⟨.venue (.submit _ _), _⟩ :: _ => True
  | _ => False

def Call.carriesOn : Call → Bool
  | .venue (.submit ..) | .store (.finishSubmission ..) => true
  | _ => false

/-- The call that must follow an ambiguous submission. -/
def ambiguousHalt : Call :=
  .store (.setServiceState "system" .halted "ambiguous venue submission" none none)

def HaltWritten (made : Calls) : Prop :=
  ∃ actor reason, done (.setServiceState actor .halted reason none none) () ∈ made

def ReadyWritten (made : Calls) : Prop :=
  ∃ actor reason idempotency expected,
    done (.setServiceState actor .ready reason idempotency expected) () ∈ made

/-- The startup has seen to the control state it found: it read HALTED or wrote another state. -/
def Controlled (made : Calls) : Prop :=
  (∃ control, done .serviceState control ∈ made ∧ control.state = .halted) ∨
    ∃ actor next reason, done (.setServiceState actor next reason none none) () ∈ made

/-- Recovered intents go back to the queue after a READY write. -/
def MayEnqueue (task : Task) (made : Calls) : Prop :=
  task = .main ∧ ReadyWritten made ∨ ∃ actorId key reason, task = .resume actorId key reason

/-- The task took the order of the intent from its prepared row, or has just written the row. -/
def PreparedIn (made : Calls) (intentId orderId : Uuid) (prepared : PreparedVenueOrder) : Prop :=
  (∃ persisted, done (.preparedSubmission intentId) persisted ∈ made ∧
      persisted.orderId = orderId ∧ prepared = persisted.venueOrder) ∨
    ∃ request policyVersion feeRate order,
      done (.createPreparedOrder intentId request prepared policyVersion feeRate) order ∈ made ∧
        order.id = orderId

theorem PreparedIn.cons {made : Calls} {intentId orderId : Uuid} {prepared : PreparedVenueOrder}
    {e : Sigma Call.Answer} (h : PreparedIn made intentId orderId prepared) :
    PreparedIn (e :: made) intentId orderId prepared := by
  rcases h with ⟨persisted, hmem, h⟩ | ⟨request, version, rate, order, hmem, h⟩
  · exact Or.inl ⟨persisted, List.mem_cons_of_mem _ hmem, h⟩
  · exact Or.inr ⟨request, version, rate, order, List.mem_cons_of_mem _ hmem, h⟩

def recordedCall (intentId orderId : Uuid) (prepared : PreparedVenueOrder) :
    Except VenueError VenueSubmission → StoreCall
  | .ok s =>
    .finishSubmission intentId orderId .submitted s.state (some s.venueOrderId) "VENUE_RESPONSE"
      s.filledQuantity s.filledPrice s.venueTradeIds
  | .error e =>
    if e.isAmbiguous = true then
      .finishSubmission intentId orderId .unknown .unknown (some prepared.deterministicOrderId)
        "AMBIGUOUS" 0 none []
    else
      .finishSubmission intentId orderId .submitted .rejected none "DEFINITIVE_REJECTION" 0 none []

/-- The answer to a submission as `submit_prepared` reads it. -/
def submissionResult (answer : VenueAnswer VenueSubmission) :
    Except VenueError VenueSubmission :=
  answer.orElse (.ambiguous "submission deadline exceeded after SUBMITTING commit")

/-- The venue showed the task an order, in a snapshot or on a lookup. -/
def ObservedIn (made : Calls) (venueOrderId : String) (observed : ObservedVenueOrder) : Prop :=
  (∃ result, asked .reconcile (.ok result) ∈ made ∧ observed ∈ result.observedOrders ∧
      observed.venueOrderId = venueOrderId) ∨
    asked (.findOrder venueOrderId) (.ok (some observed)) ∈ made

/-- The task started the reconciliation run itself, or was spawned for it. -/
def RunStarted (task : Task) (made : Calls) (id : Uuid) : Prop :=
  task = .reconciliation id ∨
    ∃ trigger idempotency, done (.startReconciliation trigger idempotency) id ∈ made

theorem RunStarted.mono {task : Task} {made made' : Calls} {id : Uuid}
    (h : RunStarted task made id) (hsub : ∀ e ∈ made, e ∈ made') : RunStarted task made' id := by
  rcases h with htask | ⟨trigger, idempotency, hmem⟩
  · exact Or.inl htask
  · exact Or.inr ⟨trigger, idempotency, hsub _ hmem⟩

/-- The calls of a reconciliation that ended well: either every unknown submission it read was
resolved and it reported no finding, or it wrote HALTED after its report. -/
def Reconciled (id : Uuid) (added : Calls) : Prop :=
  ∃ (trigger : String) (unknown : List UnknownSubmission) (findings : List String)
    (c₁ c₂ c₃ : Calls),
    added = c₃ ++ done (.finishReconciliation id findings) () ::
      (c₂ ++ done .unknownSubmissions unknown ::
        (c₁ ++ [done (.startReconciliation trigger none) id])) ∧
      ((findings = [] ∧ ∀ u ∈ unknown, ∃ venueOrderId state remaining filled price ids,
          done (.resolveUnknownSubmission u venueOrderId state remaining filled price ids) () ∈
            c₂) ∨
        HaltWritten c₃)

/-! ## Quiet calls -/

/-- The calls that touch no gate and no open submission and write no control state but HALTED. -/
def Call.quiet : Call → Bool
  | .store (.beginSubmission ..) | .store (.finishSubmission ..)
  | .store .recoverInterruptedSubmissions | .venue (.submit ..)
  | .lock _ | .unlock _ | .serve => false
  | .store (.setServiceState _ next _ _ expected) => next = .halted ∧ expected = none
  | _ => true

def AllQuiet (added : Calls) : Prop := ∀ e ∈ added, e.1.quiet = true

/-! ## The promise -/

/-- Who writes which control state, and on what grounds.  READY ends a startup that read a state
other than HALTED after its reconciliation, or a resume whose reconciliation came after it read
HALTED at the revision it expects and before a heartbeat. -/
def ControlPromise (task : Task) (made : Calls) : ServiceState → Option Nat → Prop
  | .halted, expected => expected = none
  | .reconciling, expected => task = .main ∧ expected = none ∧
      ∃ control earlier, made = done .serviceState control :: earlier ∧
        control.state ≠ .halted ∧ control.state ≠ .shuttingDown
  | .shuttingDown, expected => task = .shutdown ∧ expected = none
  | .ready, none => task = .main ∧ Holds .safety made ∧ Controlled made ∧
      ∃ control after id added earlier,
        made = done .serviceState control :: (after ++ (added ++ earlier)) ∧
          control.state ≠ .halted ∧ AllQuiet after ∧ AllQuiet added ∧ Reconciled id added
  | .ready, some revision => (∃ actorId key reason, task = .resume actorId key reason) ∧
      Holds .safety made ∧
        ∃ after id added control earlier,
          made = after ++ asked .heartbeat (.ok ()) ::
            (added ++ done .serviceState control :: earlier) ∧
            control.state = .halted ∧ control.revision = revision ∧ AllQuiet after ∧
            AllQuiet added ∧ Reconciled id added
  | _, _ => False

/-- The record a mutation makes, if it makes one, is of one of these operations. -/
def RecordsAs (operations : List String) : Option Idempotency → Prop
  | none => True
  | some idempotency => idempotency.operation ∈ operations

def StorePromise (task : Task) (made : Calls) : StoreCall → Prop
  | .transitionIntent _ expected next _ => expected.advances next = true
  | .beginSubmission intentId _ => task = .worker intentId ∧ Holds .safety made
  | .finishSubmission intentId orderId intentState orderState venueOrderId cls filled price ids =>
    task = .worker intentId ∧ Holds .safety made ∧ ∃ prepared request answer earlier,
      made = asked (.submit prepared request) answer ::
        done (.beginSubmission intentId orderId) () :: earlier ∧
        .finishSubmission intentId orderId intentState orderState venueOrderId cls filled price
          ids = recordedCall intentId orderId prepared (submissionResult answer)
  | .recoverInterruptedSubmissions =>
    task = .main ∧ Holds .safety made ∧ Controlled made ∧ ¬ ReadyWritten made
  | .resolveUnknownSubmission unknown venueOrderId state remaining filled price ids =>
    state ≠ .unknown ∧
      (∃ rows : List UnknownSubmission, done .unknownSubmissions rows ∈ made ∧ unknown ∈ rows) ∧
        asked (.findOrder unknown.deterministicOrderId)
          (.ok (some ⟨venueOrderId, state, remaining, filled, price, ids⟩)) ∈ made
  | .reconcileOrderProjection orderId state remaining total price ids =>
    state ≠ .unknown ∧ ∃ (known : List OrderRecord) (order : OrderRecord) (observedId : String),
      done .knownOrders known ∈ made ∧ order ∈ known ∧ order.id = orderId ∧
        order.state.active = true ∧ ObservedIn made (order.venueOrderId.getD "")
          ⟨observedId, state, remaining, total, price, ids⟩
  | .transitionOrder id next venueOrderId => venueOrderId = none ∧
      (next = .cancelPending ∨
        ∃ (order : OrderRecord) (v : String) (cancellation : VenueCancellation),
        done (.getOrder id) order ∈ made ∧
        order.venueOrderId = some v ∧ asked (.cancel v) (.ok cancellation) ∈ made ∧
          next = cancellation.state)
  | .finishReconciliation id _ => RunStarted task made id
  | .setServiceState _ next _ idempotency expected => ControlPromise task made next expected ∧
      RecordsAs ["control.halt", "control.resume"] idempotency
  | .createCancellation _ _ idempotency => RecordsAs ["cancellation"] idempotency
  | .startReconciliation _ idempotency => RecordsAs ["reconciliation"] (idempotency.map Prod.snd)
  | .startBackup _ idempotency => RecordsAs ["backup"] idempotency
  | _ => True

def CallPromise (task : Task) (made : Calls) : Call → Prop
  | .store call => StorePromise task made call
  | .venue (.submit prepared _) => ∃ intentId orderId earlier,
      made = done (.beginSubmission intentId orderId) () :: earlier ∧
        PreparedIn earlier intentId orderId prepared
  | .unlock gate => Holds gate made
  | .serve => task = .main ∧ Controlled made
  | .enqueue _ => MayEnqueue task made
  | .spawn (.reconciliation id) =>
    ∃ trigger idempotency, done (.startReconciliation trigger idempotency) id ∈ made
  | .sendPermit _ => ∃ actorId key request, task = .submitIntent actorId key request
  | _ => True

/-- The promise of a task about its next call. -/
structure Promise (task : Task) (made : Calls) (c : Call) : Prop where
  unserved : ∀ e ∈ made, e.1 ≠ .serve
  halting : LeavesUnknown made → c = ambiguousHalt
  submitting : Submits made → c.carriesOn = true
  call : CallPromise task made c

/-! ## Quiet stretches -/

structure Calm (made : Calls) : Prop where
  unserved : ∀ e ∈ made, e.1 ≠ .serve
  settled : ¬ LeavesUnknown made
  idle : ¬ Submits made

/-- After calm calls only the call's own promise is left. -/
theorem Calm.promise {task : Task} {made : Calls} {c : Call} (h : Calm made)
    (hcall : CallPromise task made c) : Promise task made c :=
  ⟨h.unserved, fun hleft => absurd hleft h.settled, fun hsubmits => absurd hsubmits h.idle, hcall⟩

theorem unserved_cons {made : Calls} {e : Sigma Call.Answer} (h : ∀ e ∈ made, e.1 ≠ .serve)
    (he : e.1 ≠ .serve) : ∀ e' ∈ e :: made, e'.1 ≠ .serve := fun e' he' => by
  rcases List.mem_cons.mp he' with rfl | he'
  · exact he
  · exact h e' he'

theorem Calm.of_cons {made : Calls} {e : Sigma Call.Answer} (h : ∀ e ∈ made, e.1 ≠ .serve)
    (he : e.1 ≠ .serve) (hsettled : ¬ LeavesUnknown (e :: made))
    (hidle : ¬ Submits (e :: made)) : Calm (e :: made) :=
  ⟨unserved_cons h he, hsettled, hidle⟩

theorem AllQuiet.append {a b : Calls} (ha : AllQuiet a) (hb : AllQuiet b) : AllQuiet (a ++ b) :=
  fun e he => (List.mem_append.mp he).elim (ha e) (hb e)

theorem allQuiet_nil : AllQuiet [] := fun _ he => nomatch he

theorem allQuiet_singleton {e : Sigma Call.Answer} (he : e.1.quiet = true) : AllQuiet [e] :=
  fun _ hmem => List.mem_singleton.mp hmem ▸ he

theorem quiet_settled {e : Sigma Call.Answer} {made : Calls} (he : e.1.quiet = true) :
    ¬ LeavesUnknown (e :: made) := by
  intro h
  unfold LeavesUnknown at h
  split at h
  · rename_i heq
    cases heq
    cases he
  · exact h

theorem quiet_idle {e : Sigma Call.Answer} {made : Calls} (he : e.1.quiet = true) :
    ¬ Submits (e :: made) := by
  intro h
  unfold Submits at h
  split at h
  · rename_i heq
    cases heq
    cases he
  · rename_i heq
    cases heq
    cases he
  · exact h

theorem Calm.append {made added : Calls} (h : Calm made) (hquiet : AllQuiet added) :
    Calm (added ++ made) := by
  refine ⟨fun e he => ?_, ?_, ?_⟩
  · rcases List.mem_append.mp he with he | he
    · intro hserve
      have hnow := hquiet e he
      rw [hserve] at hnow
      cases hnow
    · exact h.unserved e he
  · cases added with
    | nil => exact h.settled
    | cons e added => exact quiet_settled (hquiet e List.mem_cons_self)
  · cases added with
    | nil => exact h.idle
    | cons e added => exact quiet_idle (hquiet e List.mem_cons_self)

theorem holds_cons_quiet {gate : Gate} {e : Sigma Call.Answer} {made : Calls}
    (he : e.1.quiet = true) : Holds gate (e :: made) ↔ Holds gate made := by
  obtain ⟨c, r⟩ := e
  cases c with
  | lock | unlock => cases he
  | _ => exact Iff.rfl

theorem holds_append {gate : Gate} {made added : Calls} (hquiet : AllQuiet added) :
    Holds gate (added ++ made) ↔ Holds gate made := by
  induction added with
  | nil => exact Iff.rfl
  | cons e added ih =>
    rw [List.cons_append, holds_cons_quiet (hquiet e List.mem_cons_self)]
    exact ih fun e' he' => hquiet e' (List.mem_cons_of_mem _ he')

theorem mem_append_mono {known made added : Calls} (hknown : ∀ e ∈ known, e ∈ made) :
    ∀ e ∈ added ++ known, e ∈ added ++ made := fun e he => by
  rcases List.mem_append.mp he with he | he
  · exact List.mem_append_left _ he
  · exact List.mem_append_right _ (hknown e he)

/-- After any calm calls among which are those of `known`, the function makes quiet calls under
the promise; `Q` relates the calls it adds and its result. -/
def Does {α : Type} (task : Task) (known : Calls) (x : Action α)
    (Q : Calls → Except CoordinatorError α → Prop) : Prop :=
  ∀ made, Calm made → (∀ e ∈ known, e ∈ made) →
    x.run.wp (Promise task) (fun made' result =>
      ∃ added, made' = added ++ made ∧ AllQuiet added ∧ Q added result) made

/-- The function makes quiet calls under the promise. -/
abbrev Quietly {α : Type} (task : Task) (known : Calls) (x : Action α) : Prop :=
  Does task known x fun _ _ => True

namespace Does

variable {α β : Type} {task : Task} {known : Calls} {x : Action α} {f : α → Action β}
  {Q : Calls → Except CoordinatorError α → Prop}

theorem mono {Q' : Calls → Except CoordinatorError α → Prop} (h : Does task known x Q)
    (hpost : ∀ added result, Q added result → Q' added result) : Does task known x Q' :=
  fun made hcalm hknown => Prog.wp_mono (h made hcalm hknown) fun _ result
    ⟨added, hmade, hquiet, hq⟩ => ⟨added, hmade, hquiet, hpost added result hq⟩

theorem wp (h : Does task known x Q) {made : Calls} (hcalm : Calm made)
    (hknown : ∀ e ∈ known, e ∈ made) {post : Calls → Except CoordinatorError α → Prop}
    (hpost : ∀ added result, AllQuiet added → Q added result → post (added ++ made) result) :
    x.run.wp (Promise task) post made := by
  refine Prog.wp_mono (h made hcalm hknown) ?_
  rintro _ result ⟨added, rfl, hquiet, hq⟩
  exact hpost added result hquiet hq

theorem quietly (h : Does task known x Q) : Quietly task known x := h.mono fun _ _ _ => trivial

theorem pure {a : α} (hq : Q [] (.ok a)) : Does task known (Pure.pure a) Q :=
  fun _ _ _ => ⟨[], rfl, allQuiet_nil, hq⟩

theorem throw {e : CoordinatorError} (hq : Q [] (.error e)) :
    Does task known (MonadExcept.throw e) Q :=
  fun _ _ _ => ⟨[], rfl, allQuiet_nil, hq⟩

/-- One function after another, which knows the calls of the first. -/
theorem bind {Q' : Calls → Except CoordinatorError β → Prop} (hx : Does task known x Q)
    (hf : ∀ a before, Q before (.ok a) → Does task (before ++ known) (f a) fun added result =>
      Q' (added ++ before) result)
    (herror : ∀ before e, Q before (.error e) → Q' before (.error e)) :
    Does task known (x >>= f) Q' := by
  intro made hcalm hknown
  rw [Prog.wp_run_bind]
  refine Prog.wp_mono (hx made hcalm hknown) ?_
  rintro _ result ⟨before, rfl, hquiet, hq⟩
  cases result with
  | error e => exact ⟨before, rfl, hquiet, herror before e hq⟩
  | ok a =>
    refine Prog.wp_mono (hf a before hq _ (hcalm.append hquiet) (mem_append_mono hknown)) ?_
    rintro _ result ⟨added, rfl, hquiet', hq'⟩
    exact ⟨added ++ before, (List.append_assoc ..).symm, hquiet'.append hquiet, hq'⟩

theorem performBind {c : Call} {f : c.Answer → Action β}
    {Q : Calls → Except CoordinatorError β → Prop} (hquiet : c.quiet = true)
    (hpromise : ∀ made, (∀ e ∈ known, e ∈ made) → CallPromise task made c)
    (hf : ∀ r, Does task (⟨c, r⟩ :: known) (f r) fun added result =>
      Q (added ++ [⟨c, r⟩]) result) :
    Does task known (Action.perform c >>= f) Q := by
  intro made hcalm hknown
  refine Action.wp_performBind.mpr
    ⟨hcalm.promise (hpromise made hknown), fun r => ?_⟩
  have hone : AllQuiet [(⟨c, r⟩ : Sigma Call.Answer)] := allQuiet_singleton hquiet
  refine Prog.wp_mono (hf r _ (hcalm.append hone) fun e he => ?_) ?_
  · rcases List.mem_cons.mp he with rfl | he
    · exact List.mem_cons_self
    · exact List.mem_cons_of_mem _ (hknown e he)
  · rintro _ result ⟨added, rfl, hadded, hq⟩
    exact ⟨added ++ [⟨c, r⟩], by simp, hadded.append hone, hq⟩

theorem perform {c : Call} (hquiet : c.quiet = true)
    (hpromise : ∀ made, (∀ e ∈ known, e ∈ made) → CallPromise task made c) :
    Quietly task known (Action.perform c) := by
  intro made hcalm hknown
  exact Action.wp_perform.mpr
    ⟨hcalm.promise (hpromise made hknown),
      fun r => ⟨[⟨c, r⟩], rfl, allQuiet_singleton hquiet, trivial⟩⟩

/-- A store operation with `?`, and then what depends on its value. -/
theorem storeBind {call : StoreCall} {f : call.Value → Action β}
    {Q : Calls → Except CoordinatorError β → Prop} (hquiet : (Call.store call).quiet = true)
    (hpromise : ∀ made, (∀ e ∈ known, e ∈ made) → StorePromise task made call)
    (hf : ∀ value, Does task (done call value :: known) (f value) fun added result =>
      Q (added ++ [done call value]) result)
    (herror : ∀ e, Q [⟨.store call, .error e⟩] (.error (.store e))) :
    Does task known (Action.store call >>= f) Q := by
  intro made hcalm hknown
  refine Action.wp_storeBind.mpr
    ⟨hcalm.promise (hpromise made hknown), fun value => ?_,
      fun e => ?_⟩
  all_goals have hone : ∀ r, AllQuiet [(⟨.store call, r⟩ : Sigma Call.Answer)] := fun r =>
    allQuiet_singleton hquiet
  · refine Prog.wp_mono (hf value _ (hcalm.append (hone _)) fun e he => ?_) ?_
    · rcases List.mem_cons.mp he with rfl | he
      · exact List.mem_cons_self
      · exact List.mem_cons_of_mem _ (hknown e he)
    · rintro _ result ⟨added, rfl, hadded, hq⟩
      exact ⟨added ++ [done call value], by simp, hadded.append (hone _), hq⟩
  · exact ⟨[⟨.store call, .error e⟩], rfl, hone _, herror e⟩

theorem store {call : StoreCall} (hquiet : (Call.store call).quiet = true)
    (hpromise : ∀ made, (∀ e ∈ known, e ∈ made) → StorePromise task made call) :
    Quietly task known (Action.store call) := by
  intro made hcalm hknown
  refine Action.wp_store.mpr
    ⟨hcalm.promise (hpromise made hknown), fun value => ?_,
      fun e => ?_⟩
  all_goals exact ⟨[⟨.store call, _⟩], rfl, allQuiet_singleton hquiet, trivial⟩

theorem attemptBind {f : Except CoordinatorError α → Action β}
    {Q' : Calls → Except CoordinatorError β → Prop} (hx : Does task known x Q)
    (hf : ∀ result before, Q before result → Does task (before ++ known) (f result)
      fun added result' => Q' (added ++ before) result') :
    Does task known (Action.attempt x >>= f) Q' := by
  intro made hcalm hknown
  refine Action.wp_attemptBind.mpr (Prog.wp_mono (hx made hcalm hknown) ?_)
  rintro _ result ⟨before, rfl, hquiet, hq⟩
  refine Prog.wp_mono (hf result before hq _ (hcalm.append hquiet) (mem_append_mono hknown)) ?_
  rintro _ result ⟨added, rfl, hquiet', hq'⟩
  exact ⟨added ++ before, (List.append_assoc ..).symm, hquiet'.append hquiet, hq'⟩

end Does

theorem Does.attempt {α : Type} {task : Task} {known : Calls} {x : Action α}
    {Q : Calls → Except CoordinatorError α → Prop} (h : Does task known x Q) :
    Quietly task known (Action.attempt x) := fun made hcalm hknown =>
  Prog.wp_run_lift.mpr (Prog.wp_mono (h made hcalm hknown) fun _ _ ⟨added, hmade, hquiet, _⟩ =>
    ⟨added, hmade, hquiet, trivial⟩)

theorem Does.storeValue {task : Task} {known : Calls} {call : StoreCall}
    (hquiet : (Call.store call).quiet = true)
    (hpromise : ∀ made, (∀ e ∈ known, e ∈ made) → StorePromise task made call) :
    Does task known (Action.store call) fun added result =>
      ∀ value, result = .ok value → added = [done call value] := by
  intro made hcalm hknown
  refine Action.wp_store.mpr
    ⟨hcalm.promise (hpromise made hknown), fun value => ?_,
      fun e => ?_⟩
  · exact ⟨[done call value], rfl, allQuiet_singleton hquiet, fun _ h => by cases h; rfl⟩
  · exact ⟨[⟨.store call, .error e⟩], rfl, allQuiet_singleton hquiet, fun _ h => nomatch h⟩

/-! ## Functions that are not quiet -/

/-- A function under a gate, which is dropped however the function ends. -/
theorem wp_withGate {α : Type} {task : Task} {gate : Gate} {x : Action α} {made : Calls}
    {post : Calls → Except CoordinatorError α → Prop} (hcalm : Calm made)
    (hx : x.run.wp (Promise task) (fun made' result =>
      Calm made' ∧ Holds gate made' ∧ post (⟨.unlock gate, ()⟩ :: made') result)
      (⟨.lock gate, ()⟩ :: made)) :
    (Action.withGate gate x).run.wp (Promise task) post made := by
  unfold Action.withGate
  refine Action.wp_performBind.mpr
    ⟨hcalm.promise trivial, fun _ => ?_⟩
  refine Action.wp_attemptBind.mpr (Prog.wp_mono hx fun made' result h => ?_)
  obtain ⟨hcalm', hheld, hpost⟩ := h
  refine Action.wp_performBind.mpr
    ⟨hcalm'.promise hheld, fun _ => ?_⟩
  cases result <;> exact hpost

/-- The function keeps the promise from any calm calls that satisfy `P`, ends calm, and holds the
gates it held. -/
def Keeps {α : Type} (task : Task) (P : Calls → Prop) (x : Action α) : Prop :=
  ∀ made, Calm made → P made → x.run.wp (Promise task) (fun made' _ =>
    Calm made' ∧ ∀ gate, Holds gate made' ↔ Holds gate made) made

namespace Keeps

variable {α β : Type} {task : Task} {P : Calls → Prop} {x : Action α}

theorem ofDoes {known : Calls} {Q : Calls → Except CoordinatorError α → Prop}
    (h : Does task known x Q) (hknown : ∀ made, P made → ∀ e ∈ known, e ∈ made) :
    Keeps task P x := fun made hcalm hp =>
  h.wp hcalm (hknown made hp) fun _ _ hquiet _ => ⟨hcalm.append hquiet, fun _ =>
    holds_append hquiet⟩

theorem ofQuietly (h : Quietly task [] x) : Keeps task P x :=
  ofDoes h fun _ _ _ he => nomatch he

/-- After a quiet function, whatever held of the calls before still holds. -/
theorem bindQuietly {known : Calls} {Q : Calls → Except CoordinatorError α → Prop}
    {f : α → Action β} (hx : Does task known x Q) (hknown : ∀ made, P made → ∀ e ∈ known, e ∈ made)
    (hf : ∀ a before, AllQuiet before → Q before (.ok a) →
      Keeps task (fun made => ∃ earlier, made = before ++ earlier ∧ P earlier) (f a)) :
    Keeps task P (x >>= f) := by
  intro made hcalm hp
  rw [Prog.wp_run_bind]
  refine hx.wp hcalm (hknown made hp) fun before result hquiet hq => ?_
  cases result with
  | error e => exact ⟨hcalm.append hquiet, fun _ => holds_append hquiet⟩
  | ok a =>
    refine Prog.wp_mono (hf a before hquiet hq _ (hcalm.append hquiet) ⟨made, rfl, hp⟩) ?_
    exact fun made' _ h => ⟨h.1, fun gate => (h.2 gate).trans (holds_append hquiet)⟩

theorem bindHolding {gate : Gate} {Q : Calls → Except CoordinatorError α → Prop} {f : α → Action β}
    (hx : Does task [] x Q)
    (hf : ∀ a before, Q before (.ok a) → Keeps task (Holds gate) (f a)) :
    Keeps task (Holds gate) (x >>= f) := by
  refine bindQuietly hx (fun _ _ _ he => nomatch he) fun a before hquiet hq made hcalm hp => ?_
  obtain ⟨earlier, rfl, hholds⟩ := hp
  exact hf a before hq _ hcalm ((holds_append hquiet).mpr hholds)

theorem pure {a : α} : Keeps task P (Pure.pure a) := fun _ hcalm _ => ⟨hcalm, fun _ => Iff.rfl⟩

theorem throw {e : CoordinatorError} : Keeps task P (MonadExcept.throw e : Action α) :=
  fun _ hcalm _ => ⟨hcalm, fun _ => Iff.rfl⟩

theorem store {call : StoreCall} (hpromise : ∀ made, P made → StorePromise task made call)
    (hsettled : ∀ r made, ¬ LeavesUnknown (⟨.store call, r⟩ :: made))
    (hidle : ∀ r made, ¬ Submits (⟨.store call, r⟩ :: made)) :
    Keeps task P (Action.store call) := by
  intro made hcalm hp
  refine Action.wp_store.mpr ⟨hcalm.promise (hpromise made hp),
    fun _ => ?_, fun _ => ?_⟩
  all_goals exact ⟨.of_cons hcalm.unserved (fun h => (nomatch h)) (hsettled _ _) (hidle _ _),
    fun _ => Iff.rfl⟩

theorem withGate {gate : Gate} (hfree : ∀ made, P made → ¬ Holds gate made)
    (hx : Keeps task (fun made => ∃ earlier, made = ⟨.lock gate, ()⟩ :: earlier ∧ P earlier) x) :
    Keeps task P (Action.withGate gate x) := by
  intro made hcalm hp
  refine wp_withGate hcalm (Prog.wp_mono (hx _ ?_ ⟨made, rfl, hp⟩) fun made' _ h => ?_)
  · exact .of_cons hcalm.unserved (fun h => (nomatch h)) id id
  obtain ⟨hcalm', hholds⟩ := h
  refine ⟨hcalm', (hholds gate).mpr (Or.inl rfl),
    .of_cons hcalm'.unserved (fun h => (nomatch h)) id id, fun g => ?_⟩
  by_cases hg : gate = g
  · subst hg
    exact iff_of_false (fun h => h.1 rfl) (hfree made hp)
  · refine ⟨fun h => ?_, fun h => ⟨hg, (hholds g).mpr (Or.inr h)⟩⟩
    exact ((hholds g).mp h.2).resolve_left hg

/-- Functions one after another, over a condition on the gates held. -/
theorem bind {f : α → Action β} (hx : Keeps task P x)
    (hstable : ∀ made made', P made → (∀ gate, Holds gate made' ↔ Holds gate made) → P made')
    (hf : ∀ a, Keeps task P (f a)) : Keeps task P (x >>= f) := by
  intro made hcalm hp
  rw [Prog.wp_run_bind]
  refine Prog.wp_mono (hx made hcalm hp) fun made' result ⟨hcalm', hholds⟩ => ?_
  cases result with
  | error e => exact ⟨hcalm', hholds⟩
  | ok a =>
    refine Prog.wp_mono (hf a made' hcalm' (hstable _ _ hp hholds)) ?_
    exact fun _ _ h => ⟨h.1, fun gate => (h.2 gate).trans (hholds gate)⟩

theorem bindPure {b : β} (hx : Keeps task P x) : Keeps task P (x >>= fun _ => Pure.pure b) := by
  intro made hcalm hp
  rw [Prog.wp_run_bind]
  refine Prog.wp_mono (hx made hcalm hp) fun made' result h => ?_
  cases result <;> exact h

theorem attemptBind {f : Except CoordinatorError α → Action β} (hx : Keeps task P x)
    (hstable : ∀ made made', P made → (∀ gate, Holds gate made' ↔ Holds gate made) → P made')
    (hf : ∀ a, Keeps task P (f a)) : Keeps task P (Action.attempt x >>= f) := by
  intro made hcalm hp
  refine Action.wp_attemptBind.mpr (Prog.wp_mono (hx made hcalm hp) ?_)
  intro made' result ⟨hcalm', hholds⟩
  refine Prog.wp_mono (hf result made' hcalm' (hstable _ _ hp hholds)) ?_
  exact fun _ _ h => ⟨h.1, fun gate => (h.2 gate).trans (hholds gate)⟩

theorem weaken {P' : Calls → Prop} (h : Keeps task P x) (hsub : ∀ made, P' made → P made) :
    Keeps task P' x := fun made hcalm hp => h made hcalm (hsub made hp)

end Keeps

end OddsfoxExecution
