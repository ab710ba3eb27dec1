import OddsfoxExecution.Library.Program
import OddsfoxExecution.Store.Calls

/-!
# What the coordinator calls

Every point at which a coordinator task can be interrupted: an operation of the
store, a call of the venue under its deadline, a clock, a gate, the intent
queue, the deferred-recovery list, and the start of another task.
-/

namespace OddsfoxExecution

inductive CoordinatorError where
  | store (e : StoreError)
  | venue (e : VenueError)
  | queueFull
  | invalid (message : String)
deriving DecidableEq

def CoordinatorError.text : CoordinatorError → String
  | .store e => e.text
  | .venue e => e.text
  | .queueFull => "execution queue is full"
  | .invalid message => "invalid request: " ++ message

/-- The methods of `ExecutionVenue` the coordinator awaits. -/
inductive VenueCall where
  | marketRules (conditionId tokenId : String)
  | orderBook (tokenId : String)
  | prepare (intentId : Uuid) (request : OrderIntentRequest)
  | submit (prepared : PreparedVenueOrder) (request : OrderIntentRequest)
  | cancel (venueOrderId : String)
  | reconcile
  | findOrder (venueOrderId : String)
  | heartbeat
deriving DecidableEq

abbrev VenueCall.Value : VenueCall → Type
  | marketRules .. => MarketRules
  | orderBook .. => OrderBook
  | prepare .. => PreparedVenueOrder
  | submit .. => VenueSubmission
  | cancel .. => VenueCancellation
  | reconcile => ReconciliationResult
  | findOrder .. => Option ObservedVenueOrder
  | heartbeat => Unit

/-- What a venue call under `tokio::time::timeout` gives. -/
inductive VenueAnswer (α : Type) where
  | ok (value : α)
  | error (e : VenueError)
  | timeout

/-- The answer where a missed deadline counts as an error of the venue. -/
def VenueAnswer.orElse {α : Type} (onTimeout : VenueError) : VenueAnswer α → Except VenueError α
  | .ok value => .ok value
  | .error e => .error e
  | .timeout => .error onTimeout

inductive Gate where
  | safety
  | orderLifecycle
  | cancellation
deriving DecidableEq

/-- The tasks a process runs: the main task, the background tasks that `start` spawns, the API
handlers, and the tasks these spawn. -/
inductive Task where
  | main
  | worker (intentId : Uuid)
  | scheduledReconciliation
  | heartbeat
  | shutdown
  | submitIntent (actorId idempotencyKey : String) (request : OrderIntentRequest)
  | cancel (actorId idempotencyKey : String) (request : CancellationRequest)
  | halt (actorId idempotencyKey reason : String)
  | resume (actorId idempotencyKey reason : String)
  | reconcile (actorId idempotencyKey : String)
  | cancellation (id : Uuid) (targets : List Uuid)
  | reconciliation (id : Uuid)
  | protectiveCancellation (reason : String)
  | operation (call : StoreCall)
deriving DecidableEq

/-- The calls of a coordinator task.  `enqueue` waits for a slot of the queue, `reserveQueue` takes
one if there is one, and `sendPermit` fills it; `awaitNext` takes the worker back to its queue. -/
inductive Call where
  | store (call : StoreCall)
  | venue (call : VenueCall)
  | now
  | reconciliationRequired
  | healthyHeartbeatAge
  | markHealthyHeartbeat
  | lock (gate : Gate)
  | unlock (gate : Gate)
  | enqueue (intentId : Uuid)
  | reserveQueue
  | sendPermit (intentId : Uuid)
  | dropPermit
  | awaitNext
  | deferRecovery (intentId : Uuid)
  | setDeferred (intentIds : List Uuid)
  | takeDeferred
  | spawn (task : Task)
  | serve
deriving DecidableEq

abbrev Call.Answer : Call → Type
  | store call => call.Response
  | venue call => VenueAnswer call.Value
  | now => Time
  | reconciliationRequired | reserveQueue => Bool
  | healthyHeartbeatAge => Option Nat
  | takeDeferred => List Uuid
  | _ => Unit

instance (c : Call) : Nonempty c.Answer := by
  cases c with
  | store call => exact ⟨(Except.error .notFound : call.Response)⟩
  | venue call => exact ⟨(VenueAnswer.timeout : VenueAnswer call.Value)⟩
  | now => exact ⟨(0 : Time)⟩
  | reconciliationRequired | reserveQueue => exact ⟨true⟩
  | healthyHeartbeatAge => exact ⟨(none : Option Nat)⟩
  | takeDeferred => exact ⟨([] : List Uuid)⟩
  | _ => exact ⟨()⟩

/-- A coordinator function: a program over the calls that may fail. -/
abbrev Action (α : Type) : Type := ExceptT CoordinatorError (Prog Call Call.Answer) α

namespace Action

variable {α : Type}

def perform (call : Call) : Action call.Answer := ExceptT.lift (Prog.perform call)

/-- The outcome of an action as a value, where the source matches on it or drops it. -/
def attempt (action : Action α) : Action (Except CoordinatorError α) := ExceptT.lift action.run

/-- A store operation followed by `?`. -/
def store (call : StoreCall) : Action call.Value := do
  match ← perform (.store call) with
  | .ok value => pure value
  | .error e => throw (.store e)

def venue (call : VenueCall) : Action (VenueAnswer call.Value) := perform (.venue call)

/-- An action under a gate; the guard is dropped however the action ends. -/
def withGate (gate : Gate) (action : Action α) : Action α := do
  perform (.lock gate)
  let result ← attempt action
  perform (.unlock gate)
  match result with
  | .ok value => pure value
  | .error e => throw e

/-! ## What the pieces promise -/

section Wp

variable {β : Type} {G : Trace Call.Answer → Call → Prop} {made : Trace Call.Answer}

theorem wp_perform {call : Call}
    {Q : Trace Call.Answer → Except CoordinatorError call.Answer → Prop} :
    (perform call).run.wp G Q made ↔ G made call ∧ ∀ r, Q (⟨call, r⟩ :: made) (.ok r) := Iff.rfl

theorem wp_performBind {call : Call} {f : call.Answer → Action β}
    {Q : Trace Call.Answer → Except CoordinatorError β → Prop} :
    (perform call >>= f).run.wp G Q made ↔
      G made call ∧ ∀ r, (f r).run.wp G Q (⟨call, r⟩ :: made) := by
  rw [Prog.wp_run_bind]
  exact wp_perform

theorem wp_store {call : StoreCall}
    {Q : Trace Call.Answer → Except CoordinatorError call.Value → Prop} :
    (store call).run.wp G Q made ↔ G made (.store call) ∧
      (∀ value, Q (⟨.store call, .ok value⟩ :: made) (.ok value)) ∧
      ∀ e, Q (⟨.store call, .error e⟩ :: made) (.error (.store e)) := by
  refine wp_performBind.trans (and_congr_right' ⟨fun h => ⟨fun value => h (.ok value),
    fun e => h (.error e)⟩, fun h r => ?_⟩)
  cases r with
  | ok value => exact h.1 value
  | error e => exact h.2 e

theorem wp_storeBind {call : StoreCall} {f : call.Value → Action β}
    {Q : Trace Call.Answer → Except CoordinatorError β → Prop} :
    (store call >>= f).run.wp G Q made ↔ G made (.store call) ∧
      (∀ value, (f value).run.wp G Q (⟨.store call, .ok value⟩ :: made)) ∧
      ∀ e, Q (⟨.store call, .error e⟩ :: made) (.error (.store e)) := by
  rw [Prog.wp_run_bind]
  exact wp_store

theorem wp_attemptBind {x : Action α} {f : Except CoordinatorError α → Action β}
    {Q : Trace Call.Answer → Except CoordinatorError β → Prop} :
    (attempt x >>= f).run.wp G Q made ↔
      x.run.wp G (fun made result => (f result).run.wp G Q made) made := by
  rw [Prog.wp_run_bind]
  exact Prog.wp_run_lift

end Wp

end Action

end OddsfoxExecution
