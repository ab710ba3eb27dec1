import OddsfoxExecution.Coordinator.Tasks

/-!
# The mutating handlers of the API

The six handlers of `src/api.rs` that take an `Idempotency-Key`, as programs
over the calls of the coordinator, with the HTTP answers they give.  The gate a
handler takes keeps out the handlers of the same gate only; the runs a handler
is part of interleave it with anything.
-/

namespace OddsfoxExecution

structure ApiError where
  status : Nat
  code : String
  message : String
  retryable : Bool
  retryAfterSeconds : Option Nat
deriving DecidableEq

namespace ApiError

def ofStore (e : StoreError) : ApiError :=
  match e with
  | .notFound => ⟨404, "RESOURCE_NOT_FOUND", e.text, false, none⟩
  | .idempotencyConflict => ⟨409, "IDEMPOTENCY_KEY_CONFLICT", e.text, false, none⟩
  | .newRiskDisabled _ => ⟨503, "NEW_RISK_DISABLED", e.text, true, none⟩
  | _ => ⟨500, "INTERNAL_STORAGE_ERROR", "storage operation failed", true, none⟩

def ofCoordinator (e : CoordinatorError) : ApiError :=
  match e with
  | .queueFull => ⟨429, "EXECUTION_QUEUE_FULL", e.text, true, some 1⟩
  | .invalid _ => ⟨400, "REQUEST_INVALID", e.text, false, none⟩
  | _ => ⟨503, "EXECUTION_UNAVAILABLE", e.text, true, none⟩

/-- The answer to a key that is in use for another request. -/
def conflict : ApiError := ofStore .idempotencyConflict

theorem ofStore_eq_conflict {e : StoreError} : ofStore e = conflict ↔ e = .idempotencyConflict := by
  cases e <;> simp [ofStore, conflict]

theorem ofCoordinator_ne_conflict {e : CoordinatorError} : ofCoordinator e ≠ conflict := by
  cases e <;> simp [ofCoordinator, conflict, ofStore]

end ApiError

/-- What a handler answers with when it succeeds: a status and a body. -/
abbrev ApiResponse : Type := Nat × ResponseBody

/-- A handler: a program over the calls of the coordinator that may fail with an HTTP error. -/
abbrev ApiAction (α : Type) : Type := ExceptT ApiError (Prog Call Call.Answer) α

namespace ApiAction

variable {α : Type}

def perform (call : Call) : ApiAction call.Answer := ExceptT.lift (Prog.perform call)

def ofExcept : Except ApiError α → ApiAction α
  | .ok value => pure value
  | .error e => throw e

/-- A store operation followed by `?`. -/
def store (call : StoreCall) : ApiAction call.Value := do
  match ← perform (.store call) with
  | .ok value => pure value
  | .error e => throw (.ofStore e)

/-- A coordinator function followed by `?`. -/
def coordinator (x : Action α) : ApiAction α := do
  match ← ExceptT.lift x.run with
  | .ok value => pure value
  | .error e => throw (.ofCoordinator e)

end ApiAction

/-! ## What the handlers check first -/

/-- `idempotency_key`, of the header read as text. -/
def idempotencyKey : Option String → Except ApiError String
  | none =>
    .error ⟨400, "IDEMPOTENCY_KEY_REQUIRED", "Idempotency-Key header is required", false, none⟩
  | some key =>
    if key.utf8ByteSize < 16 ∨ 128 < key.utf8ByteSize ∨
        ¬ (key.toList.all fun c => decide (32 ≤ c.toNat ∧ c.toNat ≤ 126)) = true then
      .error ⟨400, "IDEMPOTENCY_KEY_INVALID",
        "Idempotency-Key must contain 16 to 128 printable ASCII characters", false, none⟩
    else .ok key

theorem idempotencyKey_ok {header : Option String} {key : String}
    (h : idempotencyKey header = .ok key) : header = some key := by
  cases header with
  | none => cases h
  | some value =>
    simp only [idempotencyKey] at h
    split at h
    · cases h
    · rw [Except.ok.inj h]

/-- `validate_reason`, with its error. -/
def checkReason (reason : String) : Except ApiError Unit :=
  if Coordinator.validateReason reason = true then .ok ()
  else .error ⟨400, "REASON_INVALID", "reason must contain 1 to 512 characters", false, none⟩

/-- What the limits of the API say to a request: `admission_limiter` gives it a token, and
`operation_slots` has a slot for it. -/
structure Limits where
  token : Bool
  slot : Bool

def rateLimited : ApiError :=
  ⟨429, "RATE_LIMITED", "mutation admission rate exceeded", true, some 1⟩

def enforceAdmissionRate (limits : Limits) : ApiAction Unit :=
  if limits.token = true then pure () else throw rateLimited

def reserveOperation (limits : Limits) : ApiAction Unit :=
  if limits.slot = true then pure () else throw (.ofCoordinator .queueFull)

def reserveQueue : ApiAction Unit := do
  let reserved : Bool ← ApiAction.perform .reserveQueue
  if reserved = true then pure () else throw (.ofCoordinator .queueFull)

def replayOperation (actorId key operation : String) (body : RequestBody) :
    ApiAction (Option ApiResponse) := do
  let replay : Option (Nat × ResponseBody) ←
    ApiAction.store (.idempotentResponse actorId key operation body)
  match replay with
  | none => pure none
  | some (status, response) =>
    if 100 ≤ status ∧ status < 1000 then pure (some (status, response))
    else
      throw ⟨500, "INTERNAL_STORAGE_ERROR", "stored idempotent response has an invalid status",
        false, none⟩

/-- `replay_operation`, then the mutation when nothing is replayed. -/
def orReplay (actorId key operation : String) (body : RequestBody)
    (mutation : ApiAction ApiResponse) : ApiAction ApiResponse := do
  let replay : Option ApiResponse ← replayOperation actorId key operation body
  match replay with
  | some response => pure response
  | none => mutation

namespace Coordinator

variable (self : Coordinator)

def admitCancellation (actorId key : String) (request : CancellationRequest) :
    Action (Uuid × List Uuid) :=
  match request.validate with
  | .error e => throw (.invalid e.text)
  | .ok () => Action.store (.createCancellation actorId request
      (some ⟨key, "cancellation", .cancellation request⟩))

def admitReconciliation (actorId key trigger : String) : Action Uuid :=
  Action.store (.startReconciliation trigger (some (actorId, ⟨key, "reconciliation", .empty⟩)))

/-! ## The handlers -/

variable (config : StoreConfig) (limits : Limits)

def submitIntentHandler (actorId : String) (header : Option String)
    (request : OrderIntentRequest) : ApiAction ApiResponse := do
  let key ← ApiAction.ofExcept (idempotencyKey header)
  let replay : Option IntentRecord ← ApiAction.store (.replayIntent actorId key request)
  match replay with
  | some record => pure (202, .intent record)
  | none => do
    enforceAdmissionRate limits
    reserveQueue
    match ← ApiAction.perform (.store (.admitIntent actorId key request)) with
    | .ok (.created record) => do
      ApiAction.perform (.sendPermit record.id)
      pure (202, .intent record)
    | .ok (.existing record) => do
      ApiAction.perform .dropPermit
      pure (202, .intent record)
    | .error e => do
      ApiAction.perform .dropPermit
      throw (.ofStore e)

def cancelHandler (actorId : String) (header : Option String) (request : CancellationRequest) :
    ApiAction ApiResponse := do
  let key ← ApiAction.ofExcept (idempotencyKey header)
  orReplay actorId key "cancellation" (.cancellation request) do
    enforceAdmissionRate limits
    reserveOperation limits
    let created : Uuid × List Uuid ←
      ApiAction.coordinator (admitCancellation actorId key request)
    ApiAction.perform (.spawn (.cancellation created.1 created.2))
    pure (202, .cancellation created.1 created.2 config.mode)

def haltHandler (actorId : String) (header : Option String) (reason : String) :
    ApiAction ApiResponse := do
  let key ← ApiAction.ofExcept (idempotencyKey header)
  ApiAction.ofExcept (checkReason reason)
  orReplay actorId key "control.halt" (.reason reason) do
    enforceAdmissionRate limits
    ApiAction.coordinator (self.haltIdempotent actorId key reason)
    pure (202, .control .halted config.mode)

def resumeHandler (actorId : String) (header : Option String) (reason : String) :
    ApiAction ApiResponse := do
  let key ← ApiAction.ofExcept (idempotencyKey header)
  ApiAction.ofExcept (checkReason reason)
  orReplay actorId key "control.resume" (.reason reason) do
    enforceAdmissionRate limits
    ApiAction.coordinator (self.resumeIdempotent actorId key reason)
    pure (202, .control .ready config.mode)

def reconcileHandler (actorId : String) (header : Option String) : ApiAction ApiResponse := do
  let key ← ApiAction.ofExcept (idempotencyKey header)
  orReplay actorId key "reconciliation" .empty do
    enforceAdmissionRate limits
    reserveOperation limits
    let id : Uuid ← ApiAction.coordinator (admitReconciliation actorId key "operator")
    ApiAction.perform (.spawn (.reconciliation id))
    pure (202, .reconciliation id config.mode)

/-- `create_backup`; the backup itself runs on as a background operation. -/
def createBackupHandler (actorId : String) (header : Option String) : ApiAction ApiResponse := do
  let key ← ApiAction.ofExcept (idempotencyKey header)
  orReplay actorId key "backup" .empty do
    enforceAdmissionRate limits
    reserveOperation limits
    let id : Uuid ← ApiAction.store (.startBackup actorId (some ⟨key, "backup", .empty⟩))
    pure (202, .backup id config.mode)

end Coordinator

/-! ## Mutations -/

/-- A mutation with its canonical body. -/
inductive Mutation where
  | intent (request : OrderIntentRequest)
  | cancellation (request : CancellationRequest)
  | halt (reason : String)
  | resume (reason : String)
  | reconciliation
  | backup
deriving DecidableEq

namespace Mutation

/-- The hash its idempotency record carries. -/
def requestHash : Mutation → RequestHash
  | intent request => .intent request
  | cancellation request => .operation "cancellation" (.cancellation request)
  | halt reason => .operation "control.halt" (.reason reason)
  | resume reason => .operation "control.resume" (.reason reason)
  | reconciliation => .operation "reconciliation" .empty
  | backup => .operation "backup" .empty

theorem requestHash_inj {m m' : Mutation} (h : m.requestHash = m'.requestHash) : m = m' := by
  cases m <;> cases m' <;> simp_all [requestHash]

def isIntent : Mutation → Bool
  | intent _ => true
  | _ => false

def handle (self : Coordinator) (config : StoreConfig) (limits : Limits) (actorId : String)
    (header : Option String) : Mutation → ApiAction ApiResponse
  | intent request => Coordinator.submitIntentHandler limits actorId header request
  | cancellation request => Coordinator.cancelHandler config limits actorId header request
  | halt reason => self.haltHandler config limits actorId header reason
  | resume reason => self.resumeHandler config limits actorId header reason
  | reconciliation => Coordinator.reconcileHandler config limits actorId header
  | backup => Coordinator.createBackupHandler config limits actorId header

/-- The task a request runs as; `create_backup` makes its calls on their own. -/
def task (actorId key : String) : Mutation → Option Task
  | intent request => some (.submitIntent actorId key request)
  | cancellation request => some (.cancel actorId key request)
  | halt reason => some (.halt actorId key reason)
  | resume reason => some (.resume actorId key reason)
  | reconciliation => some (.reconcile actorId key)
  | backup => none

/-! ## The handlers as tasks -/

variable {self : Coordinator} {config : StoreConfig} {actorId key : String}

theorem erase_coordinator {α : Type} {x : Action α} {f : α → ApiAction ApiResponse}
    (h : ∀ a, (f a).run.erase = .pure ()) :
    (ApiAction.coordinator x >>= f).run.erase = x.run.erase := by
  have hrun : (ApiAction.coordinator x >>= f).run = x.run >>= fun result =>
      (match result with
        | .ok a => (f a).run
        | .error e => Pure.pure (.error (.ofCoordinator e)) :
        Prog Call Call.Answer (Except ApiError ApiResponse)) := by
    change Prog.bind (Prog.bind (Prog.bind x.run _) _) _ = Prog.bind _ _
    simp only [Prog.bind_assoc]
    refine congrArg (Prog.bind x.run) (funext fun result => ?_)
    cases result <;> rfl
  rw [hrun]
  refine Prog.erase_bind_silent fun result => ?_
  cases result with
  | ok a => exact h a
  | error e => rfl

theorem erase_orReplay {operation : String} {body : RequestBody}
    {handler : ApiAction ApiResponse} {mutation : Action Unit}
    (h : handler.run.erase = mutation.run.erase) :
    (orReplay actorId key operation body handler).run.erase =
      (Coordinator.unlessReplayed actorId key operation body mutation).run.erase := by
  refine congrArg (Prog.call _) (funext fun r => ?_)
  rcases r with e | _ | ⟨status, response⟩
  · rfl
  · exact h
  · change (Prog.bind (ExceptT.run (if 100 ≤ status ∧ status < 1000 then
        (pure (some (status, response)) : ApiAction (Option ApiResponse)) else throw _)) _).erase =
      Prog.pure ()
    split <;> rfl

/-- With a token and a slot a handler makes the calls of its task. -/
theorem erase_handle {m : Mutation} {task : Task} (hkey : idempotencyKey (some key) = .ok key)
    (htask : m.task actorId key = some task) :
    (m.handle self config ⟨true, true⟩ actorId (some key)).run.erase =
      (self.program task).erase := by
  cases m with
  | intent request =>
    cases htask
    simp only [handle, Coordinator.submitIntentHandler, hkey]
    refine congrArg (Prog.call _) (funext fun r => ?_)
    rcases r with e | _ | record
    · rfl
    · refine congrArg (Prog.call _) (funext fun reserved => ?_)
      cases reserved with
      | false => rfl
      | true =>
        refine congrArg (Prog.call _) (funext fun r => ?_)
        rcases r with e | record | record <;> rfl
    · rfl
  | backup => cases htask
  | cancellation request =>
    cases htask
    simp only [handle, Coordinator.cancelHandler, hkey]
    refine erase_orReplay ?_
    cases hvalid : request.validate with
    | error e =>
      simp only [Coordinator.admitCancellation, hvalid]
      rfl
    | ok =>
      simp only [Coordinator.admitCancellation, hvalid]
      refine congrArg (Prog.call _) (funext fun r => ?_)
      rcases r with e | created <;> rfl
  | halt reason =>
    cases htask
    simp only [handle, Coordinator.haltHandler, hkey, Coordinator.program, Coordinator.action,
      Coordinator.handleHalt, checkReason]
    split
    · refine erase_orReplay ?_
      exact erase_coordinator fun _ => rfl
    · rfl
  | resume reason =>
    cases htask
    simp only [handle, Coordinator.resumeHandler, hkey, Coordinator.program, Coordinator.action,
      Coordinator.handleResume, checkReason]
    split
    · refine erase_orReplay ?_
      exact erase_coordinator fun _ => rfl
    · rfl
  | reconciliation =>
    cases htask
    simp only [handle, Coordinator.reconcileHandler, hkey]
    refine erase_orReplay ?_
    refine congrArg (Prog.call _) (funext fun r => ?_)
    rcases r with e | id <;> rfl

end Mutation

end OddsfoxExecution
