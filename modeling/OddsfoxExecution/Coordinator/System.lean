import OddsfoxExecution.Library.Pool
import OddsfoxExecution.Coordinator.Tasks
import OddsfoxExecution.Store.Run

/-!
# The executor as a system

The tasks of `Task` over the memory they share: the database, which survives a
crash, and what a process holds (gates, the intent queue, the deferred list,
tasks spawned and not yet run).  The venue answers as it likes, requests and
timers come as they like, and the process may die between any two calls.
-/

namespace OddsfoxExecution

/-- How far a process has come: `main` starts it up, then serves until it shuts down. -/
inductive Phase where
  | cold
  | starting
  | serving
  | stopping
deriving DecidableEq

structure Memory where
  db : Db
  /-- The databases before this one, latest first. -/
  past : List Db
  gates : Gate → Option Nat
  queue : List Uuid
  /-- The tasks that hold a slot of the queue they have not filled. -/
  permits : List Nat
  /-- The worker is busy with an intent. -/
  working : Bool
  deferred : List Uuid
  spawned : List Task
  phase : Phase

/-- The memory of a process that has just begun, over a database. -/
def Memory.ofDb (db : Db) (past : List Db) : Memory where
  db := db
  past := past
  gates := fun _ => none
  queue := []
  permits := []
  working := false
  deferred := []
  spawned := []
  phase := .cold

/-- `mpsc::channel::<Uuid>(100)`: a slot of the queue is free. -/
def Memory.hasSlot (m : Memory) : Bool := m.queue.length + m.permits.length < 100

def defer (deferred : List Uuid) (intentId : Uuid) : List Uuid :=
  if intentId ∈ deferred then deferred else deferred ++ [intentId]

/-- What a call does to the memory; the venue, the clock and the heartbeat's age may answer
anything. -/
def Call.answers (config : StoreConfig) (m : Memory) (t : Nat) :
    (c : Call) → c.Answer → Memory → Prop
  | .store call, r, m' => ∃ now, r = call.answer config now m.db ∧
      m' = { m with db := call.after config now m.db, past := m.db :: m.past }
  | .lock gate, _, m' =>
      m.gates gate = none ∧ m' = { m with gates := Function.update m.gates gate (some t) }
  | .unlock gate, _, m' => m' = { m with gates := Function.update m.gates gate none }
  | .enqueue intentId, _, m' =>
      m.hasSlot = true ∧ m' = { m with queue := m.queue ++ [intentId] }
  | .reserveQueue, r, m' =>
      r = m.hasSlot ∧ m' = { m with permits := if r = true then t :: m.permits else m.permits }
  | .sendPermit intentId, _, m' =>
      m' = { m with queue := m.queue ++ [intentId], permits := m.permits.erase t }
  | .dropPermit, _, m' => m' = { m with permits := m.permits.erase t }
  | .awaitNext, _, m' => m' = { m with working := false }
  | .deferRecovery intentId, _, m' => m' = { m with deferred := defer m.deferred intentId }
  | .setDeferred intentIds, _, m' => m' = { m with deferred := intentIds }
  | .takeDeferred, r, m' => r = m.deferred ∧ m' = { m with deferred := [] }
  | .spawn task, _, m' => m' = { m with spawned := task :: m.spawned }
  | .serve, _, m' => m' = { m with phase := .serving }
  | .venue _, _, m' | .now, _, m' | .reconciliationRequired, _, m'
  | .healthyHeartbeatAge, _, m' | .markHealthyHeartbeat, _, m' => m' = m

/-- The operations no coordinator function issues: reads of the API, backups, and the paper
venue's market feed. -/
def StoreCall.background : StoreCall → Bool
  | replayIntent .. | idempotentResponse .. | getIntent .. | getOrder .. | serviceState
  | getReconciliation .. | completeBackup .. | failBackup ..
  | applyPaperTradeThrough .. => true
  | startBackup _ idempotency => idempotency.all fun i => i.operation = "backup"
  | _ => false

/-- When a task may begin: `main` once in each process, the worker's next turn with the next
intent of the queue, a spawned task once it was spawned,
an API handler while the process serves, the shutdown
after that, and a timer at any time. -/
def Task.arrives (requiresHeartbeat : Bool) (m : Memory) (task : Task) (m' : Memory) : Prop :=
  match task with
  | .main => m.phase = .cold ∧ m' = { m with phase := .starting }
  | .worker intentId => m.working = false ∧
      ∃ rest, m.queue = intentId :: rest ∧ m' = { m with queue := rest, working := true }
  | .scheduledReconciliation => m' = m
  | .heartbeat => requiresHeartbeat = true ∧ m' = m
  | .shutdown => m.phase = .serving ∧ m' = { m with phase := .stopping }
  | .submitIntent .. | .cancel .. | .halt .. | .resume .. | .reconcile .. =>
    m.phase = .serving ∧ m' = m
  | .cancellation .. | .reconciliation .. | .protectiveCancellation .. =>
    ∃ before after, m.spawned = before ++ task :: after ∧
      m' = { m with spawned := before ++ after }
  | .operation call => call.background = true ∧ m' = m

/-- The API drops a handler whose request times out. -/
def Task.droppable : Task → Bool
  | .submitIntent .. | .cancel .. | .halt .. | .resume .. | .reconcile .. => true
  | _ => false

/-- The guards and the permit a dropped task held are released. -/
def Memory.dropped (m : Memory) (t : Nat) : Memory :=
  { m with
    gates := fun gate => if m.gates gate = some t then none else m.gates gate
    permits := m.permits.erase t }

/-- The paper venue writes its tables on its own. -/
def Memory.venueWrites (m m' : Memory) : Prop :=
  ∃ db, m.db.PaperFrame db ∧ m' = { m with db, past := m.db :: m.past }

def Coordinator.machine (self : Coordinator) (config : StoreConfig) :
    Machine Call Call.Answer Task (Except CoordinatorError Unit) Memory where
  program := self.program
  answer := fun m t c r m' => c.answers config m t r m'
  arrives := fun m task m' => task.arrives self.requiresHeartbeat m m'
  droppable := fun task => task.droppable = true
  dropped := Memory.dropped
  surroundings := Memory.venueWrites
  crashed := fun m => Memory.ofDb m.db m.past

/-- A state of the executor: its memory, its tasks and everything they ever called. -/
abbrev System : Type := Pool Call Call.Answer Task (Except CoordinatorError Unit) Memory

abbrev CallGuard : Type := Memory → Task → Sigma Call.Answer → Prop

/-- The states the executor reaches from the database the migrations create, over any number of
processes, by calls that all meet `guard`. -/
def Coordinator.Reaches (self : Coordinator) (config : StoreConfig) (guard : CallGuard)
    (s : System) : Prop :=
  (self.machine config).Reaches guard (Memory.ofDb Db.initial []) s

end OddsfoxExecution
