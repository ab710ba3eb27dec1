import OddsfoxExecution.Coordinator.Executions
import OddsfoxExecution.Coordinator.Runs

/-!
# Schedules

The executor as a function: a schedule says which task makes its next calls,
what the clock shows and how the venue answers, and `execute` gives the state
reached.  Every state it gives is one the executor reaches.
-/

namespace OddsfoxExecution

abbrev VenueScript : Type := (call : VenueCall) → VenueAnswer call.Value

/-- The answer to a call and the memory after it, when the call can be made. -/
def Call.respond (config : StoreConfig) (now : Time) (venue : VenueScript) (m : Memory) (t : Nat) :
    (c : Call) → Option (c.Answer × Memory)
  | .store call =>
    some (call.answer config now m.db,
      { m with db := call.after config now m.db, past := m.db :: m.past })
  | .venue call => some (venue call, m)
  | .now => some (now, m)
  | .reconciliationRequired => some (false, m)
  | .healthyHeartbeatAge => some (some 0, m)
  | .markHealthyHeartbeat => some ((), m)
  | .lock gate =>
    if m.gates gate = none then
      some ((), { m with gates := Function.update m.gates gate (some t) })
    else none
  | .unlock gate => some ((), { m with gates := Function.update m.gates gate none })
  | .enqueue intentId =>
    if m.hasSlot = true then some ((), { m with queue := m.queue ++ [intentId] }) else none
  | .reserveQueue =>
    some (m.hasSlot, { m with permits := if m.hasSlot = true then t :: m.permits else m.permits })
  | .sendPermit intentId =>
    some ((), { m with queue := m.queue ++ [intentId], permits := m.permits.erase t })
  | .dropPermit => some ((), { m with permits := m.permits.erase t })
  | .awaitNext => some ((), { m with working := false })
  | .deferRecovery intentId => some ((), { m with deferred := defer m.deferred intentId })
  | .setDeferred intentIds => some ((), { m with deferred := intentIds })
  | .takeDeferred => some (m.deferred, { m with deferred := [] })
  | .spawn task => some ((), { m with spawned := task :: m.spawned })
  | .serve => some ((), { m with phase := .serving })

theorem Call.respond_answers {config : StoreConfig} {now : Time} {venue : VenueScript}
    {m m' : Memory} {t : Nat} {c : Call} {r : c.Answer}
    (h : c.respond config now venue m t = some (r, m')) : c.answers config m t r m' := by
  cases c with
  | store call =>
    cases h
    exact ⟨now, rfl, rfl⟩
  | lock | enqueue =>
    simp only [Call.respond] at h
    split at h
    · cases h
      exact ⟨‹_›, rfl⟩
    · cases h
  | takeDeferred | reserveQueue =>
    cases h
    exact ⟨rfl, rfl⟩
  | _ =>
    cases h
    rfl

def Task.start (requiresHeartbeat : Bool) (m : Memory) : Task → Option Memory
  | .main => if m.phase = .cold then some { m with phase := .starting } else none
  | .worker intentId =>
    match m.queue with
    | next :: rest =>
      if m.working = false ∧ next = intentId then some { m with queue := rest, working := true }
      else none
    | [] => none
  | .scheduledReconciliation => some m
  | .heartbeat => if requiresHeartbeat = true then some m else none
  | .shutdown => if m.phase = .serving then some { m with phase := .stopping } else none
  | .submitIntent .. | .cancel .. | .halt .. | .resume .. | .reconcile .. =>
    if m.phase = .serving then some m else none
  | .operation call => if call.background = true then some m else none
  | .cancellation .. | .reconciliation .. | .protectiveCancellation .. => none

theorem Task.start_arrives {requiresHeartbeat : Bool} {m m' : Memory} {task : Task}
    (h : task.start requiresHeartbeat m = some m') : task.arrives requiresHeartbeat m m' := by
  cases task with
  | worker intentId =>
    simp only [Task.start] at h
    split at h
    · rename_i next rest hqueue
      split at h
      · rename_i hnext
        cases h
        obtain ⟨hidle, rfl⟩ := hnext
        exact ⟨hidle, rest, hqueue, rfl⟩
      · cases h
    · cases h
  | scheduledReconciliation =>
    cases h
    rfl
  | cancellation | reconciliation | protectiveCancellation => cases h
  | _ =>
    simp only [Task.start] at h
    split at h
    · cases h
      exact ⟨‹_›, rfl⟩
    · cases h

inductive Move where
  /-- The next task begins. -/
  | arrive (task : Task)
  /-- A task makes that many calls. -/
  | calls (thread count : Nat) (now : Time) (venue : VenueScript)
  /-- The process dies. -/
  | crash

def System.initial : System := ⟨Memory.ofDb Db.initial [], fun _ => none, 0, []⟩

namespace Coordinator

variable (self : Coordinator) (config : StoreConfig) (check : Memory → Sigma Call.Answer → Bool)

def makeCalls (t : Nat) (now : Time) (venue : VenueScript) : Nat → System → Option System
  | 0, s => some s
  | count + 1, s =>
    match s.threads t with
    | some ⟨task, made, .call c next⟩ =>
      match c.respond config now venue s.memory t with
      | some (r, memory) =>
        if check s.memory ⟨c, r⟩ = true then
          makeCalls t now venue count (s.perform t task made ⟨c, r⟩ (next r) memory)
        else none
      | none => none
    | _ => none

def move (s : System) : Move → Option System
  | .arrive task => (task.start self.requiresHeartbeat s.memory).map fun memory =>
      s.add (self.machine config) task memory
  | .calls t count now venue => makeCalls config check t now venue count s
  | .crash => some (s.crash (Memory.ofDb s.memory.db s.memory.past))

def execute : List Move → System → Option System
  | [], s => some s
  | m :: moves, s => (self.move config check s m).bind (execute moves)

variable {self config check} {guard : CallGuard} {s s' : System}

theorem makeCalls_reaches (hguard : ∀ m task e, check m e = true → guard m task e) {t : Nat}
    {now : Time} {venue : VenueScript} {count : Nat} (h : self.Reaches config guard s)
    (hcalls : makeCalls config check t now venue count s = some s') :
    self.Reaches config guard s' := by
  induction count generalizing s with
  | zero =>
    cases hcalls
    exact h
  | succ count ih =>
    simp only [makeCalls] at hcalls
    split at hcalls
    · rename_i ht
      split at hcalls
      · rename_i hrespond
        split at hcalls
        · rename_i hcheck
          exact ih (.call h ht (Call.respond_answers hrespond) (hguard _ _ _ hcheck)) hcalls
        · cases hcalls
      · cases hcalls
    · cases hcalls

theorem execute_reaches (hguard : ∀ m task e, check m e = true → guard m task e)
    {moves : List Move} (h : self.Reaches config guard s)
    (hmoves : self.execute config check moves s = some s') : self.Reaches config guard s' := by
  induction moves generalizing s with
  | nil =>
    cases hmoves
    exact h
  | cons move moves ih =>
    obtain ⟨s₁, hmove, hrest⟩ := Option.bind_eq_some_iff.mp hmoves
    refine ih ?_ hrest
    cases move with
    | arrive task =>
      obtain ⟨memory, hadmit, rfl⟩ := Option.map_eq_some_iff.mp hmove
      exact .arrive h (Task.start_arrives hadmit)
    | calls t count now venue => exact makeCalls_reaches hguard h hmove
    | crash =>
      cases hmove
      exact .crash h

theorem exists_of_execute (hguard : ∀ m task e, check m e = true → guard m task e)
    {moves : List Move} {test : System → Bool}
    (h : (self.execute config check moves System.initial).any test = true) :
    ∃ s, self.Reaches config guard s ∧ test s = true := by
  obtain ⟨s, hmoves, htest⟩ := (Option.any_eq_true _ _).mp h
  exact ⟨s, execute_reaches hguard .start hmoves, htest⟩

end Coordinator

/-! ## Single functions -/

/-- A program that runs alone: its calls with the memory each found, its end and the memory it
leaves, when none of its calls has to wait. -/
def playAlone {α : Type} (now : Time) (venue : VenueScript) :
    Prog Call Call.Answer α → Memory → Option (Log × α × Memory)
  | .pure value, m => some ([], value, m)
  | .call c next, m =>
    match c.respond samplePaperStore now venue m 0 with
    | none => none
    | some (r, m₁) =>
      (playAlone now venue (next r) m₁).map fun (log, value, m') => ((m, ⟨c, r⟩) :: log, value, m')

theorem playAlone_runs {α : Type} {now : Time} {venue : VenueScript}
    {x : Prog Call Call.Answer α} {m m' : Memory} {log : Log} {value : α}
    (h : playAlone now venue x m = some (log, value, m')) :
    Prog.Runs Eq (fun m c r m' => c.answers samplePaperStore m 0 r m') x m log value m' := by
  induction x generalizing m log with
  | pure a =>
    cases h
    exact .pure
  | call c next ih =>
    simp only [playAlone] at h
    split at h
    · cases h
    · rename_i r m₁ hrespond
      obtain ⟨⟨rest, final, m₂⟩, hrest, heq⟩ := Option.map_eq_some_iff.mp h
      cases heq
      exact .call rfl (Call.respond_answers hrespond) (ih r hrest)

theorem exists_of_playAlone {α : Type} {now : Time} {venue : VenueScript} {x : Action α}
    {m : Memory} {test : Log × Except CoordinatorError α × Memory → Bool}
    (h : (playAlone now venue x.run m).any test = true) :
    ∃ log result m', aloneSetting.Runs x m log result m' ∧ test (log, result, m') = true := by
  obtain ⟨⟨log, result, m'⟩, hplay, htest⟩ := (Option.any_eq_true _ _).mp h
  exact ⟨log, result, m', playAlone_runs hplay, htest⟩

/-- A venue that takes every order and shows none. -/
def sampleVenue : VenueScript
  | .marketRules .. => .ok sampleMarket
  | .orderBook .. => .ok sampleBook
  | .prepare .. => .ok (samplePrepared "first")
  | .submit .. => .ok ⟨"first", .live, 0, none, []⟩
  | .cancel _ => .ok ⟨.cancelled⟩
  | .reconcile => .ok ⟨[], [], [], []⟩
  | .findOrder _ => .ok none
  | .heartbeat => .ok ()

def sampleCoordinator : Coordinator := { policy := samplePolicy, requiresHeartbeat := true }

end OddsfoxExecution
