import OddsfoxExecution.Coordinator.Schedule
import OddsfoxExecution.Store.Reconciliations

/-!
# What clears a critical finding

A reconciliation that completes without findings resolves every open finding,
whenever that finding was recorded.  Most runs hold the safety gate from their
start, but a run inside a cancellation does not take it, and a run an operator
asks for is started before it waits for the gate.  So a run can complete on a
snapshot older than a finding another run has recorded meanwhile, and resolve
it.
-/

namespace OddsfoxExecution

/-- A finding is cleared by newer evidence: by a run that was started after the finding was
inserted and completes without findings of its own. -/
def ClearedByNewer (found : Memory) (call : StoreCall) (f : ReconciliationFinding) : Prop :=
  ∃ runId, call = .finishReconciliation runId [] ∧ found.db.HasRun runId ∧
    StartedAfter found.past runId f.id

/-- Whatever a call clears is cleared by newer evidence. -/
def ClearsByNewer (config : StoreConfig) (e : CallEvent) : Prop :=
  ∀ call r, e.entry = ⟨.store call, r⟩ → ∀ f, call.Resolves config e.found.db f →
    ClearedByNewer e.found call f

/-- No run completes without findings while a finding is open whose identifier was drawn after the
run's: nothing was found, and left open, between the start of the run and its completion. -/
def UndisturbedCompletion (e : CallEvent) : Prop :=
  ∀ runId r, e.entry = ⟨.store (.finishReconciliation runId []), r⟩ →
    ∀ f ∈ e.found.db.reconciliationFindings, f.resolvedAt = none → f.id < runId

/-! ## The runs tasks work on -/

structure RunsKnown (s : System) : Prop where
  spawned : ∀ id, Task.reconciliation id ∈ s.memory.spawned → s.memory.db.HasRun id
  running : ∀ t thread id, s.threads t = some thread → thread.task = .reconciliation id →
    s.memory.db.HasRun id

/-- The spawned tasks after a call: those of before and the one it spawns. -/
theorem spawned_of_answer {config : StoreConfig} {m m' : Memory} {t : Nat} {c : Call}
    {r : c.Answer} (h : c.answers config m t r m') {task : Task} (hmem : task ∈ m'.spawned) :
    task ∈ m.spawned ∨ c = .spawn task := by
  cases c with
  | spawn spawned =>
    cases h
    rcases List.mem_cons.mp hmem with rfl | hold
    · exact Or.inr rfl
    · exact Or.inl hold
  | store =>
    obtain ⟨now, -, rfl⟩ := h
    exact Or.inl hmem
  | lock | takeDeferred | enqueue | reserveQueue =>
    obtain ⟨-, rfl⟩ := h
    exact Or.inl hmem
  | _ =>
    cases h
    exact Or.inl hmem

theorem spawned_of_arrives {requiresHeartbeat : Bool} {m m' : Memory} {task other : Task}
    (h : task.arrives requiresHeartbeat m m') (hmem : other ∈ m'.spawned) :
    other ∈ m.spawned := by
  cases task with
  | worker =>
    obtain ⟨-, _, -, rfl⟩ := h
    exact hmem
  | cancellation | reconciliation | protectiveCancellation =>
    obtain ⟨before, after, hspawned, rfl⟩ := h
    rw [hspawned]
    exact (List.sublist_cons_self _ after).append_left before |>.subset hmem
  | scheduledReconciliation =>
    cases h
    exact hmem
  | _ =>
    obtain ⟨-, rfl⟩ := h
    exact hmem

namespace Coordinator.Reaches

variable {self : Coordinator} {config : StoreConfig} {guard : CallGuard} {s : System}

theorem hasRun_of_past (h : self.Reaches config guard s) {earlier : Db}
    (hearlier : earlier ∈ s.memory.db :: s.memory.past) {id : Uuid} (hrun : earlier.HasRun id) :
    s.memory.db.HasRun id := by
  rcases List.mem_cons.mp hearlier with rfl | hpast
  · exact hrun
  · exact (h.storeRun.recorded earlier hpast).runs.kept hrun

theorem hasRun_of_started (h : self.Reaches config guard s) {t : Nat}
    {thread : Thread Call Call.Answer Task (Except CoordinatorError Unit)}
    (ht : s.threads t = some thread) {trigger : String}
    {idempotency : Option (String × Idempotency)} {id : Uuid}
    (hmade : done (.startReconciliation trigger idempotency) id ∈ thread.made) :
    s.memory.db.HasRun id := by
  rw [← h.consistent.own t thread ht] at hmade
  obtain ⟨e, he, -, hentry⟩ := mem_ownCalls.mp hmade
  obtain ⟨-, now, r, hrun, hvalue, hmem⟩ := h.committed he hentry
  obtain ⟨hdrawn, -, htables⟩ := startReconciliation_ok hrun
  have hruns : r.db.reconciliationRuns = _ := congrArg Prod.fst htables
  refine h.hasRun_of_past hmem ?_
  rw [Db.HasRun, hruns, ← hvalue, hdrawn]
  simp

theorem runsKnown (h : self.Reaches config guard s) : RunsKnown s := by
  induction h with
  | start => exact ⟨fun _ hmem => absurd hmem List.not_mem_nil, fun _ _ _ h => nomatch h⟩
  | @call p t task made c next r memory hp ht hanswer hguard ih =>
    have hreached : self.Reaches config guard (p.perform t task made ⟨c, r⟩ (next r) memory) :=
      .call hp ht hanswer hguard
    have hkept : ∀ id, p.memory.db.HasRun id → memory.db.HasRun id := fun id hrun =>
      hasRun_of_past hreached ((Call.answers_extends hanswer).mem List.mem_cons_self) hrun
    constructor
    · intro id hmem
      rcases spawned_of_answer hanswer hmem with hold | rfl
      · exact hkept id (ih.spawned id hold)
      · -- the handler that spawns the task has started the run
        obtain ⟨trigger, idempotency, hmade⟩ := (promised hp ht).1.call
        exact hkept id (hasRun_of_started hp ht hmade)
    · intro t' thread id hthread htask
      rcases Pool.perform_threads hthread with ⟨rfl, rfl⟩ | ⟨-, hthread⟩
      · exact hkept id (ih.running _ _ id ht htask)
      · exact hkept id (ih.running _ _ id hthread htask)
  | @arrive p task memory hp harrives ih =>
    obtain ⟨hdb, -, -⟩ := Task.arrives_frame harrives
    constructor
    · intro id hmem
      change memory.db.HasRun id
      rw [hdb]
      exact ih.spawned id (spawned_of_arrives harrives hmem)
    · intro t thread id hthread htask
      change memory.db.HasRun id
      rw [hdb]
      rcases Pool.add_threads hthread with ⟨-, rfl⟩ | hthread
      · obtain rfl : task = .reconciliation id := htask
        obtain ⟨before, after, hspawned, -⟩ := harrives
        exact ih.spawned id (by rw [hspawned]; simp)
      · exact ih.running _ _ id hthread htask
  | drop _ _ _ ih =>
    exact ⟨ih.spawned, fun t thread id hthread htask =>
      ih.running t thread id (Pool.remove_threads hthread).2 htask⟩
  | surroundings hp hchange ih =>
    obtain ⟨db, hframe, rfl⟩ := hchange
    have hsame := Db.reconciliations_of_office hframe.office_eq
    have hkept : ∀ id, Db.HasRun _ id → db.HasRun id := fun id hrun => by
      rwa [Db.HasRun, show db.reconciliationRuns = _ from congrArg Prod.fst hsame]
    exact ⟨fun id hmem => hkept id (ih.spawned id hmem), fun t thread id hthread htask =>
      hkept id (ih.running t thread id hthread htask)⟩
  | crash =>
    exact ⟨fun _ hmem => absurd hmem List.not_mem_nil, fun _ _ _ hthread =>
      absurd hthread Pool.crash_threads⟩

theorem hasRun_of_finish (h : self.Reaches config guard s) {t : Nat} {task : Task} {made : Calls}
    {runId : Uuid} {findings : List String}
    {next : Except StoreError Unit → Prog Call Call.Answer _}
    (ht : s.threads t =
      some ⟨task, made, .call (.store (.finishReconciliation runId findings)) next⟩) :
    s.memory.db.HasRun runId := by
  rcases (h.promised ht).1.call with htask | ⟨trigger, idempotency, hmade⟩
  · exact h.runsKnown.running t _ runId ht htask
  · exact h.hasRun_of_started ht hmade

end Coordinator.Reaches

/-! ## Runs of the executor -/

/-- One call clears by newer evidence if and only if it is no disturbed completion. -/
theorem clearsByNewer_iff {self : Coordinator} {config : StoreConfig} {guard : CallGuard}
    {s : System} (h : self.Reaches config guard s) {e : CallEvent} (he : e ∈ s.history) :
    ClearsByNewer config e ↔ UndisturbedCompletion e := by
  obtain ⟨after, before, heq⟩ := List.append_of_mem he
  obtain ⟨s₀, next, memory, hs₀, hfound, -, ht, -, -⟩ := h.moment heq
  have hreached : self.Reaches config guard s₀ := hs₀
  have hrun := hreached.storeRun
  have hdrawn := hrun.findings_drawn
  rw [hfound] at hrun hdrawn
  constructor
  · intro hclears runId r hentry f hf hopen
    have hresolves : (StoreCall.finishReconciliation runId []).Resolves config e.found.db f :=
      (StoreCall.resolves_iff hdrawn).mpr ⟨hf, hopen, runId, rfl⟩
    obtain ⟨_, hcall, hhas, hafter⟩ := hclears _ r hentry f hresolves
    cases hcall
    exact (hrun.startedAfter_iff hhas (List.mem_map_of_mem hf)).mp hafter
  · intro hundisturbed call r hentry f hresolves
    obtain ⟨hf, hopen, runId, rfl⟩ := (StoreCall.resolves_iff hdrawn).mp hresolves
    have hhas : e.found.db.HasRun runId := by
      obtain ⟨thread, task, found, entry⟩ := e
      subst hentry
      rw [← hfound]
      exact hreached.hasRun_of_finish ht
    exact ⟨runId, rfl, hhas, (hrun.startedAfter_iff hhas (List.mem_map_of_mem hf)).mpr
      (hundisturbed runId r hentry f hf hopen)⟩

/-- In every run of the executor, findings are cleared by newer evidence only if and only if every
completion without findings is undisturbed. -/
theorem cleared_by_newer_iff {self : Coordinator} {config : StoreConfig} {guard : CallGuard}
    {s : System} (h : self.Reaches config guard s) :
    (∀ e ∈ s.history, ClearsByNewer config e) ↔ ∀ e ∈ s.history, UndisturbedCompletion e :=
  forall₂_congr fun _ he => clearsByNewer_iff h he

/-! ## Two runs of the executor -/

/-- The call completes a run without findings over an open finding that passes the test. -/
def completesOver (test : Uuid → ReconciliationFinding → Bool) (e : CallEvent) : Bool :=
  match e.entry with
  | ⟨.store (.finishReconciliation runId []), _⟩ =>
    e.found.db.reconciliationFindings.any fun f => decide (f.resolvedAt = none) && test runId f
  | _ => false

theorem completesOver_iff {test : Uuid → ReconciliationFinding → Bool} {e : CallEvent} :
    completesOver test e = true ↔
      ∃ runId r, e.entry = ⟨.store (.finishReconciliation runId []), r⟩ ∧
        ∃ f ∈ e.found.db.reconciliationFindings, f.resolvedAt = none ∧ test runId f = true := by
  obtain ⟨thread, task, found, entry⟩ := e
  unfold completesOver
  constructor
  · intro h
    dsimp only at h
    split at h
    · simp only [List.any_eq_true, Bool.and_eq_true, decide_eq_true_eq] at h
      exact ⟨_, _, rfl, h⟩
    · cases h
  · rintro ⟨runId, r, rfl, f, hf, hopen, htest⟩
    simp only [List.any_eq_true, Bool.and_eq_true, decide_eq_true_eq]
    exact ⟨f, hf, hopen, htest⟩

/-- The call completes a run over a finding inserted since the run began. -/
def disturbed (e : CallEvent) : Bool := completesOver (fun runId f => runId ≤ f.id) e

theorem undisturbed_iff {e : CallEvent} : UndisturbedCompletion e ↔ disturbed e = false := by
  rw [Bool.eq_false_iff, ne_eq, disturbed, completesOver_iff]
  constructor
  · rintro hundisturbed ⟨runId, r, hentry, f, hf, hopen, hle⟩
    exact absurd (of_decide_eq_true hle) (Nat.not_le.mpr (hundisturbed runId r hentry f hf hopen))
  · intro hnone runId r hentry f hf hopen
    by_contra hlt
    exact hnone ⟨runId, r, hentry, f, hf, hopen, decide_eq_true (Nat.le_of_not_lt hlt)⟩

def restingVenue : VenueScript
  | .reconcile => .ok ⟨[⟨"first", .live, 10, 0, none, []⟩], [], [], []⟩
  | call => sampleVenue call

def losingVenue : VenueScript
  | .cancel _ => .error (.ambiguous "cancellation lost")
  | call => sampleVenue call

def restingSchedule : List Move :=
  [.arrive .main, .calls 0 22 0 sampleVenue,
    .arrive (.submitIntent "operator" "first" sampleRequest), .calls 1 4 0 sampleVenue,
    .arrive (.worker 6), .calls 2 24 0 sampleVenue]

/-- A reconciliation that misses the order at the venue, and one that finds it. -/
def clearedSchedule : List Move :=
  restingSchedule ++ [.arrive .scheduledReconciliation, .calls 3 13 0 sampleVenue,
    .arrive .scheduledReconciliation, .calls 4 9 0 restingVenue]

/-- The second reconciliation starts after the first has recorded its finding, and clears it. -/
theorem cleared_by_newer_iff_sample :
    ∃ s, sampleCoordinator.Reaches samplePaperStore (fun _ _ _ => True) s ∧
      (∀ e ∈ s.history, ClearsByNewer samplePaperStore e) ∧
      ∃ e ∈ s.history, completesOver (fun _ _ => true) e = true := by
  have hsample : (sampleCoordinator.execute samplePaperStore (fun _ _ => true) clearedSchedule
      System.initial).any (fun s => (s.history.all fun e => !disturbed e) &&
        s.history.any (completesOver fun _ _ => true)) = true := by
    decide +kernel
  obtain ⟨s, h, htest⟩ := Coordinator.exists_of_execute (fun _ _ _ _ => trivial) hsample
  obtain ⟨hall, hsome⟩ := Bool.and_eq_true_iff.mp htest
  refine ⟨s, h, (cleared_by_newer_iff h).mpr fun e he => ?_, List.any_eq_true.mp hsome⟩
  exact undisturbed_iff.mpr (by simpa using List.all_eq_true.mp hall e he)

/-- A scheduled reconciliation has read its snapshot; a shutdown cancels the order, its cancellation
is lost and the reconciliation it runs, without the safety gate, records a finding; then the first
reconciliation completes. -/
def overlappingSchedule : List Move :=
  restingSchedule ++ [.arrive .scheduledReconciliation, .calls 3 3 0 restingVenue,
    .arrive .shutdown, .calls 4 15 0 losingVenue, .calls 3 6 0 restingVenue]

/-- The older run clears the finding recorded meanwhile. -/
theorem finding_cleared_by_older :
    ∃ s, sampleCoordinator.Reaches samplePaperStore (fun _ _ _ => True) s ∧
      ∃ e ∈ s.history, ¬ ClearsByNewer samplePaperStore e := by
  have hsample : (sampleCoordinator.execute samplePaperStore (fun _ _ => true) overlappingSchedule
      System.initial).any (fun s => s.history.any disturbed) = true := by
    decide +kernel
  obtain ⟨s, h, htest⟩ := Coordinator.exists_of_execute (fun _ _ _ _ => trivial) hsample
  obtain ⟨e, he, hdisturbed⟩ := List.any_eq_true.mp htest
  refine ⟨s, h, e, he, fun hclears => ?_⟩
  rw [clearsByNewer_iff h he, undisturbed_iff, hdisturbed] at hclears
  cases hclears

end OddsfoxExecution
