import OddsfoxExecution.Library.Growth
import OddsfoxExecution.Store.Frames

/-!
# Runs and findings over time

Reconciliation runs and their findings are only ever inserted, under
identifiers drawn from the one counter, and updated in place.  So the order of
two identifiers is the order in which their rows were inserted, and a finding
loses its open state in a completion without findings only.
-/

namespace OddsfoxExecution

def Db.reconciliations (db : Db) : List ReconciliationRecord × List ReconciliationFinding :=
  (db.reconciliationRuns, db.reconciliationFindings)

theorem Db.reconciliations_of_office {db db' : Db} (h : db'.office = db.office) :
    db'.reconciliations = db.reconciliations :=
  congrArg (fun o : Office => (o.reconciliationRuns, o.reconciliationFindings)) h

/-- The operations that write the runs and their findings. -/
def StoreCall.reconciles : StoreCall → Bool
  | startReconciliation .. | failInterruptedReconciliations | finishReconciliation ..
  | failReconciliation .. => true
  | _ => false

/-- The identifiers drawn only grow. -/
theorem LifecycleSteps.nextUuid_le {M : OrderMove → Prop} {s s' : Lifecycle}
    (h : LifecycleSteps M s s') : s.nextUuid ≤ s'.nextUuid := by
  induction h with
  | refl => exact le_rfl
  | tail _ hstep ih =>
    refine le_trans ih ?_
    cases hstep with
    | draw hle => exact hle
    | enroll => exact Nat.le_add_right _ 1
    | prepare => exact Nat.le_add_right _ 3
    | _ => exact le_rfl

theorem failInterruptedBackupRows_reconciliations {ids : List Uuid} {db : Db} :
    (failInterruptedBackupRows ids db).1.reconciliations = db.reconciliations := by
  induction ids generalizing db with
  | nil => rfl
  | cons id ids ih => exact ih

/-- Every other operation leaves the runs and their findings alone. -/
theorem StoreCall.run_reconciliations {config : StoreConfig} {now : Time} {db : Db}
    {call : StoreCall} {r : Committed call.Value} (h : call.run config now db = .ok r)
    (hcall : call.reconciles = false) : r.db.reconciliations = db.reconciliations := by
  cases hoffice : call.writesOffice with
  | false => exact Db.reconciliations_of_office (call.run_office h hoffice)
  | true =>
    cases call with
    | startReconciliation | failInterruptedReconciliations | finishReconciliation
    | failReconciliation => cases hcall
    | admitIntent =>
      exact congrArg (fun o : Office => (o.reconciliationRuns, o.reconciliationFindings))
        (admitIntent_office h)
    | recordVenueTradeFinality =>
      exact congrArg (fun o : Office => (o.reconciliationRuns, o.reconciliationFindings))
        (recordVenueTradeFinality_office h)
    | setServiceState =>
      simp only [run, OddsfoxExecution.setServiceState] at h
      split at h
      · cases h
      · split at h
        · cases h
        · rename_i hrecord
          cases h
          obtain ⟨_, rfl⟩ := recordIdempotency_frame hrecord
          rfl
    | createCancellation =>
      simp only [run, OddsfoxExecution.createCancellation] at h
      split at h
      · cases h
      · rename_i hrecord
        cases h
        obtain ⟨_, rfl⟩ := recordIdempotency_frame hrecord
        rfl
    | finishCancellation =>
      simp only [run, OddsfoxExecution.finishCancellation] at h
      split at h
      · cases h
      · split at h
        · cases h
        · cases h
          rfl
    | startBackup =>
      simp only [run, OddsfoxExecution.startBackup] at h
      split at h
      · cases h
      · rename_i hrecord
        cases h
        obtain ⟨_, rfl⟩ := recordIdempotency_frame hrecord
        rfl
    | completeBackup | failBackup =>
      cases h
      rfl
    | failInterruptedBackups =>
      cases h
      exact failInterruptedBackupRows_reconciliations
    | _ => cases hoffice

/-! ## What the operations insert and update -/

section Operations

variable {db : Db}

open Table

theorem startReconciliation_ok {mode : Mode} {trigger : String}
    {idempotency : Option (String × Idempotency)} {now : Time} {r : Committed Uuid}
    (h : startReconciliation mode trigger idempotency now db = .ok r) :
    r.value = db.nextUuid ∧ r.db.nextUuid = db.nextUuid + 1 ∧
      r.db.reconciliations = (db.reconciliationRuns ++
        [{ id := db.nextUuid, trigger, state := .running, startedAt := now, completedAt := none }],
        db.reconciliationFindings) := by
  unfold startReconciliation at h
  dsimp only at h
  split at h
  · cases h
  · rename_i hrecord
    cases h
    obtain ⟨_, rfl⟩ := recordIdempotency_frame hrecord
    exact ⟨rfl, rfl, rfl⟩

/-- The findings and runs of a database as they grow while the identifiers are drawn. -/
structure Db.Recorded (db db' : Db) : Prop where
  drawn : db.nextUuid ≤ db'.nextUuid
  runs : Grows ReconciliationRecord.id db.nextUuid db'.nextUuid db.reconciliationRuns
    db'.reconciliationRuns
  findings : Grows ReconciliationFinding.id db.nextUuid db'.nextUuid db.reconciliationFindings
    db'.reconciliationFindings

namespace Db.Recorded

theorem of_reconciliations {db' : Db} (hle : db.nextUuid ≤ db'.nextUuid)
    (h : db'.reconciliations = db.reconciliations) : db.Recorded db' :=
  ⟨hle, .of_map_eq (congrArg (fun t => t.1.map ReconciliationRecord.id) h),
    .of_map_eq (congrArg (fun t => t.2.map ReconciliationFinding.id) h)⟩

theorem appendEvent (db : Db) (eventType resourceType : String) (resourceId : ResourceId) :
    db.Recorded (db.appendEvent eventType resourceType resourceId).1 :=
  .of_reconciliations le_rfl rfl

theorem refl (db : Db) : db.Recorded db := .of_reconciliations le_rfl rfl

theorem trans {a b c : Db} (hab : a.Recorded b) (hbc : b.Recorded c) : a.Recorded c :=
  ⟨le_trans hab.drawn hbc.drawn, hab.runs.trans hab.drawn hbc.drawn hbc.runs,
    hab.findings.trans hab.drawn hbc.drawn hbc.findings⟩

theorem closeRun (db : Db) (id : Uuid) (state : ReconciliationState) (now : Time) :
    db.Recorded (db.closeRun id state now) :=
  ⟨le_rfl, .of_map_eq (map_updateWhere fun _ => rfl), .of_map_eq rfl⟩

theorem insertFinding (db : Db) (id : Uuid) (code message : String) :
    db.Recorded (db.insertFinding id code message) :=
  ⟨Nat.le_succ _, .of_map_eq rfl, .append_row rfl (Nat.lt_succ_self _)⟩

theorem insertFindings {id : Uuid} {findings : List String} :
    db.Recorded (insertFindings id findings db) := by
  induction findings generalizing db with
  | nil => exact .refl db
  | cons finding findings ih => exact (insertFinding db id _ finding).trans ih

theorem failInterruptedRuns {now : Time} {ids : List Uuid} :
    db.Recorded (failInterruptedRuns now ids db).1 := by
  induction ids generalizing db with
  | nil => exact .refl db
  | cons id ids ih =>
    have hclosed := (closeRun db id .failed now).trans (insertFinding _ id
      "RECONCILIATION_INTERRUPTED" "executor restarted before reconciliation completed")
    exact (hclosed.trans (appendEvent _ "reconciliation.failed" "reconciliation"
      (.uuid id))).trans ih

theorem finishReconciliation {id : Uuid} {findings : List String} {now : Time}
    {r : Committed Unit} (h : finishReconciliation id findings now db = .ok r) :
    db.Recorded r.db := by
  unfold OddsfoxExecution.finishReconciliation at h
  dsimp only at h
  split at h
  · cases h
    exact ⟨le_rfl, .of_map_eq (map_updateWhere fun _ => rfl),
      .of_map_eq (map_updateWhere fun _ => rfl)⟩
  · cases h
    exact ((closeRun db id .complete now).trans insertFindings).trans (appendEvent ..)

end Db.Recorded

theorem insertFindings_runs {id : Uuid} {findings : List String} :
    (insertFindings id findings db).reconciliationRuns = db.reconciliationRuns := by
  induction findings generalizing db with
  | nil => rfl
  | cons finding findings ih => exact ih

theorem failInterruptedRuns_ids {now : Time} {ids : List Uuid} :
    (failInterruptedRuns now ids db).1.reconciliationRuns.map ReconciliationRecord.id =
      db.reconciliationRuns.map ReconciliationRecord.id := by
  induction ids generalizing db with
  | nil => rfl
  | cons id ids ih => exact ih.trans (map_updateWhere fun _ => rfl)

theorem finishReconciliation_ids {id : Uuid} {findings : List String} {now : Time}
    {r : Committed Unit} (h : finishReconciliation id findings now db = .ok r) :
    r.db.reconciliationRuns.map ReconciliationRecord.id =
      db.reconciliationRuns.map ReconciliationRecord.id := by
  unfold finishReconciliation at h
  dsimp only at h
  split at h
  · cases h
    exact map_updateWhere fun _ => rfl
  · cases h
    change (insertFindings id findings _).reconciliationRuns.map _ = _
    rw [insertFindings_runs]
    exact map_updateWhere fun _ => rfl

/-! ## Resolution -/

theorem insertFindings_open {id : Uuid} {findings : List String} {f : ReconciliationFinding}
    (hf : f ∈ (insertFindings id findings db).reconciliationFindings) :
    f ∈ db.reconciliationFindings ∨ f.resolvedAt = none := by
  induction findings generalizing db with
  | nil => exact Or.inl hf
  | cons finding findings ih =>
    rcases ih hf with hold | hopen
    · rcases List.mem_append.mp hold with hold | hnew
      · exact Or.inl hold
      · rw [List.mem_singleton.mp hnew]
        exact Or.inr rfl
    · exact Or.inr hopen

theorem failInterruptedRuns_open {now : Time} {ids : List Uuid} {f : ReconciliationFinding}
    (hf : f ∈ (failInterruptedRuns now ids db).1.reconciliationFindings) :
    f ∈ db.reconciliationFindings ∨ f.resolvedAt = none := by
  induction ids generalizing db with
  | nil => exact Or.inl hf
  | cons id ids ih =>
    rcases ih hf with hold | hopen
    · rcases List.mem_append.mp hold with hold | hnew
      · exact Or.inl hold
      · rw [List.mem_singleton.mp hnew]
        exact Or.inr rfl
    · exact Or.inr hopen

end Operations

/-- A finding found after an operation, other than a completion without findings, was there before
or is open. -/
theorem StoreCall.after_open {config : StoreConfig} {now : Time} {db : Db} {call : StoreCall}
    (hcall : ∀ id, call ≠ .finishReconciliation id []) {f : ReconciliationFinding}
    (hf : f ∈ (call.after config now db).reconciliationFindings) :
    f ∈ db.reconciliationFindings ∨ f.resolvedAt = none := by
  unfold StoreCall.after at hf
  cases hrun : call.run config now db with
  | error =>
    rw [hrun] at hf
    exact Or.inl hf
  | ok r =>
    rw [hrun] at hf
    change f ∈ r.db.reconciliationFindings at hf
    cases hreconciles : call.reconciles with
    | false =>
      have htables : r.db.reconciliationFindings = _ :=
        congrArg Prod.snd (StoreCall.run_reconciliations hrun hreconciles)
      rw [htables] at hf
      exact Or.inl hf
    | true =>
      cases call with
      | startReconciliation =>
        have htables : r.db.reconciliationFindings = _ :=
          congrArg Prod.snd (startReconciliation_ok hrun).2.2
        rw [htables] at hf
        exact Or.inl hf
      | failInterruptedReconciliations =>
        cases hrun
        exact failInterruptedRuns_open hf
      | finishReconciliation id findings =>
        simp only [run, OddsfoxExecution.finishReconciliation] at hrun
        split at hrun
        · rename_i hempty
          rw [List.isEmpty_iff.mp hempty] at hcall
          exact absurd rfl (hcall id)
        · cases hrun
          have hfound : f ∈ (insertFindings id findings (db.closeRun id .complete
            now)).reconciliationFindings := hf
          have hfindings := insertFindings_open hfound
          exact hfindings
      | failReconciliation =>
        cases hrun
        rcases List.mem_append.mp hf with hold | hnew
        · exact Or.inl hold
        · rw [List.mem_singleton.mp hnew]
          exact Or.inr rfl
      | _ => cases hreconciles

/-- An operation, at some time, resolves a finding that was open. -/
def StoreCall.Resolves (config : StoreConfig) (call : StoreCall) (db : Db)
    (f : ReconciliationFinding) : Prop :=
  f ∈ db.reconciliationFindings ∧ f.resolvedAt = none ∧
    ∃ now, ∃ f' ∈ (call.after config now db).reconciliationFindings,
      f'.id = f.id ∧ f'.resolvedAt ≠ none

/-- A completion without findings resolves every open finding, and no other operation any. -/
theorem StoreCall.resolves_iff {config : StoreConfig} {call : StoreCall} {db : Db}
    (hdrawn : Table.Drawn ReconciliationFinding.id db.nextUuid db.reconciliationFindings)
    {f : ReconciliationFinding} :
    call.Resolves config db f ↔ f ∈ db.reconciliationFindings ∧ f.resolvedAt = none ∧
      ∃ id, call = .finishReconciliation id [] := by
  constructor
  · rintro ⟨hmem, hopen, now, f', hf', hid, hresolved⟩
    refine ⟨hmem, hopen, not_forall_not.mp fun hcall => ?_⟩
    rcases StoreCall.after_open hcall hf' with hold | hopen'
    · rw [Table.eq_of_key_eq hdrawn.nodup hold hmem hid] at hresolved
      exact hresolved hopen
    · exact hresolved hopen'
  · rintro ⟨hmem, hopen, id, rfl⟩
    refine ⟨hmem, hopen, 0, { f with resolvedAt := some 0 }, ?_, rfl, by simp⟩
    exact Table.mem_updateWhere.mpr ⟨f, hmem, by rw [if_pos hopen]⟩

/-- An operation inserts at most one run, under the next identifier. -/
theorem StoreCall.after_runs {config : StoreConfig} {now : Time} {db : Db} {call : StoreCall}
    {run : ReconciliationRecord} (hmem : run ∈ (call.after config now db).reconciliationRuns) :
    (∃ old ∈ db.reconciliationRuns, old.id = run.id) ∨ run.id = db.nextUuid := by
  have hsame : ∀ {db' : Db}, db'.reconciliationRuns.map ReconciliationRecord.id =
      db.reconciliationRuns.map ReconciliationRecord.id → run ∈ db'.reconciliationRuns →
        ∃ old ∈ db.reconciliationRuns, old.id = run.id := by
    intro db' heq hrun
    exact List.mem_map.mp (heq ▸ List.mem_map_of_mem hrun)
  unfold StoreCall.after at hmem
  cases hrun : call.run config now db with
  | error =>
    rw [hrun] at hmem
    exact Or.inl ⟨run, hmem, rfl⟩
  | ok r =>
    rw [hrun] at hmem
    cases hcall : call.reconciles with
    | false =>
      have htables := congrArg Prod.fst (StoreCall.run_reconciliations hrun hcall)
      exact Or.inl (hsame (congrArg (List.map ReconciliationRecord.id) htables) hmem)
    | true =>
      cases call with
      | startReconciliation =>
        obtain ⟨-, -, htables⟩ := startReconciliation_ok hrun
        have hruns : r.db.reconciliationRuns = _ := congrArg Prod.fst htables
        change run ∈ r.db.reconciliationRuns at hmem
        rw [hruns] at hmem
        rcases List.mem_append.mp hmem with hold | hnew
        · exact Or.inl ⟨run, hold, rfl⟩
        · rw [List.mem_singleton.mp hnew]
          exact Or.inr rfl
      | failInterruptedReconciliations =>
        cases hrun
        exact Or.inl (hsame failInterruptedRuns_ids hmem)
      | finishReconciliation => exact Or.inl (hsame (finishReconciliation_ids hrun) hmem)
      | failReconciliation id error =>
        cases hrun
        have hclosed : (db.closeRun id .failed now).reconciliationRuns.map ReconciliationRecord.id =
            db.reconciliationRuns.map ReconciliationRecord.id := Table.map_updateWhere fun _ => rfl
        exact Or.inl (hsame hclosed hmem)
      | _ => cases hcall

/-- Whatever operation the coordinator issues, runs and findings are inserted in the order of
their identifiers. -/
theorem StoreCall.after_recorded {db : Db} {past : List Db} (hleads : Leads db past)
    (config : StoreConfig) (now : Time) (call : StoreCall) (hallowed : call.Allowed (db :: past)) :
    db.Recorded (call.after config now db) := by
  have hle := (call.after_steps hleads config now hallowed).nextUuid_le
  unfold StoreCall.after at hle ⊢
  cases hrun : call.run config now db with
  | error => exact .refl db
  | ok r =>
    rw [hrun] at hle
    cases hcall : call.reconciles with
    | false => exact .of_reconciliations hle (StoreCall.run_reconciliations hrun hcall)
    | true =>
      cases call with
      | startReconciliation =>
        obtain ⟨-, hdrawn, htables⟩ := startReconciliation_ok hrun
        have hruns := congrArg Prod.fst htables
        have hfindings := congrArg Prod.snd htables
        simp only [Db.reconciliations] at hruns hfindings
        refine ⟨hle, ?_, .of_map_eq (by rw [hfindings])⟩
        rw [hruns]
        exact .append_row rfl (by rw [hdrawn]; exact Nat.lt_succ_self _)
      | failInterruptedReconciliations =>
        cases hrun
        exact Db.Recorded.failInterruptedRuns
      | finishReconciliation => exact Db.Recorded.finishReconciliation hrun
      | failReconciliation id error =>
        cases hrun
        exact ((Db.Recorded.closeRun db id .failed now).trans
          (.insertFinding _ id "RECONCILIATION_FAILED" error)).trans (.appendEvent ..)
      | _ => cases hcall

/-! ## A run of the store -/

def Db.HasRun (db : Db) (id : Uuid) : Prop :=
  id ∈ db.reconciliationRuns.map ReconciliationRecord.id

def Db.HasFinding (db : Db) (id : Uuid) : Prop :=
  id ∈ db.reconciliationFindings.map ReconciliationFinding.id

/-- The run was started after the finding was inserted: a database of the past has the finding and
not yet the run. -/
def StartedAfter (past : List Db) (runId findingId : Uuid) : Prop :=
  ∃ earlier ∈ past, earlier.HasFinding findingId ∧ ¬ earlier.HasRun runId

namespace StoreRun

variable {config : StoreConfig} {guard : StoreCall → Db → Prop} {db : Db} {past : List Db}

theorem of_past (h : StoreRun config guard db past) {earlier : Db} (hearlier : earlier ∈ past) :
    ∃ before, StoreRun config guard earlier before := by
  induction h with
  | initial => cases hearlier
  | call _ _ hrun _ _ ih =>
    rcases List.mem_cons.mp hearlier with rfl | hpast
    · exact ⟨_, hrun⟩
    · exact ih hpast
  | venue hrun _ ih =>
    rcases List.mem_cons.mp hearlier with rfl | hpast
    · exact ⟨_, hrun⟩
    · exact ih hpast

/-- Runs and findings never go, and new ones have identifiers drawn since. -/
theorem recorded (h : StoreRun config guard db past) : ∀ earlier ∈ past, earlier.Recorded db := by
  induction h with
  | initial => exact fun _ hearlier => absurd hearlier List.not_mem_nil
  | @call db past call now hrun hallowed _ ih =>
    have hstep : db.Recorded (call.after config now db) :=
      call.after_recorded hrun.leads config now hallowed
    intro earlier hearlier
    rcases List.mem_cons.mp hearlier with rfl | hpast
    · exact hstep
    · exact (ih earlier hpast).trans hstep
  | @venue db db' past hrun hframe ih =>
    have hstep : db.Recorded db' := by
      obtain ⟨_, _, _, _, _, _, rfl⟩ := hframe
      exact .of_reconciliations le_rfl rfl
    intro earlier hearlier
    rcases List.mem_cons.mp hearlier with rfl | hpast
    · exact hstep
    · exact (ih earlier hpast).trans hstep

theorem findings_drawn (h : StoreRun config guard db past) :
    Table.Drawn ReconciliationFinding.id db.nextUuid db.reconciliationFindings := by
  induction h with
  | initial => exact .nil
  | call call now hrun hallowed _ ih =>
    have hstep := call.after_recorded hrun.leads config now hallowed
    exact ih.grows hstep.drawn hstep.findings
  | venue _ hframe ih =>
    obtain ⟨_, _, _, _, _, _, rfl⟩ := hframe
    exact ih

theorem runs_drawn (h : StoreRun config guard db past) :
    Table.Drawn ReconciliationRecord.id db.nextUuid db.reconciliationRuns := by
  induction h with
  | initial => exact .nil
  | call call now hrun hallowed _ ih =>
    have hstep := call.after_recorded hrun.leads config now hallowed
    exact ih.grows hstep.drawn hstep.runs
  | venue _ hframe ih =>
    obtain ⟨_, _, _, _, _, _, rfl⟩ := hframe
    exact ih

/-- Every run was started in some database of the past, which had not drawn its identifier. -/
theorem run_started (h : StoreRun config guard db past) {run : ReconciliationRecord}
    (hmem : run ∈ db.reconciliationRuns) : ∃ earlier ∈ past, earlier.nextUuid = run.id := by
  induction h generalizing run with
  | initial => cases hmem
  | @call db past call now hrun hallowed _ ih =>
    rcases StoreCall.after_runs hmem with ⟨old, hold, hid⟩ | hnew
    · obtain ⟨earlier, hearlier, heq⟩ := ih hold
      exact ⟨earlier, List.mem_cons_of_mem _ hearlier, heq.trans hid⟩
    · exact ⟨db, List.mem_cons_self, hnew.symm⟩
  | @venue db db' past _ hframe ih =>
    obtain ⟨_, _, _, _, _, _, rfl⟩ := hframe
    obtain ⟨earlier, hearlier, heq⟩ := ih hmem
    exact ⟨earlier, List.mem_cons_of_mem _ hearlier, heq⟩

/-- A run was started after a finding was inserted if and only if its identifier was drawn after
the finding's. -/
theorem startedAfter_iff (h : StoreRun config guard db past) {runId findingId : Uuid}
    (hrun : db.HasRun runId) (hfinding : db.HasFinding findingId) :
    StartedAfter past runId findingId ↔ findingId < runId := by
  constructor
  · rintro ⟨earlier, hearlier, hhas, hnot⟩
    obtain ⟨before, hbefore⟩ := h.of_past hearlier
    have hdrawn : findingId < earlier.nextUuid := hbefore.findings_drawn.below _ hhas
    have hlater : earlier.nextUuid ≤ runId := by
      by_contra hlt
      exact hnot ((h.recorded earlier hearlier).runs.old hrun (Nat.lt_of_not_le hlt))
    exact Nat.lt_of_lt_of_le hdrawn hlater
  · intro hlt
    obtain ⟨run, hmem, rfl⟩ := List.mem_map.mp hrun
    obtain ⟨earlier, hearlier, hnext⟩ := h.run_started hmem
    obtain ⟨before, hbefore⟩ := h.of_past hearlier
    refine ⟨earlier, hearlier, ?_, fun hhas => ?_⟩
    · exact (h.recorded earlier hearlier).findings.old hfinding (by rw [hnext]; exact hlt)
    · have hbelow := hbefore.runs_drawn.below _ hhas
      rw [hnext] at hbelow
      exact Nat.lt_irrefl _ hbelow

end StoreRun

end OddsfoxExecution
