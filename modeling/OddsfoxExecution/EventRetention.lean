import OddsfoxExecution.Library.Retention
import OddsfoxExecution.Store.Frames
import OddsfoxExecution.Store.Journal
import OddsfoxExecution.Store.Ledger

/-!
# Event retention

`prune_events` drops the oldest events once a backup covers them.  A backup is
made under the write gate: its copy of the database, the last sequence it
records and the COMPLETE row are of one moment.  What it has to cover shrinks
from then on, so the copy of a COMPLETE backup never stops covering.
-/

namespace OddsfoxExecution

open NumberedLog

/-! ## What is appended -/

/-- The events `db` and `db'` keep differ by what was appended. -/
def Db.Extends (db db' : Db) : Prop := ∃ later, db.Appends later db'

theorem StoreCall.run_extends {config : StoreConfig} {now : Time} {db : Db} {call : StoreCall}
    {r : Committed call.Value} (h : call.run config now db = .ok r) (hprune : call ≠ .pruneEvents) :
    db.Extends r.db := by
  by_cases hsettles : call.SettlesUnknown db
  · cases call with
    | transitionOrder => exact ⟨_, transitionOrder_appends h⟩
    | _ => exact hsettles.elim
  · obtain ⟨first, fill, -, htrail, -⟩ := StoreCall.run_trail h hprune hsettles
    exact ⟨_, htrail.toAppends⟩

def Db.CompletesNone (db db' : Db) : Prop :=
  ∀ b ∈ db'.backups, b.state = .complete → b ∈ db.backups

theorem Db.CompletesNone.of_eq {db db' : Db} (h : db'.backups = db.backups) :
    db.CompletesNone db' := fun _ hb _ => h ▸ hb

theorem Db.CompletesNone.fail {db db' : Db} {p : BackupRow → Prop} [DecidablePred p]
    (h : db'.backups = Table.updateWhere p (fun b => { b with state := .failed }) db.backups) :
    db.CompletesNone db' := by
  intro b hb hcomplete
  rw [h] at hb
  obtain ⟨old, hold, rfl⟩ := Table.mem_updateWhere.mp hb
  by_cases hp : p old
  · rw [if_pos hp] at hcomplete
    cases hcomplete
  · rw [if_neg hp]
    exact hold

theorem failInterruptedBackupRows_completesNone {ids : List Uuid} {db : Db} :
    db.CompletesNone (failInterruptedBackupRows ids db).1 := by
  induction ids generalizing db with
  | nil => exact .of_eq rfl
  | cons id ids ih =>
    intro b hb hcomplete
    exact Db.CompletesNone.fail rfl b (ih b hb hcomplete) hcomplete

theorem failInterruptedRuns_backups {now : Time} {ids : List Uuid} {db : Db} :
    (failInterruptedRuns now ids db).1.backups = db.backups := by
  induction ids generalizing db with
  | nil => rfl
  | cons id ids ih => exact ih

theorem insertFindings_backups {id : Uuid} {findings : List String} {db : Db} :
    (insertFindings id findings db).backups = db.backups := by
  induction findings generalizing db with
  | nil => rfl
  | cons finding findings ih => exact ih

theorem StoreCall.run_completesNone {config : StoreConfig} {now : Time} {db : Db}
    {call : StoreCall} {r : Committed call.Value} (h : call.run config now db = .ok r)
    (hcall : ∀ id lastSequence, call ≠ .completeBackup id lastSequence) :
    db.CompletesNone r.db := by
  cases hoffice : call.writesOffice with
  | false => exact .of_eq (congrArg Office.backups (call.run_office h hoffice))
  | true =>
    cases call with
    | completeBackup id lastSequence => exact absurd rfl (hcall id lastSequence)
    | admitIntent => exact .of_eq (congrArg Office.backups (admitIntent_office h))
    | recordVenueTradeFinality =>
      exact .of_eq (congrArg Office.backups (recordVenueTradeFinality_office h))
    | setServiceState =>
      simp only [run, OddsfoxExecution.setServiceState] at h
      split at h
      · cases h
      · split at h
        · cases h
        · rename_i hrecord
          cases h
          obtain ⟨_, rfl⟩ := recordIdempotency_frame hrecord
          exact .of_eq rfl
    | createCancellation =>
      simp only [run, OddsfoxExecution.createCancellation] at h
      split at h
      · cases h
      · rename_i hrecord
        cases h
        obtain ⟨_, rfl⟩ := recordIdempotency_frame hrecord
        exact .of_eq rfl
    | finishCancellation =>
      simp only [run, OddsfoxExecution.finishCancellation] at h
      split at h
      · cases h
      · split at h
        · cases h
        · cases h
          exact .of_eq rfl
    | startReconciliation =>
      simp only [run, OddsfoxExecution.startReconciliation] at h
      split at h
      · cases h
      · rename_i hrecord
        cases h
        obtain ⟨_, rfl⟩ := recordIdempotency_frame hrecord
        exact .of_eq rfl
    | startBackup =>
      simp only [run, OddsfoxExecution.startBackup] at h
      split at h
      · cases h
      · rename_i hrecord
        cases h
        obtain ⟨_, rfl⟩ := recordIdempotency_frame hrecord
        intro b hb hcomplete
        rcases List.mem_append.mp hb with hold | hnew
        · exact hold
        · rw [List.mem_singleton] at hnew
          subst hnew
          cases hcomplete
    | failBackup =>
      cases h
      exact .fail rfl
    | failInterruptedBackups =>
      cases h
      exact failInterruptedBackupRows_completesNone
    | failInterruptedReconciliations =>
      cases h
      exact .of_eq failInterruptedRuns_backups
    | finishReconciliation =>
      simp only [run, OddsfoxExecution.finishReconciliation] at h
      cases h
      split
      · exact .of_eq rfl
      · exact .of_eq insertFindings_backups
    | failReconciliation =>
      cases h
      exact .of_eq rfl
    | _ => cases hoffice

/-! ## What the paper venue appends -/

/-- A transaction that appends events and leaves the backups alone. -/
def Db.OnlyExtends (db db' : Db) : Prop := db.Extends db' ∧ db'.backups = db.backups

theorem Db.OnlyExtends.refl (db : Db) : db.OnlyExtends db := ⟨⟨[], .silent rfl rfl⟩, rfl⟩

/-- A transaction that appends the events it broadcasts and leaves the backups alone. -/
structure Committed.OnlyAnnounces {α : Type} (r : Committed α) (db : Db) : Prop where
  appends : db.Appends r.broadcast r.db
  backups : r.db.backups = db.backups

theorem Committed.OnlyAnnounces.onlyExtends {α : Type} {r : Committed α} {db : Db}
    (h : r.OnlyAnnounces db) : db.OnlyExtends r.db := ⟨⟨_, h.appends⟩, h.backups⟩

theorem insertStartingPositions_keeps {positions : List PaperPosition} {db db' : Db}
    (h : insertStartingPositions positions db = .ok db') :
    db'.executionEvents = db.executionEvents ∧ db'.nextSequence = db.nextSequence ∧
      db'.backups = db.backups := by
  induction positions generalizing db with
  | nil =>
    cases h
    exact ⟨rfl, rfl, rfl⟩
  | cons position rest ih =>
    simp only [insertStartingPositions] at h
    split at h
    · cases h
    · split at h
      · cases h
      · split at h
        · cases h
        · obtain ⟨hevents, hnext, hbackups⟩ := ih h
          exact ⟨hevents, hnext, hbackups⟩

theorem initializePaperAccount_announces {mode : Mode} {config : PaperConfig} {db : Db}
    {r : Committed Unit} (h : initializePaperAccount mode config db = .ok r) :
    r.OnlyAnnounces db := by
  unfold initializePaperAccount at h
  split at h
  · cases h
  · split at h
    · cases h
    · split at h
      · split at h
        · cases h
        · cases h
          exact ⟨.silent rfl rfl, rfl⟩
      · dsimp only at h
        split at h
        · cases h
        · rename_i hinsert
          cases h
          obtain ⟨hevents, hnext, hbackups⟩ := insertStartingPositions_keeps hinsert
          exact ⟨(Db.Appends.event _ _ _ _).before hevents hnext, hbackups⟩

theorem commitPaperOrder_announces {mode : Mode} {order : PaperOrderCommit} {now : Time}
    {db : Db} {r : Committed PaperOrderSnapshot} (h : commitPaperOrder mode order now db = .ok r) :
    r.OnlyAnnounces db := by
  unfold commitPaperOrder at h
  split at h
  · cases h
  · split at h
    · split at h
      · cases h
      · cases h
        exact ⟨.silent rfl rfl, rfl⟩
    · split at h
      · cases h
      · split at h
        · cases h
        · cases h
          exact ⟨(Db.Appends.event _ _ _ _).before rfl rfl, rfl⟩

theorem cancelPaperOrder_announces {mode : Mode} {venueOrderId : String} {db : Db}
    {r : Committed PaperOrderSnapshot} (h : cancelPaperOrder mode venueOrderId db = .ok r) :
    r.OnlyAnnounces db := by
  unfold cancelPaperOrder at h
  split at h
  · cases h
  · split at h
    · cases h
    · split at h
      · cases h
        exact ⟨.event db _ _ _, rfl⟩
      · split at h
        · cases h
        · cases h
          exact ⟨(Db.Appends.event _ _ _ _).before rfl rfl, rfl⟩

theorem PaperOp.run_announces {now : Time} {op : PaperOp} {db : Db} {r : Committed Unit}
    (h : op.run now db = .ok r) : r.OnlyAnnounces db := by
  have hforget : ∀ {α : Type} {tx : Tx α}, forget tx = .ok r →
      (∀ committed, tx = .ok committed → committed.OnlyAnnounces db) → r.OnlyAnnounces db := by
    intro α tx htx hannounces
    cases tx with
    | error e => cases htx
    | ok committed =>
      cases htx
      obtain ⟨happends, hbackups⟩ := hannounces committed rfl
      exact ⟨happends, hbackups⟩
  cases op with
  | commit order => exact hforget h fun _ hcommit => commitPaperOrder_announces hcommit
  | tradeThrough trade =>
    exact hforget h fun _ hcommit => ⟨(applyPaperTradeThrough_trail hcommit).toAppends,
      congrArg Office.backups (applyPaperTradeThrough_office hcommit)⟩
  | cancel venueOrderId => exact hforget h fun _ hcommit => cancelPaperOrder_announces hcommit

/-! ## The store and its backup files -/

/-- A store and the database copies of its backups: the events each of them has. -/
structure Archive where
  db : Db
  copies : Uuid → List ExecutionEvent

/-- `VACUUM INTO`: the copy of a backup is written. -/
def Archive.copy (s : Archive) (id : Uuid) : Archive :=
  { s with copies := Function.update s.copies id s.db.executionEvents }

/-- What a store and its backups go through. -/
inductive RetentionStep (config : StoreConfig) (s : Archive) : Archive → Prop
  | call (call : StoreCall) (now : Time)
      (hcall : ∀ id lastSequence, call ≠ .completeBackup id lastSequence) :
      RetentionStep config s { s with db := call.after config now s.db }
  | paper (op : PaperOp) (now : Time) : RetentionStep config s { s with db := op.after now s.db }
  | openAccount (account : PaperConfig) :
      RetentionStep config s
        { s with db := leaves s.db (initializePaperAccount config.mode account s.db) }
  /-- A copy is written and the backup fails after it. -/
  | copy (id : Uuid) : RetentionStep config s (s.copy id)
  /-- `create_backup_files`, which holds the write gate from the copy to the COMPLETE row. -/
  | backup (id : Uuid) (now : Time) :
      RetentionStep config s
        { db := (StoreCall.completeBackup id s.db.lastSequence).after config now s.db
          copies := (s.copy id).copies }

abbrev RetentionSteps (config : StoreConfig) : Archive → Archive → Prop :=
  Relation.ReflTransGen (RetentionStep config)

/-- What holds of the events kept and of the copies that were made of them. -/
structure Archive.Retained (config : StoreConfig) (s : Archive) : Prop where
  consecutive : Consecutive ExecutionEvent.sequence s.db.executionEvents s.db.nextSequence
  drawn : 1 ≤ s.db.nextSequence
  kept : min config.eventRetention (s.db.nextSequence - 1) ≤ s.db.executionEvents.length
  covered : ∀ b ∈ s.db.backups, b.state = .complete → ∀ last, b.lastEventSequence = some last →
    last < s.db.nextSequence ∧
      Covers ExecutionEvent.sequence (s.copies b.id) s.db.executionEvents last

namespace Archive.Retained

variable {config : StoreConfig} {s : Archive} {db' : Db}

theorem extend (h : s.Retained config) (hextends : s.db.Extends db')
    (hbackups : s.db.CompletesNone db') : Retained config { s with db := db' } := by
  obtain ⟨later, happends⟩ := hextends
  have hnumbered := happends.numbered
  have hlength : db'.executionEvents.length = s.db.executionEvents.length + later.length := by
    rw [happends.events, List.length_append]
  have hnext := happends.next
  refine ⟨?_, ?_, ?_, fun b hb hcomplete last hlast => ?_⟩
  · change Consecutive _ db'.executionEvents db'.nextSequence
    rw [happends.events, hnext]
    exact h.consecutive.append hnumbered
  · exact h.drawn.trans (by rw [hnext]; exact Nat.le_add_right _ _)
  · change min config.eventRetention (db'.nextSequence - 1) ≤ db'.executionEvents.length
    have hkept := h.kept
    omega
  · obtain ⟨hlt, hcovers⟩ := h.covered b (hbackups b hb hcomplete) hcomplete last hlast
    refine ⟨hlt.trans_le (by rw [hnext]; exact Nat.le_add_right _ _), ?_⟩
    change Covers _ _ db'.executionEvents _
    rw [happends.events]
    exact hcovers.append hlt hnumbered

theorem last_eq (h : s.Retained config) :
    s.db.lastSequence = s.db.nextSequence - 1 ∨
      s.db.executionEvents = [] ∧ s.db.lastSequence = 0 := by
  unfold Db.lastSequence
  rcases eq_or_ne s.db.executionEvents [] with hnone | hsome
  · right
    simp [hnone]
  · left
    rw [h.consecutive.max?_eq hsome]
    rfl

theorem last_lt (h : s.Retained config) : s.db.lastSequence < s.db.nextSequence := by
  have hdrawn := h.drawn
  rcases h.last_eq with heq | ⟨-, heq⟩
  · omega
  · omega

theorem copy (h : s.Retained config) (id : Uuid) : (s.copy id).Retained config := by
  refine ⟨h.consecutive, h.drawn, h.kept, fun b hb hcomplete last hlast => ?_⟩
  obtain ⟨hlt, hcovers⟩ := h.covered b hb hcomplete last hlast
  refine ⟨hlt, ?_⟩
  simp only [Archive.copy, Function.update_apply]
  split
  · exact .self
  · exact hcovers

/-- The backup just made is COMPLETE up to the last event of its copy. -/
theorem complete (h : s.Retained config) (id : Uuid) (now : Time) :
    Retained config
      { db := (StoreCall.completeBackup id s.db.lastSequence).after config now s.db
        copies := (s.copy id).copies } := by
  have hmarked : Retained config
      { db := { s.db with
          backups := Table.updateWhere (fun b : BackupRow => b.id = id)
            (fun b => { b with
              state := .complete, lastEventSequence := some s.db.lastSequence }) s.db.backups }
        copies := (s.copy id).copies } := by
    refine ⟨h.consecutive, h.drawn, h.kept, fun b hb hcomplete last hlast => ?_⟩
    obtain ⟨old, hold, rfl⟩ := Table.mem_updateWhere.mp hb
    by_cases hid : old.id = id
    · rw [if_pos hid] at hlast ⊢
      cases hlast
      refine ⟨h.last_lt, ?_⟩
      simp only [Archive.copy, hid, Function.update_self]
      exact .self
    · rw [if_neg hid] at hcomplete hlast ⊢
      obtain ⟨hlt, hcovers⟩ := h.covered old hold hcomplete last hlast
      refine ⟨hlt, ?_⟩
      simp only [Archive.copy, Function.update_of_ne hid]
      exact hcovers
  exact hmarked.extend ⟨_, .event _ _ _ _⟩ (.of_eq rfl)

/-- What `prune_events` keeps, and what covers the events it deletes. -/
theorem prune (h : s.Retained config) (hpositive : 0 < config.eventRetention)
    {r : Committed Nat} (hrun : pruneEvents config s.db = .ok r) :
    Retained config { s with db := r.db } ∧
      (config.mode = .live → ∀ e ∈ s.db.executionEvents, e ∉ r.db.executionEvents →
        ∃ b ∈ s.db.backups, b.state = .complete ∧ e ∈ s.copies b.id) := by
  unfold pruneEvents at hrun
  dsimp only at hrun
  split at hrun
  · cases hrun
    exact ⟨h, fun _ e he hnot => absurd he hnot⟩
  · rename_i hcutoff
    split at hrun
    · cases hrun
      exact ⟨h, fun _ e he hnot => absurd he hnot⟩
    · rename_i hbacked
      cases hrun
      have hlast := h.last_lt
      have hdrawn := h.drawn
      have hkept := h.kept
      have hlt : s.db.lastSequence - config.eventRetention < s.db.nextSequence := by omega
      have hlength := h.consecutive.length_prune (s.db.lastSequence - config.eventRetention)
      constructor
      · refine ⟨h.consecutive.prune hlt, hdrawn, ?_, fun b hb hcomplete last hlast => ?_⟩
        · rw [hlength]
          rcases h.last_eq with heq | ⟨-, heq⟩
          · change min config.eventRetention (s.db.nextSequence - 1) ≤ _
            omega
          · omega
        · obtain ⟨hlt, hcovers⟩ := h.covered b hb hcomplete last hlast
          exact ⟨hlt, hcovers.of_subset List.filter_sublist.subset⟩
      · intro hlive e he hdeleted
        have hle : e.sequence ≤ s.db.lastSequence - config.eventRetention := by
          by_contra hgreater
          exact hdeleted (List.mem_filter.mpr ⟨he, by simpa using not_le.mp hgreater⟩)
        rw [not_and, not_lt] at hbacked
        have hthrough := hbacked hlive
        cases hmax : ((s.db.backups.filter fun b => b.state = .complete).filterMap
            BackupRow.lastEventSequence).max? with
        | none =>
          rw [hmax, Option.getD_none] at hthrough
          omega
        | some last =>
          rw [hmax, Option.getD_some] at hthrough
          obtain ⟨b, hb, hlastOf⟩ := List.mem_filterMap.mp (List.max?_mem hmax)
          obtain ⟨hmem, hstate⟩ := List.mem_filter.mp hb
          have hcomplete : b.state = .complete := of_decide_eq_true hstate
          obtain ⟨-, hcovers⟩ := h.covered b hmem hcomplete last hlastOf
          exact ⟨b, hmem, hcomplete, hcovers e he (hle.trans hthrough)⟩

theorem step (h : s.Retained config) (hpositive : 0 < config.eventRetention) {s' : Archive}
    (hstep : RetentionStep config s s') :
    s'.Retained config ∧ (config.mode = .live →
      ∀ e ∈ s.db.executionEvents, e ∉ s'.db.executionEvents →
        ∃ b ∈ s.db.backups, b.state = .complete ∧ e ∈ s.copies b.id) := by
  have hkeeps : ∀ {db' : Db}, s.db.Extends db' → ∀ e ∈ s.db.executionEvents,
      e ∉ db'.executionEvents → ∃ b ∈ s.db.backups, b.state = .complete ∧ e ∈ s.copies b.id := by
    rintro db' ⟨later, happends⟩ e he hnot
    rw [happends.events] at hnot
    exact absurd (List.mem_append_left _ he) hnot
  have honly : ∀ {db' : Db}, s.db.OnlyExtends db' → Retained config { s with db := db' } ∧
      (config.mode = .live → ∀ e ∈ s.db.executionEvents, e ∉ db'.executionEvents →
        ∃ b ∈ s.db.backups, b.state = .complete ∧ e ∈ s.copies b.id) := fun hextends =>
    ⟨h.extend hextends.1 (.of_eq hextends.2), fun _ => hkeeps hextends.1⟩
  cases hstep with
  | call call now hcall =>
    simp only [StoreCall.after]
    cases hrun : call.run config now s.db with
    | error e => exact honly (.refl s.db)
    | ok r =>
      by_cases hprune : call = .pruneEvents
      · subst hprune
        exact h.prune hpositive hrun
      · have hextends := StoreCall.run_extends hrun hprune
        exact ⟨h.extend hextends (StoreCall.run_completesNone hrun hcall),
          fun _ => hkeeps hextends⟩
  | paper op now =>
    simp only [PaperOp.after]
    cases hrun : op.run now s.db with
    | error e => exact honly (.refl s.db)
    | ok r => exact honly (PaperOp.run_announces hrun).onlyExtends
  | openAccount account =>
    cases hrun : initializePaperAccount config.mode account s.db with
    | error e => exact honly (.refl s.db)
    | ok r => exact honly (initializePaperAccount_announces hrun).onlyExtends
  | copy id => exact ⟨h.copy id, fun _ e he hnot => absurd he hnot⟩
  | backup id now =>
    have hextends : s.db.Extends
        ((StoreCall.completeBackup id s.db.lastSequence).after config now s.db) :=
      ⟨_, (Db.Appends.event _ "backup.completed" "backup" (.uuid id)).before rfl rfl⟩
    exact ⟨h.complete id now, fun _ => hkeeps hextends⟩

end Archive.Retained

def Archive.initial : Archive := { db := Db.initial, copies := fun _ => [] }

theorem Archive.initial_retained (config : StoreConfig) : Archive.initial.Retained config :=
  ⟨.nil _ _, le_rfl, by simp [initial, Db.initial], fun _ hb => absurd hb List.not_mem_nil⟩

theorem RetentionSteps.retained {config : StoreConfig} {s : Archive}
    (hpositive : 0 < config.eventRetention) (h : RetentionSteps config .initial s) :
    s.Retained config := by
  induction h with
  | refl => exact Archive.initial_retained config
  | tail _ hstep ih => exact (ih.step hpositive hstep).1

/-- Whatever a store and its backups go through, the events kept are the newest, numbered one
after the other up to the last drawn, and at least as many as the retention asks for; and in live
mode an event is deleted only while a COMPLETE backup has it. -/
theorem events_retained (config : StoreConfig) (hpositive : 0 < config.eventRetention)
    (s : Archive) (hrun : RetentionSteps config .initial s) :
    (∃ first, s.db.executionEvents.map ExecutionEvent.sequence =
        List.range' first s.db.executionEvents.length ∧
      first + s.db.executionEvents.length = s.db.nextSequence) ∧
    min config.eventRetention (s.db.nextSequence - 1) ≤ s.db.executionEvents.length ∧
    (config.mode = .live → ∀ s', RetentionStep config s s' →
      ∀ e ∈ s.db.executionEvents, e ∉ s'.db.executionEvents →
        ∃ b ∈ s.db.backups, b.state = .complete ∧ e ∈ s.copies b.id) := by
  have h := hrun.retained hpositive
  exact ⟨h.consecutive, h.kept, fun hlive s' hstep => (h.step hpositive hstep).2 hlive⟩

/-- A live store that keeps one event. -/
def tightLiveStore : StoreConfig := { mode := .live, eventRetention := 1 }

def startedArchive : Archive :=
  { Archive.initial with
    db := (StoreCall.startBackup "operator" none).after tightLiveStore 0 Db.initial }

def backedUpArchive : Archive where
  db := (StoreCall.completeBackup 1 startedArchive.db.lastSequence).after tightLiveStore 0
    startedArchive.db
  copies := (startedArchive.copy 1).copies

def prunedArchive : Archive :=
  { backedUpArchive with db := StoreCall.pruneEvents.after tightLiveStore 0 backedUpArchive.db }

/-- A backup of one event, which is then pruned. -/
theorem events_retained_sample :
    RetentionSteps tightLiveStore .initial backedUpArchive ∧
      RetentionStep tightLiveStore backedUpArchive prunedArchive ∧
      ∃ e ∈ backedUpArchive.db.executionEvents, e ∉ prunedArchive.db.executionEvents ∧
        ∃ b ∈ backedUpArchive.db.backups,
          b.state = .complete ∧ e ∈ backedUpArchive.copies b.id := by
  have hstarted : RetentionStep tightLiveStore .initial startedArchive :=
    .call (.startBackup "operator" none) 0 fun _ _ h => (nomatch h)
  have hrun : RetentionSteps tightLiveStore .initial backedUpArchive :=
    (Relation.ReflTransGen.single hstarted).tail (.backup 1 0)
  have hprune : RetentionStep tightLiveStore backedUpArchive prunedArchive :=
    .call .pruneEvents 0 fun _ _ h => (nomatch h)
  obtain ⟨-, -, hcovered⟩ := events_retained tightLiveStore (by decide) backedUpArchive hrun
  obtain ⟨e, he, hdeleted⟩ : ∃ e ∈ backedUpArchive.db.executionEvents,
      e ∉ prunedArchive.db.executionEvents := by
    decide +kernel
  exact ⟨hrun, hprune, e, he, hdeleted, hcovered rfl prunedArchive hprune e he hdeleted⟩

end OddsfoxExecution
