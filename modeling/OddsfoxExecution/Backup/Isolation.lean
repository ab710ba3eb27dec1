import OddsfoxExecution.Library.Traces
import OddsfoxExecution.Store.PreparedOrders
import OddsfoxExecution.Backup.System

/-!
# Runs of backups do not meet

A run writes only the files of its own backup, and no backup is run twice: its
identifier is drawn when it is started, and a process that dies takes the runs
it has not begun with it.
-/

namespace OddsfoxExecution

open BackupAction

variable {Bytes : Type} {host : BackupHost Bytes} {store : BackupStore}

/-! ## The files a run writes -/

def BackupCall.within (id : Uuid) : BackupCall → Prop
  | .vacuumInto file | .writeManifest file _ => file.id = id
  | .rename source target => source.id = id ∧ target.id = id
  | .complete id' .. | .fail id' _ => id' = id
  | _ => True

/-- The function writes no file and no row but those of the backup. -/
abbrev StaysWithin {α : Type} (id : Uuid) (x : BackupAction α) : Prop :=
  Prog.Gives (BackupCall.within id) x fun _ _ => True

namespace BackupAction

variable {α : Type} {id : Uuid}

theorem within_ask {c : BackupCall} (h : c.within id) : StaysWithin id (ask c) := by
  refine .performBind h fun r => ?_
  cases r with
  | ok value => exact .pure trivial
  | error e => exact .throw

theorem within_gated {x : BackupAction α} (h : StaysWithin id x) : StaysWithin id (gated x) := by
  refine .bind (within_ask trivial) fun _ _ _ => .bind h.attempt fun result _ _ =>
    .bind (within_ask trivial) fun _ _ _ => ?_
  cases result with
  | ok value => exact .pure trivial
  | error e => exact .throw

end BackupAction

theorem publishBackup_within {id : Uuid} {manifest : BackupManifest} :
    StaysWithin id (publishBackup id manifest) :=
  .bind (within_ask rfl) fun _ _ _ => .bind (within_ask trivial) fun _ _ _ =>
    .bind (within_ask ⟨rfl, rfl⟩) fun _ _ _ => .bind (within_ask ⟨rfl, rfl⟩) fun _ _ _ =>
      within_ask rfl

theorem writeBackup_within {mode : Mode} {id : Uuid} {createdAt : Time} :
    StaysWithin id (writeBackup mode id createdAt) := by
  refine .bind (within_ask rfl) fun _ _ _ => .bind (within_ask trivial) fun _ _ _ =>
    .bind (within_ask trivial) fun _ _ _ => .bind (within_ask trivial) fun _ _ _ =>
    .bind (within_ask trivial) fun _ _ _ => .bind (within_ask trivial) fun _ _ _ =>
    .bind (within_ask trivial) fun _ _ _ => .bind (within_ask trivial) fun _ _ _ => ?_
  split
  · exact .throw
  · exact publishBackup_within

theorem runBackup_within {mode : Mode} {id : Uuid} : StaysWithin id (runBackup mode id) := by
  refine .bind (within_ask trivial) fun createdAt _ _ => ?_
  refine .bind (within_gated writeBackup_within).attempt fun result _ _ => ?_
  cases result with
  | ok value => exact .pure trivial
  | error e => exact .bind (within_gated (within_ask rfl)) fun _ _ _ => .throw

/-! ## Identifiers -/

theorem StoreCall.after_drawn {config : StoreConfig} {now : Time} {db : Db} (call : StoreCall) :
    db.nextUuid ≤ (call.after config now db).nextUuid := by
  unfold after
  cases hrun : call.run config now db with
  | error e => exact le_rfl
  | ok r => exact StoreCall.run_drawn hrun

/-! ## What a call does -/

/-- What a call of a run can do to the memory. -/
inductive BackupEffect (store : BackupStore) (id : Uuid) (m : BackupMemory Bytes) :
    BackupMemory Bytes → Prop
  | same : BackupEffect store id m m
  | gate (gate : Option Nat) : BackupEffect store id m { m with gate }
  | put (file : BackupFile) (content : Option Bytes) (hfile : file.id = id) :
      BackupEffect store id m (m.put file content)
  | rename (source target : BackupFile) (bytes : Bytes) (hsource : source.id = id)
      (htarget : target.id = id) :
      BackupEffect store id m ((m.put source none).put target (some bytes))
  | row (call : StoreCall) (now : Time) (columns : Uuid → Option BackupColumns) :
      BackupEffect store id m { m.commit (call.after store.config now m.db) with columns }

theorem BackupCall.answers_effect {m m' : BackupMemory Bytes} {t : Nat} {c : BackupCall}
    {r : c.Answer} {id : Uuid} (h : c.answers host store m t r m') (hwithin : c.within id) :
    BackupEffect store id m m' := by
  have hspoils : ∀ {target : BackupFile}, target.id = id → m.Spoils target m' →
      BackupEffect store id m m' := by
    rintro target htarget (rfl | ⟨content, rfl⟩)
    · exact .same
    · exact .put target content htarget
  cases c with
  | vacuumInto target =>
    rcases h with ⟨-, -, bytes, -, rfl⟩ | ⟨-, hspoiled⟩
    · exact .put target _ hwithin
    · exact hspoils hwithin hspoiled
  | writeManifest target manifest =>
    rcases h with ⟨-, rfl⟩ | ⟨-, hspoiled⟩
    · exact .put target _ hwithin
    · exact hspoils hwithin hspoiled
  | rename source target =>
    rcases h with ⟨-, bytes, -, rfl⟩ | ⟨-, rfl⟩
    · exact .rename source target bytes hwithin.1 hwithin.2
    · exact .same
  | complete =>
    rcases h with ⟨-, now, rfl⟩ | ⟨-, rfl⟩
    · exact .row _ now _
    · exact .same
  | fail =>
    rcases h with ⟨-, now, rfl⟩ | ⟨-, rfl⟩
    · exact @BackupEffect.row _ store id m (.failBackup _) now m.columns
    · exact .same
  | lock =>
    obtain ⟨-, -, rfl⟩ := h
    exact .gate _
  | unlock =>
    obtain ⟨-, rfl⟩ := h
    exact .gate _
  | setOwnerOnly =>
    cases h
    exact .same
  | _ =>
    obtain ⟨rfl, -⟩ := h
    exact .same

theorem BackupMemory.put_of_ne {m : BackupMemory Bytes} {file other : BackupFile}
    {content : Option Bytes} (h : other ≠ file) :
    (m.put file content).files other = m.files other :=
  Function.update_of_ne h _ _

theorem BackupMemory.put_files {m : BackupMemory Bytes} {file other : BackupFile}
    {content : Option Bytes} :
    (m.put file content).files other = if other = file then content else m.files other :=
  Function.update_apply _ _ _ _

namespace BackupEffect

variable {id : Uuid} {m m' : BackupMemory Bytes}

theorem elsewhere (h : BackupEffect store id m m') {file : BackupFile} (hfile : file.id ≠ id) :
    m'.files file = m.files file := by
  have hne : ∀ {target : BackupFile}, target.id = id → file ≠ target := by
    rintro _ htarget rfl
    exact hfile htarget
  cases h with
  | put target content htarget => exact BackupMemory.put_of_ne (hne htarget)
  | rename source target bytes hsource htarget =>
    exact (BackupMemory.put_of_ne (hne htarget)).trans (BackupMemory.put_of_ne (hne hsource))
  | _ => rfl

theorem started (h : BackupEffect store id m m') : m'.started = m.started := by
  cases h <;> rfl

theorem drawn (h : BackupEffect store id m m') : m.db.nextUuid ≤ m'.db.nextUuid := by
  cases h with
  | row call now columns => exact call.after_drawn
  | _ => exact le_rfl

end BackupEffect

/-! ## What happens elsewhere -/

theorem BackupMemory.Elsewhere.files {m m' : BackupMemory Bytes} (h : m.Elsewhere store m') :
    m'.files = m.files ∧ m'.columns = m.columns ∧ m'.gate = m.gate ∧ m.gate = none := by
  cases h <;> exact ⟨rfl, rfl, rfl, ‹_›⟩

theorem leaves_drawn {α : Type} {tx : Tx α} {db : Db}
    (h : ∀ r, tx = .ok r → db.nextUuid ≤ r.db.nextUuid) :
    db.nextUuid ≤ (leaves db tx).nextUuid := by
  cases tx with
  | error e => exact le_rfl
  | ok r => exact h r rfl

theorem PaperOp.after_drawn {op : PaperOp} {now : Time} {db : Db} :
    db.nextUuid ≤ (op.after now db).nextUuid := by
  refine leaves_drawn fun r hrun => ?_
  cases op with
  | commit order =>
    obtain ⟨committed, hcommit, hdb⟩ := forget_ok hrun
    exact hdb ▸ (commitPaperOrder_core hcommit).2.2.drawn
  | tradeThrough trade =>
    obtain ⟨committed, htrade, hdb⟩ := forget_ok hrun
    exact hdb ▸ (applyPaperTradeThrough_prepared htrade).drawn
  | cancel venueOrderId =>
    obtain ⟨committed, hcancel, hdb⟩ := forget_ok hrun
    exact hdb ▸ (cancelPaperOrder_core hcancel).2.2.drawn

theorem insertStartingPositions_drawn {positions : List PaperPosition} {db db' : Db}
    (h : insertStartingPositions positions db = .ok db') : db'.nextUuid = db.nextUuid := by
  induction positions generalizing db with
  | nil =>
    cases h
    rfl
  | cons position rest ih =>
    simp only [insertStartingPositions] at h
    split at h
    · cases h
    · split at h
      · cases h
      · split at h
        · cases h
        · have hrest := ih h
          exact hrest

theorem initializePaperAccount_drawn {mode : Mode} {config : PaperConfig} {db : Db}
    {r : Committed Unit} (h : initializePaperAccount mode config db = .ok r) :
    r.db.nextUuid = db.nextUuid := by
  unfold initializePaperAccount at h
  split at h
  · cases h
  · split at h
    · cases h
    · split at h
      · split at h
        · cases h
        · cases h
          rfl
      · dsimp only at h
        split at h
        · cases h
        · rename_i hinsert
          cases h
          have hdrawn := insertStartingPositions_drawn hinsert
          exact hdrawn

theorem startBackup_answer {config : StoreConfig} {now : Time} {db : Db} {actor : String}
    {idempotency : Option Idempotency} {id : Uuid}
    (h : (StoreCall.startBackup actor idempotency).answer config now db = .ok id) :
    id = db.nextUuid ∧
      id < ((StoreCall.startBackup actor idempotency).after config now db).nextUuid := by
  obtain ⟨r, hrun, rfl, hafter⟩ :=
    @StoreCall.answer_ok config now (.startBackup actor idempotency) db id h.symm
  rw [hafter]
  simp only [StoreCall.run, startBackup] at hrun
  split at hrun
  · cases hrun
  · rename_i hrecord
    cases hrun
    obtain ⟨_, rfl⟩ := recordIdempotency_frame hrecord
    exact ⟨rfl, Nat.lt_succ_self _⟩

/-- What happens elsewhere draws identifiers, and starts at most one backup with a new one. -/
theorem BackupMemory.Elsewhere.drawn {m m' : BackupMemory Bytes} (h : m.Elsewhere store m') :
    m.db.nextUuid ≤ m'.db.nextUuid ∧ (m'.started = m.started ∨
      m'.started = m.started ++ [m.db.nextUuid] ∧ m.db.nextUuid < m'.db.nextUuid) := by
  cases h with
  | call call now => exact ⟨call.after_drawn, Or.inl rfl⟩
  | start actor idempotency now id hgate hstart =>
    obtain ⟨rfl, hlt⟩ := startBackup_answer hstart
    exact ⟨hlt.le, Or.inr ⟨rfl, hlt⟩⟩
  | paper op now => exact ⟨op.after_drawn, Or.inl rfl⟩
  | openAccount account =>
    exact ⟨leaves_drawn fun r hrun => (initializePaperAccount_drawn hrun).ge, Or.inl rfl⟩

/-! ## Runs -/

/-- No two runs are of one backup, and the backups that wait for their run have no files. -/
structure BackupsApart (s : BackupSystem Bytes) : Prop where
  drawn : ∀ id ∈ s.memory.started, id < s.memory.db.nextUuid
  fresh : ∀ id ∈ s.memory.started, ∀ file, file.id = id → s.memory.files file = none
  nodup : s.memory.started.Nodup
  idle : ∀ id ∈ s.memory.started, ∀ t thread, s.threads t = some thread → thread.task ≠ id
  running : ∀ t thread, s.threads t = some thread → thread.task < s.memory.db.nextUuid
  apart : ∀ t t' thread thread', s.threads t = some thread → s.threads t' = some thread' →
    thread.task = thread'.task → t = t'
  written : ∀ file, s.memory.files file ≠ none → file.id < s.memory.db.nextUuid

namespace BackupsApart

variable {p : BackupSystem Bytes} (h : BackupsApart p)

include h

/-- A call of a run writes under the identifier of its backup only. -/
theorem answered {t : Nat} {id : Uuid} {made : Trace BackupCall.Answer} {c : BackupCall}
    {r : c.Answer} {before rest : Prog BackupCall BackupCall.Answer (Except BackupError Unit)}
    {memory : BackupMemory Bytes} (ht : p.threads t = some ⟨id, made, before⟩)
    (heffect : BackupEffect store id p.memory memory) :
    BackupsApart (p.perform t id made ⟨c, r⟩ rest memory) := by
  have hthread : ∀ {t' thread}, (p.perform t id made ⟨c, r⟩ rest memory).threads t' =
      some thread → ∃ thread', p.threads t' = some thread' ∧ thread'.task = thread.task := by
    intro t' thread ht'
    rcases Pool.perform_threads ht' with ⟨rfl, rfl⟩ | ⟨-, hold⟩
    · exact ⟨_, ht, rfl⟩
    · exact ⟨thread, hold, rfl⟩
  refine ⟨fun id' hid => ?_, fun id' hid file hfile => ?_, ?_, fun id' hid t' thread ht' => ?_,
    fun t' thread ht' => ?_, fun t' t'' thread thread' ht' ht'' htask => ?_, fun file hfile => ?_⟩
  · exact (h.drawn id' (heffect.started ▸ hid)).trans_le heffect.drawn
  · have hid : id' ∈ p.memory.started := heffect.started ▸ hid
    have hother : file.id ≠ id := by
      rintro heq
      exact h.idle id' hid t _ ht (heq.symm.trans hfile)
    exact (heffect.elsewhere hother).trans (h.fresh id' hid file hfile)
  · exact heffect.started.symm ▸ h.nodup
  · obtain ⟨thread', hold, htask⟩ := hthread ht'
    exact htask ▸ h.idle id' (heffect.started ▸ hid) t' thread' hold
  · obtain ⟨thread', hold, htask⟩ := hthread ht'
    exact htask ▸ (h.running t' thread' hold).trans_le heffect.drawn
  · obtain ⟨old, hold, hsame⟩ := hthread ht'
    obtain ⟨old', hold', hsame'⟩ := hthread ht''
    exact h.apart t' t'' old old' hold hold' (hsame.trans (htask.trans hsame'.symm))
  · by_cases hown : file.id = id
    · exact hown ▸ (h.running t _ ht).trans_le heffect.drawn
    · have hfile : memory.files file ≠ none := hfile
      rw [heffect.elsewhere hown] at hfile
      exact (h.written file hfile).trans_le heffect.drawn

/-- A backup that was waiting is run by the thread that takes it. -/
theorem taken {id : Uuid} {before after : List Uuid}
    (hstarted : p.memory.started = before ++ id :: after) :
    BackupsApart (Pool.add (store.machine host) p id
      { p.memory with started := before ++ after }) := by
  have hnodup := h.nodup
  rw [hstarted] at hnodup
  have hmem : id ∈ p.memory.started := hstarted ▸ by simp
  have hrest : ∀ id' ∈ before ++ after, id' ∈ p.memory.started ∧ id' ≠ id := by
    intro id' hid
    refine ⟨hstarted ▸ List.mem_append.mpr ((List.mem_append.mp hid).imp_right
      (List.mem_cons_of_mem _)), ?_⟩
    rintro rfl
    exact (List.nodup_middle.mp hnodup).notMem hid
  refine ⟨fun id' hid => h.drawn id' (hrest id' hid).1,
    fun id' hid => h.fresh id' (hrest id' hid).1, (List.nodup_middle.mp hnodup).of_cons,
    fun id' hid t thread ht => ?_, fun t thread ht => ?_,
    fun t t' thread thread' ht ht' htask => ?_, h.written⟩
  · rcases Pool.add_threads ht with ⟨-, rfl⟩ | hold
    · exact (hrest id' hid).2.symm
    · exact h.idle id' (hrest id' hid).1 t thread hold
  · rcases Pool.add_threads ht with ⟨-, rfl⟩ | hold
    · exact h.drawn id hmem
    · exact h.running t thread hold
  · rcases Pool.add_threads ht with ⟨rfl, rfl⟩ | hold <;>
      rcases Pool.add_threads ht' with ⟨rfl, rfl⟩ | hold'
    · rfl
    · exact absurd htask.symm (h.idle id hmem t' thread' hold')
    · exact absurd htask (h.idle id hmem t thread hold)
    · exact h.apart t t' thread thread' hold hold' htask

/-- What happens elsewhere writes no file, and a backup it starts has a new identifier. -/
theorem elsewhere {memory : BackupMemory Bytes} (hchange : p.memory.Elsewhere store memory) :
    BackupsApart { p with memory } := by
  obtain ⟨hdrawn, hstarted⟩ := BackupMemory.Elsewhere.drawn hchange
  obtain ⟨hfiles, -⟩ := BackupMemory.Elsewhere.files hchange
  have hnew : ∀ id ∈ memory.started, id ∈ p.memory.started ∨
      id = p.memory.db.nextUuid ∧ p.memory.db.nextUuid < memory.db.nextUuid := by
    intro id hid
    rcases hstarted with hsame | ⟨hadded, hlt⟩
    · exact Or.inl (hsame ▸ hid)
    · rw [hadded] at hid
      exact (List.mem_append.mp hid).imp_right fun hid => ⟨List.mem_singleton.mp hid, hlt⟩
  refine ⟨fun id hid => ?_, fun id hid file hfile => ?_, ?_, fun id hid t thread ht => ?_,
    fun t thread ht => (h.running t thread ht).trans_le hdrawn, h.apart, fun file hfile => ?_⟩
  · rcases hnew id hid with hold | ⟨rfl, hlt⟩
    · exact (h.drawn id hold).trans_le hdrawn
    · exact hlt
  · change memory.files file = none
    rw [hfiles]
    rcases hnew id hid with hold | ⟨rfl, -⟩
    · exact h.fresh id hold file hfile
    · -- nothing was written under an identifier that was not drawn
      by_contra hwritten
      exact (h.written file hwritten).ne hfile
  · rcases hstarted with hsame | ⟨hadded, -⟩
    · exact hsame.symm ▸ h.nodup
    · change memory.started.Nodup
      rw [hadded]
      refine List.nodup_append.mpr ⟨h.nodup, List.nodup_singleton _, ?_⟩
      rintro id hid _ hnew rfl
      rw [List.mem_singleton] at hnew
      exact (h.drawn id hid).ne hnew
  · rcases hnew id hid with hold | ⟨rfl, -⟩
    · exact h.idle id hold t thread ht
    · exact (h.running t thread ht).ne
  · have hfile : memory.files file ≠ none := hfile
    rw [hfiles] at hfile
    exact (h.written file hfile).trans_le hdrawn

end BackupsApart

namespace BackupStore.Reaches

variable {s : BackupSystem Bytes}

theorem within (h : store.Reaches host s) {t : Nat} {id : Uuid}
    {made : Trace BackupCall.Answer} {c : BackupCall}
    {next : c.Answer → Prog BackupCall BackupCall.Answer _}
    (ht : s.threads t = some ⟨id, made, .call c next⟩) : c.within id := by
  have hpromised := Machine.Reaches.promised (G := fun task _ c => BackupCall.within task c)
    (Q := fun _ _ _ => True) (fun _ task _ _ => Prog.wp_mono (runBackup_within []) fun _ _ _ =>
      trivial) h ht
  exact hpromised.1

theorem apart (h : store.Reaches host s) : BackupsApart s := by
  induction h with
  | start =>
    refine ⟨?_, ?_, List.nodup_nil, ?_, ?_, ?_, ?_⟩ <;> simp [BackupMemory.initial]
  | call hp ht hanswer hguard ih =>
    exact ih.answered ht (BackupCall.answers_effect hanswer (within hp ht))
  | arrive hp harrives ih =>
    obtain ⟨before, after, hstarted, rfl⟩ := harrives
    exact ih.taken hstarted
  | drop _ _ hdroppable _ => exact hdroppable.elim
  | surroundings hp hchange ih => exact ih.elsewhere hchange
  | @crash p hp ih =>
    refine ⟨?_, ?_, List.nodup_nil, ?_, fun t thread ht => absurd ht Pool.crash_threads,
      fun t t' thread thread' ht => absurd ht Pool.crash_threads, ih.written⟩
    all_goals exact fun id hid => absurd hid List.not_mem_nil

end BackupStore.Reaches

end OddsfoxExecution
