import OddsfoxExecution.Backup.Conduct
import OddsfoxExecution.Library.Player

/-!
# Whole runs of a store and its backups

However the runs of backups interleave with each other and with the rest of the
store, wherever they fail and wherever the process dies: the database and the
copies go through the atomic backups of the retention argument, every manifest
that is there verifies, and no event of a live store is lost.
-/

namespace OddsfoxExecution

variable {Bytes : Type} {host : BackupHost Bytes} {store : BackupStore} {s : BackupSystem Bytes}

theorem Published.manifest_unique {files : BackupFile → Option Bytes} {id : Uuid}
    {manifest manifest' : BackupManifest} {image image' : DatabaseImage}
    (h : Published host files id manifest image) (h' : Published host files id manifest' image') :
    manifest = manifest' := by
  have htext := Option.some.inj (h.text.symm.trans h'.text)
  have hdecoded := congrArg host.decode htext
  rw [host.decode_encode, host.decode_encode] at hdecoded
  exact Option.some.inj hdecoded

namespace BackupStore.Reaches

theorem sound (h : store.Reaches host s) (hpositive : 0 < store.config.eventRetention) :
    BackupsSound host store s.memory :=
  (Machine.Reaches.secured (backups_disciplined hpositive) h).1

/-- What the calls of `run_backup` do between those of everybody else comes to backups made at one
moment: the database, with the events of the copies in the backup directory, is what the store and
such backups lead to. -/
theorem backups_atomic (h : store.Reaches host s) (hpositive : 0 < store.config.eventRetention) :
    ∃ copies, RetentionSteps store.config .initial ⟨s.memory.db, copies⟩ ∧
      ∀ id bytes, s.memory.files (.database id) = some bytes →
        ∃ image, host.load bytes = .ok image ∧ copies id = image.db.executionEvents :=
  (h.sound hpositive).archived

/-- Every manifest in the backup directory verifies, also against the mode of the store, and is of
a copy of a database the store had; and every COMPLETE row names such a manifest and its copy, with
the checksum and the last sequence the manifest has. -/
theorem published_backup_verifies (h : store.Reaches host s)
    (hpositive : 0 < store.config.eventRetention) :
    (∀ id, s.memory.files (.manifest id) ≠ none → ∃ manifest bytes image,
      manifest.backupId = id ∧ s.memory.files (.database id) = some bytes ∧
        host.load bytes = .ok image ∧ image.db ∈ s.memory.db :: s.memory.past ∧
        image.db.lastSequence = manifest.lastEventSequence ∧
        verifyBackup host s.memory.files (.manifest id) none = .ok manifest ∧
        verifyBackup host s.memory.files (.manifest id) (some store.config.mode) =
          .ok manifest) ∧
    ∀ b ∈ s.memory.db.backups, b.state = .complete → ∃ manifest,
      verifyBackup host s.memory.files (.manifest b.id) (some store.config.mode) = .ok manifest ∧
        manifest.backupId = b.id ∧
        s.memory.columns b.id =
          some ⟨.database b.id, .manifest b.id, manifest.checksumSha256⟩ ∧
        b.lastEventSequence = some manifest.lastEventSequence := by
  have hsound := h.sound hpositive
  have hmode : ∀ {id manifest image}, Published host s.memory.files id manifest image →
      manifest.mode = store.config.mode := by
    intro id manifest image hbackup
    obtain ⟨manifest', image', hbackup', hmode, -⟩ :=
      hsound.manifests id (by simp [hbackup.text])
    exact hbackup.manifest_unique hbackup' ▸ hmode
  have hverifies : ∀ {id manifest image}, Published host s.memory.files id manifest image →
      verifyBackup host s.memory.files (.manifest id) (some store.config.mode) =
        .ok manifest := fun hbackup =>
    hbackup.verifies fun mode hsome => (Option.some.inj hsome).symm.trans (hmode hbackup).symm
  refine ⟨fun id hid => ?_, fun b hb hcomplete => ?_⟩
  · obtain ⟨manifest, image, hbackup, -, hmem⟩ := hsound.manifests id hid
    obtain ⟨bytes, hcopy, -, hload⟩ := hbackup.copy
    exact ⟨manifest, bytes, image, hbackup.named, hcopy, hload, hmem, hbackup.last,
      hbackup.verifies nofun, hverifies hbackup⟩
  · obtain ⟨manifest, image, hbackup, hcolumns, hlast⟩ := hsound.completed b hb hcomplete
    exact ⟨manifest, hverifies hbackup, hbackup.named, hcolumns, hlast⟩

/-- An event that a live store ever had is still there, or in the copy of a backup that
verifies. -/
theorem no_event_lost (h : store.Reaches host s) (hpositive : 0 < store.config.eventRetention)
    (hlive : store.config.mode = .live) {earlier : Db} (hearlier : earlier ∈ s.memory.past)
    {e : ExecutionEvent} (he : e ∈ earlier.executionEvents) :
    e ∈ s.memory.db.executionEvents ∨ ∃ id manifest bytes image,
      verifyBackup host s.memory.files (.manifest id) none = .ok manifest ∧
        manifest.backupId = id ∧ s.memory.files (.database id) = some bytes ∧
        host.load bytes = .ok image ∧ e ∈ image.db.executionEvents := by
  refine ((h.sound hpositive).kept hlive earlier hearlier e he).imp_right ?_
  rintro ⟨id, manifest, image, hbackup, hevent⟩
  obtain ⟨bytes, hcopy, -, hload⟩ := hbackup.copy
  exact ⟨id, manifest, bytes, image, hbackup.verifies nofun, hbackup.named, hcopy, hload, hevent⟩

end BackupStore.Reaches

/-! ## A backup, and what is pruned after it -/

def sampleBackupHost : BackupHost (DatabaseImage ⊕ BackupManifest) where
  load := Sum.elim .ok fun _ => .error "file is not a database"
  sha256 := Sum.elim (fun image => s!"database {image.db.lastSequence} {image.db.nextUuid}")
    fun manifest => s!"manifest {manifest.backupId} {manifest.checksumSha256}"
  size := Sum.elim (fun _ => 4096) fun _ => 512
  encode := .inr
  decode := Sum.getRight?
  decode_encode := fun _ => rfl

def samplePolymarketIdentity : PolymarketIdentity :=
  { chainId := 137, expectedProtocol := 2, signerAddress := none, funderAddress := none }

/-- A live store that keeps one event. -/
def sampleBackupStore : BackupStore where
  config := tightLiveStore
  polymarket := samplePolymarketIdentity
  schemaVersion := 4
  identity :=
    { mode := .live, chainId := 137, protocolVersion := 2
      signerAddress := none, funderAddress := none }
  opened := by decide

/-- The answers of a host on which nothing fails. -/
def BackupCall.succeed (store : BackupStore) (m : BackupMemory (DatabaseImage ⊕ BackupManifest))
    (t : Nat) : (c : BackupCall) → Option (c.Answer × BackupMemory (DatabaseImage ⊕ BackupManifest))
  | .runningSince id =>
    if ∃ b ∈ m.db.backups, b.id = id ∧ b.state = .running then some (.ok (0 : Nat), m) else none
  | .lock => if m.gate = none then some (.ok (), { m with gate := some t }) else none
  | .unlock => some (.ok (), { m with gate := none })
  | .vacuumInto file =>
    if (m.files file).isNone then some (.ok (), m.put file (some (.inl (store.image m.db))))
    else none
  | .setOwnerOnly _ => some (.ok (), m)
  | .integrityCheck file =>
    if (m.files file).any Sum.isLeft then some (.ok (), m) else none
  | .checksum file => (m.files file).map fun bytes => (.ok (sampleBackupHost.sha256 bytes), m)
  | .size file => (m.files file).map fun bytes => (.ok (sampleBackupHost.size bytes), m)
  | .lastSequence => some (.ok m.db.lastSequence, m)
  | .schemaVersion => some (.ok store.schemaVersion, m)
  | .identity => some (.ok store.identity, m)
  | .writeManifest file manifest => some (.ok (), m.put file (some (.inr manifest)))
  | .rename source target => (m.files source).map fun bytes =>
      (.ok (), (m.put source none).put target (some bytes))
  | .complete id columns last => some (.ok (),
      { m.commit ((StoreCall.completeBackup id last).after store.config 0 m.db) with
        columns := Function.update m.columns id (some columns) })
  | .fail .. => none

theorem BackupCall.succeed_answers {store : BackupStore}
    {m m' : BackupMemory (DatabaseImage ⊕ BackupManifest)} {t : Nat} {c : BackupCall}
    {r : c.Answer} (h : c.succeed store m t = some (r, m')) :
    c.answers sampleBackupHost store m t r m' := by
  cases c with
  | runningSince id =>
    simp only [succeed, Option.ite_none_right_eq_some] at h
    obtain ⟨hrunning, heq⟩ := h
    cases heq
    exact ⟨rfl, fun _ _ => hrunning⟩
  | lock =>
    simp only [succeed, Option.ite_none_right_eq_some] at h
    obtain ⟨hfree, heq⟩ := h
    cases heq
    exact ⟨hfree, rfl, rfl⟩
  | vacuumInto file =>
    simp only [succeed, Option.ite_none_right_eq_some] at h
    obtain ⟨hnone, heq⟩ := h
    cases heq
    exact Or.inl ⟨rfl, Option.isNone_iff_eq_none.mp hnone, _, rfl, rfl⟩
  | integrityCheck file =>
    simp only [succeed, Option.ite_none_right_eq_some] at h
    obtain ⟨hcopy, heq⟩ := h
    cases heq
    obtain ⟨bytes, hbytes, hleft⟩ := (Option.any_eq_true _ _).mp hcopy
    obtain ⟨image, rfl⟩ := Sum.isLeft_iff.mp hleft
    exact ⟨rfl, fun _ => ⟨.inl image, image, hbytes, rfl⟩⟩
  | checksum file =>
    obtain ⟨bytes, hbytes, heq⟩ := Option.map_eq_some_iff.mp h
    cases heq
    exact ⟨rfl, fun _ hok => ⟨bytes, hbytes, (Except.ok.inj hok).symm⟩⟩
  | size file =>
    obtain ⟨bytes, hbytes, heq⟩ := Option.map_eq_some_iff.mp h
    cases heq
    exact ⟨rfl, fun _ hok => ⟨bytes, hbytes, (Except.ok.inj hok).symm⟩⟩
  | rename source target =>
    obtain ⟨bytes, hbytes, heq⟩ := Option.map_eq_some_iff.mp h
    cases heq
    exact Or.inl ⟨rfl, bytes, hbytes, rfl⟩
  | unlock =>
    cases h
    exact ⟨rfl, rfl⟩
  | setOwnerOnly =>
    cases h
    rfl
  | writeManifest =>
    cases h
    exact Or.inl ⟨rfl, rfl⟩
  | complete =>
    cases h
    exact Or.inl ⟨rfl, 0, rfl⟩
  | fail => cases h
  | _ =>
    cases h
    exact ⟨rfl, fun _ hok => (Except.ok.inj hok).symm⟩

/-- The run of the backup that was started first. -/
def backupPlayer (store : BackupStore) : Player (store.machine sampleBackupHost) Unit where
  respond := fun _ m t c => c.succeed store m t
  start := fun m id =>
    match m.started with
    | next :: rest => if next = id then some { m with started := rest } else none
    | [] => none
  answers := BackupCall.succeed_answers
  arrives := by
    intro m id m' h
    split at h
    · rename_i next rest hstarted
      simp only [Option.ite_none_right_eq_some, Option.some.injEq] at h
      obtain ⟨rfl, rfl⟩ := h
      exact ⟨[], rest, hstarted, rfl⟩
    · cases h

def startedBackups : BackupMemory (DatabaseImage ⊕ BackupManifest) :=
  { BackupMemory.initial.commit startedArchive.db with started := [1] }

theorem startedBackups_reaches :
    sampleBackupStore.Reaches sampleBackupHost ⟨startedBackups, fun _ => none, 0, []⟩ :=
  .surroundings .start (.start "operator" none 0 1 rfl rfl)

/-- What a test shows of the state the run of the backup leads to. -/
theorem exists_backedUp (test : BackupSystem (DatabaseImage ⊕ BackupManifest) → Bool)
    (h : ((backupPlayer sampleBackupStore).play [.arrive 1, .calls 0 16 ()]
      ⟨startedBackups, fun _ => none, 0, []⟩).any test = true) :
    ∃ s, sampleBackupStore.Reaches sampleBackupHost s ∧ test s = true := by
  obtain ⟨s, hturns, htest⟩ := (Option.any_eq_true _ _).mp h
  exact ⟨s, Player.play_reaches startedBackups_reaches hturns, htest⟩

theorem backups_atomic_run : ∃ s, sampleBackupStore.Reaches sampleBackupHost s ∧
    s.memory.files (.database 1) ≠ none ∧
    ∃ copies, RetentionSteps sampleBackupStore.config .initial ⟨s.memory.db, copies⟩ ∧
      ∀ id bytes, s.memory.files (.database id) = some bytes → ∃ image,
        sampleBackupHost.load bytes = .ok image ∧ copies id = image.db.executionEvents := by
  obtain ⟨s, hs, htest⟩ := exists_backedUp
    (fun s => (s.memory.files (.database 1)).isSome) (by decide +kernel)
  exact ⟨s, hs, Option.isSome_iff_ne_none.mp htest, hs.backups_atomic (by decide)⟩

theorem published_backup_verifies_run : ∃ s b manifest,
    sampleBackupStore.Reaches sampleBackupHost s ∧ b ∈ s.memory.db.backups ∧
      b.state = .complete ∧
      verifyBackup sampleBackupHost s.memory.files (.manifest b.id) (some .live) =
        .ok manifest := by
  obtain ⟨s, hs, htest⟩ := exists_backedUp
    (fun s => s.memory.db.backups.any fun b => decide (b.state = .complete))
    (by decide +kernel)
  obtain ⟨b, hb, hcomplete⟩ := List.any_eq_true.mp htest
  have hcomplete := of_decide_eq_true hcomplete
  obtain ⟨manifest, hverifies, -⟩ :=
    (hs.published_backup_verifies (by decide)).2 b hb hcomplete
  exact ⟨s, b, manifest, hs, hb, hcomplete, hverifies⟩

/-- Once the backup is there the event of its start is pruned. -/
theorem no_event_lost_run : ∃ s earlier e,
    sampleBackupStore.Reaches sampleBackupHost s ∧ earlier ∈ s.memory.past ∧
      e ∈ earlier.executionEvents ∧ e ∉ s.memory.db.executionEvents ∧
      ∃ id manifest bytes image,
        verifyBackup sampleBackupHost s.memory.files (.manifest id) none = .ok manifest ∧
          manifest.backupId = id ∧ s.memory.files (.database id) = some bytes ∧
          sampleBackupHost.load bytes = .ok image ∧ e ∈ image.db.executionEvents := by
  obtain ⟨s, hs, htest⟩ := exists_backedUp
    (fun s => s.memory.gate.isNone && s.memory.db.executionEvents.any fun e =>
      decide (e ∉ (StoreCall.pruneEvents.after tightLiveStore 0 s.memory.db).executionEvents))
    (by decide +kernel)
  obtain ⟨hfree, hdropped⟩ := Bool.and_eq_true_iff.mp htest
  obtain ⟨e, he, hdropped⟩ := List.any_eq_true.mp hdropped
  have hdropped := of_decide_eq_true hdropped
  have hpruned := Machine.Reaches.surroundings hs
    (.call .pruneEvents 0 (Option.isNone_iff_eq_none.mp hfree) rfl)
  have hsaved := BackupStore.Reaches.no_event_lost hpruned (by decide) rfl List.mem_cons_self he
  exact ⟨_, _, e, hpruned, List.mem_cons_self, he, hdropped, hsaved.resolve_left hdropped⟩

end OddsfoxExecution
