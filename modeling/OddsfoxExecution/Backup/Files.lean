import OddsfoxExecution.Store.Control
import OddsfoxExecution.Store.Identity

/-!
# Backup files

A backup is two files in the backup directory, a copy of the database and a
manifest that describes it; while they are written they have other names.
`verify_backup` checks a manifest against the copy it names.
-/

namespace OddsfoxExecution

/-- The files of the backup directory: `{id}.sqlite3` and `{id}.manifest.json`, and the same with
`.partial` while they are written. -/
inductive BackupFile where
  | database (id : Uuid)
  | partialDatabase (id : Uuid)
  | manifest (id : Uuid)
  | partialManifest (id : Uuid)
deriving DecidableEq

def BackupFile.id : BackupFile → Uuid
  | database id | partialDatabase id | manifest id | partialManifest id => id

structure BackupManifest where
  backupId : Uuid
  schemaVersion : Int
  mode : Mode
  chainId : Nat
  protocolVersion : Nat
  signerAddress : Option String
  funderAddress : Option String
  lastEventSequence : Nat
  databaseSizeBytes : Nat
  checksumSha256 : String
  createdAt : Time
deriving DecidableEq

/-- What is read from a file that SQLite opens and finds whole. -/
structure DatabaseImage where
  db : Db
  schemaVersion : Int
  identity : InstanceMetadata

/-- What the store uses of SQLite, SHA-256 and serde on the contents of files.  `load` gives the
database in a file that passes `PRAGMA integrity_check`, or what that reports. -/
structure BackupHost (Bytes : Type) where
  load : Bytes → Except String DatabaseImage
  sha256 : Bytes → String
  size : Bytes → Nat
  encode : BackupManifest → Bytes
  decode : Bytes → Option BackupManifest
  decode_encode : ∀ manifest, decode (encode manifest) = some manifest

attribute [simp] BackupHost.decode_encode

inductive BackupError where
  | store (e : StoreError)
  | io (message : String)
deriving DecidableEq

/-- Why a backup does not verify. -/
inductive VerifyError where
  | unreadable (file : BackupFile)
  | malformed
  | ensured (message : String)
deriving DecidableEq

variable {Bytes : Type}

/-- What `sqlite_integrity_check` fails with. -/
def integrityFailure (report : String) : StoreError :=
  .identityMismatch ("SQLite integrity check failed: " ++ report)

/-- The checks of `verify_backup_inner` on the copy, once its checksum and the mode are right. -/
def verifyImage (manifest : BackupManifest) (image : DatabaseImage) :
    Except VerifyError BackupManifest :=
  if image.schemaVersion ≠ manifest.schemaVersion then
    .error (.ensured "backup schema version does not match manifest")
  else if image.identity.mode ≠ manifest.mode then
    .error (.ensured "backup database mode mismatch")
  else if image.db.lastSequence ≠ manifest.lastEventSequence then
    .error (.ensured "backup event sequence does not match manifest")
  else .ok manifest

/-- `verify_backup_inner`; `verify_backup` expects a mode and `verify_backup_offline` none. -/
def verifyBackup (host : BackupHost Bytes) (files : BackupFile → Option Bytes)
    (manifestPath : BackupFile) (expectedMode : Option Mode) :
    Except VerifyError BackupManifest :=
  match files manifestPath with
  | none => .error (.unreadable manifestPath)
  | some text =>
    match host.decode text with
    | none => .error .malformed
    | some manifest =>
      let databasePath := BackupFile.database manifest.backupId
      match files databasePath with
      | none => .error (.unreadable databasePath)
      | some bytes =>
        if host.sha256 bytes ≠ manifest.checksumSha256 then
          .error (.ensured "backup checksum mismatch")
        else if (expectedMode.any fun mode => decide (manifest.mode ≠ mode)) = true then
          .error (.ensured ("backup mode " ++ manifest.mode.text ++
            " does not match configured mode " ++ (expectedMode.elim "" Mode.text)))
        else
          match host.load bytes with
          | .error report => .error (.ensured (integrityFailure report).text)
          | .ok image => verifyImage manifest image

/-! ## What a verified backup is -/

/-- The manifest of a backup and the copy it describes, under their final names. -/
structure Published (host : BackupHost Bytes) (files : BackupFile → Option Bytes) (id : Uuid)
    (manifest : BackupManifest) (image : DatabaseImage) : Prop where
  named : manifest.backupId = id
  text : files (.manifest id) = some (host.encode manifest)
  copy : ∃ bytes, files (.database id) = some bytes ∧
    manifest.checksumSha256 = host.sha256 bytes ∧ host.load bytes = .ok image
  schema : image.schemaVersion = manifest.schemaVersion
  mode : image.identity.mode = manifest.mode
  last : image.db.lastSequence = manifest.lastEventSequence

/-- A published backup verifies, whoever asks without a mode or with its own. -/
theorem Published.verifies {host : BackupHost Bytes} {files : BackupFile → Option Bytes} {id : Uuid}
    {manifest : BackupManifest} {image : DatabaseImage} (h : Published host files id manifest image)
    {expectedMode : Option Mode} (hmode : ∀ mode ∈ expectedMode, mode = manifest.mode) :
    verifyBackup host files (.manifest id) expectedMode = .ok manifest := by
  obtain ⟨bytes, hcopy, hchecksum, hload⟩ := h.copy
  have hexpected : (expectedMode.any fun mode => !decide (manifest.mode = mode)) = false := by
    cases expectedMode with
    | none => rfl
    | some mode => simp [hmode mode rfl]
  simp [verifyBackup, h.text, h.named, hcopy, ← hchecksum, hexpected, hload, verifyImage, h.schema,
    h.mode, h.last]

end OddsfoxExecution
