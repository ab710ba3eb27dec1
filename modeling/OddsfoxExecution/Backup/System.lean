import OddsfoxExecution.Library.Secure
import OddsfoxExecution.Backup.Files
import OddsfoxExecution.EventRetention

/-!
# Backups as a system

`run_backup` as a program over the store's write gate, its database and the
backup directory.  Any call may fail, a failed write may leave anything in the
file it wrote to, the rest of the store goes on whenever the gate is free, and
the process may die between any two calls.
-/

namespace OddsfoxExecution

/-- The columns of `backups` that a finished backup fills in, apart from its last sequence. -/
structure BackupColumns where
  databasePath : BackupFile
  manifestPath : BackupFile
  checksumSha256 : String
deriving DecidableEq

/-- The points at which `run_backup` can be interrupted or fail. -/
inductive BackupCall where
  | runningSince (id : Uuid)
  | lock
  | unlock
  | vacuumInto (file : BackupFile)
  | setOwnerOnly (file : BackupFile)
  | integrityCheck (file : BackupFile)
  | checksum (file : BackupFile)
  | size (file : BackupFile)
  | lastSequence
  | schemaVersion
  | identity
  | writeManifest (file : BackupFile) (manifest : BackupManifest)
  | rename (source target : BackupFile)
  | complete (id : Uuid) (columns : BackupColumns) (lastSequence : Nat)
  | fail (id : Uuid) (error : BackupError)

abbrev BackupCall.Value : BackupCall → Type
  | runningSince _ => Time
  | checksum _ => String
  | size _ | lastSequence => Nat
  | schemaVersion => Int
  | identity => InstanceMetadata
  | _ => Unit

abbrev BackupCall.Answer (c : BackupCall) : Type := Except BackupError c.Value

/-- A function of a backup: a program over the calls that may fail. -/
abbrev BackupAction (α : Type) : Type := ExceptT BackupError (Prog BackupCall BackupCall.Answer) α

namespace BackupAction

variable {α : Type}

/-- A call followed by `?`. -/
def ask (c : BackupCall) : BackupAction c.Value := do
  match ← ExceptT.lift (Prog.perform c) with
  | .ok value => pure value
  | .error e => throw e

def attempt (action : BackupAction α) : BackupAction (Except BackupError α) :=
  ExceptT.lift action.run

/-- An action under the write gate; the guard is dropped however the action ends. -/
def gated (action : BackupAction α) : BackupAction α := do
  ask .lock
  let result ← attempt action
  ask .unlock
  match result with
  | .ok value => pure value
  | .error e => throw e

end BackupAction

open BackupAction

/-! ## `run_backup` -/

def buildManifest (mode : Mode) (id : Uuid) (createdAt : Time) (checksum : String)
    (size lastSequence : Nat) (schemaVersion : Int) (identity : InstanceMetadata) :
    Except BackupError BackupManifest :=
  if identity.chainId < 0 then
    .error (.store (.identityMismatch "stored chain ID is negative"))
  else if identity.protocolVersion < 0 ∨ 2 ^ 32 ≤ identity.protocolVersion then
    .error (.store (.identityMismatch "stored protocol version is invalid"))
  else .ok
    { backupId := id
      schemaVersion
      mode
      chainId := identity.chainId.toNat
      protocolVersion := identity.protocolVersion.toNat
      signerAddress := identity.signerAddress
      funderAddress := identity.funderAddress
      lastEventSequence := lastSequence
      databaseSizeBytes := size
      checksumSha256 := checksum
      createdAt }

/-- The end of `create_backup_files`: the manifest is written, both files get their final names and
the row becomes COMPLETE. -/
def publishBackup (id : Uuid) (manifest : BackupManifest) : BackupAction Unit := do
  ask (.writeManifest (.partialManifest id) manifest)
  ask (.setOwnerOnly (.partialManifest id))
  ask (.rename (.partialDatabase id) (.database id))
  ask (.rename (.partialManifest id) (.manifest id))
  ask (.complete id ⟨.database id, .manifest id, manifest.checksumSha256⟩
    manifest.lastEventSequence)

/-- The body of `create_backup_files` under the write gate. -/
def writeBackup (mode : Mode) (id : Uuid) (createdAt : Time) : BackupAction Unit := do
  ask (.vacuumInto (.partialDatabase id))
  ask (.setOwnerOnly (.partialDatabase id))
  ask (.integrityCheck (.partialDatabase id))
  let checksum : String ← ask (.checksum (.partialDatabase id))
  let size : Nat ← ask (.size (.partialDatabase id))
  let lastSequence : Nat ← ask .lastSequence
  let schemaVersion : Int ← ask .schemaVersion
  let identity : InstanceMetadata ← ask .identity
  match buildManifest mode id createdAt checksum size lastSequence schemaVersion identity with
  | .error e => throw e
  | .ok manifest => publishBackup id manifest

def createBackupFiles (mode : Mode) (id : Uuid) (createdAt : Time) : BackupAction Unit :=
  gated (writeBackup mode id createdAt)

def runBackup (mode : Mode) (id : Uuid) : BackupAction Unit := do
  let createdAt : Time ← ask (.runningSince id)
  match ← attempt (createBackupFiles mode id createdAt) with
  | .ok () => pure ()
  | .error e => do
    gated (ask (.fail id e))
    throw e

/-! ## The system -/

/-- A store that was opened: its configuration and what its database says of itself. -/
structure BackupStore where
  config : StoreConfig
  polymarket : PolymarketIdentity
  schemaVersion : Int
  identity : InstanceMetadata
  opened : bindIdentity config.mode polymarket (some identity) = .ok identity

structure BackupMemory (Bytes : Type) where
  db : Db
  /-- The databases before this one, latest first. -/
  past : List Db
  files : BackupFile → Option Bytes
  columns : Uuid → Option BackupColumns
  /-- The task that holds the write gate. -/
  gate : Option Nat
  /-- The backups that were started and are not yet run. -/
  started : List Uuid

variable {Bytes : Type}

namespace BackupMemory

def put (m : BackupMemory Bytes) (file : BackupFile) (content : Option Bytes) :
    BackupMemory Bytes :=
  { m with files := Function.update m.files file content }

def commit (m : BackupMemory Bytes) (db : Db) : BackupMemory Bytes :=
  { m with db, past := m.db :: m.past }

/-- A write that failed left the file as it was, or with anything in it. -/
def Spoils (m : BackupMemory Bytes) (file : BackupFile) (m' : BackupMemory Bytes) : Prop :=
  m' = m ∨ ∃ content, m' = m.put file content

end BackupMemory

/-- What `VACUUM INTO` makes of the database. -/
def BackupStore.image (store : BackupStore) (db : Db) : DatabaseImage :=
  { db, schemaVersion := store.schemaVersion, identity := store.identity }

/-- What a call does to the memory, and how it may be answered. -/
def BackupCall.answers (host : BackupHost Bytes) (store : BackupStore) (m : BackupMemory Bytes)
    (t : Nat) : (c : BackupCall) → c.Answer → BackupMemory Bytes → Prop
  | .runningSince id, r, m' => m' = m ∧
      ∀ createdAt, r = .ok createdAt → ∃ b ∈ m.db.backups, b.id = id ∧ b.state = .running
  | .lock, r, m' => m.gate = none ∧ r = .ok () ∧ m' = { m with gate := some t }
  | .unlock, r, m' => r = .ok () ∧ m' = { m with gate := none }
  | .vacuumInto file, r, m' =>
      (r = .ok () ∧ m.files file = none ∧
        ∃ bytes, host.load bytes = .ok (store.image m.db) ∧ m' = m.put file (some bytes)) ∨
      (∃ e, r = .error e) ∧ m.Spoils file m'
  | .setOwnerOnly _, _, m' => m' = m
  | .integrityCheck file, r, m' => m' = m ∧
      (r = .ok () → ∃ bytes image, m.files file = some bytes ∧ host.load bytes = .ok image)
  | .checksum file, r, m' => m' = m ∧
      ∀ checksum, r = .ok checksum →
        ∃ bytes, m.files file = some bytes ∧ checksum = host.sha256 bytes
  | .size file, r, m' => m' = m ∧
      ∀ size, r = .ok size → ∃ bytes, m.files file = some bytes ∧ size = host.size bytes
  | .lastSequence, r, m' => m' = m ∧ ∀ last, r = .ok last → last = m.db.lastSequence
  | .schemaVersion, r, m' => m' = m ∧ ∀ version, r = .ok version → version = store.schemaVersion
  | .identity, r, m' => m' = m ∧ ∀ identity, r = .ok identity → identity = store.identity
  | .writeManifest file manifest, r, m' =>
      (r = .ok () ∧ m' = m.put file (some (host.encode manifest))) ∨
        (∃ e, r = .error e) ∧ m.Spoils file m'
  | .rename source target, r, m' =>
      (r = .ok () ∧ ∃ bytes, m.files source = some bytes ∧
        m' = (m.put source none).put target (some bytes)) ∨
        (∃ e, r = .error e) ∧ m' = m
  | .complete id columns last, r, m' =>
      (r = .ok () ∧ ∃ now, m' =
        { m.commit ((StoreCall.completeBackup id last).after store.config now m.db) with
          columns := Function.update m.columns id (some columns) }) ∨
        (∃ e, r = .error e) ∧ m' = m
  | .fail id _, r, m' =>
      (r = .ok () ∧ ∃ now, m' =
        m.commit ((StoreCall.failBackup id).after store.config now m.db)) ∨
        (∃ e, r = .error e) ∧ m' = m

/-- The operations a run of a backup makes on its own row. -/
def StoreCall.endsBackup : StoreCall → Bool
  | completeBackup .. | failBackup .. => true
  | _ => false

/-- What the rest of the process does to the store: its operations take the write gate, so none is
made while another task holds it.  A backup that was started may be run. -/
inductive BackupMemory.Elsewhere (store : BackupStore) (m : BackupMemory Bytes) :
    BackupMemory Bytes → Prop
  | call (call : StoreCall) (now : Time) (hgate : m.gate = none) (hcall : call.endsBackup = false) :
      Elsewhere store m (m.commit (call.after store.config now m.db))
  | start (actor : String) (idempotency : Option Idempotency) (now : Time) (id : Uuid)
      (hgate : m.gate = none)
      (hstart : (StoreCall.startBackup actor idempotency).answer store.config now m.db = .ok id) :
      Elsewhere store m
        { m.commit ((StoreCall.startBackup actor idempotency).after store.config now m.db) with
          started := m.started ++ [id] }
  | paper (op : PaperOp) (now : Time) (hgate : m.gate = none) :
      Elsewhere store m (m.commit (op.after now m.db))
  | openAccount (account : PaperConfig) (hgate : m.gate = none) :
      Elsewhere store m
        (m.commit (leaves m.db (initializePaperAccount store.config.mode account m.db)))

/-- The runs of backups over a store.  A new process holds no gate and has no run to begin; it finds
the database and the files. -/
def BackupStore.machine (store : BackupStore) (host : BackupHost Bytes) :
    Machine BackupCall BackupCall.Answer Uuid (Except BackupError Unit) (BackupMemory Bytes) where
  program := fun id => (runBackup store.config.mode id).run
  answer := fun m t c r m' => c.answers host store m t r m'
  arrives := fun m id m' => ∃ before after, m.started = before ++ id :: after ∧
    m' = { m with started := before ++ after }
  droppable := fun _ => False
  dropped := fun m _ => m
  surroundings := fun m m' => m.Elsewhere store m'
  crashed := fun m => { m with gate := none, started := [] }

abbrev BackupSystem (Bytes : Type) : Type :=
  Pool BackupCall BackupCall.Answer Uuid (Except BackupError Unit) (BackupMemory Bytes)

def BackupMemory.initial : BackupMemory Bytes where
  db := Db.initial
  past := []
  files := fun _ => none
  columns := fun _ => none
  gate := none
  started := []

/-- The states that the store and its backups reach, over any number of processes. -/
def BackupStore.Reaches (store : BackupStore) (host : BackupHost Bytes) (s : BackupSystem Bytes) :
    Prop :=
  (store.machine host).Reaches (fun _ _ _ => True) BackupMemory.initial s

end OddsfoxExecution
