import OddsfoxExecution.Backup.Published

/-!
# The conduct of a run

While a run holds the write gate nobody else changes anything, and nobody else
ever writes its files.  Under this the calls of `run_backup` keep what holds of
the backups, however they are answered.
-/

namespace OddsfoxExecution

open BackupAction

variable {Bytes : Type} {host : BackupHost Bytes} {store : BackupStore}

/-- Nothing changed but which backups wait for their run. -/
def BackupMemory.Undisturbed (m m' : BackupMemory Bytes) : Prop :=
  ∃ started, m' = { m with started }

namespace BackupMemory.Undisturbed

variable {m m' : BackupMemory Bytes}

theorem db (h : m.Undisturbed m') : m'.db = m.db := by
  obtain ⟨started, rfl⟩ := h
  rfl

theorem files (h : m.Undisturbed m') : m'.files = m.files := by
  obtain ⟨started, rfl⟩ := h
  rfl

theorem gate (h : m.Undisturbed m') : m'.gate = m.gate := by
  obtain ⟨started, rfl⟩ := h
  rfl

end BackupMemory.Undisturbed

def backupContract (host : BackupHost Bytes) (store : BackupStore) (t : Nat) (id : Uuid) :
    Contract (BackupMemory Bytes) where
  inv := BackupsSound host store
  rely := fun m m' => (m.gate = some t → m.Undisturbed m') ∧
    (m'.gate = some t → m.gate = some t) ∧ ∀ file, file.id = id → m'.files file = m.files file
  guar := fun m m' => m' = m ∨
    (m.gate = some t ∧ (m'.gate = some t ∨ m'.gate = none)) ∨
    (m.gate = none ∧ m' = { m with gate := some t })

/-- The function is secure from here on, in the run of the backup by the task. -/
abbrev BackupSecure {α : Type} (host : BackupHost Bytes) (store : BackupStore) (t : Nat) (id : Uuid)
    (x : BackupAction α) (Q : Except BackupError α → BackupMemory Bytes → Prop)
    (m : BackupMemory Bytes) : Prop :=
  x.run.Secure (backupContract host store t id) (fun m c r m' => c.answers host store m t r m') Q m

section Calls

variable {α : Type} {t : Nat} {id : Uuid} {m : BackupMemory Bytes}

theorem secure_ask {c : BackupCall} {Q : Except BackupError c.Value → BackupMemory Bytes → Prop}
    (h : ∀ m₁, (backupContract host store t id).rely m m₁ → BackupsSound host store m₁ →
      ∀ r m₂, c.answers host store m₁ t r m₂ → BackupsSound host store m₂ ∧
        (backupContract host store t id).guar m₁ m₂ ∧ Q r m₂) :
    BackupSecure host store t id (ask c) Q m := by
  refine Prog.secure_run_bind.mpr (Prog.secure_run_lift.mpr ?_)
  intro m₁ hrely hsound r m₂ hanswer
  obtain ⟨hkeep, hguar, hpost⟩ := h m₁ hrely hsound r m₂ hanswer
  refine ⟨hkeep, hguar, ?_⟩
  cases r with
  | ok value => exact hpost
  | error e => exact hpost

/-- Under the gate a call finds the memory as it was left. -/
theorem secure_held {c : BackupCall} {Q : Except BackupError c.Value → BackupMemory Bytes → Prop}
    (hgate : m.gate = some t)
    (h : ∀ m₁, m.Undisturbed m₁ → BackupsSound host store m₁ → ∀ r m₂,
      c.answers host store m₁ t r m₂ →
        BackupsSound host store m₂ ∧ m₂.gate = some t ∧ Q r m₂) :
    BackupSecure host store t id (ask c) Q m := by
  refine secure_ask fun m₁ hrely hsound r m₂ hanswer => ?_
  have hsame := hrely.1 hgate
  obtain ⟨hkeep, hheld, hpost⟩ := h m₁ hsame hsound r m₂ hanswer
  obtain ⟨started, rfl⟩ := hsame
  exact ⟨hkeep, Or.inr (Or.inl ⟨hgate, Or.inl hheld⟩), hpost⟩

variable {Q : Except BackupError α → BackupMemory Bytes → Prop}

theorem secure_heldBind {c : BackupCall} {f : c.Value → BackupAction α} (hgate : m.gate = some t)
    (h : ∀ m₁, m.Undisturbed m₁ → BackupsSound host store m₁ → ∀ r m₂,
      c.answers host store m₁ t r m₂ →
        BackupsSound host store m₂ ∧ m₂.gate = some t ∧
          (∀ value, r = .ok value → BackupSecure host store t id (f value) Q m₂) ∧
          ∀ e, r = .error e → Q (.error e) m₂) :
    BackupSecure host store t id (ask c >>= f) Q m := by
  refine Prog.secure_run_bind.mpr (secure_held hgate fun m₁ hsame hsound r m₂ hanswer => ?_)
  obtain ⟨hkeep, hheld, hok, herror⟩ := h m₁ hsame hsound r m₂ hanswer
  refine ⟨hkeep, hheld, ?_⟩
  cases r with
  | ok value => exact hok value rfl
  | error e => exact herror e rfl

/-- Under the gate a call that reads changes nothing. -/
theorem secure_read {c : BackupCall} {f : c.Value → BackupAction α} (hgate : m.gate = some t)
    (hread : ∀ {m : BackupMemory Bytes} {r m'}, c.answers host store m t r m' → m' = m)
    (hok : ∀ value m₁, m.Undisturbed m₁ → c.answers host store m₁ t (.ok value) m₁ →
      BackupSecure host store t id (f value) Q m₁)
    (herror : ∀ e m₁, m₁.gate = some t → Q (.error e) m₁) :
    BackupSecure host store t id (ask c >>= f) Q m := by
  refine secure_heldBind hgate fun m₁ hsame hsound r m₂ hanswer => ?_
  obtain rfl := hread hanswer
  have hheld : m₂.gate = some t := by
    obtain ⟨started, rfl⟩ := hsame
    exact hgate
  refine ⟨hsound, hheld, ?_, fun e _ => herror e m₂ hheld⟩
  rintro value rfl
  exact hok value m₂ hsame hanswer

/-- A function under the write gate starts with the files of its backup as they were. -/
theorem secure_gated {x : BackupAction α}
    (hx : ∀ m₁, m₁.gate = some t → (∀ file, file.id = id → m₁.files file = m.files file) →
      BackupSecure host store t id x (fun _ m => m.gate = some t) m₁) :
    BackupSecure host store t id (gated x) (fun _ _ => True) m := by
  refine Prog.secure_run_bind.mpr (secure_ask fun m₁ hrely hsound r m₂ hanswer => ?_)
  obtain ⟨hfree, rfl, rfl⟩ := hanswer
  refine ⟨hsound.of_files rfl rfl rfl (fun _ => rfl) fun _ => rfl, Or.inr (Or.inr ⟨hfree, rfl⟩), ?_⟩
  refine Prog.secure_run_bind.mpr (Prog.secure_run_lift.mpr
    ((hx { m₁ with gate := some t } rfl hrely.2.2).mono ?_))
  intro result m₂ hgate
  refine Prog.secure_run_bind.mpr (secure_ask fun m₃ hrely hsound r m₄ hanswer => ?_)
  obtain ⟨rfl, rfl⟩ := hanswer
  have hheld : m₃.gate = some t := (hrely.1 hgate).gate.trans hgate
  refine ⟨hsound.of_files rfl rfl rfl (fun _ => rfl) fun _ => rfl,
    Or.inr (Or.inl ⟨hheld, Or.inr rfl⟩), ?_⟩
  cases result <;> trivial

end Calls

/-! ## The files are written and named -/

section Writing

variable {t : Nat} {id : Uuid} {m m' : BackupMemory Bytes}

/-- A file that has no final name does not matter. -/
theorem BackupsSound.put (h : BackupsSound host store m) {file : BackupFile}
    {content : Option Bytes} (hunnamed : (∀ id, file ≠ .manifest id) ∧ ∀ id, file ≠ .database id) :
    BackupsSound host store (m.put file content) :=
  h.of_files rfl rfl rfl (fun id => BackupMemory.put_of_ne (hunnamed.1 id).symm)
    fun id => BackupMemory.put_of_ne (hunnamed.2 id).symm

/-- The copy is made, and the manifest describes it; neither has its final name. -/
structure ReadyToPublish (host : BackupHost Bytes) (store : BackupStore) (t : Nat) (id : Uuid)
    (manifest : BackupManifest) (m : BackupMemory Bytes) : Prop where
  gate : m.gate = some t
  copy : ∃ bytes, m.files (.partialDatabase id) = some bytes ∧
    manifest.checksumSha256 = host.sha256 bytes ∧ host.load bytes = .ok (store.image m.db)
  fresh : m.files (.manifest id) = none
  named : manifest.backupId = id
  schema : store.schemaVersion = manifest.schemaVersion
  sameMode : manifest.mode = store.config.mode
  last : m.db.lastSequence = manifest.lastEventSequence

theorem ReadyToPublish.undisturbed {manifest : BackupManifest}
    (h : ReadyToPublish host store t id manifest m) (hsame : m.Undisturbed m') :
    ReadyToPublish host store t id manifest m' := by
  obtain ⟨started, rfl⟩ := hsame
  exact ⟨h.gate, h.copy, h.fresh, h.named, h.schema, h.sameMode, h.last⟩

/-- Both files get their final names, first the copy, and the row becomes COMPLETE. -/
theorem publishBackup_secure {manifest : BackupManifest}
    (h : ReadyToPublish host store t id manifest m) :
    BackupSecure host store t id (publishBackup id manifest) (fun _ m => m.gate = some t) m := by
  refine secure_heldBind h.gate fun m₁ hsame hsound r m₂ hwritten => ?_
  replace h := h.undisturbed hsame
  have hkept : ∀ {content}, BackupsSound host store (m₁.put (.partialManifest id) content) :=
    hsound.put ⟨nofun, nofun⟩
  rcases hwritten with ⟨rfl, rfl⟩ | ⟨⟨e, rfl⟩, rfl | ⟨content, rfl⟩⟩
  rotate_left
  · exact ⟨hsound, h.gate, nofun, fun _ _ => h.gate⟩
  · exact ⟨hkept, h.gate, nofun, fun _ _ => h.gate⟩
  refine ⟨hkept, h.gate, fun _ _ => ?_, nofun⟩
  have hready : ReadyToPublish host store t id manifest
      (m₁.put (.partialManifest id) (some (host.encode manifest))) := by
    refine ⟨h.gate, ?_, ?_, h.named, h.schema, h.sameMode, h.last⟩
    · obtain ⟨bytes, hcopy, hbytes⟩ := h.copy
      exact ⟨bytes, (BackupMemory.put_of_ne (by simp)).trans hcopy, hbytes⟩
    · exact (BackupMemory.put_of_ne (by simp)).trans h.fresh
  have htext : (m₁.put (.partialManifest id) (some (host.encode manifest))).files
      (.partialManifest id) = some (host.encode manifest) := by simp [BackupMemory.put_files]
  refine secure_read hready.gate (fun hanswer => hanswer) (fun _ m₂ hsame _ => ?_)
    fun _ _ hheld => hheld
  replace hready := hready.undisturbed hsame
  replace htext := (congrFun hsame.files _).trans htext
  -- the copy
  refine secure_heldBind hready.gate fun m₃ hsame hsound r m₄ hnamed => ?_
  replace hready := hready.undisturbed hsame
  replace htext := (congrFun hsame.files _).trans htext
  obtain ⟨bytes, hcopy, hchecksum, hload⟩ := hready.copy
  rcases hnamed with ⟨rfl, bytes', hbytes, rfl⟩ | ⟨⟨e, rfl⟩, rfl⟩
  rotate_left
  · exact ⟨hsound, hready.gate, nofun, fun _ _ => hready.gate⟩
  obtain rfl := Option.some.inj (hcopy.symm.trans hbytes)
  refine ⟨hsound.nameCopy hload hready.fresh, hready.gate, fun _ _ => ?_, nofun⟩
  -- the manifest
  refine secure_heldBind hready.gate fun m₅ hsame hsound r m₆ hnamed => ?_
  have hheld : m₅.gate = some t := hsame.gate.trans hready.gate
  have hfile := congrFun hsame.files
  have hfresh : m₅.files (.manifest id) = none := by
    simpa [hfile, BackupMemory.put_files] using hready.fresh
  rcases hnamed with ⟨rfl, text, hwritten, rfl⟩ | ⟨⟨e, rfl⟩, rfl⟩
  rotate_left
  · exact ⟨hsound, hheld, nofun, fun _ _ => hheld⟩
  obtain rfl : host.encode manifest = text := by
    simpa [hfile, BackupMemory.put_files, htext] using hwritten
  have hbackup : Published host ((m₅.put (.partialManifest id) none).put (.manifest id)
      (some (host.encode manifest))).files id manifest (store.image m₅.db) := by
    rw [show m₅.db = m₃.db from hsame.db]
    refine ⟨hready.named, ?_, ⟨bytes, ?_, hchecksum, hload⟩, hready.schema, ?_, hready.last⟩
    · simp [BackupMemory.put_files]
    · simp [hfile, BackupMemory.put_files]
    · exact ((bindIdentity_existing store.opened).2.sameMode).trans hready.sameMode.symm
  refine ⟨hsound.nameManifest hfresh hready.sameMode hbackup, hheld, fun _ _ => ?_, nofun⟩
  -- the row
  refine secure_held hheld fun m₆ hsame hsound r m₇ hcompleted => ?_
  have hheld : m₆.gate = some t := hsame.gate.trans hheld
  rcases hcompleted with ⟨rfl, now, rfl⟩ | ⟨⟨e, rfl⟩, rfl⟩
  · refine ⟨hsound.complete now ?_, hheld, hheld⟩
    rw [hsame.files, show m₆.db = m₅.db from hsame.db]
    exact hbackup
  · exact ⟨hsound, hheld, hheld⟩

theorem buildManifest_ok {mode : Mode} {createdAt : Time} {checksum : String}
    {size lastSequence : Nat} {schemaVersion : Int} {identity : InstanceMetadata}
    {manifest : BackupManifest}
    (h : buildManifest mode id createdAt checksum size lastSequence schemaVersion identity =
      .ok manifest) :
    manifest.backupId = id ∧ manifest.mode = mode ∧ manifest.schemaVersion = schemaVersion ∧
      manifest.lastEventSequence = lastSequence ∧ manifest.checksumSha256 = checksum := by
  unfold buildManifest at h
  split at h
  · cases h
  · split at h
    · cases h
    · cases h
      exact ⟨rfl, rfl, rfl, rfl, rfl⟩

/-- The copy is made, and no manifest of the backup is there. -/
structure Copied (host : BackupHost Bytes) (store : BackupStore) (t : Nat) (id : Uuid)
    (bytes : Bytes) (m : BackupMemory Bytes) : Prop where
  gate : m.gate = some t
  copy : m.files (.partialDatabase id) = some bytes
  load : host.load bytes = .ok (store.image m.db)
  fresh : m.files (.manifest id) = none

theorem Copied.undisturbed {bytes : Bytes} (h : Copied host store t id bytes m)
    (hsame : m.Undisturbed m') : Copied host store t id bytes m' := by
  obtain ⟨started, rfl⟩ := hsame
  exact ⟨h.gate, h.copy, h.load, h.fresh⟩

/-- The copy is made, checked and described, and then published. -/
theorem writeBackup_secure {createdAt : Time} (hgate : m.gate = some t)
    (hfresh : m.files (.manifest id) = none) :
    BackupSecure host store t id (writeBackup store.config.mode id createdAt)
      (fun _ m => m.gate = some t) m := by
  refine secure_heldBind hgate fun m₁ hsame hsound r m₂ hcopied => ?_
  have hheld : m₁.gate = some t := hsame.gate.trans hgate
  rcases hcopied with ⟨rfl, -, bytes, hload, rfl⟩ | ⟨⟨e, rfl⟩, rfl | ⟨content, rfl⟩⟩
  rotate_left
  · exact ⟨hsound, hheld, nofun, fun _ _ => hheld⟩
  · exact ⟨hsound.put ⟨nofun, nofun⟩, hheld, nofun, fun _ _ => hheld⟩
  refine ⟨hsound.put ⟨nofun, nofun⟩, hheld, fun _ _ => ?_, nofun⟩
  have h : Copied host store t id bytes (m₁.put (.partialDatabase id) (some bytes)) := by
    refine ⟨hheld, ?_, hload, ?_⟩
    · simp [BackupMemory.put_files]
    · exact (BackupMemory.put_of_ne (by simp)).trans ((congrFun hsame.files _).trans hfresh)
  -- what is read of the copy and of the database goes into the manifest
  refine secure_read h.gate (fun hanswer => hanswer) (fun _ _ hsame _ => ?_) fun _ _ hheld => hheld
  replace h := h.undisturbed hsame
  refine secure_read h.gate (fun hanswer => hanswer.1) (fun _ _ hsame _ => ?_)
    fun _ _ hheld => hheld
  replace h := h.undisturbed hsame
  refine secure_read h.gate (fun hanswer => hanswer.1) (fun checksum _ hsame hchecksum => ?_)
    fun _ _ hheld => hheld
  replace h := h.undisturbed hsame
  obtain ⟨bytes', hbytes, rfl⟩ := hchecksum.2 checksum rfl
  obtain rfl := Option.some.inj (h.copy.symm.trans hbytes)
  refine secure_read h.gate (fun hanswer => hanswer.1) (fun size _ hsame _ => ?_)
    fun _ _ hheld => hheld
  replace h := h.undisturbed hsame
  refine secure_read h.gate (fun hanswer => hanswer.1) (fun last _ hsame hlast => ?_)
    fun _ _ hheld => hheld
  replace h := h.undisturbed hsame
  replace hlast := hlast.2 last rfl
  refine secure_read h.gate (fun hanswer => hanswer.1) (fun version m₃ hsame hversion => ?_)
    fun _ _ hheld => hheld
  replace h := h.undisturbed hsame
  replace hlast := hlast.trans (congrArg Db.lastSequence hsame.db.symm)
  replace hversion := hversion.2 version rfl
  refine secure_read h.gate (fun hanswer => hanswer.1) (fun identity m₄ hsame _ => ?_)
    fun _ _ hheld => hheld
  replace h := h.undisturbed hsame
  replace hlast := hlast.trans (congrArg Db.lastSequence hsame.db.symm)
  split
  · exact h.gate
  · rename_i manifest hmanifest
    obtain ⟨hnamed, hmode, hschema, hsequence, hsum⟩ := buildManifest_ok hmanifest
    exact publishBackup_secure ⟨h.gate, ⟨bytes, h.copy, hsum, h.load⟩, h.fresh, hnamed,
      hversion.symm.trans hschema.symm, hmode, hlast.symm.trans hsequence.symm⟩

/-- The whole run, begun before any file of its backup is there. -/
theorem runBackup_secure (hpositive : 0 < store.config.eventRetention)
    (hfresh : ∀ file, file.id = id → m.files file = none) :
    BackupSecure host store t id (runBackup store.config.mode id) (fun _ _ => True) m := by
  refine Prog.secure_run_bind.mpr (secure_ask fun m₁ hrely hsound r m₂ hanswer => ?_)
  obtain ⟨rfl, -⟩ := hanswer
  refine ⟨hsound, Or.inl rfl, ?_⟩
  cases r with
  | error e => trivial
  | ok createdAt =>
    refine Prog.secure_run_bind.mpr (Prog.secure_run_lift.mpr ?_)
    refine (secure_gated fun m₃ hgate hfiles => ?_).mono fun result m₃ _ => ?_
    · refine writeBackup_secure hgate ?_
      exact (hfiles _ rfl).trans ((hrely.2.2 _ rfl).trans (hfresh _ rfl))
    · cases result with
      | ok => trivial
      | error e =>
        refine Prog.secure_run_bind.mpr ((secure_gated fun m₄ hgate _ => ?_).mono ?_)
        · refine secure_held hgate fun m₅ hsame hsound r m₆ hfailed => ?_
          have hheld : m₅.gate = some t := hsame.gate.trans hgate
          rcases hfailed with ⟨rfl, now, rfl⟩ | ⟨⟨e', rfl⟩, rfl⟩
          · exact ⟨hsound.commit hpositive (fun _ => .call (.failBackup id) now nofun) (.fail rfl),
              hheld, hheld⟩
          · exact ⟨hsound, hheld, hheld⟩
        · intro result _ _
          cases result <;> trivial

end Writing

/-! ## Whole runs -/

theorem backupsSound_initial : BackupsSound host store BackupMemory.initial where
  archived := ⟨fun _ => [], .refl, nofun⟩
  manifests := fun _ h => absurd rfl h
  completed := fun _ hb => absurd hb List.not_mem_nil
  kept := fun _ _ hearlier => absurd hearlier List.not_mem_nil

theorem backups_disciplined (hpositive : 0 < store.config.eventRetention) :
    (store.machine host).Disciplined (fun _ _ _ => True) BackupMemory.initial
      (BackupsSound host store) (backupContract host store) where
  start := backupsSound_initial
  inv := fun _ _ => rfl
  refl := fun _ _ a => ⟨fun _ => ⟨a.started, rfl⟩, fun h => h, fun _ _ => rfl⟩
  trans := fun t id a b c hab hbc => by
    refine ⟨fun hgate => ?_, fun hgate => hab.2.1 (hbc.2.1 hgate), fun file hfile =>
      (hbc.2.2 file hfile).trans (hab.2.2 file hfile)⟩
    obtain ⟨started, rfl⟩ := hab.1 hgate
    obtain ⟨started', rfl⟩ := hbc.1 hgate
    exact ⟨started', rfl⟩
  others := fun {p} hp _ {t id made c next} ht {r memory} hanswer hguar {t' thread} hne hother => by
    have heffect := BackupCall.answers_effect hanswer (BackupStore.Reaches.within hp ht)
    refine ⟨fun hheld => ?_, fun hheld => ?_, fun file hfile => heffect.elsewhere ?_⟩
    · rcases hguar with hsame | ⟨hgate, -⟩ | ⟨hfree, -⟩
      · exact ⟨p.memory.started, hsame⟩
      · exact absurd (Option.some.inj (hheld.symm.trans hgate)) hne
      · exact nomatch hheld.symm.trans hfree
    · rcases hguar with rfl | ⟨-, hgate | hfree⟩ | ⟨-, rfl⟩
      · exact hheld
      · exact absurd (Option.some.inj (hheld.symm.trans hgate)) hne
      · exact nomatch hheld.symm.trans hfree
      · exact absurd (Option.some.inj hheld).symm hne
    · -- no other run is of the same backup
      rintro rfl
      exact hne ((BackupStore.Reaches.apart hp).apart t' t thread _ hother ht hfile.symm)
  arrive := fun {p} hp hsound {id memory} harrives => by
    obtain ⟨before, after, hstarted, rfl⟩ := harrives
    have hfresh := (BackupStore.Reaches.apart hp).fresh id (hstarted ▸ by simp)
    exact ⟨hsound.of_files rfl rfl rfl (fun _ => rfl) fun _ => rfl,
      runBackup_secure hpositive hfresh,
      fun _ => ⟨fun _ => ⟨before ++ after, rfl⟩, fun h => h, fun _ _ => rfl⟩⟩
  drop := fun _ _ _ _ _ hdroppable => hdroppable.elim
  surroundings := fun hp hsound memory hchange => by
    obtain ⟨hfiles, -, hgate, hfree⟩ := BackupMemory.Elsewhere.files hchange
    refine ⟨hsound.elsewhere hpositive hchange, fun {t thread} _ => ⟨fun hheld => ?_,
      fun hheld => hgate.symm.trans hheld, fun file _ => congrFun hfiles file⟩⟩
    exact nomatch hheld.symm.trans hfree
  crash := fun _ hsound => hsound.of_files rfl rfl rfl (fun _ => rfl) fun _ => rfl

end OddsfoxExecution
