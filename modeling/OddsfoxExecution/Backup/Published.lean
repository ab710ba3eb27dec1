import OddsfoxExecution.Backup.Isolation

/-!
# What backups hold

The write gate is held from the copy to the COMPLETE row, so what a run of a
backup does between is, for the rest of the store, done at one moment.  A
manifest that has its final name describes the copy beside it, a COMPLETE row
names both, and no event is dropped that no such copy has.
-/

namespace OddsfoxExecution

open BackupAction

variable {Bytes : Type} {host : BackupHost Bytes} {store : BackupStore}

/-! ## The invariant -/

/-- The event is in the database, or in the copy of a published backup. -/
def BackupMemory.Saved (host : BackupHost Bytes) (m : BackupMemory Bytes) (e : ExecutionEvent) :
    Prop :=
  e ∈ m.db.executionEvents ∨ ∃ id manifest image,
    Published host m.files id manifest image ∧ e ∈ image.db.executionEvents

/-- What holds of a store and its backup files. -/
structure BackupsSound (host : BackupHost Bytes) (store : BackupStore) (m : BackupMemory Bytes) :
    Prop where
  archived : ∃ copies, RetentionSteps store.config .initial ⟨m.db, copies⟩ ∧
    ∀ id bytes, m.files (.database id) = some bytes →
      ∃ image, host.load bytes = .ok image ∧ copies id = image.db.executionEvents
  manifests : ∀ id, m.files (.manifest id) ≠ none → ∃ manifest image,
    Published host m.files id manifest image ∧ manifest.mode = store.config.mode ∧
      image.db ∈ m.db :: m.past
  completed : ∀ b ∈ m.db.backups, b.state = .complete → ∃ manifest image,
    Published host m.files b.id manifest image ∧
      m.columns b.id = some ⟨.database b.id, .manifest b.id, manifest.checksumSha256⟩ ∧
      b.lastEventSequence = some manifest.lastEventSequence
  kept : store.config.mode = .live → ∀ earlier ∈ m.past, ∀ e ∈ earlier.executionEvents,
    m.Saved host e

theorem Published.of_files {files files' : BackupFile → Option Bytes} {id : Uuid}
    {manifest : BackupManifest} {image : DatabaseImage} (h : Published host files id manifest image)
    (hmanifest : files' (.manifest id) = files (.manifest id))
    (hdatabase : files' (.database id) = files (.database id)) :
    Published host files' id manifest image where
  named := h.named
  text := hmanifest.trans h.text
  copy := by
    obtain ⟨bytes, hcopy, hbytes⟩ := h.copy
    exact ⟨bytes, hdatabase.trans hcopy, hbytes⟩
  schema := h.schema
  mode := h.mode
  last := h.last

namespace BackupsSound

variable {m m' : BackupMemory Bytes}

/-- Files under other names, and the gate, do not matter. -/
theorem of_files (h : BackupsSound host store m) (hdb : m'.db = m.db) (hpast : m'.past = m.past)
    (hcolumns : m'.columns = m.columns)
    (hmanifest : ∀ id, m'.files (.manifest id) = m.files (.manifest id))
    (hdatabase : ∀ id, m'.files (.database id) = m.files (.database id)) :
    BackupsSound host store m' := by
  have hpublished : ∀ {id manifest image}, Published host m.files id manifest image →
      Published host m'.files id manifest image := fun h => h.of_files (hmanifest _) (hdatabase _)
  obtain ⟨copies, hsteps, hcopies⟩ := h.archived
  refine ⟨⟨copies, hdb ▸ hsteps, fun id bytes hbytes => hcopies id bytes (hdatabase id ▸ hbytes)⟩,
    fun id hid => ?_, fun b hb hcomplete => ?_, fun hlive earlier hearlier e he => ?_⟩
  · obtain ⟨manifest, image, hbackup, hmode, hmem⟩ := h.manifests id (hmanifest id ▸ hid)
    exact ⟨manifest, image, hpublished hbackup, hmode, hdb ▸ hpast ▸ hmem⟩
  · obtain ⟨manifest, image, hbackup, hrow⟩ := h.completed b (hdb ▸ hb) hcomplete
    exact ⟨manifest, image, hpublished hbackup, hcolumns ▸ hrow⟩
  · rcases h.kept hlive earlier (hpast ▸ hearlier) e he with hevent | ⟨id, manifest, image, hbackup,
      hevent⟩
    · exact Or.inl (hdb ▸ hevent)
    · exact Or.inr ⟨id, manifest, image, hpublished hbackup, hevent⟩

/-- In live mode a step drops only events that a published backup has. -/
theorem dropped (h : BackupsSound host store m) (hpositive : 0 < store.config.eventRetention)
    (hlive : store.config.mode = .live) {db' : Db}
    (hstep : ∀ copies, RetentionStep store.config ⟨m.db, copies⟩ ⟨db', copies⟩)
    {e : ExecutionEvent} (he : e ∈ m.db.executionEvents) (hdropped : e ∉ db'.executionEvents) :
    ∃ id manifest image, Published host m.files id manifest image ∧
      e ∈ image.db.executionEvents := by
  obtain ⟨copies, hsteps, hcopies⟩ := h.archived
  obtain ⟨b, hb, hcomplete, hcopied⟩ :=
    ((hsteps.retained hpositive).step hpositive (hstep copies)).2 hlive e he hdropped
  obtain ⟨manifest, image, hbackup, -⟩ := h.completed b hb hcomplete
  obtain ⟨bytes, hbytes, -, hload⟩ := hbackup.copy
  obtain ⟨image', hload', hevents⟩ := hcopies b.id bytes hbytes
  cases hload.symm.trans hload'
  exact ⟨b.id, manifest, image, hbackup, hevents ▸ hcopied⟩

theorem commit (h : BackupsSound host store m) (hpositive : 0 < store.config.eventRetention)
    {db' : Db} (hstep : ∀ copies, RetentionStep store.config ⟨m.db, copies⟩ ⟨db', copies⟩)
    (hcompletes : m.db.CompletesNone db') : BackupsSound host store (m.commit db') := by
  obtain ⟨copies, hsteps, hcopies⟩ := h.archived
  refine ⟨⟨copies, hsteps.tail (hstep copies), hcopies⟩, fun id hid => ?_,
    fun b hb hcomplete => h.completed b (hcompletes b hb hcomplete) hcomplete,
    fun hlive earlier hearlier e he => ?_⟩
  · obtain ⟨manifest, image, hbackup, hmode, hmem⟩ := h.manifests id hid
    exact ⟨manifest, image, hbackup, hmode, List.mem_cons_of_mem _ hmem⟩
  · have hsaved : m.Saved host e := by
      rcases List.mem_cons.mp hearlier with rfl | hpast
      · exact Or.inl he
      · exact h.kept hlive earlier hpast e he
    rcases hsaved with hevent | hbackup
    · by_cases hstays : e ∈ db'.executionEvents
      · exact Or.inl hstays
      · exact Or.inr (h.dropped hpositive hlive hstep hevent hstays)
    · exact Or.inr hbackup

theorem nameCopy (h : BackupsSound host store m) {id : Uuid} {bytes : Bytes}
    (hload : host.load bytes = .ok (store.image m.db)) (hfresh : m.files (.manifest id) = none) :
    BackupsSound host store
      ((m.put (.partialDatabase id) none).put (.database id) (some bytes)) := by
  have hfile : ∀ {id'}, id' ≠ id → ((m.put (.partialDatabase id) none).put (.database id)
      (some bytes)).files (.database id') = m.files (.database id') := fun hne =>
    (BackupMemory.put_of_ne (by simpa using hne)).trans (BackupMemory.put_of_ne nofun)
  have hother : ∀ {id' manifest image}, Published host m.files id' manifest image →
      Published host ((m.put (.partialDatabase id) none).put (.database id) (some bytes)).files id'
        manifest image := by
    intro id' manifest image hbackup
    have hne : id' ≠ id := by
      rintro rfl
      exact nomatch hbackup.text.symm.trans hfresh
    exact hbackup.of_files rfl (hfile hne)
  obtain ⟨copies, hsteps, hcopies⟩ := h.archived
  refine ⟨⟨(Archive.copy ⟨m.db, copies⟩ id).copies, hsteps.tail (.copy id), ?_⟩, ?_, ?_, ?_⟩
  · intro id' bytes' hbytes
    by_cases hid : id' = id
    · subst hid
      simp only [BackupMemory.put, Function.update_self, Option.some.injEq] at hbytes
      subst hbytes
      exact ⟨_, hload, Function.update_self _ _ _⟩
    · rw [hfile hid] at hbytes
      obtain ⟨image, hload', hevents⟩ := hcopies id' bytes' hbytes
      exact ⟨image, hload', (Function.update_of_ne hid _ _).trans hevents⟩
  · intro id' hid
    obtain ⟨manifest, image, hbackup, hrest⟩ := h.manifests id' hid
    exact ⟨manifest, image, hother hbackup, hrest⟩
  · intro b hb hcomplete
    obtain ⟨manifest, image, hbackup, hrow⟩ := h.completed b hb hcomplete
    exact ⟨manifest, image, hother hbackup, hrow⟩
  · intro hlive earlier hearlier e he
    rcases h.kept hlive earlier hearlier e he with hevent | ⟨id', manifest, image, hbackup, hevent⟩
    · exact Or.inl hevent
    · exact Or.inr ⟨id', manifest, image, hother hbackup, hevent⟩

theorem nameManifest (h : BackupsSound host store m) {id : Uuid} {manifest : BackupManifest}
    (hfresh : m.files (.manifest id) = none) (hmode : manifest.mode = store.config.mode)
    (hbackup : Published host ((m.put (.partialManifest id) none).put (.manifest id)
      (some (host.encode manifest))).files id manifest (store.image m.db)) :
    BackupsSound host store ((m.put (.partialManifest id) none).put (.manifest id)
      (some (host.encode manifest))) := by
  have hfile : ∀ {id'}, id' ≠ id → ((m.put (.partialManifest id) none).put (.manifest id)
      (some (host.encode manifest))).files (.manifest id') = m.files (.manifest id') := fun hne =>
    (BackupMemory.put_of_ne (by simpa using hne)).trans (BackupMemory.put_of_ne nofun)
  have hother : ∀ {id' manifest' image}, Published host m.files id' manifest' image →
      Published host ((m.put (.partialManifest id) none).put (.manifest id)
        (some (host.encode manifest))).files id' manifest' image := by
    intro id' manifest' image hpublished
    have hne : id' ≠ id := by
      rintro rfl
      exact nomatch hpublished.text.symm.trans hfresh
    exact hpublished.of_files (hfile hne) rfl
  refine ⟨h.archived, fun id' hid => ?_, fun b hb hcomplete => ?_, fun hlive earlier hearlier e he
    => ?_⟩
  · by_cases hsame : id' = id
    · subst hsame
      exact ⟨manifest, _, hbackup, hmode, List.mem_cons_self⟩
    · rw [hfile hsame] at hid
      obtain ⟨manifest', image, hpublished, hrest⟩ := h.manifests id' hid
      exact ⟨manifest', image, hother hpublished, hrest⟩
  · obtain ⟨manifest', image, hpublished, hrow⟩ := h.completed b hb hcomplete
    exact ⟨manifest', image, hother hpublished, hrow⟩
  · rcases h.kept hlive earlier hearlier e he with hevent | ⟨id', manifest', image, hpublished,
      hevent⟩
    · exact Or.inl hevent
    · exact Or.inr ⟨id', manifest', image, hother hpublished, hevent⟩

/-- The row of a published backup of this very moment becomes COMPLETE. -/
theorem complete (h : BackupsSound host store m) {id : Uuid} {manifest : BackupManifest}
    (now : Time) (hbackup : Published host m.files id manifest (store.image m.db)) :
    BackupsSound host store
      { m.commit ((StoreCall.completeBackup id manifest.lastEventSequence).after store.config now
          m.db) with
        columns := Function.update m.columns id
          (some ⟨.database id, .manifest id, manifest.checksumSha256⟩) } := by
  obtain ⟨copies, hsteps, hcopies⟩ := h.archived
  have hlast : m.db.lastSequence = manifest.lastEventSequence := hbackup.last
  rw [← hlast]
  have hstep : ∀ copies, RetentionStep store.config ⟨m.db, copies⟩
      ⟨(StoreCall.completeBackup id m.db.lastSequence).after store.config now m.db,
        (Archive.copy ⟨m.db, copies⟩ id).copies⟩ := fun copies => .backup id now
  refine ⟨⟨_, hsteps.tail (hstep copies), fun id' bytes hbytes => ?_⟩, fun id' hid => ?_,
    fun b hb hcomplete => ?_, fun hlive earlier hearlier e he => ?_⟩
  · by_cases hid : id' = id
    · subst hid
      obtain ⟨bytes', hbytes', -, hload⟩ := hbackup.copy
      cases Option.some.inj (hbytes.symm.trans hbytes')
      exact ⟨_, hload, Function.update_self _ _ _⟩
    · obtain ⟨image, hload, hevents⟩ := hcopies id' bytes hbytes
      exact ⟨image, hload, (Function.update_of_ne hid _ _).trans hevents⟩
  · obtain ⟨manifest', image, hpublished, hmode, hmem⟩ := h.manifests id' hid
    exact ⟨manifest', image, hpublished, hmode, List.mem_cons_of_mem _ hmem⟩
  · obtain ⟨old, hold, rfl⟩ := Table.mem_updateWhere.mp hb
    by_cases hid : old.id = id
    · rw [if_pos hid]
      exact ⟨manifest, _, hid ▸ hbackup, hid ▸ Function.update_self _ _ _, congrArg some hlast⟩
    · rw [if_neg hid] at hcomplete ⊢
      obtain ⟨manifest', image, hpublished, hcolumns, hrow⟩ := h.completed old hold hcomplete
      exact ⟨manifest', image, hpublished, (Function.update_of_ne hid _ _).trans hcolumns, hrow⟩
  · -- the transaction only appends an event
    have hevents : ∀ e ∈ m.db.executionEvents, e ∈
        ((StoreCall.completeBackup id m.db.lastSequence).after store.config now
          m.db).executionEvents := fun e he => List.mem_append_left _ he
    rcases List.mem_cons.mp hearlier with rfl | hpast
    · exact Or.inl (hevents e he)
    · rcases h.kept hlive earlier hpast e he with hevent | hpublished
      · exact Or.inl (hevents e hevent)
      · exact Or.inr hpublished

theorem elsewhere (h : BackupsSound host store m) (hpositive : 0 < store.config.eventRetention)
    (hchange : m.Elsewhere store m') : BackupsSound host store m' := by
  have hcall : ∀ (call : StoreCall) now, call.endsBackup = false →
      BackupsSound host store (m.commit (call.after store.config now m.db)) := by
    intro call now hends
    have hnone : ∀ id last, call ≠ .completeBackup id last := by
      rintro id last rfl
      cases hends
    refine h.commit hpositive (fun copies => .call call now hnone) ?_
    unfold StoreCall.after
    cases hrun : call.run store.config now m.db with
    | error e => exact .of_eq rfl
    | ok r => exact StoreCall.run_completesNone hrun hnone
  cases hchange with
  | call call now hgate hends => exact hcall call now hends
  | start actor idempotency now id =>
    exact (hcall (.startBackup actor idempotency) now rfl).of_files rfl rfl rfl (fun _ => rfl)
      fun _ => rfl
  | paper op now =>
    refine h.commit hpositive (fun copies => .paper op now) ?_
    unfold PaperOp.after leaves
    split
    · exact .of_eq (PaperOp.run_announces ‹_›).backups
    · exact .of_eq rfl
  | openAccount account =>
    refine h.commit hpositive (fun copies => .openAccount account) ?_
    unfold leaves
    split
    · exact .of_eq (initializePaperAccount_announces ‹_›).backups
    · exact .of_eq rfl

end BackupsSound

end OddsfoxExecution
