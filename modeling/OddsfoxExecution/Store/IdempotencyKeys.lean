import OddsfoxExecution.Store.IntentTerms

/-!
# The idempotency keys

A mutation records its key in the transaction of its effect: five operations
append a row, each under a key no row has yet, and nothing updates or deletes
one.  So a key has one row, and the row an accepted mutation left is there in
every later database.
-/

namespace OddsfoxExecution

/-- `PRIMARY KEY(actor_id, idempotency_key)`. -/
def IdempotencyKey.key (row : IdempotencyKey) : String × String := (row.actorId, row.idempotencyKey)

def Idempotency.row (idempotency : Idempotency) (actorId : String) (response : ResponseBody) :
    IdempotencyKey :=
  { actorId, idempotencyKey := idempotency.key
    requestHash := .operation idempotency.operation idempotency.requestBody
    resourceType := idempotency.operation, responseStatus := 202, response }

def IntentRecord.row (record : IntentRecord) (request : OrderIntentRequest) : IdempotencyKey :=
  { actorId := record.actorId, idempotencyKey := record.idempotencyKey
    requestHash := .intent request, resourceType := "intent", responseStatus := 202
    response := .intent record }

/-- The row an operation appends when it answers with a value. -/
def StoreCall.row? (config : StoreConfig) : (call : StoreCall) → call.Value → Option IdempotencyKey
  | admitIntent _ _ request, .created record => some (record.row request)
  | setServiceState actor next _ (some i) _, () => some (i.row actor (.control next config.mode))
  | createCancellation actor _ (some i), (id, targets) =>
    some (i.row actor (.cancellation id targets config.mode))
  | startReconciliation _ (some (actor, i)), id =>
      some (i.row actor (.reconciliation id config.mode))
  | startBackup actor (some i), id => some (i.row actor (.backup id config.mode))
  | _, _ => none

def Db.KeyTaken (db : Db) (key : String × String) : Prop :=
  key ∈ db.idempotencyKeys.map IdempotencyKey.key

/-- A database gains one row, under a key that was free. -/
structure RowAdded (db db' : Db) (row : IdempotencyKey) : Prop where
  free : ¬ db.KeyTaken row.key
  keys : db'.idempotencyKeys = db.idempotencyKeys ++ [row]

/-! ## The transactions that record a key -/

section Operations

variable {db : Db}

theorem recordIdempotency_some {actorId : String} {response : ResponseBody}
    {idempotency : Idempotency} {db' : Db}
    (h : recordIdempotency actorId response db (some idempotency) = .ok db') :
    RowAdded db db' (idempotency.row actorId response) := by
  simp only [recordIdempotency, insertIdempotencyRecord] at h
  split at h
  · cases h
  · rename_i keys hinsert
    cases h
    obtain ⟨hfresh, rfl⟩ := Table.insertNew_eq_some.mp hinsert
    refine ⟨fun htaken => ?_, rfl⟩
    obtain ⟨row, hrow, hkey⟩ := List.mem_map.mp htaken
    exact hfresh row hrow hkey

theorem recordIdempotency_taken {actorId : String} {response : ResponseBody}
    {idempotency : Idempotency} (htaken : db.KeyTaken (actorId, idempotency.key)) :
    recordIdempotency actorId response db (some idempotency) = .error .idempotencyConflict := by
  simp only [recordIdempotency, insertIdempotencyRecord]
  obtain ⟨row, hrow, hkey⟩ := List.mem_map.mp htaken
  split
  · rfl
  · rename_i keys hinsert
    exact absurd hkey ((Table.insertNew_eq_some.mp hinsert).1 row hrow)

/-- What an admission answers: a new intent with its row, or what the row of the key says. -/
theorem admitIntent_ok {actorId key : String} {request : OrderIntentRequest} {now : Time}
    {r : Committed Admission} (h : admitIntent actorId key request now db = .ok r) :
    (∃ record, r.value = .created record ∧ record.actorId = actorId ∧
        record.idempotencyKey = key ∧ record.requestHash = .intent request ∧
        r.db.intents = db.intents ++ [record] ∧ RowAdded db r.db (record.row request)) ∨
      ∃ record, r.value = .existing record ∧ r.db = db ∧
        ∃ row ∈ db.idempotencyKeys, row.key = (actorId, key) ∧ row.resourceType = "intent" ∧
          row.response = .intent record := by
  unfold admitIntent at h
  split at h
  · split at h
    · cases h
    · split at h
      · cases h
      · rename_i row hrow
        split at h
        · rename_i record hresponse
          cases h
          obtain ⟨hmem, hactor, hkey, htype⟩ := find?_mem hrow
          exact Or.inr ⟨record, rfl, rfl, row, hmem, Prod.ext hactor hkey, htype, hresponse⟩
        · cases h
  · split at h
    · cases h
    · dsimp only at h
      split at h
      · cases h
      · rename_i keys hinsert
        cases h
        obtain ⟨hfresh, rfl⟩ := Table.insertNew_eq_some.mp hinsert
        refine Or.inl ⟨_, rfl, rfl, rfl, rfl, rfl, fun htaken => ?_, rfl⟩
        obtain ⟨row, hrow, hkey⟩ := List.mem_map.mp htaken
        exact hfresh row hrow hkey

theorem insertFindings_keys {id : Uuid} {findings : List String} :
    (insertFindings id findings db).idempotencyKeys = db.idempotencyKeys := by
  induction findings generalizing db with
  | nil => rfl
  | cons finding findings ih => exact ih

theorem failInterruptedRuns_keys {now : Time} {ids : List Uuid} :
    (failInterruptedRuns now ids db).1.idempotencyKeys = db.idempotencyKeys := by
  induction ids generalizing db with
  | nil => rfl
  | cons id ids ih => exact ih

theorem failInterruptedBackupRows_keys {ids : List Uuid} :
    (failInterruptedBackupRows ids db).1.idempotencyKeys = db.idempotencyKeys := by
  induction ids generalizing db with
  | nil => rfl
  | cons id ids ih => exact ih

end Operations

/-- A table of keys after a transaction: as it was, or with the row of its value. -/
def KeysAfter (db db' : Db) : Option IdempotencyKey → Prop
  | none => db'.idempotencyKeys = db.idempotencyKeys
  | some row => RowAdded db db' row

theorem KeysAfter.congr {db db' before after : Db} {row : Option IdempotencyKey}
    (h : KeysAfter before after row) (hbefore : before.idempotencyKeys = db.idempotencyKeys)
    (hafter : db'.idempotencyKeys = after.idempotencyKeys) : KeysAfter db db' row := by
  cases row with
  | none => exact hafter.trans (Eq.trans h hbefore)
  | some row =>
    refine ⟨?_, ?_⟩
    · rw [Db.KeyTaken, ← hbefore]
      exact h.free
    · rw [hafter, h.keys, hbefore]

theorem recordIdempotency_keysAfter {actorId : String} {response : ResponseBody}
    {idempotency : Option Idempotency} {db db' : Db}
    (h : recordIdempotency actorId response db idempotency = .ok db') :
    KeysAfter db db' (idempotency.map fun i => i.row actorId response) := by
  cases idempotency with
  | none =>
    cases h
    exact rfl
  | some idempotency => exact recordIdempotency_some h

/-- Every committed transaction appends the row of its value and touches no other. -/
theorem StoreCall.run_keys {config : StoreConfig} {now : Time} {db : Db} {call : StoreCall}
    {r : Committed call.Value} (h : call.run config now db = .ok r) :
    KeysAfter db r.db (call.row? config r.value) := by
  cases hoffice : call.writesOffice with
  | false =>
    have hkeys : r.db.idempotencyKeys = db.idempotencyKeys :=
      congrArg Office.idempotencyKeys (call.run_office h hoffice)
    cases call with
    | admitIntent | setServiceState | createCancellation | startReconciliation | startBackup =>
      cases hoffice
    | _ => exact hkeys
  | true =>
    cases call with
    | admitIntent =>
      rcases admitIntent_ok h with ⟨record, hvalue, -, -, -, -, hadded⟩ | ⟨record, hvalue, hsame, -⟩
      · rw [hvalue]
        exact hadded
      · rw [hvalue]
        exact congrArg Db.idempotencyKeys hsame
    | setServiceState actor next reason idempotency expected =>
      simp only [run, OddsfoxExecution.setServiceState] at h
      split at h
      · cases h
      · split at h
        · cases h
        · rename_i hrecord
          cases h
          cases idempotency <;> exact (recordIdempotency_keysAfter hrecord).congr rfl rfl
    | createCancellation actor request idempotency =>
      simp only [run, OddsfoxExecution.createCancellation] at h
      split at h
      · cases h
      · rename_i hrecord
        cases h
        cases idempotency <;> exact (recordIdempotency_keysAfter hrecord).congr rfl rfl
    | startReconciliation trigger idempotency =>
      simp only [run, OddsfoxExecution.startReconciliation] at h
      split at h
      · cases h
      · rename_i hrecord
        cases h
        cases idempotency <;> exact (recordIdempotency_keysAfter hrecord).congr rfl rfl
    | startBackup actor idempotency =>
      simp only [run, OddsfoxExecution.startBackup] at h
      split at h
      · cases h
      · rename_i hrecord
        cases h
        cases idempotency <;> exact (recordIdempotency_keysAfter hrecord).congr rfl rfl
    | recordVenueTradeFinality =>
      exact congrArg Office.idempotencyKeys (recordVenueTradeFinality_office h)
    | finishCancellation =>
      simp only [run, OddsfoxExecution.finishCancellation] at h
      split at h
      · cases h
      · split at h <;> cases h
        exact rfl
    | failInterruptedReconciliations =>
      cases h
      exact failInterruptedRuns_keys
    | finishReconciliation id findings =>
      simp only [run, OddsfoxExecution.finishReconciliation] at h
      split at h
      · cases h
        exact rfl
      · cases h
        exact @insertFindings_keys (db.closeRun id .complete now) id findings
    | failReconciliation | completeBackup | failBackup =>
      cases h
      exact rfl
    | failInterruptedBackups =>
      cases h
      exact failInterruptedBackupRows_keys
    | _ => cases hoffice

/-! ## How the keys fit the intents -/

/-- The record an operation makes of a mutation other than an intent. -/
def StoreCall.record? : StoreCall → Option Idempotency
  | setServiceState _ _ _ idempotency _ => idempotency
  | createCancellation _ _ idempotency => idempotency
  | startReconciliation _ idempotency => idempotency.map Prod.snd
  | startBackup _ idempotency => idempotency
  | _ => none

def StoreCall.Keyed (call : StoreCall) : Prop := ∀ i ∈ call.record?, i.operation ≠ "intent"

theorem StoreCall.row?_of_record {config : StoreConfig} {call : StoreCall} {value : call.Value}
    {row : IdempotencyKey} (h : call.row? config value = some row)
    (hcall : ∀ actorId key request, call ≠ .admitIntent actorId key request) :
    ∃ i ∈ call.record?, row.requestHash = .operation i.operation i.requestBody ∧
      row.resourceType = i.operation := by
  cases call with
  | admitIntent => exact absurd rfl (hcall _ _ _)
  | setServiceState _ _ _ idempotency =>
    cases idempotency <;> cases h
    exact ⟨_, rfl, rfl, rfl⟩
  | createCancellation _ _ idempotency =>
    cases idempotency <;> cases h
    exact ⟨_, rfl, rfl, rfl⟩
  | startReconciliation _ idempotency =>
    cases idempotency <;> cases h
    exact ⟨_, rfl, rfl, rfl⟩
  | startBackup _ idempotency =>
    cases idempotency <;> cases h
    exact ⟨_, rfl, rfl, rfl⟩
  | _ => cases h

/-- A key has one row, and the intents are the rows that say so. -/
structure Db.KeysKept (db : Db) : Prop where
  distinct : (db.idempotencyKeys.map IdempotencyKey.key).Nodup
  hashed : ∀ row ∈ db.idempotencyKeys,
    row.resourceType = "intent" ↔ ∃ request, row.requestHash = .intent request
  admitted : ∀ row ∈ db.idempotencyKeys, row.resourceType = "intent" →
    ∃ i ∈ db.intents, (i.actorId, i.idempotencyKey) = row.key
  recorded : ∀ i ∈ db.intents, ∃ row ∈ db.idempotencyKeys,
    row.key = (i.actorId, i.idempotencyKey) ∧ row.resourceType = "intent" ∧
      row.requestHash = i.requestHash

namespace Db.KeysKept

variable {db db' : Db}

theorem initial : Db.initial.KeysKept := by
  constructor <;> simp [Db.initial]

/-- Changes of other tables, and of the states of intents, keep the keys. -/
theorem congr (h : db.KeysKept) (hkeys : db'.idempotencyKeys = db.idempotencyKeys)
    (hterms : db'.terms = db.terms) : db'.KeysKept where
  distinct := hkeys ▸ h.distinct
  hashed := hkeys ▸ h.hashed
  admitted := fun row hrow htype => by
    obtain ⟨i, hi, hkey⟩ := h.admitted row (hkeys ▸ hrow) htype
    obtain ⟨i', hi', -, hactor', hkey', -⟩ := Db.exists_of_terms hterms.symm hi
    exact ⟨i', hi', (Prod.ext hactor' hkey').trans hkey⟩
  recorded := fun i' hi' => by
    obtain ⟨i, hi, -, hactor, hkey, hhash, -⟩ := Db.exists_of_terms hterms hi'
    obtain ⟨row, hrow, hrowKey, htype, hrowHash⟩ := h.recorded i hi
    exact ⟨row, hkeys ▸ hrow, hrowKey.trans (Prod.ext hactor hkey), htype, hrowHash.trans hhash⟩

theorem record (h : db.KeysKept) {row : IdempotencyKey} {operation : String} {body : RequestBody}
    (hadded : RowAdded db db' row) (hterms : db'.terms = db.terms)
    (hhash : row.requestHash = .operation operation body) (htype : row.resourceType ≠ "intent") :
    db'.KeysKept := by
  have hkept : ({ db' with idempotencyKeys := db.idempotencyKeys } : Db).KeysKept :=
    h.congr rfl hterms
  have hmem : ∀ {other},
      other ∈ db'.idempotencyKeys ↔ other ∈ db.idempotencyKeys ∨ other = row := by
    simp [hadded.keys]
  refine ⟨?_, fun other hother => ?_, fun other hother hintent => ?_, fun i hi => ?_⟩
  · rw [hadded.keys]
    exact Table.nodup_append_row h.distinct fun other hother heq =>
      hadded.free (heq ▸ List.mem_map_of_mem hother)
  · rcases hmem.mp hother with hother | rfl
    · exact h.hashed other hother
    · refine iff_of_false htype ?_
      rintro ⟨request, hrequest⟩
      cases hhash.symm.trans hrequest
  · rcases hmem.mp hother with hother | rfl
    · exact hkept.admitted other hother hintent
    · exact absurd hintent htype
  · obtain ⟨other, hother, hrest⟩ := hkept.recorded i hi
    exact ⟨other, hmem.mpr (Or.inl hother), hrest⟩

theorem admission (h : db.KeysKept) {record : IntentRecord} {request : OrderIntentRequest}
    (hadded : RowAdded db db' (record.row request))
    (hintents : db'.intents = db.intents ++ [record])
    (hhash : record.requestHash = .intent request) :
    db'.KeysKept := by
  have hmem : ∀ {other}, other ∈ db'.idempotencyKeys ↔
      other ∈ db.idempotencyKeys ∨ other = record.row request := by
    simp [hadded.keys]
  have hintent : ∀ {i}, i ∈ db'.intents ↔ i ∈ db.intents ∨ i = record := by simp [hintents]
  refine ⟨?_, fun other hother => ?_, fun other hother htype => ?_, fun i hi => ?_⟩
  · rw [hadded.keys]
    exact Table.nodup_append_row h.distinct fun other hother heq =>
      hadded.free (heq ▸ List.mem_map_of_mem hother)
  · rcases hmem.mp hother with hother | rfl
    · exact h.hashed other hother
    · exact iff_of_true rfl ⟨request, rfl⟩
  · rcases hmem.mp hother with hother | rfl
    · obtain ⟨i, hi, hkey⟩ := h.admitted other hother htype
      exact ⟨i, hintent.mpr (Or.inl hi), hkey⟩
    · exact ⟨record, hintent.mpr (Or.inr rfl), rfl⟩
  · rcases hintent.mp hi with hi | rfl
    · obtain ⟨other, hother, hrest⟩ := h.recorded i hi
      exact ⟨other, hmem.mpr (Or.inl hother), hrest⟩
    · exact ⟨_, hmem.mpr (Or.inr rfl), rfl, rfl, hhash.symm⟩

theorem run (h : db.KeysKept) {config : StoreConfig} {now : Time} {call : StoreCall}
    (hkeyed : call.Keyed) {r : Committed call.Value} (hrun : call.run config now db = .ok r) :
    r.db.KeysKept := by
  have hafter := StoreCall.run_keys hrun
  by_cases hadmit : ∃ actorId key request, call = .admitIntent actorId key request
  · obtain ⟨actorId, key, request, rfl⟩ := hadmit
    rcases admitIntent_ok hrun with
      ⟨record, -, -, -, hhash, hintents, hadded⟩ | ⟨record, -, hsame, -⟩
    · exact h.admission hadded hintents hhash
    · rw [hsame]
      exact h
  · have hcall : ∀ actorId key request, call ≠ .admitIntent actorId key request :=
      fun actorId key request heq => hadmit ⟨actorId, key, request, heq⟩
    have hterms := StoreCall.run_terms hrun hcall
    cases hrow : call.row? config r.value with
    | none =>
      rw [hrow] at hafter
      exact h.congr hafter hterms
    | some row =>
      rw [hrow] at hafter
      obtain ⟨i, hi, hhash, htype⟩ := StoreCall.row?_of_record hrow hcall
      exact h.record hafter hterms hhash (htype ▸ hkeyed i hi)

theorem after (h : db.KeysKept) {config : StoreConfig} {now : Time} {call : StoreCall}
    (hkeyed : call.Keyed) : (call.after config now db).KeysKept := by
  unfold StoreCall.after
  cases hrun : call.run config now db with
  | error e => exact h
  | ok r => exact h.run hkeyed hrun

theorem row_unique (h : db.KeysKept) {row row' : IdempotencyKey} (hrow : row ∈ db.idempotencyKeys)
    (hrow' : row' ∈ db.idempotencyKeys) (hkey : row.key = row'.key) : row = row' :=
  Table.eq_of_key_eq h.distinct hrow hrow' hkey

end Db.KeysKept

end OddsfoxExecution
