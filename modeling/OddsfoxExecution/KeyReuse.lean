import OddsfoxExecution.Api.Requests
import OddsfoxExecution.Coordinator.Schedule

/-!
# Reuse of an idempotency key

A mutation that meets its key in use for another request answers 409 and
changes nothing, with two exceptions: an intent does not see the row of another
operation, and a cancellation, halt, resume or reconciliation that loses the key
between its lookup and its own record answers 503.
-/

namespace OddsfoxExecution

/-! ## What the lookups answer -/

namespace Db.KeysKept

variable {db : Db} {row : IdempotencyKey} {actorId key : String}

theorem find_key (h : db.KeysKept) (hrow : row ∈ db.idempotencyKeys)
    (hkey : row.key = (actorId, key)) {p : IdempotencyKey → Prop} [DecidablePred p]
    (hp : p row) (hsub : ∀ other, p other → other.actorId = actorId ∧ other.idempotencyKey = key) :
    db.idempotencyKeys.find? (fun other => decide (p other)) = some row := by
  cases hfind : db.idempotencyKeys.find? fun other => decide (p other) with
  | none => exact absurd (decide_eq_true hp) (List.find?_eq_none.mp hfind row hrow)
  | some found =>
    obtain ⟨hmem, hfound⟩ := find?_mem hfind
    obtain ⟨hactor, hother⟩ := hsub found hfound
    rw [h.row_unique hmem hrow (hkey ▸ Prod.ext hactor hother)]

/-- A lookup by operation and body sees any other use of the key. -/
theorem idempotentResponse_taken (h : db.KeysKept) (hrow : row ∈ db.idempotencyKeys)
    (hkey : row.key = (actorId, key)) {operation : String} {body : RequestBody}
    (hhash : row.requestHash ≠ .operation operation body) :
    idempotentResponse actorId key operation body db = .error .idempotencyConflict := by
  obtain ⟨hactor, hother⟩ := Prod.mk.inj hkey
  unfold idempotentResponse
  rw [h.find_key hrow hkey ⟨hactor, hother⟩ fun _ => id]
  exact if_pos (Or.inl hhash)

theorem idempotentResponse_free (hfree : ¬ db.KeyTaken (actorId, key)) {operation : String}
    {body : RequestBody} : idempotentResponse actorId key operation body db = .ok none := by
  unfold idempotentResponse
  split
  · rfl
  · rename_i found hfind
    obtain ⟨hmem, hactor, hother⟩ := find?_mem hfind
    exact absurd (List.mem_map.mpr ⟨found, hmem, Prod.ext hactor hother⟩) hfree

/-- The lookup of an intent sees the other uses of the key that are intents. -/
theorem replayIntent_taken (h : db.KeysKept) (hrow : row ∈ db.idempotencyKeys)
    (hkey : row.key = (actorId, key)) (htype : row.resourceType = "intent")
    {request : OrderIntentRequest} (hhash : row.requestHash ≠ .intent request) :
    replayIntent actorId key request db = .error .idempotencyConflict := by
  obtain ⟨hactor, hother⟩ := Prod.mk.inj hkey
  unfold replayIntent
  rw [h.find_key hrow hkey ⟨hactor, hother, htype⟩ fun _ hp => ⟨hp.1, hp.2.1⟩]
  exact if_pos hhash

theorem replayIntent_other (h : db.KeysKept) (hrow : row ∈ db.idempotencyKeys)
    (hkey : row.key = (actorId, key)) (htype : row.resourceType ≠ "intent")
    {request : OrderIntentRequest} : replayIntent actorId key request db = .ok none := by
  unfold replayIntent
  split
  · rfl
  · rename_i found hfind
    obtain ⟨hmem, hactor, hother, hintent⟩ := find?_mem hfind
    rw [h.row_unique hmem hrow (hkey ▸ Prod.ext hactor hother)] at hintent
    exact absurd hintent htype

/-- An admission under a key that is another intent's is refused as a conflict. -/
theorem admitIntent_taken (h : db.KeysKept) (hrow : row ∈ db.idempotencyKeys)
    (hkey : row.key = (actorId, key)) (htype : row.resourceType = "intent")
    {request : OrderIntentRequest} (hhash : row.requestHash ≠ .intent request) {now : Time} :
    admitIntent actorId key request now db = .error .idempotencyConflict := by
  obtain ⟨i, hi, hkeyOf⟩ := h.admitted row hrow htype
  obtain ⟨hactor, hother⟩ := Prod.mk.inj (hkeyOf.trans hkey)
  unfold admitIntent
  split
  · rename_i existing hfind
    obtain ⟨hmem, hactor', hother'⟩ := find?_mem hfind
    obtain ⟨row', hrow', hkey', -, hhash'⟩ := h.recorded existing hmem
    rw [h.row_unique hrow' hrow
      (hkey'.trans ((Prod.ext hactor' hother').trans hkey.symm))] at hhash'
    exact if_pos (hhash' ▸ hhash)
  · rename_i hnone
    exact absurd (decide_eq_true ⟨hactor, hother⟩) (List.find?_eq_none.mp hnone i hi)

/-- An admission under a key of another operation fails, and not as a conflict. -/
theorem admitIntent_other (h : db.KeysKept) (hrow : row ∈ db.idempotencyKeys)
    (hkey : row.key = (actorId, key)) (htype : row.resourceType ≠ "intent")
    {request : OrderIntentRequest} {now : Time} :
    ∃ e, admitIntent actorId key request now db = .error e ∧ e ≠ .idempotencyConflict := by
  unfold admitIntent
  split
  · rename_i existing hfind
    obtain ⟨hmem, hactor, hother⟩ := find?_mem hfind
    obtain ⟨row', hrow', hkey', htype', -⟩ := h.recorded existing hmem
    rw [h.row_unique hrow' hrow (hkey'.trans ((Prod.ext hactor hother).trans hkey.symm))] at htype'
    exact absurd htype' htype
  · split
    · exact ⟨_, rfl, fun h => (by cases h)⟩
    · dsimp only
      split
      · exact ⟨_, rfl, fun h => (by cases h)⟩
      · rename_i hinsert
        exact absurd hkey ((Table.insertNew_eq_some.mp hinsert).1 row hrow)

end Db.KeysKept

theorem startBackup_taken {mode : Mode} {actorId : String} {idempotency : Idempotency} {db : Db}
    (htaken : db.KeyTaken (actorId, idempotency.key)) :
    startBackup mode actorId (some idempotency) db = .error .idempotencyConflict := by
  unfold startBackup
  dsimp only
  rw [recordIdempotency_taken]
  exact htaken

/-! ## The handlers as they are told -/

variable {self : Coordinator} {config : StoreConfig} {limits : Limits} {actorId key : String}
  {log : List (Memory × Sigma Call.Answer)} {answer : Except ApiError ApiResponse}

theorem told_ofExcept {α : Type} {x : Except ApiError α} {f : α → ApiAction ApiResponse}
    (h : (ApiAction.ofExcept x >>= f).run.Told log answer) :
    (∃ e, x = .error e ∧ log = [] ∧ answer = .error e) ∨
      ∃ a, x = .ok a ∧ (f a).run.Told log answer := by
  cases x with
  | error e =>
    obtain ⟨hlog, hanswer⟩ := Prog.Told.pure h
    exact Or.inl ⟨e, rfl, hlog, hanswer⟩
  | ok a => exact Or.inr ⟨a, rfl, h⟩

theorem told_perform {c : Call} {f : c.Answer → ApiAction ApiResponse}
    (h : (ApiAction.perform c >>= f).run.Told log answer) :
    ∃ found r rest, log = (found, ⟨c, r⟩) :: rest ∧ (f r).run.Told rest answer :=
  Prog.Told.call h

theorem told_store {call : StoreCall} {f : call.Value → ApiAction ApiResponse}
    (h : (ApiAction.store call >>= f).run.Told log answer) :
    ∃ found rest, (∃ e, log = (found, ⟨.store call, Except.error e⟩) :: rest ∧ rest = [] ∧
        answer = .error (.ofStore e)) ∨
      ∃ value, log = (found, ⟨.store call, Except.ok value⟩) :: rest ∧
        (f value).run.Told rest answer := by
  obtain ⟨found, r, rest, rfl, hrest⟩ := Prog.Told.call h
  refine ⟨found, rest, ?_⟩
  cases r with
  | error e =>
    obtain ⟨hlog, hanswer⟩ := Prog.Told.pure hrest
    exact Or.inl ⟨e, rfl, hlog, hanswer⟩
  | ok value => exact Or.inr ⟨value, rfl, hrest⟩

/-- A mutation made by the coordinator never answers with a conflict. -/
theorem told_coordinator {α : Type} {x : Action α} {f : α → ApiAction ApiResponse}
    (h : (ApiAction.coordinator x >>= f).run.Told log answer)
    (hf : ∀ a, ∀ rest : List (Memory × Sigma Call.Answer), (f a).run.Told rest answer →
      answer ≠ .error .conflict) : answer ≠ .error .conflict := by
  rcases Prog.Told.run_bind h with ⟨e, hx, rfl⟩ | ⟨_, a, rest, -, hrest, -⟩
  · rcases Prog.Told.run_bind hx with ⟨e', hlift, -⟩ | ⟨_, result, _, -, hresult, -⟩
    · obtain ⟨_, -, heq⟩ := hlift.run_lift
      cases heq
    · cases result with
      | ok a => cases (Prog.Told.pure hresult).2
      | error e' =>
        cases (Prog.Told.pure hresult).2
        exact fun heq => ApiError.ofCoordinator_ne_conflict (Except.error.inj heq)
  · exact hf a rest hrest

theorem rateLimited_ne_conflict : rateLimited ≠ .conflict := by decide

/-- A handler looks its key up, and goes on when nothing is replayed. -/
theorem told_orReplay {operation : String} {body : RequestBody} {mutation : ApiAction ApiResponse}
    (h : (orReplay actorId key operation body mutation).run.Told log answer) :
    ∃ found r rest,
      log = (found, ⟨.store (.idempotentResponse actorId key operation body), r⟩) :: rest ∧
        ((∃ e, r = .error e ∧ rest = [] ∧ answer = .error (.ofStore e)) ∨
          (∃ response, r = .ok (some response) ∧ rest = [] ∧ answer ≠ .error .conflict) ∨
          r = .ok none ∧ mutation.run.Told rest answer) := by
  obtain ⟨found, r, rest, rfl, hrest⟩ := Prog.Told.call h
  refine ⟨found, r, rest, rfl, ?_⟩
  rcases r with e | _ | ⟨status, body⟩
  · obtain ⟨hlog, hanswer⟩ := Prog.Told.pure hrest
    exact Or.inl ⟨e, rfl, hlog, hanswer⟩
  · exact Or.inr (Or.inr ⟨rfl, hrest⟩)
  · refine Or.inr (Or.inl ⟨_, rfl, ?_⟩)
    change (Prog.bind (ExceptT.run (if 100 ≤ status ∧ status < 1000 then
        (pure (some (status, body)) : ApiAction (Option ApiResponse)) else throw _)) _).Told
      rest answer at hrest
    split at hrest
    · obtain ⟨hlog, rfl⟩ := Prog.Told.pure hrest
      exact ⟨hlog, fun h => nomatch h⟩
    · obtain ⟨hlog, rfl⟩ := Prog.Told.pure hrest
      exact ⟨hlog, by decide⟩

/-- The calls of a backup after its lookup: the record at most, whose failure is the answer. -/
def BackupRecorded (actorId key : String) (rest : List (Memory × Sigma Call.Answer))
    (answer : Except ApiError ApiResponse) : Prop :=
  rest = [] ∨ ∃ found r,
    rest = [(found, ⟨.store (.startBackup actorId (some ⟨key, "backup", .empty⟩)), r⟩)] ∧
      ∀ e, r = .error e → answer = .error (.ofStore e)

/-- A handler other than `submit_intent` has looked its key up: a conflict comes from that, or
from a backup's record. -/
def LookedUp (m : Mutation) (actorId key : String) (log : List (Memory × Sigma Call.Answer))
    (answer : Except ApiError ApiResponse) : Prop :=
  ∃ operation body found r rest, m.requestHash = .operation operation body ∧
    log = (found, ⟨.store (.idempotentResponse actorId key operation body), r⟩) :: rest ∧
      ((∃ e, r = .error e ∧ rest = [] ∧ answer = .error (.ofStore e)) ∨
        (∃ response, r = .ok (some response) ∧ rest = [] ∧ answer ≠ .error .conflict) ∨
        r = .ok none ∧ (m ≠ .backup ∧ answer ≠ .error .conflict ∨
          m = .backup ∧ BackupRecorded actorId key rest answer))

theorem LookedUp.of_orReplay {m : Mutation} {operation : String} {body : RequestBody}
    {mutation : ApiAction ApiResponse} (hhash : m.requestHash = .operation operation body)
    (h : (orReplay actorId key operation body mutation).run.Told log answer)
    (hmutation : ∀ rest : List (Memory × Sigma Call.Answer), mutation.run.Told rest answer →
      m ≠ .backup ∧ answer ≠ .error .conflict ∨
        m = .backup ∧ BackupRecorded actorId key rest answer) :
    LookedUp m actorId key log answer := by
  obtain ⟨found, r, rest, hlog, hcases⟩ := told_orReplay h
  exact ⟨operation, body, found, r, rest, hhash, hlog, hcases.imp_right
    (Or.imp_right fun hfresh => ⟨hfresh.1, hmutation rest hfresh.2⟩)⟩

theorem pure_ne_conflict {response : ApiResponse}
    (h : (pure response : ApiAction ApiResponse).run.Told log answer) :
    answer ≠ .error .conflict := by
  obtain ⟨-, rfl⟩ := Prog.Told.pure h
  exact fun heq => nomatch heq

theorem performPure_ne_conflict {c : Call} {f : c.Answer → ApiResponse}
    (h : (ApiAction.perform c >>= fun r => pure (f r) : ApiAction ApiResponse).run.Told log
      answer) : answer ≠ .error .conflict := by
  obtain ⟨_, _, _, -, hrest⟩ := told_perform h
  exact pure_ne_conflict hrest

theorem told_reserveOperation {next : ApiAction ApiResponse}
    (h : (reserveOperation limits >>= fun _ => next).run.Told log answer) :
    (log = [] ∧ answer ≠ .error .conflict) ∨ next.run.Told log answer := by
  unfold reserveOperation at h
  split at h
  · exact Or.inr h
  · obtain ⟨hlog, rfl⟩ := Prog.Told.pure h
    exact Or.inl ⟨hlog, fun heq => ApiError.ofCoordinator_ne_conflict (Except.error.inj heq)⟩

theorem told_enforceAdmissionRate {next : ApiAction ApiResponse}
    (h : (enforceAdmissionRate limits >>= fun _ => next).run.Told log answer) :
    (log = [] ∧ answer ≠ .error .conflict) ∨ next.run.Told log answer := by
  unfold enforceAdmissionRate at h
  split at h
  · exact Or.inr h
  · obtain ⟨hlog, rfl⟩ := Prog.Told.pure h
    exact Or.inl ⟨hlog, fun heq => rateLimited_ne_conflict (Except.error.inj heq)⟩

theorem told_operation {m : Mutation} (hm : m.isIntent = false)
    (h : (m.handle self config limits actorId (some key)).run.Told log answer) :
    log = [] ∨ LookedUp m actorId key log answer := by
  cases m with
  | intent => cases hm
  | cancellation request =>
    rcases told_ofExcept h with ⟨_, -, hlog, -⟩ | ⟨k, hkey, h⟩
    · exact Or.inl hlog
    cases idempotencyKey_ok hkey
    refine Or.inr (.of_orReplay rfl h fun rest hrest => Or.inl ⟨fun h => (nomatch h), ?_⟩)
    rcases told_enforceAdmissionRate hrest with ⟨-, hne⟩ | hrest
    · exact hne
    rcases told_reserveOperation hrest with ⟨-, hne⟩ | hrest
    · exact hne
    exact told_coordinator hrest fun _ _ hrest => performPure_ne_conflict hrest
  | halt reason | resume reason =>
    rcases told_ofExcept h with ⟨_, -, hlog, -⟩ | ⟨k, hkey, h⟩
    · exact Or.inl hlog
    cases idempotencyKey_ok hkey
    rcases told_ofExcept h with ⟨_, -, hlog, -⟩ | ⟨_, -, h⟩
    · exact Or.inl hlog
    refine Or.inr (.of_orReplay rfl h fun rest hrest => Or.inl ⟨fun h => (nomatch h), ?_⟩)
    rcases told_enforceAdmissionRate hrest with ⟨-, hne⟩ | hrest
    · exact hne
    exact told_coordinator hrest fun _ _ hrest => pure_ne_conflict hrest
  | reconciliation =>
    rcases told_ofExcept h with ⟨_, -, hlog, -⟩ | ⟨k, hkey, h⟩
    · exact Or.inl hlog
    cases idempotencyKey_ok hkey
    refine Or.inr (.of_orReplay rfl h fun rest hrest => Or.inl ⟨fun h => (nomatch h), ?_⟩)
    rcases told_enforceAdmissionRate hrest with ⟨-, hne⟩ | hrest
    · exact hne
    rcases told_reserveOperation hrest with ⟨-, hne⟩ | hrest
    · exact hne
    exact told_coordinator hrest fun _ _ hrest => performPure_ne_conflict hrest
  | backup =>
    rcases told_ofExcept h with ⟨_, -, hlog, -⟩ | ⟨k, hkey, h⟩
    · exact Or.inl hlog
    cases idempotencyKey_ok hkey
    refine Or.inr (.of_orReplay rfl h fun rest hrest => Or.inr ⟨rfl, ?_⟩)
    rcases told_enforceAdmissionRate hrest with ⟨rfl, -⟩ | hrest
    · exact Or.inl rfl
    rcases told_reserveOperation hrest with ⟨rfl, -⟩ | hrest
    · exact Or.inl rfl
    rcases told_store hrest with ⟨found, rest', ⟨e, rfl, rfl, rfl⟩ | ⟨id, rfl, hpure⟩⟩
    · exact Or.inr ⟨found, _, rfl, by rintro _ ⟨⟩; rfl⟩
    · obtain ⟨rfl, -⟩ := Prog.Told.pure hpure
      exact Or.inr ⟨found, _, rfl, by rintro _ ⟨⟩⟩

/-- The calls of a submission after its lookup: it reserves a slot of the queue, is refused, and
drops the slot. -/
def AdmissionRefused (actorId key : String) (request : OrderIntentRequest)
    (rest : List (Memory × Sigma Call.Answer)) (answer : Except ApiError ApiResponse) : Prop :=
  ∃ found₁ found₂ found₃ e, rest = [(found₁, ⟨.reserveQueue, true⟩),
    (found₂, ⟨.store (.admitIntent actorId key request), Except.error e⟩),
    (found₃, ⟨.dropPermit, ()⟩)] ∧ answer = .error (.ofStore e)

/-- `submit_intent` has looked its key up: a conflict comes from that, or from the admission. -/
def IntentLookedUp (request : OrderIntentRequest) (actorId key : String)
    (log : List (Memory × Sigma Call.Answer)) (answer : Except ApiError ApiResponse) : Prop :=
  ∃ found r rest, log = (found, ⟨.store (.replayIntent actorId key request), r⟩) :: rest ∧
    ((∃ e, r = .error e ∧ rest = [] ∧ answer = .error (.ofStore e)) ∨
      (∃ record, r = .ok (some record) ∧ rest = [] ∧ answer ≠ .error .conflict) ∨
      r = .ok none ∧ (AdmissionRefused actorId key request rest answer ∨
        answer ≠ .error .conflict ∧ ∀ found call r', (found, ⟨.store call, r'⟩) ∈ rest →
          ∃ value, (⟨.store call, r'⟩ : Sigma Call.Answer) =
            done (.admitIntent actorId key request) value))

theorem told_intent {request : OrderIntentRequest}
    (h : ((Mutation.intent request).handle self config limits actorId (some key)).run.Told log
      answer) : log = [] ∨ IntentLookedUp request actorId key log answer := by
  rcases told_ofExcept h with ⟨_, -, hlog, -⟩ | ⟨k, hkey, h⟩
  · exact Or.inl hlog
  cases idempotencyKey_ok hkey
  obtain ⟨found, r, rest, rfl, hrest⟩ := Prog.Told.call h
  refine Or.inr ⟨found, r, rest, rfl, ?_⟩
  rcases r with e | _ | record
  · obtain ⟨hlog, hanswer⟩ := Prog.Told.pure hrest
    exact Or.inl ⟨e, rfl, hlog, hanswer⟩
  · refine Or.inr (Or.inr ⟨rfl, ?_⟩)
    have hadmission : (enforceAdmissionRate limits >>= fun _ => _ : ApiAction ApiResponse).run.Told
      rest answer := hrest
    rcases told_enforceAdmissionRate hadmission with ⟨rfl, hne⟩ | hadmission
    · exact Or.inr ⟨hne, fun _ _ _ hmem => nomatch hmem⟩
    obtain ⟨found₁, reserved, rest₁, rfl, hreserved⟩ := Prog.Told.call hadmission
    cases reserved with
    | false =>
      obtain ⟨rfl, rfl⟩ := Prog.Told.pure hreserved
      refine Or.inr ⟨fun heq => ?_, fun found call r' hmem => ?_⟩
      · exact ApiError.ofCoordinator_ne_conflict (Except.error.inj heq)
      · cases List.mem_singleton.mp hmem
    | true =>
      obtain ⟨found₂, admission, rest₂, rfl, hadmitted⟩ := Prog.Told.call hreserved
      rcases admission with e | record | record
      · obtain ⟨found₃, _, rest₃, rfl, hdropped⟩ := Prog.Told.call hadmitted
        obtain ⟨rfl, rfl⟩ := Prog.Told.pure hdropped
        exact Or.inl ⟨found₁, found₂, found₃, e, rfl, rfl⟩
      · obtain ⟨found₃, _, rest₃, rfl, hsent⟩ := Prog.Told.call hadmitted
        obtain ⟨rfl, rfl⟩ := Prog.Told.pure hsent
        refine Or.inr ⟨fun heq => (nomatch heq), fun found call r' hmem => ?_⟩
        obtain ⟨-, heq⟩ : found = found₂ ∧ (⟨.store call, r'⟩ : Sigma Call.Answer) =
          done (.admitIntent actorId key request) (.created record) := by simpa [done] using hmem
        exact ⟨_, heq⟩
      · obtain ⟨found₃, _, rest₃, rfl, hdropped⟩ := Prog.Told.call hadmitted
        obtain ⟨rfl, rfl⟩ := Prog.Told.pure hdropped
        refine Or.inr ⟨fun heq => (nomatch heq), fun found call r' hmem => ?_⟩
        obtain ⟨-, heq⟩ : found = found₂ ∧ (⟨.store call, r'⟩ : Sigma Call.Answer) =
          done (.admitIntent actorId key request) (.existing record) := by simpa [done] using hmem
        exact ⟨_, heq⟩
  · obtain ⟨hlog, rfl⟩ := Prog.Told.pure hrest
    exact Or.inr (Or.inl ⟨_, rfl, hlog, fun heq => nomatch heq⟩)

/-! ## A request that meets its key in use -/

def StoreCall.Consults (key : String × String) : StoreCall → Prop
  | replayIntent actorId k _ | idempotentResponse actorId k _ _ | admitIntent actorId k _ =>
    (actorId, k) = key
  | setServiceState actor _ _ (some i) _ | createCancellation actor _ (some i)
  | startReconciliation _ (some (actor, i)) | startBackup actor (some i) => (actor, i.key) = key
  | _ => False

def Looks (key : String × String) (e : CallEvent) : Prop :=
  ∃ call r, e.entry = ⟨.store call, r⟩ ∧ call.Consults key

def Unchanging (config : StoreConfig) (e : CallEvent) : Prop :=
  ∀ call now r, e.entry = ⟨.store call, r⟩ → r = call.answer config now e.found.db →
    call.after config now e.found.db = e.found.db

theorem unchanging_of_error {e : CallEvent} {call : StoreCall} {error : StoreError}
    (h : e.entry = ⟨.store call, Except.error error⟩) : Unchanging config e := by
  rintro call' now r hentry hanswer
  cases h.symm.trans hentry
  unfold StoreCall.answer at hanswer
  unfold StoreCall.after
  cases hrun : call.run config now e.found.db with
  | error => rfl
  | ok r =>
    rw [hrun] at hanswer
    cases hanswer

theorem unchanging_of_other {e : CallEvent} (h : ∀ call, e.entry.1 ≠ .store call) :
    Unchanging config e := fun call _ _ hentry _ =>
  absurd (congrArg Sigma.fst hentry) (h call)

theorem unchanging_of_lookup {e : CallEvent} {call : StoreCall} {r : call.Response}
    (h : e.entry = ⟨.store call, r⟩)
    (hquery : ∀ now db r, call.run config now db = .ok r → r.db = db) :
    Unchanging config e := by
  rintro call' now _ hentry -
  cases h.symm.trans hentry
  unfold StoreCall.after
  cases hrun : call.run config now e.found.db with
  | error => rfl
  | ok r => exact hquery now e.found.db r hrun

theorem logOf_cons {events : List CallEvent} {x : Memory × Sigma Call.Answer}
    {rest : List (Memory × Sigma Call.Answer)} (h : logOf events = x :: rest) :
    ∃ e later, events = later ++ [e] ∧ (e.found, e.entry) = x ∧ logOf later = rest := by
  obtain ⟨e, later, hreverse, hx, hrest⟩ := List.map_eq_cons_iff.mp h
  refine ⟨e, later.reverse, ?_, hx, ?_⟩
  · rw [← List.reverse_reverse events, hreverse, List.reverse_cons]
  · rw [logOf, List.reverse_reverse, hrest]

/-- What the calls of a request find when the key has a row: it is the only one of the key, it
stays, and one of the calls that look finds it. -/
structure Meets (config : StoreConfig) (row : IdempotencyKey) (events : List CallEvent) : Prop where
  kept : ∀ e ∈ events, e.found.db.KeysKept
  answered : ∀ e ∈ events, ∀ call r, e.entry = ⟨.store call, r⟩ →
    ∃ now, r = call.answer config now e.found.db
  only : ∀ e ∈ events, ∀ other ∈ e.found.db.idempotencyKeys, other.key = row.key → other = row
  stays : ∀ e e', [e', e].Sublist events → row ∈ e.found.db.idempotencyKeys →
    row ∈ e'.found.db.idempotencyKeys
  looked : ∃ e ∈ events, Looks row.key e ∧ row ∈ e.found.db.idempotencyKeys

namespace Meets

variable {row : IdempotencyKey} {events : List CallEvent}

theorem taken_iff (h : Meets config row events) {e : CallEvent} (he : e ∈ events) :
    e.found.db.KeyTaken row.key ↔ row ∈ e.found.db.idempotencyKeys := by
  constructor
  · intro htaken
    obtain ⟨other, hother, hkey⟩ := List.mem_map.mp htaken
    exact h.only e he other hother hkey ▸ hother
  · exact List.mem_map_of_mem

theorem nonempty (h : Meets config row events) : events ≠ [] := by
  obtain ⟨e, he, -⟩ := h.looked
  exact List.ne_nil_of_mem he

theorem operation_iff (h : Meets config row events) {m : Mutation} (hm : m.isIntent = false)
    (hkey : row.key = (actorId, key)) (hdiffer : row.requestHash ≠ m.requestHash)
    (hrequest : Request self config actorId key m events answer) :
    (answer = .error .conflict ∧ ∀ e ∈ events, Unchanging config e) ↔
      m = .backup ∨ ∀ e ∈ events.getLast?, e.found.db.KeyTaken (actorId, key) := by
  obtain ⟨limits, htold⟩ := hrequest
  rcases told_operation hm htold with hlog | ⟨operation, body, found, r, rest, hhash, hlog, hcases⟩
  · exact absurd (by simpa [logOf] using hlog) h.nonempty
  obtain ⟨first, later, rfl, hfirst, hlater⟩ := logOf_cons hlog
  obtain ⟨rfl, hentry⟩ := Prod.mk.inj hfirst
  have hmem : first ∈ later ++ [first] := by simp
  have hquery : Unchanging config first :=
    unchanging_of_lookup hentry fun _ _ _ hrun => (StoreCall.query_ok hrun).2
  obtain ⟨now, hanswer⟩ := h.answered first hmem _ _ hentry
  have hlast : (∀ e ∈ (later ++ [first]).getLast?, e.found.db.KeyTaken (actorId, key)) ↔
      row ∈ first.found.db.idempotencyKeys := by
    rw [← hkey, ← h.taken_iff hmem]
    simp
  rw [hlast]
  by_cases hrow : row ∈ first.found.db.idempotencyKeys
  · -- the lookup sees the row
    have hconflict := (h.kept first hmem).idempotentResponse_taken hrow hkey (hhash ▸ hdiffer)
    have hr : r = .error .idempotencyConflict := by
      rw [hanswer]
      simp [StoreCall.answer, StoreCall.run, hconflict, StoreCall.query, Except.map]
    subst hr
    rcases hcases with ⟨e, he, rfl, rfl⟩ | ⟨_, he, -⟩ | ⟨he, -⟩
    · cases he
      refine iff_of_true ⟨rfl, fun e he => ?_⟩ (Or.inr hrow)
      have hnil : later = [] := by simpa [logOf] using hlater
      subst hnil
      exact List.mem_singleton.mp he ▸ hquery
    · cases he
    · cases he
  · -- the lookup finds the key free: only a backup meets the row again
    have hfree : ¬ first.found.db.KeyTaken (actorId, key) := by
      rwa [← hkey, h.taken_iff hmem]
    have hr : r = .ok none := by
      rw [hanswer]
      simp [StoreCall.answer, StoreCall.run, Db.KeysKept.idempotentResponse_free hfree,
        StoreCall.query, Except.map]
    subst hr
    rcases hcases with ⟨e, he, -⟩ | ⟨_, he, -⟩ | ⟨-, ⟨hne, hanswer⟩ | ⟨rfl, hrecorded⟩⟩
    · cases he
    · cases he
    · exact iff_of_false (fun hleft => hanswer hleft.1) (by simp [hne, hrow])
    · obtain ⟨e, he, hlooks, hfound⟩ := h.looked
      have he : e ∈ later := by
        rcases List.mem_append.mp he with he | he
        · exact he
        · exact absurd (List.mem_singleton.mp he ▸ hfound) hrow
      rcases hrecorded with rfl | ⟨found, r, rfl, hrefused⟩
      · exact absurd (mem_logOf he) (by simp [hlater])
      · obtain ⟨e', later', rfl, hentry', hlater'⟩ := logOf_cons hlater
        obtain rfl : later' = [] := by simpa [logOf] using hlater'
        obtain rfl := List.mem_singleton.mp he
        obtain ⟨rfl, hrecord⟩ := Prod.mk.inj hentry'
        obtain ⟨_, hrefusal⟩ := h.answered e (by simp) _ _ hrecord
        have htaken : e.found.db.KeyTaken (actorId, key) := by
          rw [← hkey]
          exact List.mem_map_of_mem hfound
        have hr : r = .error .idempotencyConflict := by
          rw [hrefusal]
          simp [StoreCall.answer, StoreCall.run,
            @startBackup_taken _ _ ⟨key, "backup", .empty⟩ _ htaken, Except.map]
        subst hr
        refine iff_of_true ⟨hrefused _ rfl, fun e' he' => ?_⟩ (Or.inl rfl)
        rcases List.mem_append.mp he' with he' | he'
        · exact List.mem_singleton.mp he' ▸ unchanging_of_error hrecord
        · exact List.mem_singleton.mp he' ▸ hquery

theorem intent_iff (h : Meets config row events) {request : OrderIntentRequest}
    (hkey : row.key = (actorId, key)) (hdiffer : row.requestHash ≠ .intent request)
    (hrequest : Request self config actorId key (.intent request) events answer) :
    (answer = .error .conflict ∧ ∀ e ∈ events, Unchanging config e) ↔
      row.resourceType = "intent" := by
  obtain ⟨limits, htold⟩ := hrequest
  rcases told_intent htold with hlog | ⟨found, r, rest, hlog, hcases⟩
  · exact absurd (by simpa [logOf] using hlog) h.nonempty
  obtain ⟨first, later, rfl, hfirst, hlater⟩ := logOf_cons hlog
  obtain ⟨rfl, hentry⟩ := Prod.mk.inj hfirst
  have hmem : first ∈ later ++ [first] := by simp
  have hquery : Unchanging config first :=
    unchanging_of_lookup hentry fun _ _ _ hrun => (StoreCall.query_ok hrun).2
  obtain ⟨now, hanswer⟩ := h.answered first hmem _ _ hentry
  -- a lookup that sees the row answers by its type
  have htaken : row ∈ first.found.db.idempotencyKeys → row.resourceType = "intent" →
      r = .error .idempotencyConflict := fun hrow htype => by
    rw [hanswer]
    simp [StoreCall.answer, StoreCall.run, (h.kept first hmem).replayIntent_taken hrow hkey htype
      hdiffer, StoreCall.query, Except.map]
  have hother : row ∈ first.found.db.idempotencyKeys → row.resourceType ≠ "intent" →
      r = .ok none := fun hrow htype => by
    rw [hanswer]
    simp [StoreCall.answer, StoreCall.run, (h.kept first hmem).replayIntent_other hrow hkey htype,
      StoreCall.query, Except.map]
  obtain ⟨e, he, hlooks, hfound⟩ := h.looked
  have halone : later = [] → row ∈ first.found.db.idempotencyKeys := by
    rintro rfl
    exact List.mem_singleton.mp he ▸ hfound
  rcases hcases with ⟨error, rfl, rfl, rfl⟩ | ⟨record, rfl, rfl, hne⟩ |
    ⟨rfl, ⟨found₁, found₂, found₃, error, rfl, rfl⟩ | ⟨hne, hadmissions⟩⟩
  · have hnil : later = [] := by simpa [logOf] using hlater
    have htype : row.resourceType = "intent" := by
      by_contra htype
      cases hother (halone hnil) htype
    cases htaken (halone hnil) htype
    subst hnil
    exact iff_of_true ⟨rfl, fun e' he' => List.mem_singleton.mp he' ▸ hquery⟩ htype
  · have hnil : later = [] := by simpa [logOf] using hlater
    refine iff_of_false (fun hleft => hne hleft.1) fun htype => ?_
    cases htaken (halone hnil) htype
  · obtain ⟨e₁, later₁, rfl, hcall₁, hlater₁⟩ := logOf_cons hlater
    obtain ⟨e₂, later₂, rfl, hcall₂, hlater₂⟩ := logOf_cons hlater₁
    obtain ⟨e₃, later₃, rfl, hcall₃, hlater₃⟩ := logOf_cons hlater₂
    obtain rfl : later₃ = [] := by simpa [logOf] using hlater₃
    obtain ⟨-, hentry₁⟩ := Prod.mk.inj hcall₁
    obtain ⟨rfl, hentry₂⟩ := Prod.mk.inj hcall₂
    obtain ⟨-, hentry₃⟩ := Prod.mk.inj hcall₃
    have hrow : row ∈ e₂.found.db.idempotencyKeys := by
      simp only [List.nil_append, List.cons_append, List.mem_cons, List.not_mem_nil, or_false] at he
      rcases he with rfl | rfl | rfl | rfl
      · obtain ⟨call, _, hstore, -⟩ := hlooks
        cases hentry₃.symm.trans hstore
      · exact hfound
      · obtain ⟨call, _, hstore, -⟩ := hlooks
        cases hentry₁.symm.trans hstore
      · exact h.stays e e₂ (by simp) hfound
    obtain ⟨now', hadmission⟩ := h.answered e₂ (by simp) _ _ hentry₂
    have hkept := h.kept e₂ (by simp)
    by_cases htype : row.resourceType = "intent"
    · have herror : error = .idempotencyConflict := by
        simpa [StoreCall.answer, StoreCall.run, hkept.admitIntent_taken hrow hkey htype hdiffer,
          Except.map] using hadmission
      subst herror
      refine iff_of_true ⟨rfl, fun e' he' => ?_⟩ htype
      simp only [List.nil_append, List.cons_append, List.mem_cons, List.not_mem_nil,
        or_false] at he'
      rcases he' with rfl | rfl | rfl | rfl
      · exact unchanging_of_other fun call heq => by
          cases (congrArg Sigma.fst hentry₃).symm.trans heq
      · exact unchanging_of_error hentry₂
      · exact unchanging_of_other fun call heq => by
          cases (congrArg Sigma.fst hentry₁).symm.trans heq
      · exact hquery
    · obtain ⟨error', hrefused, hne⟩ :
          ∃ e, admitIntent actorId key request now' e₂.found.db = .error e ∧
            e ≠ .idempotencyConflict := hkept.admitIntent_other hrow hkey htype
      have herror : error = error' := by
        simpa [StoreCall.answer, StoreCall.run, hrefused, Except.map] using hadmission
      subst herror
      exact iff_of_false
        (fun hleft => hne (ApiError.ofStore_eq_conflict.mp (Except.error.inj hleft.1))) htype
  · refine iff_of_false (fun hleft => hne hleft.1) fun htype => ?_
    rcases List.mem_append.mp he with he | he
    · obtain ⟨call, r', hstore, -⟩ := hlooks
      have hmem' := mem_logOf he
      rw [hlater, hstore] at hmem'
      obtain ⟨value, hdone⟩ := hadmissions _ _ _ hmem'
      obtain ⟨now', hadmission⟩ := h.answered e (List.mem_append_left _ he) _ _
        (hstore.trans hdone)
      have hrefused : admitIntent actorId key request now' e.found.db =
          .error .idempotencyConflict :=
        (h.kept e (List.mem_append_left _ he)).admitIntent_taken hfound hkey htype hdiffer
      simp [StoreCall.answer, StoreCall.run, hrefused, Except.map] at hadmission
    · cases htaken (List.mem_singleton.mp he ▸ hfound) htype

end Meets

namespace Coordinator

variable {guard : CallGuard} {s : System} {earlier later before after : List CallEvent}

/-- A request with a call after the key's first use meets the key's row. -/
theorem Reaches.meets (h : self.Reaches config guard s) (hhistory : s.history = later ++ earlier)
    {first : CallEvent} (hfirst : first ∈ earlier) {row : IdempotencyKey}
    (hrecords : Records config row first.entry) (hafter : after.Sublist later)
    (hbefore : before.Sublist earlier) (hlooks : ∃ e ∈ after, Looks row.key e) :
    Meets config row (after ++ before) := by
  have hevents : (after ++ before).Sublist s.history := hhistory ▸ hafter.append hbefore
  have hrow : row ∈ s.memory.db.idempotencyKeys :=
    (h.rows_stay (hhistory ▸ List.mem_append_right _ hfirst)).2 row hrecords
  refine ⟨fun e he => h.keysKept_found (hevents.subset he), fun e he call r hentry => ?_,
    fun e he other hother hkey => ?_, fun e e' hsub hfound => ?_, ?_⟩
  · obtain ⟨-, now, hanswer, -⟩ := h.recorded e (hevents.subset he) call r hentry
    exact ⟨now, hanswer⟩
  · exact h.keysKept.row_unique ((h.rows_stay (hevents.subset he)).1 other hother) hrow hkey
  · exact (h.rows_found (hsub.trans hevents)).1 row hfound
  · obtain ⟨e, he, hlook⟩ := hlooks
    have hsub : [e, first].Sublist s.history := hhistory ▸
      (List.singleton_sublist.mpr (hafter.subset he)).append (List.singleton_sublist.mpr hfirst)
    exact ⟨e, List.mem_append_left _ he, hlook, (h.rows_found hsub).2 row hrecords⟩

/-- After a first mutation under a key, another one under it that consults the key answers 409 and
changes no table, exactly when it is no intent under the key of another operation, and its lookup
finds the key taken, or else it is a backup. -/
theorem Reaches.reuse_conflicts_iff (h : self.Reaches config guard s)
    (hhistory : s.history = later ++ earlier) {m m' : Mutation} (hdiffer : m' ≠ m)
    (hfirst : ∃ e ∈ earlier, ∃ row, Records config row e.entry ∧ row.key = (actorId, key) ∧
      row.requestHash = m.requestHash)
    (hafter : after.Sublist later) (hbefore : before.Sublist earlier)
    (hlooks : ∃ e ∈ after, Looks (actorId, key) e)
    (hsecond : Request self config actorId key m' (after ++ before) answer) :
    (answer = .error .conflict ∧ ∀ e ∈ after ++ before, Unchanging config e) ↔
      (m'.isIntent = true → m.isIntent = true) ∧ (m'.isIntent = true ∨ m' = .backup ∨
        ∀ e ∈ (after ++ before).getLast?, e.found.db.KeyTaken (actorId, key)) := by
  obtain ⟨first, hfirst, row, hrecords, hkey, hhash⟩ := hfirst
  have hmeets : Meets config row (after ++ before) :=
    h.meets hhistory hfirst hrecords hafter hbefore (hkey ▸ hlooks)
  have hother : row.requestHash ≠ m'.requestHash :=
    fun heq => hdiffer (Mutation.requestHash_inj (heq.symm.trans hhash))
  cases hm' : m'.isIntent with
  | false =>
    rw [hmeets.operation_iff hm' hkey hother hsecond]
    simp
  | true =>
    cases m' with
    | intent request =>
      rw [hmeets.intent_iff hkey hother hsecond]
      have hrow := (h.rows_stay (hhistory ▸ List.mem_append_right _ hfirst)).2 row hrecords
      rw [h.keysKept.hashed row hrow, hhash]
      cases m <;> simp [Mutation.isIntent, Mutation.requestHash]
    | _ => cases hm'

/-! ## Samples -/

/-- The state ends with a request under the sample key that follows a mutation of the hash. -/
def followsUse (hash : RequestHash) (m' : Mutation) (count : Nat)
    (test : Except ApiError ApiResponse → Bool) (s : System) : Bool :=
  (s.history.drop count).any (recordsSuch samplePaperStore fun row =>
    row.key = ("operator", "0123456789abcdef") ∧ row.requestHash = hash) &&
  ((m'.handle sampleCoordinator samplePaperStore ⟨true, true⟩ "operator"
    (some "0123456789abcdef")).run.follow (logOf (s.history.take count))).any test

theorem followsUse_split {hash : RequestHash} {m' : Mutation} {count : Nat}
    {test : Except ApiError ApiResponse → Bool} (h : followsUse hash m' count test s = true) :
    (∃ e ∈ s.history.drop count, ∃ row, Records samplePaperStore row e.entry ∧
      row.key = ("operator", "0123456789abcdef") ∧ row.requestHash = hash) ∧
    ∃ answer, Request sampleCoordinator samplePaperStore "operator" "0123456789abcdef" m'
      (s.history.take count) answer ∧ test answer = true := by
  obtain ⟨hused, hrequest⟩ := Bool.and_eq_true_iff.mp h
  obtain ⟨e, he, hrecords⟩ := List.any_eq_true.mp hused
  obtain ⟨row, hrow, hfits⟩ := recordsSuch_iff.mp hrecords
  obtain ⟨answer, hanswer, htest⟩ := (Option.any_eq_true _ _).mp hrequest
  have : Nonempty Memory := ⟨s.memory⟩
  exact ⟨⟨e, he, row, hrow, of_decide_eq_true hfits⟩, answer,
    ⟨⟨true, true⟩, Prog.told_of_follow hanswer⟩, htest⟩

/-- An operator backs up, and then submits an intent under the same key. -/
def backupThenIntent : List Move :=
  [.arrive .main, .calls 0 22 0 sampleVenue,
    .arrive (.operation (.startBackup "operator" (some ⟨"0123456789abcdef", "backup", .empty⟩))),
    .calls 1 1 0 sampleVenue,
    .arrive (.submitIntent "operator" "0123456789abcdef" sampleRequest),
    .calls 2 4 0 sampleVenue]

/-- The intent answers 500. -/
theorem reuse_not_detected :
    ∃ s, sampleCoordinator.Reaches samplePaperStore (fun _ _ _ => True) s ∧
      ∃ later earlier answer, s.history = later ++ earlier ∧
        (∃ e ∈ earlier, ∃ row, Records samplePaperStore row e.entry ∧
          row.key = ("operator", "0123456789abcdef") ∧
          row.requestHash = Mutation.backup.requestHash) ∧
        Request sampleCoordinator samplePaperStore "operator" "0123456789abcdef"
          (.intent sampleRequest) later answer ∧
        answer =
          .error ⟨500, "INTERNAL_STORAGE_ERROR", "storage operation failed", true, none⟩ := by
  have hsample : (sampleCoordinator.execute samplePaperStore (fun _ _ => true) backupThenIntent
      System.initial).any (followsUse Mutation.backup.requestHash (.intent sampleRequest) 4
        fun answer => match answer with
          | .error e => e = ⟨500, "INTERNAL_STORAGE_ERROR", "storage operation failed", true, none⟩
          | .ok _ => false) = true := by
    decide +kernel
  obtain ⟨s, h, htest⟩ := exists_of_execute (fun _ _ _ _ => trivial) hsample
  obtain ⟨hused, answer, hrequest, hanswer⟩ := followsUse_split htest
  refine ⟨s, h, _, _, answer, (List.take_append_drop 4 s.history).symm, hused, hrequest, ?_⟩
  cases answer with
  | error e => rw [of_decide_eq_true hanswer]
  | ok => cases hanswer

/-- An operator backs up, and then reconciles under the same key. -/
def backupThenReconciliation : List Move :=
  [.arrive .main, .calls 0 22 0 sampleVenue,
    .arrive (.operation (.startBackup "operator" (some ⟨"0123456789abcdef", "backup", .empty⟩))),
    .calls 1 1 0 sampleVenue,
    .arrive (.reconcile "operator" "0123456789abcdef"), .calls 2 1 0 sampleVenue]

/-- The reconciliation answers 409 and changes nothing. -/
theorem reuse_conflicts_backup :
    ∃ s, sampleCoordinator.Reaches samplePaperStore (fun _ _ _ => True) s ∧
      ∃ events answer, Request sampleCoordinator samplePaperStore "operator" "0123456789abcdef"
          .reconciliation events answer ∧
        answer = .error .conflict ∧ ∀ e ∈ events, Unchanging samplePaperStore e := by
  have hsample : (sampleCoordinator.execute samplePaperStore (fun _ _ => true)
      backupThenReconciliation System.initial).any (fun s =>
        followsUse Mutation.backup.requestHash .reconciliation 1 (fun _ => true) s &&
        s.history.head?.any fun e =>
          e.entry.1 = .store (.idempotentResponse "operator" "0123456789abcdef" "reconciliation"
            .empty) ∧ ("operator", "0123456789abcdef") ∈
              e.found.db.idempotencyKeys.map IdempotencyKey.key) = true := by
    decide +kernel
  obtain ⟨s, h, htest⟩ := exists_of_execute (fun _ _ _ _ => trivial) hsample
  obtain ⟨hfollows, hhead⟩ := Bool.and_eq_true_iff.mp htest
  obtain ⟨hused, answer, hrequest, -⟩ := followsUse_split hfollows
  obtain ⟨e, he, hcheck⟩ := (Option.any_eq_true _ _).mp hhead
  obtain ⟨hcall, htaken⟩ := of_decide_eq_true hcheck
  obtain ⟨rest, hhistory⟩ := List.head?_eq_some_iff.mp he
  have htake : s.history.take 1 = [e] := by simp [hhistory]
  have hlooks : ∃ e ∈ s.history.take 1, Looks ("operator", "0123456789abcdef") e := by
    obtain ⟨t, task, found, c, r⟩ := e
    subst hcall
    exact ⟨_, htake ▸ List.mem_singleton_self _,
      .idempotentResponse "operator" "0123456789abcdef" "reconciliation" .empty, r, rfl, rfl⟩
  have hsplit := (List.take_append_drop 1 s.history).symm
  obtain ⟨hanswer, hunchanging⟩ := (h.reuse_conflicts_iff hsplit
    (show Mutation.reconciliation ≠ Mutation.backup by decide) hused (List.Sublist.refl _)
    (List.nil_sublist _) hlooks (by rwa [List.append_nil])).mpr
      ⟨fun h => (nomatch h), Or.inr (Or.inr fun e' he' => by
        rw [htake] at he'
        cases he'
        exact htaken)⟩
  exact ⟨s, h, _, answer, hrequest, hanswer, fun e he => hunchanging e (by simpa using he)⟩

end Coordinator

end OddsfoxExecution
