import OddsfoxExecution.Api.Requests
import OddsfoxExecution.Coordinator.Executions
import OddsfoxExecution.Coordinator.Schedule

/-!
# Each mutation takes effect once

Whatever requests carry a key, and however they interleave, one call at most
creates their resource.  Every answer that is not an error shows the row of the
key, which is there exactly from that call on; so all of them are the same.
-/

namespace OddsfoxExecution

def Mutation.effect : Mutation → (call : StoreCall) → call.Value → Bool
  | .intent _, .admitIntent .., .created _ => true
  | .cancellation _, .createCancellation .., _ => true
  | .halt _, .setServiceState _ .halted .., _ => true
  | .resume _, .setServiceState _ .ready .., _ => true
  | .reconciliation, .startReconciliation .., _ => true
  | .backup, .startBackup .., _ => true
  | _, _, _ => false

def Mutation.Effect (m : Mutation) (e : Sigma Call.Answer) : Prop :=
  ∃ call value, e = done call value ∧ m.effect call value = true

/-- The key an operation records its mutation under. -/
def StoreCall.recordKey? : StoreCall → Option (String × String)
  | admitIntent actorId key _ => some (actorId, key)
  | setServiceState actor _ _ (some i) _ | createCancellation actor _ (some i)
  | startReconciliation _ (some (actor, i)) | startBackup actor (some i) => some (actor, i.key)
  | _ => none

/-- The call creates no resource of the mutation, unless it records the key with it. -/
def Mutation.Carries (actorId key : String) (m : Mutation) : Call → Prop
  | .store call => ∀ value, m.effect call value = true → call.recordKey? = some (actorId, key)
  | _ => True

/-- The call shows the response: it reads the row of the key, or records it. -/
def Gives (config : StoreConfig) (actorId key : String) (e : Sigma Call.Answer)
    (response : ApiResponse) : Prop :=
  (∃ operation body, e = done (.idempotentResponse actorId key operation body) (some response)) ∨
  (∃ request record, e = done (.replayIntent actorId key request) (some record) ∧
    response = (202, .intent record)) ∨
  (∃ request record, (e = done (.admitIntent actorId key request) (.existing record) ∨
      e = done (.admitIntent actorId key request) (.created record)) ∧
    response = (202, .intent record)) ∨
  ∃ row, Records config row e ∧ row.key = (actorId, key) ∧
    response = (row.responseStatus, row.response)

/-! ## What a handler does -/

section Handlers

variable {self : Coordinator} {config : StoreConfig} {limits : Limits} {actorId key : String}
  {m : Mutation} {made : Calls} {α : Type}

/-- From here on the handler creates no resource of the mutation without the key, and if it succeeds
then one of its calls shows the response. -/
def Answers (config : StoreConfig) (actorId key : String) (m : Mutation)
    (x : ApiAction ApiResponse) (made : Calls) : Prop :=
  x.run.wp (fun _ c => m.Carries actorId key c)
    (fun made answer => ∀ response, answer = .ok response →
      ∃ e ∈ made, Gives config actorId key e response) made

namespace Answers

theorem throw {e : ApiError} :
    Answers config actorId key m (MonadExcept.throw e) made := fun _ heq => nomatch heq

theorem pure {response : ApiResponse} {e : Sigma Call.Answer} (he : e ∈ made)
    (h : Gives config actorId key e response) :
    Answers config actorId key m (Pure.pure response) made := by
  rintro _ ⟨⟩
  exact ⟨e, he, h⟩

theorem perform {c : Call} {f : c.Answer → ApiAction ApiResponse}
    (hcall : m.Carries actorId key c)
    (h : ∀ r, Answers config actorId key m (f r) (⟨c, r⟩ :: made)) :
    Answers config actorId key m (ApiAction.perform c >>= f) made := ⟨hcall, h⟩

theorem store {call : StoreCall} {f : call.Value → ApiAction ApiResponse}
    (hcall : m.Carries actorId key (.store call))
    (h : ∀ value, Answers config actorId key m (f value) (done call value :: made)) :
    Answers config actorId key m (ApiAction.store call >>= f) made := by
  refine ⟨hcall, fun r => ?_⟩
  cases r with
  | ok value => exact h value
  | error e => exact throw

theorem ofExcept {x : Except ApiError α} {f : α → ApiAction ApiResponse}
    (h : ∀ a, x = .ok a → Answers config actorId key m (f a) made) :
    Answers config actorId key m (ApiAction.ofExcept x >>= f) made := by
  cases x with
  | ok a => exact h a rfl
  | error e => exact throw

theorem enforceAdmissionRate {next : ApiAction ApiResponse}
    (h : Answers config actorId key m next made) :
    Answers config actorId key m (enforceAdmissionRate limits >>= fun _ => next) made := by
  unfold OddsfoxExecution.enforceAdmissionRate
  split
  · exact h
  · exact throw

theorem reserveOperation {next : ApiAction ApiResponse}
    (h : Answers config actorId key m next made) :
    Answers config actorId key m (reserveOperation limits >>= fun _ => next) made := by
  unfold OddsfoxExecution.reserveOperation
  split
  · exact h
  · exact throw

/-- A coordinator function that makes its calls under `Carries`, and then what follows it. -/
theorem coordinator {x : Action α} {f : α → ApiAction ApiResponse} {P : Calls → α → Prop}
    (hx : x.run.wp (fun _ c => m.Carries actorId key c)
      (fun made result => ∀ a, result = .ok a → P made a) made)
    (hf : ∀ made a, P made a → Answers config actorId key m (f a) made) :
    Answers config actorId key m (ApiAction.coordinator x >>= f) made := by
  unfold Answers ApiAction.coordinator
  rw [Prog.wp_run_bind, Prog.wp_run_bind, Prog.wp_run_lift]
  refine Prog.wp_mono hx fun made result hresult => ?_
  cases result with
  | ok a => exact hf made a (hresult a rfl)
  | error e => exact fun _ heq => nomatch heq

theorem orReplay {operation : String} {body : RequestBody} {mutation : ApiAction ApiResponse}
    (h : ∀ r, Answers config actorId key m mutation
      (⟨.store (.idempotentResponse actorId key operation body), r⟩ :: made)) :
    Answers config actorId key m (orReplay actorId key operation body mutation) made := by
  refine ⟨fun value heffect => (by cases m <;> cases heffect), fun r => ?_⟩
  rcases r with e | _ | ⟨status, response⟩
  · exact throw
  · exact h _
  · change Prog.wp _ _ (Prog.bind (ExceptT.run (if 100 ≤ status ∧ status < 1000 then
      (Pure.pure (some (status, response)) : ApiAction (Option ApiResponse))
      else MonadExcept.throw _)) _) _
    split
    · exact pure List.mem_cons_self (Or.inl ⟨operation, body, rfl⟩)
    · exact throw

end Answers

/-- An operation that creates nothing of the mutation carries no key. -/
theorem carries_of_none {call : StoreCall} (h : ∀ value, m.effect call value = false) :
    m.Carries actorId key (.store call) := by
  intro value heffect
  rw [h value] at heffect
  cases heffect

theorem carries_of_reconciling {reason : String} {c : Call} (h : c.reconciling = true) :
    (Mutation.resume reason).Carries actorId key c := by
  cases c with
  | store call =>
    refine carries_of_none fun value => ?_
    cases call with
    | setServiceState actor next =>
      cases next with
      | ready => cases h
      | _ => rfl
    | _ => rfl
  | _ => trivial

theorem store_shows {call : StoreCall} (hcall : m.Carries actorId key (.store call)) :
    (Action.store call).run.wp (fun _ c => m.Carries actorId key c)
      (fun made result => ∀ value, result = .ok value → done call value ∈ made) made := by
  refine Action.wp_store.mpr ⟨hcall, fun value => ?_, fun _ _ heq => nomatch heq⟩
  rintro _ ⟨⟩
  exact List.mem_cons_self

/-- A function whose calls create nothing does not count for what a later one shows. -/
theorem bind_shows {β : Type} {x : Action α} {f : α → Action β} {P : Calls → Prop}
    (hx : Makes (m.Carries actorId key) x)
    (hf : ∀ a made, (f a).run.wp (fun _ c => m.Carries actorId key c)
      (fun made result => ∀ b, result = .ok b → P made) made) :
    (x >>= f).run.wp (fun _ c => m.Carries actorId key c)
      (fun made result => ∀ b, result = .ok b → P made) made := by
  refine Prog.wp_run_bind.mpr (Prog.wp_mono (hx made) fun made result _ => ?_)
  cases result with
  | ok a => exact hf a made
  | error e => exact fun _ heq => nomatch heq

theorem cancellation_shows {request : CancellationRequest} :
    (Coordinator.admitCancellation actorId key request).run.wp
      (fun _ c => (Mutation.cancellation request).Carries actorId key c)
      (fun made result => ∀ created, result = .ok created → done (.createCancellation actorId
        request (some ⟨key, "cancellation", .cancellation request⟩)) created ∈ made) made := by
  unfold Coordinator.admitCancellation
  split
  · exact fun _ heq => nomatch heq
  · exact store_shows fun _ _ => rfl

theorem halt_shows {reason : String} :
    (self.haltIdempotent actorId key reason).run.wp
      (fun _ c => (Mutation.halt reason).Carries actorId key c)
      (fun made result => ∀ a, result = .ok a → done (.setServiceState actorId .halted reason
        (some ⟨key, "control.halt", .reason reason⟩) none) () ∈ made) made := by
  unfold Coordinator.haltIdempotent
  split
  · exact fun _ heq => nomatch heq
  · refine Action.wp_storeBind.mpr ⟨fun _ _ => rfl, fun _ => ?_, fun _ _ heq => nomatch heq⟩
    unfold Coordinator.spawnProtectiveCancellation
    split
    · exact ⟨trivial, fun _ _ _ => by simp⟩
    · exact fun _ _ => List.mem_cons_self

theorem supervisedHeartbeat_makes :
    Makes (m.Carries actorId key) Coordinator.supervisedHeartbeat := by
  unfold Coordinator.supervisedHeartbeat
  refine .bind (.perform trivial) fun answer => ?_
  cases answer with
  | ok => exact .perform trivial
  | error e => exact .throw
  | timeout => exact .throw

theorem enqueueAllRecovered_makes (ids : List Uuid) :
    Makes (m.Carries actorId key) (Coordinator.enqueueAllRecovered ids) := by
  induction ids with
  | nil => exact .pure
  | cons id ids ih =>
    refine .bind ?_ fun _ => ih
    unfold Coordinator.enqueueRecovered
    refine .bind (.store (carries_of_none fun _ => ?_)) fun intent => ?_
    · cases m <;> rfl
    · split
      · exact .perform trivial
      · exact .pure

theorem resumeInner_shows {reason : String} :
    (self.resumeInner actorId reason (some ⟨key, "control.resume", .reason reason⟩)).run.wp
      (fun _ c => (Mutation.resume reason).Carries actorId key c)
      (fun made result => ∀ a, result = .ok a → ∃ revision, done (.setServiceState actorId .ready
        reason (some ⟨key, "control.resume", .reason reason⟩) (some revision)) () ∈ made) made := by
  unfold Coordinator.resumeInner
  split
  · exact fun _ heq => nomatch heq
  refine bind_shows (.store (carries_of_none fun _ => rfl)) fun control made => ?_
  split
  · exact fun _ heq => nomatch heq
  refine bind_shows ((self.reconcileInner_makes _).mono fun _ => carries_of_reconciling)
    fun _ made => ?_
  refine bind_shows supervisedHeartbeat_makes fun _ made => ?_
  refine bind_shows (.store (carries_of_none fun _ => rfl)) fun unresolved made => ?_
  split
  · exact fun _ heq => nomatch heq
  -- the commit; the tail leaves it among the calls
  unfold Coordinator.resumeCommit
  refine Action.wp_storeBind.mpr ⟨fun _ _ => rfl, fun value => ?_, fun _ _ heq => nomatch heq⟩
  have htail : Makes ((Mutation.resume reason).Carries actorId key) (do
      let recoverable ← Action.perform .takeDeferred
      Coordinator.enqueueAllRecovered recoverable) :=
    .bind (.perform trivial) fun ids => enqueueAllRecovered_makes ids
  refine Prog.wp_mono (Prog.wp_invariant (I := fun made => done (.setServiceState actorId .ready
      reason (some ⟨key, "control.resume", .reason reason⟩) (some control.revision)) () ∈ made)
    (htail _) List.mem_cons_self fun _ _ _ hmem _ => List.mem_cons_of_mem _ hmem)
    fun made result hmade a _ => ?_
  exact ⟨control.revision, hmade.1⟩

theorem resume_shows {reason : String} :
    (self.resumeIdempotent actorId key reason).run.wp
      (fun _ c => (Mutation.resume reason).Carries actorId key c)
      (fun made result => ∀ a, result = .ok a → ∃ revision, done (.setServiceState actorId .ready
        reason (some ⟨key, "control.resume", .reason reason⟩) (some revision)) () ∈ made) made := by
  unfold Coordinator.resumeIdempotent Action.withGate
  refine Action.wp_performBind.mpr ⟨trivial, fun _ => Action.wp_attemptBind.mpr ?_⟩
  refine Prog.wp_mono resumeInner_shows fun made result hresult => ?_
  refine Action.wp_performBind.mpr ⟨trivial, fun _ => ?_⟩
  cases result with
  | ok a =>
    rintro _ ⟨⟩
    obtain ⟨revision, hdone⟩ := hresult a rfl
    exact ⟨revision, List.mem_cons_of_mem _ hdone⟩
  | error e => exact fun _ heq => nomatch heq

theorem Gives.recorded {call : StoreCall} {value : call.Value} {row : IdempotencyKey}
    {response : ApiResponse} (hrow : call.row? config value = some row)
    (hkey : row.key = (actorId, key)) (hresponse : response = (row.responseStatus, row.response)) :
    Gives config actorId key (done call value) response :=
  Or.inr (Or.inr (Or.inr ⟨row, ⟨call, value, rfl, hrow⟩, hkey, hresponse⟩))

/-- Every handler creates its resource with the key alone, and a success shows what it answers. -/
theorem handle_answers {header : Option String} (hheader : header = some key) :
    Answers config actorId key m (m.handle self config limits actorId header) [] := by
  subst hheader
  cases m with
  | intent request =>
    refine .ofExcept fun k hkey => ?_
    cases idempotencyKey_ok hkey
    refine .store (carries_of_none fun _ => rfl) fun replay => ?_
    cases replay with
    | some record =>
      exact .pure List.mem_cons_self (Or.inr (Or.inl ⟨request, record, rfl, rfl⟩))
    | none =>
      refine .enforceAdmissionRate ?_
      refine .perform trivial fun reserved => ?_
      cases reserved with
      | false => exact .throw
      | true =>
        refine .perform (fun _ _ => rfl) fun admission => ?_
        rcases admission with e | record | record
        · exact .perform trivial fun _ => .throw
        · exact .perform trivial fun _ => .pure (List.mem_cons_of_mem _ List.mem_cons_self)
            (Or.inr (Or.inr (Or.inl ⟨request, record, Or.inr rfl, rfl⟩)))
        · exact .perform trivial fun _ => .pure (List.mem_cons_of_mem _ List.mem_cons_self)
            (Or.inr (Or.inr (Or.inl ⟨request, record, Or.inl rfl, rfl⟩)))
  | cancellation request =>
    refine .ofExcept fun k hkey => ?_
    cases idempotencyKey_ok hkey
    refine .orReplay fun _ => .enforceAdmissionRate (.reserveOperation ?_)
    refine .coordinator cancellation_shows fun made created hdone => ?_
    refine .perform trivial fun _ => ?_
    exact .pure (List.mem_cons_of_mem _ hdone) (Gives.recorded rfl rfl rfl)
  | halt reason =>
    refine .ofExcept fun k hkey => .ofExcept fun _ _ => ?_
    cases idempotencyKey_ok hkey
    refine .orReplay fun _ => .enforceAdmissionRate (.coordinator halt_shows fun made _ hdone => ?_)
    exact .pure hdone (Gives.recorded rfl rfl rfl)
  | resume reason =>
    refine .ofExcept fun k hkey => .ofExcept fun _ _ => ?_
    cases idempotencyKey_ok hkey
    refine .orReplay fun _ => .enforceAdmissionRate (.coordinator resume_shows ?_)
    rintro made _ ⟨revision, hdone⟩
    exact .pure hdone (Gives.recorded rfl rfl rfl)
  | reconciliation =>
    refine .ofExcept fun k hkey => ?_
    cases idempotencyKey_ok hkey
    refine .orReplay fun _ => .enforceAdmissionRate (.reserveOperation ?_)
    refine .coordinator (store_shows fun _ _ => rfl) fun made id hdone => ?_
    refine .perform trivial fun _ => ?_
    exact .pure (List.mem_cons_of_mem _ hdone) (Gives.recorded rfl rfl rfl)
  | backup =>
    refine .ofExcept fun k hkey => ?_
    cases idempotencyKey_ok hkey
    refine .orReplay fun _ => .enforceAdmissionRate (.reserveOperation ?_)
    refine .store (fun _ _ => rfl) fun id => ?_
    exact .pure List.mem_cons_self (Gives.recorded rfl rfl rfl)

end Handlers

/-! ## What the calls show -/

theorem replayIntent_some {actorId key : String} {request : OrderIntentRequest} {db : Db}
    {record : IntentRecord} (h : replayIntent actorId key request db = .ok (some record)) :
    ∃ row ∈ db.idempotencyKeys, row.key = (actorId, key) ∧ row.response = .intent record := by
  unfold replayIntent at h
  split at h
  · cases h
  · rename_i row hfind
    obtain ⟨hmem, hactor, hkey, -⟩ := find?_mem hfind
    split at h
    · cases h
    · split at h
      · rename_i hresponse
        cases h
        exact ⟨row, hmem, Prod.ext hactor hkey, hresponse⟩
      · cases h

theorem idempotentResponse_some {actorId key operation : String} {body : RequestBody} {db : Db}
    {response : ApiResponse}
    (h : idempotentResponse actorId key operation body db = .ok (some response)) :
    ∃ row ∈ db.idempotencyKeys, row.key = (actorId, key) ∧
      response = (row.responseStatus, row.response) := by
  unfold idempotentResponse at h
  split at h
  · cases h
  · rename_i row hfind
    obtain ⟨hmem, hactor, hkey⟩ := find?_mem hfind
    split at h
    · cases h
    · cases h
      exact ⟨row, hmem, Prod.ext hactor hkey, rfl⟩

theorem Records.accepted {config : StoreConfig} {row : IdempotencyKey} {e : Sigma Call.Answer}
    (h : Records config row e) : row.responseStatus = 202 := by
  obtain ⟨call, value, -, hrow⟩ := h
  unfold StoreCall.row? at hrow
  split at hrow <;> cases hrow <;> rfl

/-- A request as far as it got: its handler makes these calls first. -/
def Begun (self : Coordinator) (config : StoreConfig) (actorId key : String) (m : Mutation)
    (events : List CallEvent) : Prop :=
  ∃ limits rest answer, (m.handle self config limits actorId (some key)).run.Told
    (logOf events ++ rest) answer

namespace Coordinator.Reaches

variable {self : Coordinator} {config : StoreConfig} {guard : CallGuard} {s : System}
  {actorId key : String} {m : Mutation}

theorem row_of_gives (h : self.Reaches config guard s) {e : CallEvent} (he : e ∈ s.history)
    {response : ApiResponse} (hgives : Gives config actorId key e.entry response) :
    ∃ row ∈ s.memory.db.idempotencyKeys, row.key = (actorId, key) ∧
      response = (row.responseStatus, row.response) := by
  obtain ⟨hfound, hrecorded⟩ := h.rows_stay he
  have haccepted : ∀ row ∈ s.memory.db.idempotencyKeys, row.responseStatus = 202 := by
    intro row hrow
    obtain ⟨e', -, hrecords⟩ := h.rows_recorded hrow
    exact hrecords.accepted
  rcases hgives with ⟨operation, body, hentry⟩ | ⟨request, record, hentry, rfl⟩ |
    ⟨request, record, hentry, rfl⟩ | ⟨row, hrecords, hkey, hresponse⟩
  · obtain ⟨-, now, r, hrun, hvalue, -⟩ := h.committed he hentry
    obtain ⟨row, hrow, hkey, hresponse⟩ :=
      idempotentResponse_some (hvalue ▸ (StoreCall.query_ok hrun).1)
    exact ⟨row, hfound row hrow, hkey, hresponse⟩
  · obtain ⟨-, now, r, hrun, hvalue, -⟩ := h.committed he hentry
    obtain ⟨row, hrow, hkey, hresponse⟩ :=
      replayIntent_some (hvalue ▸ (StoreCall.query_ok hrun).1)
    exact ⟨row, hfound row hrow, hkey, by rw [haccepted row (hfound row hrow), hresponse]⟩
  · rcases hentry with hentry | hentry <;>
      obtain ⟨-, now, r, hrun, hvalue, -⟩ := h.committed he hentry <;>
      rcases admitIntent_ok hrun with ⟨record', hr, hactor, hk, -⟩ | ⟨record', hr, -, row, hrow,
        hkey, -, hresponse⟩ <;> rw [hr] at hvalue <;> cases hvalue
    · -- the row of the key answers
      exact ⟨row, hfound row hrow, hkey, by rw [haccepted row (hfound row hrow), hresponse]⟩
    · -- the admission records it
      refine ⟨record.row request, hrecorded _ ?_, Prod.ext hactor hk, rfl⟩
      rw [hentry]
      exact ⟨_, _, rfl, rfl⟩
  · exact ⟨row, hrecorded row hrecords, hkey, hresponse⟩

theorem creates_once (h : self.Reaches config guard s) (key : String × String) :
    (s.history.filter (creates config key)).length ≤ 1 := by
  refine length_filter_le_one fun after e before heq he e' he' hcreates' => ?_
  obtain ⟨row, hrow, rfl⟩ := creates_iff.mp he
  obtain ⟨row', hrow', hkey⟩ := creates_iff.mp hcreates'
  have hsub : [e, e'].Sublist s.history := heq ▸
    (List.cons_sublist_cons.mpr (List.singleton_sublist.mpr he')).trans
      (List.sublist_append_right after _)
  refine h.records_free (hsub.subset (by simp)) hrow ?_
  exact hkey ▸ List.mem_map_of_mem ((h.rows_found hsub).2 row' hrow')

/-- A committed operation of the mutation under the key records it. -/
theorem creates_of_effect (h : self.Reaches config guard s) {e : CallEvent} (he : e ∈ s.history)
    (heffect : m.Effect e.entry) (hcarries : m.Carries actorId key e.entry.1) :
    creates config (actorId, key) e = true := by
  obtain ⟨call, value, hentry, heffect⟩ := heffect
  rw [hentry] at hcarries
  have hkey := hcarries value heffect
  rw [creates_iff, hentry]
  cases call with
  | admitIntent actor k request =>
    obtain ⟨-, now, r, hrun, hvalue, -⟩ := h.committed he hentry
    rcases admitIntent_ok hrun with ⟨record, hr, hactor, hk, -⟩ | ⟨record, hr, -⟩
    · rw [hr] at hvalue
      cases hvalue
      cases hkey
      exact ⟨record.row request, ⟨_, _, rfl, rfl⟩, Prod.ext hactor hk⟩
    · rw [hr] at hvalue
      cases hvalue
      cases m <;> cases heffect
  | setServiceState actor next reason idempotency expected =>
    cases idempotency <;> cases hkey
    exact ⟨_, ⟨_, _, rfl, rfl⟩, rfl⟩
  | createCancellation actor request idempotency =>
    cases idempotency <;> cases hkey
    exact ⟨_, ⟨_, _, rfl, rfl⟩, rfl⟩
  | startReconciliation trigger idempotency =>
    cases idempotency <;> cases hkey
    exact ⟨_, ⟨_, _, rfl, rfl⟩, rfl⟩
  | startBackup actor idempotency =>
    cases idempotency <;> cases hkey
    exact ⟨_, ⟨_, _, rfl, rfl⟩, rfl⟩
  | _ => cases hkey

/-- However the requests that carry a key for one mutation interleave, fail, are cut off or come
late: one call at most records the key; what any of them creates is created by that call; all that
are answered with success get the same answer, a 202; and the key has a row exactly when that call
has committed. -/
theorem exactly_once (h : self.Reaches config guard s) (actorId key : String) (m : Mutation) :
    (s.history.filter (creates config (actorId, key))).length ≤ 1 ∧
    (∀ events, events.Sublist s.history → Begun self config actorId key m events →
      ∀ e ∈ events, m.Effect e.entry → creates config (actorId, key) e = true) ∧
    (∀ events events' r r', events.Sublist s.history → events'.Sublist s.history →
      Request self config actorId key m events (.ok r) →
      Request self config actorId key m events' (.ok r') → r = r' ∧ r.1 = 202) ∧
    (s.memory.db.KeyTaken (actorId, key) ↔
      ∃ e ∈ s.history, creates config (actorId, key) e = true) := by
  have hshown : ∀ events r, events.Sublist s.history →
      Request self config actorId key m events (.ok r) →
      ∃ row ∈ s.memory.db.idempotencyKeys, row.key = (actorId, key) ∧
        r = (row.responseStatus, row.response) := by
    rintro events r hevents ⟨limits, htold⟩
    obtain ⟨x, hx, hgives⟩ := htold.promised (handle_answers rfl) r rfl
    obtain ⟨e, he, rfl⟩ : ∃ e ∈ events, e.entry = x := by simpa [logOf] using hx
    exact h.row_of_gives (hevents.subset he) hgives
  refine ⟨h.creates_once _, ?_, ?_, ?_⟩
  · rintro events hevents ⟨limits, rest, answer, s₁, s₂, hrun⟩ e he heffect
    refine h.creates_of_effect (hevents.subset he) heffect ?_
    exact hrun.calls (handle_answers rfl) _ (List.mem_append_left rest (mem_logOf he))
  · intro events events' r r' hevents hevents' hrequest hrequest'
    obtain ⟨row, hrow, hkey, rfl⟩ := hshown events r hevents hrequest
    obtain ⟨row', hrow', hkey', rfl⟩ := hshown events' r' hevents' hrequest'
    obtain ⟨e, -, hrecords⟩ := h.rows_recorded hrow
    rw [h.keysKept.row_unique hrow' hrow (hkey'.trans hkey.symm)]
    exact ⟨rfl, hrecords.accepted⟩
  · constructor
    · intro htaken
      obtain ⟨row, hrow, hkey⟩ := List.mem_map.mp htaken
      obtain ⟨e, he, hrecords⟩ := h.rows_recorded hrow
      exact ⟨e, he, creates_iff.mpr ⟨row, hrecords, hkey⟩⟩
    · rintro ⟨e, he, hcreates⟩
      obtain ⟨row, hrecords, hkey⟩ := creates_iff.mp hcreates
      exact List.mem_map.mpr ⟨row, (h.rows_stay he).2 row hrecords, hkey⟩

/-- An operator asks for a reconciliation, the process dies, and the operator asks again. -/
def repeatedReconciliation : List Move :=
  [.arrive .main, .calls 0 22 0 sampleVenue,
    .arrive (.reconcile "operator" "0123456789abcdef"), .calls 1 3 0 sampleVenue, .crash,
    .arrive .main, .calls 2 22 0 sampleVenue,
    .arrive (.reconcile "operator" "0123456789abcdef"), .calls 3 1 0 sampleVenue]

/-- The calls make up a request for the reconciliation that succeeds. -/
def accepted (events : List CallEvent) : Bool :=
  ((Mutation.reconciliation.handle sampleCoordinator samplePaperStore ⟨true, true⟩ "operator"
    (some "0123456789abcdef")).run.follow (logOf events)).any fun answer =>
      match answer with
      | .ok _ => true
      | .error _ => false

theorem accepted_request {events : List CallEvent} (h : accepted events = true) :
    ∃ r, Request sampleCoordinator samplePaperStore "operator" "0123456789abcdef" .reconciliation
      events (.ok r) := by
  obtain ⟨answer, hanswer, hok⟩ := (Option.any_eq_true _ _).mp h
  have : Nonempty Memory := ⟨System.initial.memory⟩
  cases answer with
  | ok r => exact ⟨r, ⟨true, true⟩, Prog.told_of_follow hanswer⟩
  | error e => cases hok

/-- Both requests of the schedule get one answer, from one reconciliation. -/
theorem exactly_once_reconciliation :
    ∃ s, sampleCoordinator.Reaches samplePaperStore (fun _ _ _ => True) s ∧
      (s.history.filter (creates samplePaperStore ("operator", "0123456789abcdef"))).length ≤ 1 ∧
      ∃ r, Request sampleCoordinator samplePaperStore "operator" "0123456789abcdef"
          .reconciliation ((s.history.drop 23).take 3) (.ok r) ∧
        Request sampleCoordinator samplePaperStore "operator" "0123456789abcdef"
          .reconciliation (s.history.take 1) (.ok r) := by
  have hsample : (sampleCoordinator.execute samplePaperStore (fun _ _ => true)
      repeatedReconciliation System.initial).any (fun s =>
        accepted ((s.history.drop 23).take 3) && accepted (s.history.take 1)) = true := by
    decide +kernel
  obtain ⟨s, h, htest⟩ := Coordinator.exists_of_execute (fun _ _ _ _ => trivial) hsample
  obtain ⟨hfirst, hsecond⟩ := Bool.and_eq_true_iff.mp htest
  obtain ⟨r, hrequest⟩ := accepted_request hfirst
  obtain ⟨r', hrequest'⟩ := accepted_request hsecond
  obtain ⟨honce, -, hsame, -⟩ := exactly_once h "operator" "0123456789abcdef" .reconciliation
  obtain ⟨rfl, -⟩ := hsame _ _ r r' ((List.take_sublist _ _).trans (List.drop_sublist _ _))
    (List.take_sublist _ _) hrequest hrequest'
  exact ⟨s, h, honce, r, hrequest, hrequest'⟩

end Coordinator.Reaches

end OddsfoxExecution
