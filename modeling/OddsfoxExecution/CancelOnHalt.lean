import OddsfoxExecution.Coordinator.Executions
import OddsfoxExecution.Coordinator.Schedule

/-!
# Cancel-on-halt

Every halting function goes on to cancel what is open, on the spot or in a task
it spawns.  The request of that cancellation puts 25 bytes before the reason of
the halt and is then validated against the limit of 512 bytes, a limit the
reason alone was allowed to reach; where the request is refused the failure is
only logged.
-/

namespace OddsfoxExecution

/-- The orders that are not terminal. -/
def Db.openOrderIds (db : Db) : List Uuid :=
  (db.orders.filter fun o => ¬ o.state.terminal).map OrderRecord.id

def Halts (reason : String) (entry : Memory × Sigma Call.Answer) : Prop :=
  ∃ actor idempotency, entry.2 = done (.setServiceState actor .halted reason idempotency none) ()

/-- The call records the protective request; its targets are the orders open at that moment. -/
def RecordsProtective (config : StoreConfig) (reason : String)
    (entry : Memory × Sigma Call.Answer) : Prop :=
  ∃ id now, entry.2 = done (.createCancellation "system" (protectiveRequest reason) none)
      (id, entry.1.db.openOrderIds) ∧
    ∃ row ∈ ((StoreCall.createCancellation "system" (protectiveRequest reason) none).after config
        now entry.1.db).cancellationRequests,
      row.id = id ∧ row.selector = protectiveRequest reason ∧
        row.targetOrderIds = entry.1.db.openOrderIds ∧ row.state = .pending

/-- The protective cancellation of a reason, recorded on the spot or left to a task. -/
def Shielded (config : StoreConfig) (reason : String) (log : Log) : Prop :=
  (∃ e ∈ log, RecordsProtective config reason e) ∨
    ∃ e ∈ log, e.2 = ⟨.spawn (.protectiveCancellation reason), ()⟩

/-- Every halt whose protective request is valid is followed by it. -/
def HaltsShielded (config : StoreConfig) (log : Log) : Prop :=
  ∀ before e after reason, log = before ++ e :: after → Halts reason e →
    (protectiveRequest reason).validate = .ok () → Shielded config reason after

/-! ## The request -/

theorem protectiveRequest_blank (reason : String) :
    trimIsEmpty (protectiveRequest reason).reason = false := by
  unfold trimIsEmpty protectiveRequest
  simp only [String.toList_append, List.all_append, Bool.and_eq_false_iff]
  exact Or.inl (by decide)

/-- The prefix leaves 487 bytes for the reason. -/
theorem protectiveRequest_validate (reason : String) :
    (protectiveRequest reason).validate = .ok () ↔ reason.utf8ByteSize ≤ 487 := by
  have hsize : (protectiveRequest reason).reason.utf8ByteSize = 25 + reason.utf8ByteSize := by
    rw [protectiveRequest, String.utf8ByteSize_append]
    rfl
  have hselector : (protectiveRequest reason).orderId.isSome.toNat +
      (protectiveRequest reason).intentId.isSome.toNat +
      (protectiveRequest reason).conditionId.isSome.toNat +
      (protectiveRequest reason).allOpenOrders.toNat = 1 := rfl
  unfold CancellationRequest.validate
  simp only [hselector, protectiveRequest_blank, hsize]
  constructor
  · intro h
    split at h
    · contradiction
    · split at h
      · cases h
      · omega
  · intro h
    rw [if_neg (by decide), if_neg]
    simp
    omega

/-! ## Logs -/

section Logs

variable {config : StoreConfig} {reason : String} {log log' : Log}

theorem Shielded.mono (h : Shielded config reason log) (hsub : ∀ e ∈ log, e ∈ log') :
    Shielded config reason log' := by
  rcases h with ⟨e, he, hrecords⟩ | ⟨e, he, hspawned⟩
  · exact Or.inl ⟨e, hsub e he, hrecords⟩
  · exact Or.inr ⟨e, hsub e he, hspawned⟩

theorem HaltsShielded.of_none (h : ∀ e ∈ log, ∀ reason, ¬ Halts reason e) :
    HaltsShielded config log := by
  intro before e after reason hlog hhalts
  exact absurd hhalts (h e (by simp [hlog]) reason)

theorem HaltsShielded.append (h : HaltsShielded config log) (h' : HaltsShielded config log') :
    HaltsShielded config (log ++ log') := by
  intro before e after reason hlog hhalts hvalid
  rcases List.append_eq_append_iff.mp hlog with ⟨rest, rfl, hrest⟩ | ⟨rest, hrest, hafter⟩
  · cases rest with
    | nil => exact h' [] e after reason hrest hhalts hvalid
    | cons first rest => exact h' (first :: rest) e after reason hrest hhalts hvalid
  · cases rest with
    | nil => exact h' [] e after reason hafter.symm hhalts hvalid
    | cons first rest =>
      obtain ⟨rfl, rfl⟩ := List.cons.inj hafter
      exact (h before e rest reason hrest hhalts hvalid).mono fun e he => List.mem_append_left _ he

/-- A halt followed by the protective cancellation of its reason. -/
theorem HaltsShielded.cons {e : Memory × Sigma Call.Answer} (h : HaltsShielded config log)
    (hhead : ∀ reason, Halts reason e → (protectiveRequest reason).validate = .ok () →
      Shielded config reason log) : HaltsShielded config (e :: log) := by
  intro before e' after reason hlog hhalts hvalid
  cases before with
  | nil =>
    obtain ⟨rfl, rfl⟩ := List.cons.inj hlog
    exact hhead reason hhalts hvalid
  | cons first before =>
    obtain ⟨rfl, rfl⟩ := List.cons.inj hlog
    exact h before e' after reason rfl hhalts hvalid

end Logs

/-! ## Executions -/

def Call.uncontrolled : Call → Bool
  | .store (.setServiceState ..) => false
  | _ => true

/-- Every execution of the function follows each of its halts with the protective cancellation. -/
def Shields {α : Type} (S : Setting) (x : Action α) : Prop :=
  ∀ m log result m', S.Runs x m log result m' → HaltsShielded S.config log

/-- Every execution of the function also makes the protective cancellation of a reason. -/
def Protects {α : Type} (S : Setting) (reason : String) (x : Action α) : Prop :=
  ∀ m log result m', S.Runs x m log result m' → HaltsShielded S.config log ∧
    ((protectiveRequest reason).validate = .ok () → Shielded S.config reason log)

namespace Shields

variable {α β : Type} {S : Setting} {x : Action α} {f : α → Action β}

theorem of_makes (hx : Makes (fun c => c.uncontrolled = true) x) : Shields S x := by
  intro m log result m' hrun
  refine .of_none fun e he reason hhalts => ?_
  obtain ⟨actor, idempotency, hentry⟩ := hhalts
  have hcall := hrun.calls hx e he
  rw [hentry] at hcall
  cases hcall

theorem bind (hx : Shields S x) (hf : ∀ a, Shields S (f a)) : Shields S (x >>= f) := by
  intro m log result m' hrun
  rcases Setting.runs_bind.mp hrun with ⟨e, hfirst, -⟩ | ⟨first, a, m₁, rest, hfirst, hrest, rfl⟩
  · exact hx _ _ _ _ hfirst
  · exact (hx _ _ _ _ hfirst).append (hf a _ _ _ _ hrest)

theorem attempt (hx : Shields S x) : Shields S (Action.attempt x) := by
  intro m log result m' hrun
  obtain ⟨outcome, hrun, -⟩ := Setting.runs_attempt.mp hrun
  exact hx _ _ _ _ hrun

theorem withGate (hx : Shields S x) (gate : Gate) : Shields S (Action.withGate gate x) := by
  intro m log result m' hrun
  obtain ⟨m₁, m₂, inner, m₃, m₄, hinner, rfl⟩ := Setting.runs_withGate hrun
  have hlock : ∀ reason, ¬ Halts reason (m₁, (⟨.lock gate, ()⟩ : Sigma Call.Answer)) := by
    rintro reason ⟨actor, idempotency, h⟩
    cases h
  have hunlock : ∀ reason, ¬ Halts reason (m₄, (⟨.unlock gate, ()⟩ : Sigma Call.Answer)) := by
    rintro reason ⟨actor, idempotency, h⟩
    cases h
  refine HaltsShielded.append (.cons (hx _ _ _ _ hinner) fun reason h => absurd h (hlock reason)) ?_
  exact .of_none (by simpa using hunlock)

theorem halt {actor reason : String} {idempotency : Option Idempotency} {k : Action α}
    (hk : Protects S reason k) :
    Shields S (Action.store (.setServiceState actor .halted reason idempotency none) >>=
      fun _ => k) := by
  intro m log result m' hrun
  rcases Setting.runs_bind.mp hrun with ⟨e, hfirst, -⟩ | ⟨first, a, m₁, rest, hfirst, hrest, rfl⟩
  · obtain ⟨m₁, now, -, rfl, houtcome, -⟩ := Setting.runs_store.mp hfirst
    refine .of_none ?_
    simp only [List.mem_singleton, forall_eq]
    rintro reason ⟨_, _, hentry⟩
    obtain ⟨hcall, hanswer⟩ := Sigma.mk.inj hentry
    cases hcall
    rw [eq_of_heq hanswer] at houtcome
    cases houtcome
  · obtain ⟨m₁, now, -, rfl, houtcome, -⟩ := Setting.runs_store.mp hfirst
    obtain ⟨hrest, hshield⟩ := hk _ _ _ _ hrest
    refine .cons hrest ?_
    rintro reason' ⟨_, _, hentry⟩ hvalid
    obtain ⟨hcall, -⟩ := Sigma.mk.inj hentry
    cases hcall
    exact hshield hvalid

end Shields

theorem Protects.shields {α : Type} {S : Setting} {reason : String} {x : Action α}
    (h : Protects S reason x) : Shields S x :=
  fun m log result m' hrun => (h m log result m' hrun).1

theorem Protects.bind {α β : Type} {S : Setting} {reason : String} {x : Action α}
    {f : α → Action β} (hx : Protects S reason x) (hf : ∀ a, Shields S (f a)) :
    Protects S reason (x >>= f) := by
  intro m log result m' hrun
  refine ⟨hx.shields.bind hf m log result m' hrun, ?_⟩
  intro hvalid
  rcases Setting.runs_bind.mp hrun with ⟨e, hfirst, -⟩ | ⟨first, a, m₁, rest, hfirst, -, rfl⟩
  · exact (hx _ _ _ _ hfirst).2 hvalid
  · exact ((hx _ _ _ _ hfirst).2 hvalid).mono fun e he => List.mem_append_left _ he

theorem Protects.attempt {α : Type} {S : Setting} {reason : String} {x : Action α}
    (hx : Protects S reason x) : Protects S reason (Action.attempt x) := by
  intro m log result m' hrun
  obtain ⟨outcome, hrun, -⟩ := Setting.runs_attempt.mp hrun
  exact hx _ _ _ _ hrun

theorem Protects.withGate {α : Type} {S : Setting} {reason : String} {x : Action α}
    (hx : Protects S reason x) (gate : Gate) : Protects S reason (Action.withGate gate x) := by
  intro m log result m' hrun
  refine ⟨hx.shields.withGate gate m log result m' hrun, ?_⟩
  intro hvalid
  obtain ⟨m₁, m₂, inner, m₃, m₄, hinner, rfl⟩ := Setting.runs_withGate hrun
  refine ((hx _ _ _ _ hinner).2 hvalid).mono ?_
  simp only [List.cons_append, List.mem_cons, List.mem_append]
  exact fun e he => Or.inr (Or.inl he)

theorem Shields.haltAttempt {α : Type} {S : Setting} {actor reason : String}
    {f : Except StoreError Unit → Action α} (hok : Protects S reason (f (.ok ())))
    (herror : ∀ e, Shields S (f (.error e))) :
    Shields S (Action.perform (.store (.setServiceState actor .halted reason none none)) >>=
      f) := by
  intro m log result m' hrun
  obtain ⟨m₁, r, m₂, rest, -, -, hrest, rfl⟩ := Setting.runs_performBind.mp hrun
  cases r with
  | ok value =>
    obtain ⟨hrest, hshield⟩ := hok _ _ _ _ hrest
    refine .cons hrest ?_
    rintro reason' ⟨_, _, hentry⟩ hvalid
    obtain ⟨hcall, -⟩ := Sigma.mk.inj hentry
    cases hcall
    exact hshield hvalid
  | error e =>
    refine .cons (herror e _ _ _ _ hrest) ?_
    rintro reason' ⟨_, _, hentry⟩
    obtain ⟨hcall, hanswer⟩ := Sigma.mk.inj hentry
    cases hcall
    cases eq_of_heq hanswer

theorem createCancellation_records {config : StoreConfig} {now : Time} {m : Memory}
    {reason : String} :
    RecordsProtective config reason
      (m, ⟨.store (.createCancellation "system" (protectiveRequest reason) none),
        (StoreCall.createCancellation "system" (protectiveRequest reason) none).answer config now
          m.db⟩) := by
  refine ⟨m.db.nextUuid, now, rfl, ?_⟩
  simp [StoreCall.after, StoreCall.run, createCancellation, recordIdempotency, cancellationTargets,
    protectiveRequest, Db.openOrderIds, Db.appendEvent]

namespace Coordinator

variable (self : Coordinator) (S : Setting)

/-- A valid protective request is recorded before anything is cancelled. -/
theorem cancelInner_records {reason : String}
    (hvalid : (protectiveRequest reason).validate = .ok ()) {m m' : Memory} {log : Log}
    {result : Except CoordinatorError (Uuid × List Uuid)}
    (hrun : S.Runs (self.cancelInner "system" (protectiveRequest reason)) m log result m') :
    ∃ e ∈ log, RecordsProtective S.config reason e := by
  unfold cancelInner at hrun
  rw [hvalid] at hrun
  rcases Setting.runs_bind.mp hrun with ⟨e, hfirst, -⟩ | ⟨first, a, m₁, rest, hfirst, -, rfl⟩
  all_goals obtain ⟨m₂, now, -, rfl, -, -⟩ := Setting.runs_store.mp hfirst
  · exact ⟨_, List.mem_singleton.mpr rfl, createCancellation_records⟩
  · exact ⟨_, List.mem_append_left _ (List.mem_singleton.mpr rfl), createCancellation_records⟩

theorem protectiveCancellation_records {reason : String}
    (hvalid : (protectiveRequest reason).validate = .ok ()) {m m' : Memory} {log : Log}
    {result : Except CoordinatorError Unit}
    (hrun : S.Runs (self.action (.protectiveCancellation reason)) m log result m') :
    ∃ e ∈ log, RecordsProtective S.config reason e := by
  have hcancel : ∃ log' result' m₁, S.Runs (self.cancel "system" (protectiveRequest reason)) m
      log' result' m₁ ∧ ∀ e ∈ log', e ∈ log := by
    rcases Setting.runs_bind.mp hrun with ⟨e, hfirst, -⟩ | ⟨first, a, m₁, rest, hfirst, -, rfl⟩
    · exact ⟨log, _, m', hfirst, fun _ => id⟩
    · exact ⟨first, _, m₁, hfirst, fun _ => List.mem_append_left _⟩
  obtain ⟨log', result', m₁, hcancel, hsub⟩ := hcancel
  obtain ⟨_, _, outer, _, _, houter, rfl⟩ := Setting.runs_withGate hcancel
  obtain ⟨_, _, inner, _, _, hinner, rfl⟩ := Setting.runs_withGate houter
  obtain ⟨e, he, hrecords⟩ := self.cancelInner_records S hvalid hinner
  exact ⟨e, hsub e (by simp [he]), hrecords⟩

section Halting

variable (hpolicy : self.policy.cancelOnHalt = true)
include hpolicy

theorem spawnProtectiveCancellation_protects (reason : String) :
    Protects S reason (self.spawnProtectiveCancellation reason) := by
  intro m log result m' hrun
  rw [spawnProtectiveCancellation, if_pos hpolicy] at hrun
  obtain ⟨m₁, ⟨⟩, -, -, rfl, -⟩ := Setting.runs_perform.mp hrun
  refine ⟨.of_none ?_, fun _ => Or.inr ⟨_, List.mem_singleton.mpr rfl, rfl⟩⟩
  simp only [List.mem_singleton, forall_eq]
  rintro reason ⟨_, _, hentry⟩
  cases hentry

theorem reconcileStartedInner_shields (id : Uuid) : Shields S (self.reconcileStartedInner id) := by
  have hspawn : ∀ reason, Protects S reason (self.spawnProtectiveCancellation reason) :=
    self.spawnProtectiveCancellation_protects S hpolicy
  refine .bind (.of_makes (.perform rfl)) fun answer => ?_
  cases answer.orElse (VenueError.unavailable "reconciliation deadline exceeded") with
  | error e =>
    exact .bind (.of_makes (.store rfl)) fun _ =>
      .halt ((hspawn _).bind fun _ => .of_makes .throw)
  | ok result =>
    refine .bind (.of_makes ((self.collectFindings_makes result).mono ?_)) fun findings => ?_
    · intro c hc
      cases c with
      | store call => cases call <;> first | rfl | cases hc
      | _ => rfl
    · refine .bind (.of_makes (.store rfl)) fun _ => .bind (.of_makes (.store rfl)) fun _ =>
        .bind (.of_makes (.store rfl)) fun _ => ?_
      split
      · exact .of_makes .pure
      · exact .halt ((hspawn _).bind fun _ => .of_makes .pure)

theorem haltAfterFailedReconciliation_shields : Shields S self.haltAfterFailedReconciliation := by
  refine .bind (.of_makes (.perform rfl)) fun control => ?_
  cases control with
  | error e => exact .of_makes .pure
  | ok control =>
    dsimp only
    split
    · exact .of_makes .pure
    · exact .haltAttempt (self.spawnProtectiveCancellation_protects S hpolicy _)
        fun e => .of_makes .pure

theorem closeFailedReconciliation_shields (id : Uuid) (error : CoordinatorError) :
    Shields S (self.closeFailedReconciliation id error) := by
  have hhalt := self.haltAfterFailedReconciliation_shields S hpolicy
  refine .bind (.of_makes (.perform rfl)) fun record => ?_
  cases record with
  | error e => exact hhalt
  | ok record =>
    dsimp only
    split
    · exact .bind (.of_makes (.perform rfl)) fun _ => hhalt
    · exact hhalt

theorem reconcileStarted_shields (id : Uuid) : Shields S (self.reconcileStarted id) := by
  refine .bind (self.reconcileStartedInner_shields S hpolicy id).attempt fun result => ?_
  cases result with
  | ok id => exact .of_makes .pure
  | error e =>
    exact .bind (self.closeFailedReconciliation_shields S hpolicy id e) fun _ => .of_makes .throw

theorem reconcileInner_shields (trigger : String) : Shields S (self.reconcileInner trigger) :=
  .bind (.of_makes (.store rfl)) fun id => self.reconcileStarted_shields S hpolicy id

theorem cancelAtVenue_shields (orderId : Uuid) (venueOrderId : Option String)
    (failed : List Uuid) : Shields S (self.cancelAtVenue orderId venueOrderId failed) := by
  cases venueOrderId with
  | none =>
    exact .bind (self.reconcileInner_shields S hpolicy _).attempt fun _ => .of_makes .pure
  | some venueOrderId =>
    refine .bind (.of_makes (.perform rfl)) fun answer => ?_
    cases answer.orElse (VenueError.ambiguous "cancellation deadline exceeded") with
    | ok cancellation => exact .bind (.of_makes (.store rfl)) fun _ => .of_makes .pure
    | error e =>
      exact .bind (self.reconcileInner_shields S hpolicy _).attempt fun _ => .of_makes .pure

theorem cancelTarget_shields (orderId : Uuid) (failed : List Uuid) :
    Shields S (self.cancelTarget orderId failed) := by
  refine .bind (.of_makes (.store rfl)) fun order => ?_
  split
  · exact .of_makes .pure
  · split
    · exact .bind (.of_makes (.store rfl)) fun _ => .of_makes .pure
    · split
      · exact self.cancelAtVenue_shields S hpolicy _ _ _
      · refine .bind (.of_makes (.store rfl)) fun pending => ?_
        split
        · exact .of_makes .pure
        · exact self.cancelAtVenue_shields S hpolicy _ _ _

theorem cancelTargets_shields (targets failed : List Uuid) :
    Shields S (self.cancelTargets targets failed) := by
  induction targets generalizing failed with
  | nil => exact .of_makes .pure
  | cons orderId rest ih =>
    exact .bind (self.cancelTarget_shields S hpolicy orderId failed) fun _ => ih _

theorem executeCancellation_shields (id : Uuid) (targets : List Uuid) :
    Shields S (self.executeCancellation id targets) :=
  .bind (self.cancelTargets_shields S hpolicy targets []) fun _ =>
    .bind (.of_makes (.store rfl)) fun _ => .of_makes .pure

theorem cancelInner_shields (actor : String) (request : CancellationRequest) :
    Shields S (self.cancelInner actor request) := by
  unfold cancelInner
  split
  · exact .of_makes .throw
  · exact .bind (.of_makes (.store rfl)) fun created =>
      .bind (self.executeCancellation_shields S hpolicy _ _) fun _ => .of_makes .pure

theorem cancelInner_protects (reason : String) :
    Protects S reason (self.cancelInner "system" (protectiveRequest reason)) := by
  intro m log result m' hrun
  exact ⟨self.cancelInner_shields S hpolicy _ _ _ _ _ _ hrun,
    fun hvalid => Or.inl (self.cancelInner_records S hvalid hrun)⟩

theorem cancelOnHaltInner_protects (reason : String) :
    Protects S reason (self.cancelOnHaltInner reason) := by
  rw [cancelOnHaltInner, if_pos hpolicy]
  exact (self.cancelInner_protects S hpolicy reason).attempt.bind fun _ => .of_makes .pure

theorem haltInner_shields (actor reason : String) : Shields S (self.haltInner actor reason) := by
  unfold haltInner
  split
  · exact .of_makes .throw
  · exact .halt (self.cancelOnHaltInner_protects S hpolicy reason)

theorem halt_shields (actor reason : String) : Shields S (self.halt actor reason) := by
  unfold halt
  split
  · exact .of_makes .throw
  · exact .halt ((self.cancelOnHaltInner_protects S hpolicy reason).withGate .safety)

theorem haltIdempotent_shields (actor key reason : String) :
    Shields S (self.haltIdempotent actor key reason) := by
  unfold haltIdempotent
  split
  · exact .of_makes .throw
  · exact .halt (self.spawnProtectiveCancellation_protects S hpolicy reason)

end Halting

end Coordinator

/-! ## The halting functions -/

/-- The functions that halt the service. -/
inductive HaltPath where
  | halt (actor reason : String)
  | haltIdempotent (actor idempotencyKey reason : String)
  | haltInner (actor reason : String)
  | reconciliation (id : Uuid)

def HaltPath.action (self : Coordinator) : HaltPath → Action Unit
  | halt actor reason => self.halt actor reason
  | haltIdempotent actor idempotencyKey reason => self.haltIdempotent actor idempotencyKey reason
  | haltInner actor reason => self.haltInner actor reason
  | reconciliation id => do
    let _ ← self.reconcileStarted id

/-- The protective cancellation of a halt is valid and recorded, on the spot or by every execution
of the task it was left to. -/
structure ProtectiveFollows (executor : Coordinator) (config : StoreConfig) (reason : String)
    (after : Log) : Prop where
  valid : (protectiveRequest reason).validate = .ok ()
  recorded : (∃ e ∈ after, RecordsProtective config reason e) ∨
    (∃ e ∈ after, e.2 = ⟨.spawn (.protectiveCancellation reason), ()⟩) ∧
      ∀ (S : Setting) m log result m', S.config = config →
        S.Runs (executor.action (.protectiveCancellation reason)) m log result m' →
          ∃ e ∈ log, RecordsProtective config reason e

theorem HaltPath.shields {self : Coordinator} (hpolicy : self.policy.cancelOnHalt = true)
    (S : Setting) (path : HaltPath) : Shields S (path.action self) := by
  cases path with
  | halt actor reason => exact self.halt_shields S hpolicy actor reason
  | haltIdempotent actor key reason => exact self.haltIdempotent_shields S hpolicy actor key reason
  | haltInner actor reason => exact self.haltInner_shields S hpolicy actor reason
  | reconciliation id =>
    exact .bind (self.reconcileStarted_shields S hpolicy id) fun _ => .of_makes .pure

/-- Where a halting function commits HALTED, the protective cancellation that follows is valid and
recorded for the open orders exactly if the reason has at most 487 bytes. -/
theorem protective_cancellation_follows_iff {self : Coordinator}
    (hpolicy : self.policy.cancelOnHalt = true) {S : Setting} (path : HaltPath) {m m' : Memory}
    {before after : Log} {e : Memory × Sigma Call.Answer} {result : Except CoordinatorError Unit}
    (hrun : S.Runs (path.action self) m (before ++ e :: after) result m') {reason : String}
    (hhalts : Halts reason e) :
    ProtectiveFollows self S.config reason after ↔ reason.utf8ByteSize ≤ 487 := by
  rw [← protectiveRequest_validate]
  refine ⟨ProtectiveFollows.valid, ?_⟩
  intro hvalid
  refine ⟨hvalid, ?_⟩
  have hshielded := path.shields hpolicy S _ _ _ _ hrun before e after reason rfl hhalts hvalid
  rcases hshielded with hrecorded | hspawned
  · exact Or.inl hrecorded
  · refine Or.inr ⟨hspawned, ?_⟩
    intro S' m log result m' hconfig htask
    rw [← hconfig]
    exact self.protectiveCancellation_records S' hvalid htask

abbrev haltCall (reason : String) : StoreCall :=
  .setServiceState "operator" .halted reason (some ⟨"key", "control.halt", .reason reason⟩) none

theorem haltIdempotent_runs {self : Coordinator} (hpolicy : self.policy.cancelOnHalt = true)
    {reason : String} (hreason : trimIsEmpty reason = false) {m : Memory}
    (haccepted : (haltCall reason).answer samplePaperStore 0 m.db = .ok ()) :
    ∃ m₁ m', aloneSetting.Runs (self.haltIdempotent "operator" "key" reason) m
      ([] ++ (m, done (haltCall reason) ()) ::
        [(m₁, ⟨.spawn (.protectiveCancellation reason), ()⟩)])
      (.ok ()) m' := by
  obtain ⟨m₁, hm₁⟩ : ∃ m₁ : Memory, m₁ = { m with
      db := (haltCall reason).after samplePaperStore 0 m.db, past := m.db :: m.past } := ⟨_, rfl⟩
  have hhalt : aloneSetting.Runs (Action.store (haltCall reason)) m
      [(m, done (haltCall reason) ())] (.ok ()) m₁ := by
    refine Setting.runs_store.mpr ⟨m, 0, rfl, ?_, ?_, hm₁⟩
    · rw [show aloneSetting.config = samplePaperStore from rfl, haccepted]
    · rw [show aloneSetting.config = samplePaperStore from rfl, haccepted]
      rfl
  have hspawn : aloneSetting.Runs (self.spawnProtectiveCancellation reason) m₁
      [(m₁, ⟨.spawn (.protectiveCancellation reason), ()⟩)] (.ok ())
      { m₁ with spawned := .protectiveCancellation reason :: m₁.spawned } := by
    rw [Coordinator.spawnProtectiveCancellation, if_pos hpolicy]
    exact Setting.runs_perform.mpr ⟨m₁, (), rfl, rfl, rfl, rfl⟩
  refine ⟨m₁, { m₁ with spawned := .protectiveCancellation reason :: m₁.spawned }, ?_⟩
  unfold Coordinator.haltIdempotent
  rw [hreason]
  exact Setting.runs_bind.mpr (Or.inr ⟨_, (), m₁, _, hhalt, hspawn, rfl⟩)

/-- A halt with a short reason is followed by its protective cancellation. -/
theorem protective_cancellation_follows_iff_short : ∃ (m' : Memory) (after : Log),
    aloneSetting.Runs (HaltPath.action sampleCoordinator
      (.haltIdempotent "operator" "key" "operator halt")) (Memory.ofDb Db.initial [])
      ((Memory.ofDb Db.initial [], done (haltCall "operator halt") ()) :: after) (.ok ()) m' ∧
    (ProtectiveFollows sampleCoordinator samplePaperStore "operator halt" after ↔
      "operator halt".utf8ByteSize ≤ 487) := by
  obtain ⟨m₁, m', hrun⟩ := @haltIdempotent_runs sampleCoordinator rfl "operator halt" (by decide)
    (Memory.ofDb Db.initial []) (by decide +kernel)
  exact ⟨m', _, hrun, protective_cancellation_follows_iff rfl
    (.haltIdempotent "operator" "key" "operator halt") hrun ⟨_, _, rfl⟩⟩

def longReason : Nat → String
  | 0 => ""
  | n + 1 => (longReason n).push 'x'

theorem longReason_size (n : Nat) : (longReason n).utf8ByteSize = n := by
  induction n with
  | zero => rfl
  | succ n ih =>
    rw [longReason, String.utf8ByteSize_push, ih]
    rfl

theorem longReason_blank (n : Nat) : trimIsEmpty (longReason (n + 1)) = false := by
  simp [longReason, trimIsEmpty, String.toList_push, isWhitespace]

/-- The API takes a reason of 500 bytes, the service is halted, and the protective request is
refused. -/
theorem protective_cancellation_refused : Coordinator.validateReason (longReason 500) = true ∧
    ∃ (m' : Memory) (after : Log),
      aloneSetting.Runs (HaltPath.action sampleCoordinator
        (.haltIdempotent "operator" "key" (longReason 500))) (Memory.ofDb Db.initial [])
        ((Memory.ofDb Db.initial [], done (haltCall (longReason 500)) ()) :: after) (.ok ()) m' ∧
      Halts (longReason 500) (Memory.ofDb Db.initial [], done (haltCall (longReason 500)) ()) ∧
      ¬ ProtectiveFollows sampleCoordinator samplePaperStore (longReason 500) after := by
  obtain ⟨m₁, m', hrun⟩ := @haltIdempotent_runs sampleCoordinator rfl (longReason 500)
    (longReason_blank 499) (Memory.ofDb Db.initial []) rfl
  refine ⟨?_, m', _, hrun, ⟨_, _, rfl⟩, ?_⟩
  · simp [Coordinator.validateReason, longReason_blank 499, longReason_size]
  · intro hfollows
    have hshort := (protectiveRequest_validate (longReason 500)).mp hfollows.valid
    rw [longReason_size] at hshort
    omega

end OddsfoxExecution
