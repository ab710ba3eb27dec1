import OddsfoxExecution.Library.LockOrder
import OddsfoxExecution.Coordinator.Kinds
import OddsfoxExecution.Coordinator.Schedule

/-!
# The gates and slots of a process

Every task takes its gates in one order, touches orders only under a gate and
places them only under both the safety gate and the order lifecycle gate, and
ends without a gate or an unfilled slot of the queue.  So no tasks wait for each
other in a circle, nobody else touches an order while one is being placed, and
no slot is lost.
-/

namespace OddsfoxExecution

/-- The order in which gates are taken. -/
def Gate.rank : Gate → Nat
  | .safety | .cancellation => 0
  | .orderLifecycle => 1

/-- The task has a slot of the queue that it has not filled. -/
def HasPermit : Calls → Prop
  | [] => False
  | ⟨.reserveQueue, r⟩ :: made => (r : Bool) = true ∨ HasPermit made
  | ⟨.sendPermit _, _⟩ :: _ | ⟨.dropPermit, _⟩ :: _ => False
  | _ :: made => HasPermit made

/-- What a task promises of its next call, by the gates and the slot it holds; only a worker places
orders. -/
structure GatePromise (task : Task) (made : Calls) (c : Call) : Prop where
  ordered : ∀ gate, c = .lock gate → ∀ held, Holds held made → held.rank < gate.rank
  touching : c.touchesOrders = true → Holds .safety made ∨ Holds .orderLifecycle made
  placing : c.places = true →
    (∃ intentId, task = .worker intentId) ∧ Holds .safety made ∧ Holds .orderLifecycle made
  reserving : c = .reserveQueue → ¬ HasPermit made
  filling : (∃ intentId, c = .sendPermit intentId) ∨ c = .dropPermit → HasPermit made

/-- The gates held are these, and no slot is. -/
structure HoldsJust (held : List Gate) (made : Calls) : Prop where
  gates : ∀ gate, Holds gate made ↔ gate ∈ held
  slot : ¬ HasPermit made

theorem holdsJust_nil : HoldsJust [] [] := ⟨fun _ => by simp [Holds], id⟩

theorem holds_cons_inner {gate : Gate} {e : Sigma Call.Answer} {made : Calls}
    (he : e.1.inner = true) : Holds gate (e :: made) ↔ Holds gate made := by
  obtain ⟨c, r⟩ := e
  cases c with
  | lock | unlock => cases he
  | _ => exact Iff.rfl

theorem hasPermit_cons_inner {e : Sigma Call.Answer} {made : Calls} (he : e.1.inner = true) :
    HasPermit (e :: made) ↔ HasPermit made := by
  obtain ⟨c, r⟩ := e
  cases c with
  | reserveQueue | sendPermit | dropPermit => cases he
  | _ => exact Iff.rfl

/-- A call that takes and gives back nothing is promised by what is held. -/
theorem GatePromise.of_inner {task : Task} {made : Calls} {c : Call} (hinner : c.inner = true)
    (htouching : c.touchesOrders = true → Holds .safety made ∨ Holds .orderLifecycle made)
    (hplacing : c.places = true →
      (∃ intentId, task = .worker intentId) ∧ Holds .safety made ∧ Holds .orderLifecycle made) :
    GatePromise task made c := by
  refine ⟨?_, htouching, hplacing, ?_, ?_⟩
  · rintro gate rfl
    cases hinner
  · rintro rfl
    cases hinner
  · rintro (⟨intentId, rfl⟩ | rfl) <;> cases hinner

/-- A call that touches no order is promised by the gates and the slot alone. -/
theorem GatePromise.of_transfer {task : Task} {made : Calls} {c : Call}
    (htransfers : c.transfers = true)
    (hordered : ∀ gate, c = .lock gate → ∀ held, Holds held made → held.rank < gate.rank)
    (hreserving : c = .reserveQueue → ¬ HasPermit made)
    (hfilling : (∃ intentId, c = .sendPermit intentId) ∨ c = .dropPermit → HasPermit made) :
    GatePromise task made c := by
  refine ⟨hordered, fun h => ?_, fun h => ?_, hreserving, hfilling⟩
  all_goals cases c <;> first | cases h | cases htransfers

/-- Where just these gates are held, the function keeps the promise and leaves them held. -/
def Under {α : Type} (task : Task) (held : List Gate) (x : Action α) : Prop :=
  ∀ made, HoldsJust held made →
    x.run.wp (GatePromise task) (fun made' _ => HoldsJust held made') made

namespace Under

variable {α β : Type} {task : Task} {held : List Gate} {x : Action α}

theorem of_makes {K : Call → Prop} (h : Makes K x) (hinner : ∀ c, K c → c.inner = true)
    (hpromise : ∀ c made, K c → HoldsJust held made → GatePromise task made c) :
    Under task held x := by
  intro made hheld
  refine Prog.wp_mono (Prog.wp_carries (h made) hheld (fun _ c r hholds hc => ?_)
    fun made c hholds hc => hpromise c made hc hholds) fun _ _ hend => hend.1
  have hentry : (⟨c, r⟩ : Sigma Call.Answer).1.inner = true := hinner c hc
  exact ⟨fun gate => (holds_cons_inner hentry).trans (hholds.gates gate),
    fun hpermit => hholds.slot ((hasPermit_cons_inner hentry).mp hpermit)⟩

theorem of_stays {intentId : Uuid} (h : Stays x) (hsafety : .safety ∈ held)
    (hlifecycle : .orderLifecycle ∈ held) : Under (.worker intentId) held x :=
  of_makes h (fun _ => id) fun _ _ hc hholds => .of_inner hc
    (fun _ => Or.inl ((hholds.gates _).mpr hsafety))
    fun _ => ⟨⟨intentId, rfl⟩, (hholds.gates _).mpr hsafety, (hholds.gates _).mpr hlifecycle⟩

theorem of_tends (h : Tends x) (hheld : .safety ∈ held ∨ .orderLifecycle ∈ held) :
    Under task held x := by
  refine of_makes h (fun _ => Call.inner_of_tends) fun c made hc hholds =>
    .of_inner (Call.inner_of_tends hc) (fun _ => ?_) fun hplaces => ?_
  · exact hheld.imp (hholds.gates _).mpr (hholds.gates _).mpr
  · simp [Call.tends, hplaces] at hc

theorem of_aside (h : Aside x) : Under task held x := by
  refine of_makes h (fun _ hc => Call.inner_of_tends (Call.tends_of_aside hc)) fun c made hc _ =>
    .of_inner (Call.inner_of_tends (Call.tends_of_aside hc)) (fun htouches => ?_) fun hplaces => ?_
  · simp [Call.aside, htouches] at hc
  · simp [Call.aside, Call.touchesOrders_of_places hplaces] at hc

theorem pure {a : α} : Under task held (Pure.pure a : Action α) := fun _ hheld => hheld

theorem throw {e : CoordinatorError} : Under task held (MonadExcept.throw e : Action α) :=
  fun _ hheld => hheld

theorem bind {f : α → Action β} (h : Under task held x) (hf : ∀ a, Under task held (f a)) :
    Under task held (x >>= f) := by
  intro made hheld
  rw [Prog.wp_run_bind]
  refine Prog.wp_mono (h made hheld) fun made' result hheld' => ?_
  cases result with
  | ok a => exact hf a made' hheld'
  | error e => exact hheld'

theorem attempt (h : Under task held x) : Under task held (Action.attempt x) := fun made hheld =>
  Prog.wp_run_lift.mpr (h made hheld)

theorem withGate {gate : Gate} (hrank : ∀ other ∈ held, other.rank < gate.rank)
    (h : Under task (gate :: held) x) : Under task held (Action.withGate gate x) := by
  intro made hheld
  unfold Action.withGate
  refine Action.wp_performBind.mpr ⟨.of_transfer rfl ?_ (fun h => nomatch h) (by simp),
    fun _ => ?_⟩
  · rintro _ ⟨⟩ other hother
    exact hrank other ((hheld.gates other).mp hother)
  · have hlocked : HoldsJust (gate :: held) (⟨.lock gate, ()⟩ :: made) := by
      refine ⟨fun other => ?_, hheld.slot⟩
      rw [List.mem_cons, ← hheld.gates other]
      exact or_congr_left eq_comm
    refine Action.wp_attemptBind.mpr (Prog.wp_mono (h _ hlocked) fun made' result hheld' => ?_)
    have hunlocked : HoldsJust held (⟨.unlock gate, ()⟩ :: made') := by
      refine ⟨fun other => (and_congr_right' (hheld'.gates other)).trans ?_, hheld'.slot⟩
      rw [List.mem_cons]
      refine ⟨fun ⟨hne, hmem⟩ => hmem.resolve_left (Ne.symm hne), fun hmem => ⟨?_, Or.inr hmem⟩⟩
      rintro rfl
      exact Nat.lt_irrefl _ (hrank _ hmem)
    refine Action.wp_performBind.mpr ⟨.of_transfer rfl (fun _ h => nomatch h)
      (fun h => nomatch h) (by simp), fun _ => ?_⟩
    cases result <;> exact hunlocked

end Under

namespace Coordinator

variable {self : Coordinator} {task : Task}

/-! ## The functions that take gates -/

theorem under_gated {α : Type} {gate : Gate} {x : Action α} (h : Tends x)
    (hgate : gate = .safety ∨ gate = .orderLifecycle) : Under task [] (Action.withGate gate x) := by
  refine .withGate (fun _ h => absurd h List.not_mem_nil) (.of_tends h ?_)
  rcases hgate with rfl | rfl
  · exact Or.inl List.mem_cons_self
  · exact Or.inr List.mem_cons_self

theorem under_cancellation {α : Type} {x : Action α} (h : Tends x) :
    Under task [] (Action.withGate .cancellation (Action.withGate .orderLifecycle x)) := by
  refine .withGate (fun _ h => absurd h List.not_mem_nil) (.withGate ?_ (.of_tends h ?_))
  · exact fun other hother => List.mem_singleton.mp hother ▸ Nat.zero_lt_one
  · exact Or.inr List.mem_cons_self

theorem under_processIntent {intentId : Uuid} :
    Under (.worker intentId) [] (self.processIntent intentId) := by
  refine .withGate (fun _ h => absurd h List.not_mem_nil) (.withGate ?_ ?_)
  · exact fun other hother => List.mem_singleton.mp hother ▸ Nat.zero_lt_one
  · exact .of_stays stays_processIntentInner (by simp) List.mem_cons_self

theorem under_reconcile {trigger : String} : Under task [] (self.reconcile trigger) :=
  under_gated tends_reconcileInner (Or.inl rfl)

theorem under_cancel {actor : String} {request : CancellationRequest} :
    Under task [] (self.cancel actor request) := under_cancellation tends_cancelInner

theorem aside_setServiceState {actor reason : String} {next : ServiceState} :
    Aside (setServiceState actor next reason) := .store rfl

theorem under_halt {actor reason : String} : Under task [] (self.halt actor reason) := by
  unfold halt
  split
  · exact .throw
  · exact .bind (.of_aside aside_setServiceState) fun _ =>
      under_gated tends_cancelOnHaltInner (Or.inl rfl)

theorem under_shutdown {cancelOnHalt : Bool} : Under task [] (self.shutdown cancelOnHalt) := by
  have hrest : Under task [] (do
      let _ ← self.reconcile "shutdown"
      setServiceState "system" .halted
        "graceful shutdown completed; explicit resume is required") :=
    .bind under_reconcile fun _ => .of_aside aside_setServiceState
  refine .bind (.of_aside aside_setServiceState) fun _ => ?_
  dsimp only
  split
  · exact .bind under_cancel fun _ => hrest
  · exact hrest

theorem under_heartbeatTick : Under task [] self.heartbeatTick := by
  have hhalted : ∀ reason trigger, Under task [] (do
      let _ ← Action.attempt (self.halt "system" reason)
      let _ ← Action.attempt (self.reconcile trigger)
      pure ()) := fun _ _ =>
    .bind under_halt.attempt fun _ => .bind under_reconcile.attempt fun _ => .pure
  refine .bind (.of_aside (.perform rfl)) fun answer => ?_
  cases answer with
  | error | timeout => exact hhalted _ _
  | ok =>
    refine .bind (.of_aside (.perform rfl)) fun _ => ?_
    refine .bind (.of_aside (.perform rfl)) fun required => ?_
    split
    · exact .bind under_reconcile.attempt fun _ => .pure
    · exact .pure

/-! ## API handlers -/

theorem under_unlessReplayed {actorId key operation : String} {body : RequestBody}
    {mutation : Action Unit} (h : Under task [] mutation) :
    Under task [] (unlessReplayed actorId key operation body mutation) := by
  refine .bind (.of_aside (.store rfl)) fun replay => ?_
  split
  · exact .pure
  · exact h

/-- The slot that is reserved is filled or given back however the admission ends. -/
theorem under_handleSubmitIntent {actorId key : String} {request : OrderIntentRequest} :
    Under task [] (handleSubmitIntent actorId key request) := by
  refine .bind (.of_aside (.store rfl)) fun replay => ?_
  split
  · exact .pure
  · intro made hheld
    refine Action.wp_performBind.mpr ⟨.of_transfer rfl (fun _ h => nomatch h)
      (fun _ => hheld.slot) (by simp), fun reserved => ?_⟩
    split
    · rename_i hreserved
      refine Action.wp_performBind.mpr ⟨.of_inner rfl (fun h => nomatch h) (fun h => nomatch h),
        fun admission => ?_⟩
      have hpermit : HasPermit (⟨.store (.admitIntent actorId key request), admission⟩ ::
          ⟨.reserveQueue, reserved⟩ :: made) := Or.inl hreserved
      have hdone : ∀ c r, c = .dropPermit ∨ (∃ intentId, c = .sendPermit intentId) →
          HoldsJust [] (⟨c, r⟩ :: ⟨.store (.admitIntent actorId key request), admission⟩ ::
            ⟨.reserveQueue, reserved⟩ :: made) := by
        rintro c r (rfl | ⟨intentId, rfl⟩) <;> exact ⟨hheld.gates, id⟩
      split
      · exact Action.wp_perform.mpr ⟨.of_transfer rfl (fun _ h => nomatch h)
          (fun h => nomatch h) fun _ => hpermit, fun _ => hdone _ _ (Or.inr ⟨_, rfl⟩)⟩
      · exact Action.wp_perform.mpr ⟨.of_transfer rfl (fun _ h => nomatch h)
          (fun h => nomatch h) fun _ => hpermit, fun _ => hdone _ _ (Or.inl rfl)⟩
      · exact Action.wp_performBind.mpr ⟨.of_transfer rfl (fun _ h => nomatch h)
          (fun h => nomatch h) fun _ => hpermit, fun _ => hdone _ _ (Or.inl rfl)⟩
    · rename_i hreserved
      exact ⟨hheld.gates, fun hpermit => hpermit.elim hreserved hheld.slot⟩

theorem under_handleCancel {actorId key : String} {request : CancellationRequest} :
    Under task [] (handleCancel actorId key request) := by
  refine under_unlessReplayed (.of_aside ?_)
  split
  · exact .throw
  · exact .bind (.store rfl) fun _ => .perform rfl

theorem under_handleHalt {actorId key reason : String} :
    Under task [] (self.handleHalt actorId key reason) := by
  unfold handleHalt
  split
  · refine under_unlessReplayed (.of_aside ?_)
    unfold haltIdempotent
    split
    · exact .throw
    · exact .bind (.store rfl) fun _ => aside_spawnProtectiveCancellation
  · exact .throw

theorem under_handleResume {actorId key reason : String} :
    Under task [] (self.handleResume actorId key reason) := by
  unfold handleResume
  split
  · exact under_unlessReplayed (under_gated tends_resumeInner (Or.inl rfl))
  · exact .throw

theorem under_handleReconcile {actorId key : String} :
    Under task [] (handleReconcile actorId key) :=
  under_unlessReplayed (.of_aside (.bind (.store rfl) fun _ => .perform rfl))

theorem aside_background {call : StoreCall} (hcall : call.background = true) :
    Aside (Action.store call) := by
  refine .store ?_
  cases call with
  | _ => first | rfl | cases hcall

/-! ## Every task -/

theorem under_action
    (hoperation : ∀ call, task = .operation call → call.background = true) :
    Under task [] (self.action task) := by
  cases task with
  | main =>
    exact .bind (under_gated tends_startupInner (Or.inl rfl)) fun _ => .of_aside (.perform rfl)
  | worker =>
    exact .bind under_processIntent.attempt fun _ => .of_aside (.perform rfl)
  | scheduledReconciliation => exact .bind under_reconcile fun _ => .pure
  | heartbeat => exact under_heartbeatTick
  | shutdown => exact under_shutdown
  | submitIntent => exact under_handleSubmitIntent
  | cancel => exact under_handleCancel
  | halt => exact under_handleHalt
  | resume => exact under_handleResume
  | reconcile => exact under_handleReconcile
  | cancellation => exact under_cancellation tends_executeCancellation
  | reconciliation =>
    exact .bind (under_gated tends_reconcileStarted (Or.inl rfl)) fun _ => .pure
  | protectiveCancellation => exact .bind under_cancel fun _ => .pure
  | operation call =>
    exact .bind (.of_aside (aside_background (hoperation call rfl))) fun _ => .pure

/-- Every task that may begin keeps the promise, and ends without a gate. -/
theorem program_gated {m m' : Memory}
    (harrives : task.arrives self.requiresHeartbeat m m') :
    (self.program task).wp (GatePromise task) (fun made _ => HoldsJust [] made) [] := by
  refine under_action ?_ [] holdsJust_nil
  rintro call rfl
  exact harrives.1

end Coordinator

/-! ## Runs -/

def Waits (s : System) (t : Nat) (gate : Gate) : Prop :=
  ∃ task made next, s.threads t = some ⟨task, made, .call (.lock gate) next⟩

def WaitsOn (s : System) : Nat → Nat → Prop :=
  LockOrder.WaitsFor (Waits s) fun t gate => s.memory.gates gate = some t

def Call.releases : Call → Bool
  | .unlock _ => true
  | _ => false

/-- The task has made a call that takes an intent to the venue, and has not given back a gate
since. -/
def onTheWay : Calls → Bool
  | [] => false
  | e :: made => !e.1.releases && (e.1.places || onTheWay made)

/-- The task is on the way to the venue with an order, or about to set out: from the call that
decides its risk, or reads what was prepared of it before, until it gives its gates back, which is
after the call that records the outcome. -/
def Placing (thread : Thread Call Call.Answer Task (Except CoordinatorError Unit)) : Prop :=
  onTheWay thread.made = true ∨ ∃ c next, thread.rest = .call c next ∧ c.places = true

theorem Call.inner_of_places {c : Call} (h : c.places = true) : c.inner = true := by
  cases c with
  | lock | unlock | reserveQueue | sendPermit | dropPermit => cases h
  | _ => rfl

/-- A task on the way made such a call and gave back no gate after it. -/
theorem split_of_onTheWay {made : Calls} (h : onTheWay made = true) :
    ∃ after e before, made = after ++ e :: before ∧ e.1.places = true ∧
      ∀ k ∈ after, k.1.releases = false := by
  induction made with
  | nil => cases h
  | cons k made ih =>
    simp only [onTheWay, Bool.and_eq_true, Bool.not_eq_true', Bool.or_eq_true] at h
    obtain ⟨hkept, hplaces | hrest⟩ := h
    · exact ⟨[], k, made, rfl, hplaces, by simp⟩
    · obtain ⟨after, e, before, rfl, hplaces, hafter⟩ := ih hrest
      exact ⟨k :: after, e, before, rfl, hplaces, List.forall_mem_cons.mpr ⟨hkept, hafter⟩⟩

theorem holds_of_kept {gate : Gate} {after before : Calls} (h : Holds gate before)
    (hafter : ∀ k ∈ after, k.1.releases = false) : Holds gate (after ++ before) := by
  induction after with
  | nil => exact h
  | cons k after ih =>
    obtain ⟨hk, hafter⟩ := List.forall_mem_cons.mp hafter
    have hheld := ih hafter
    obtain ⟨c, r⟩ := k
    cases c with
    | lock => exact Or.inr hheld
    | unlock => cases hk
    | _ => exact hheld

namespace Coordinator.Reaches

variable {self : Coordinator} {config : StoreConfig} {guard : CallGuard} {s : System}

theorem gated (h : self.Reaches config guard s) {t : Nat}
    {thread : Thread Call Call.Answer Task (Except CoordinatorError Unit)}
    (ht : s.threads t = some thread) :
    thread.rest.wp (GatePromise thread.task) (fun made _ => HoldsJust [] made) thread.made :=
  Machine.Reaches.promised (fun _ _ _ => program_gated) h ht

theorem placing_holds (h : self.Reaches config guard s) {t : Nat}
    {thread : Thread Call Call.Answer Task (Except CoordinatorError Unit)}
    (ht : s.threads t = some thread) (hplacing : Placing thread) :
    Holds .safety thread.made ∧ Holds .orderLifecycle thread.made := by
  rcases hplacing with hway | ⟨c, next, hrest, hplaces⟩
  · -- the gates that were held when the call was made are still held
    obtain ⟨after, e, before, hmade, hplaces, hkept⟩ := split_of_onTheWay hway
    have hown := (h.consistent.own t thread ht).trans hmade
    obtain ⟨_, event, earlier, hsplit, rfl, rfl, -, rfl⟩ := ownCalls_split hown
    have hpromise : GatePromise event.task (ownCalls event.thread earlier) event.entry.1 :=
      Machine.Reaches.kept (fun _ _ _ => program_gated) h hsplit
    obtain ⟨hsafety, hlifecycle⟩ := (hpromise.placing hplaces).2
    have hinner := Call.inner_of_places hplaces
    rw [hmade]
    exact ⟨holds_of_kept ((holds_cons_inner hinner).mpr hsafety) hkept,
      holds_of_kept ((holds_cons_inner hinner).mpr hlifecycle) hkept⟩
  · have hgated := h.gated ht
    rw [hrest] at hgated
    exact (hgated.1.placing hplaces).2

/-- While a task takes an order to the venue, from the risk decision until it gives its gates back,
no other task is at a call that touches orders. -/
theorem placed_alone (h : self.Reaches config guard s) {t t' : Nat}
    {thread thread' : Thread Call Call.Answer Task (Except CoordinatorError Unit)}
    (ht : s.threads t = some thread) (ht' : s.threads t' = some thread')
    (hplacing : Placing thread) (hother : t' ≠ t) {c : Call}
    {next : c.Answer → Prog Call Call.Answer (Except CoordinatorError Unit)}
    (hrest : thread'.rest = .call c next) : c.touchesOrders = false := by
  obtain ⟨hsafety, hlifecycle⟩ := h.placing_holds ht hplacing
  have hgated := h.gated ht'
  rw [hrest] at hgated
  cases htouches : c.touchesOrders with
  | false => rfl
  | true =>
    rcases hgated.1.touching htouches with hheld | hheld
    · exact absurd (h.holder_unique ⟨_, ht', hheld⟩ ⟨_, ht, hsafety⟩) hother
    · exact absurd (h.holder_unique ⟨_, ht', hheld⟩ ⟨_, ht, hlifecycle⟩) hother

theorem gates_ordered (h : self.Reaches config guard s) :
    LockOrder.Ordered (Waits s) (fun t gate => s.memory.gates gate = some t) Gate.rank := by
  rintro t gate held ⟨task, made, next, ht⟩ hheld
  obtain ⟨thread, ht', hholds⟩ := (h.gate_held held t).mp hheld
  obtain rfl := Option.some.inj (ht.symm.trans ht')
  exact (h.gated ht).1.ordered gate rfl held hholds

theorem waits_once {t : Nat} {gate gate' : Gate} (h : Waits s t gate) (h' : Waits s t gate') :
    gate = gate' := by
  obtain ⟨_, _, _, ht⟩ := h
  obtain ⟨_, _, _, ht'⟩ := h'
  cases ht.symm.trans ht'
  rfl

/-- No tasks wait for each other in a circle, and whoever waits for a gate waits in the end for a
live task that goes on: it has a call to make that no held gate keeps it from. -/
theorem gates_never_deadlock (h : self.Reaches config guard s) :
    (∀ t, ¬ Relation.TransGen (WaitsOn s) t t) ∧
      ∀ t holder, WaitsOn s t holder →
        ∃ runner task made c next, Relation.ReflTransGen (WaitsOn s) holder runner ∧
          s.threads runner = some ⟨task, made, .call c next⟩ ∧
            ∀ gate, c = .lock gate → s.memory.gates gate = none := by
  refine ⟨h.gates_ordered.acyclic fun _ _ _ => waits_once, fun t holder hwaits => ?_⟩
  obtain ⟨gate, -, hheld⟩ := hwaits
  have hbound : ∀ gate : Gate, gate.rank ≤ 1 := fun gate => by cases gate <;> decide
  obtain ⟨runner, hchain, ⟨gate', hheld'⟩, hfree⟩ :=
    h.gates_ordered.exists_runner hbound hheld
  obtain ⟨thread, ht, hholds⟩ := (h.gate_held gate' runner).mp hheld'
  obtain ⟨task, made, rest⟩ := thread
  cases rest with
  | pure value =>
    -- a task that has ended holds no gate
    exact absurd (((h.gated ht).gates gate').mp hholds) List.not_mem_nil
  | call c next =>
    refine ⟨runner, task, made, c, next, hchain, ht, ?_⟩
    rintro gate'' rfl
    refine Option.eq_none_iff_forall_ne_some.mpr fun other hother => ?_
    exact hfree other ⟨gate'', ⟨task, made, next, ht⟩, hother⟩

end Coordinator.Reaches

/-! ## Slots -/

/-- The slots that are reserved and not filled are those of live tasks, one each, and the queue
with them is not over its bound. -/
structure SlotsKept (s : System) : Prop where
  nodup : s.memory.permits.Nodup
  held : ∀ t, t ∈ s.memory.permits ↔ ∃ thread, s.threads t = some thread ∧ HasPermit thread.made
  bounded : s.memory.queue.length + s.memory.permits.length ≤ 100

/-- What a call that neither takes nor gives back a slot does to the queue. -/
theorem slots_of_other {config : StoreConfig} {m m' : Memory} {t : Nat} {c : Call} {r : c.Answer}
    (made : Calls) (h : c.answers config m t r m') (hreserve : c ≠ .reserveQueue)
    (hsend : ∀ intentId, c ≠ .sendPermit intentId) (hdrop : c ≠ .dropPermit) :
    m'.permits = m.permits ∧ (HasPermit (⟨c, r⟩ :: made) ↔ HasPermit made) ∧
      (m'.queue = m.queue ∨ m.hasSlot = true ∧ m'.queue.length = m.queue.length + 1) := by
  cases c with
  | store call =>
    obtain ⟨now, -, rfl⟩ := h
    exact ⟨rfl, Iff.rfl, Or.inl rfl⟩
  | enqueue intentId =>
    obtain ⟨hslot, rfl⟩ := h
    exact ⟨rfl, Iff.rfl, Or.inr ⟨hslot, by simp⟩⟩
  | lock | takeDeferred =>
    obtain ⟨-, rfl⟩ := h
    exact ⟨rfl, Iff.rfl, Or.inl rfl⟩
  | reserveQueue => exact absurd rfl hreserve
  | sendPermit intentId => exact absurd rfl (hsend intentId)
  | dropPermit => exact absurd rfl hdrop
  | _ =>
    cases h
    exact ⟨rfl, Iff.rfl, Or.inl rfl⟩

theorem Task.arrives_slots {requiresHeartbeat : Bool} {m m' : Memory} {task : Task}
    (h : task.arrives requiresHeartbeat m m') :
    m'.permits = m.permits ∧ m'.queue.length ≤ m.queue.length := by
  cases task with
  | worker =>
    obtain ⟨-, rest, hqueue, rfl⟩ := h
    exact ⟨rfl, by simp [hqueue]⟩
  | cancellation | reconciliation | protectiveCancellation =>
    obtain ⟨_, _, -, rfl⟩ := h
    exact ⟨rfl, Nat.le_refl _⟩
  | scheduledReconciliation =>
    cases h
    exact ⟨rfl, Nat.le_refl _⟩
  | _ =>
    obtain ⟨-, rfl⟩ := h
    exact ⟨rfl, Nat.le_refl _⟩

namespace SlotsKept

variable {s : System} (h : SlotsKept s)

include h

/-- A call moves the slots rightly when it does so for the task that makes it. -/
theorem perform {t : Nat} {task : Task} {made : Calls} {entry : Sigma Call.Answer}
    {rest : Prog Call Call.Answer (Except CoordinatorError Unit)} {memory : Memory}
    (hnodup : memory.permits.Nodup) (hown : t ∈ memory.permits ↔ HasPermit (entry :: made))
    (hothers : ∀ t', t' ≠ t → (t' ∈ memory.permits ↔ t' ∈ s.memory.permits))
    (hbounded : memory.queue.length + memory.permits.length ≤ 100) :
    SlotsKept (s.perform t task made entry rest memory) := by
  refine ⟨hnodup, fun t' => ?_, hbounded⟩
  by_cases ht : t' = t
  · subst ht
    simpa [Pool.perform] using hown
  · simpa [Pool.perform, ht] using (hothers t' ht).trans (h.held t')

/-- A task that starts has no slot yet. -/
theorem add {self : Coordinator} {config : StoreConfig} {task : Task} {memory : Memory}
    (hfresh : s.threads s.fresh = none) (hpermits : memory.permits = s.memory.permits)
    (hqueue : memory.queue.length ≤ s.memory.queue.length) :
    SlotsKept (Pool.add (self.machine config) s task memory) := by
  refine ⟨hpermits ▸ h.nodup, fun t => ?_, ?_⟩
  · change t ∈ memory.permits ↔ _
    rw [hpermits, h.held t]
    simp only [Pool.add]
    by_cases ht : t = s.fresh
    · subst ht
      simp [hfresh, HasPermit]
    · simp [Function.update_of_ne ht]
  · change memory.queue.length + memory.permits.length ≤ 100
    rw [hpermits]
    exact (Nat.add_le_add_right hqueue _).trans h.bounded

/-- A task that is dropped gives its slot back. -/
theorem remove {t : Nat} {memory : Memory} (hpermits : memory.permits = s.memory.permits.erase t)
    (hqueue : memory.queue = s.memory.queue) : SlotsKept (s.remove t memory) := by
  refine ⟨hpermits ▸ h.nodup.erase t, fun t' => ?_, ?_⟩
  · change t' ∈ memory.permits ↔ _
    rw [hpermits, h.nodup.mem_erase_iff]
    simp only [Pool.remove]
    by_cases ht : t' = t
    · simp [ht]
    · simpa [ht, Function.update_of_ne ht] using h.held t'
  · change memory.queue.length + memory.permits.length ≤ 100
    rw [hpermits, hqueue]
    exact (Nat.add_le_add_left (List.length_erase_le) _).trans h.bounded

/-- Every call keeps the slots, made by a task that has a slot exactly when `permits` lists it. -/
theorem answered {config : StoreConfig} {t : Nat} {task : Task} {made : Calls} {c : Call}
    {r : c.Answer} {rest : Prog Call Call.Answer (Except CoordinatorError Unit)} {memory : Memory}
    (hown : t ∈ s.memory.permits ↔ HasPermit made) (hpromise : GatePromise task made c)
    (hanswer : c.answers config s.memory t r memory) :
    SlotsKept (s.perform t task made ⟨c, r⟩ rest memory) := by
  have hbounded := h.bounded
  by_cases hreserve : c = .reserveQueue
  · subst hreserve
    obtain ⟨rfl, rfl⟩ := hanswer
    have hnone : t ∉ s.memory.permits := fun hmem => hpromise.reserving rfl (hown.mp hmem)
    cases hslot : s.memory.hasSlot with
    | false =>
      exact h.perform h.nodup (by simpa [HasPermit] using hown) (fun _ _ => Iff.rfl) hbounded
    | true =>
      have hfree : s.memory.queue.length + s.memory.permits.length < 100 :=
        of_decide_eq_true hslot
      refine h.perform (List.nodup_cons.mpr ⟨hnone, h.nodup⟩) (by simp [HasPermit])
        (fun t' ht' => by simp [ht']) ?_
      simp only [if_true, List.length_cons]
      omega
  · by_cases hback : (∃ intentId, c = .sendPermit intentId) ∨ c = .dropPermit
    · have hmem : t ∈ s.memory.permits := hown.mpr (hpromise.filling hback)
      have hgiven : memory.permits = s.memory.permits.erase t ∧
          memory.queue.length ≤ s.memory.queue.length + 1 := by
        rcases hback with ⟨intentId, rfl⟩ | rfl
        · cases hanswer
          exact ⟨rfl, by simp⟩
        · cases hanswer
          exact ⟨rfl, Nat.le_succ _⟩
      obtain ⟨hpermits, hqueue⟩ := hgiven
      have hlost : ¬ HasPermit (⟨c, r⟩ :: made) := by
        rcases hback with ⟨intentId, rfl⟩ | rfl <;> exact id
      refine h.perform (hpermits ▸ h.nodup.erase t) ?_ (fun t' ht' => ?_) ?_
      · rw [hpermits, h.nodup.mem_erase_iff]
        simp [hlost]
      · rw [hpermits, h.nodup.mem_erase_iff]
        exact and_iff_right ht'
      · have hlength := List.length_erase_of_mem hmem
        have hpos := List.length_pos_of_mem hmem
        rw [hpermits]
        omega
    · obtain ⟨hpermits, hsame, hqueue⟩ := slots_of_other made hanswer hreserve
        (fun intentId heq => hback (Or.inl ⟨intentId, heq⟩)) fun heq => hback (Or.inr heq)
      refine h.perform (hpermits ▸ h.nodup) ?_ (fun _ _ => by rw [hpermits]) ?_
      · rw [hpermits, hsame]
        exact hown
      · rw [hpermits]
        rcases hqueue with hqueue | ⟨hslot, hqueue⟩
        · rwa [hqueue]
        · have hfree : s.memory.queue.length + s.memory.permits.length < 100 :=
            of_decide_eq_true hslot
          omega

end SlotsKept

/-- No slot of the queue is lost, whatever becomes of the handler that reserved it, and no more
are given out than there are. -/
theorem Coordinator.Reaches.slots_kept {self : Coordinator} {config : StoreConfig}
    {guard : CallGuard} {s : System} (h : self.Reaches config guard s) : SlotsKept s := by
  induction h with
  | start => exact ⟨List.nodup_nil, by simp [Memory.ofDb], by simp [Memory.ofDb]⟩
  | @call p t task made c next r memory hp ht hanswer hguard ih =>
    have hown : t ∈ p.memory.permits ↔ HasPermit made := (ih.held t).trans (by simp [ht])
    exact ih.answered hown (gated hp ht).1 hanswer
  | @arrive p task memory hp harrives ih =>
    obtain ⟨hpermits, hqueue⟩ := Task.arrives_slots harrives
    exact ih.add hp.consistent.fresh_free hpermits hqueue
  | @drop p t thread hp ht hdroppable ih => exact ih.remove rfl rfl
  | surroundings _ hchange ih =>
    obtain ⟨_, -, rfl⟩ := hchange
    exact ⟨ih.nodup, ih.held, ih.bounded⟩
  | crash => exact ⟨List.nodup_nil, by simp [Pool.crash, Coordinator.machine, Memory.ofDb],
      by simp [Pool.crash, Coordinator.machine, Memory.ofDb]⟩

/-- A handler has reserved its slot and has not admitted its intent yet. -/
theorem slots_kept_reserved : ∃ s,
    sampleCoordinator.Reaches samplePaperStore (fun _ _ _ => True) s ∧ s.memory.permits = [1] ∧
      SlotsKept s := by
  have hsample : (sampleCoordinator.execute samplePaperStore (fun _ _ => true)
      [.arrive .main, .calls 0 22 0 sampleVenue,
        .arrive (.submitIntent "operator" "first" sampleRequest), .calls 1 2 0 sampleVenue]
      System.initial).any (fun s => s.memory.permits = [1]) = true := by decide +kernel
  obtain ⟨s, hs, htest⟩ := Coordinator.exists_of_execute (fun _ _ _ _ => trivial) hsample
  exact ⟨s, hs, of_decide_eq_true htest, hs.slots_kept⟩

/-! ## An intent and a reconciliation -/

def callOf (s : System) (t : Nat) : Option Call :=
  (s.threads t).bind fun thread =>
    match thread.rest with
    | .call c _ => some c
    | .pure _ => none

theorem callOf_some {s : System} {t : Nat} {c : Call} (h : callOf s t = some c) :
    ∃ task made next, s.threads t = some ⟨task, made, .call c next⟩ := by
  obtain ⟨⟨task, made, rest⟩, ht, hrest⟩ := Option.bind_eq_some_iff.mp h
  cases rest with
  | pure value => cases hrest
  | call c' next =>
    cases hrest
    exact ⟨task, made, next, ht⟩

/-- The order of an intent is prepared when a scheduled reconciliation comes. -/
def contendedSchedule : List Move :=
  [.arrive .main, .calls 0 22 0 sampleVenue,
    .arrive (.submitIntent "operator" "first" sampleRequest), .calls 1 4 0 sampleVenue,
    .arrive (.worker 6), .calls 2 17 0 sampleVenue, .arrive .scheduledReconciliation]

/-- The worker reads the state of the service on the way to the venue, and the reconciliation waits
for its gate. -/
def contended (s : System) : Bool :=
  ((s.threads 2).any fun thread => onTheWay thread.made) &&
    decide (callOf s 2 = some (.store .serviceState)) &&
      decide (callOf s 3 = some (.lock .safety)) && decide (s.memory.gates .safety = some 2)

theorem exists_contended : ∃ s, sampleCoordinator.Reaches samplePaperStore (fun _ _ _ => True) s ∧
    (∃ thread, s.threads 2 = some thread ∧ onTheWay thread.made = true) ∧
      callOf s 3 = some (.lock .safety) ∧ s.memory.gates .safety = some 2 := by
  have hsample : (sampleCoordinator.execute samplePaperStore (fun _ _ => true) contendedSchedule
      System.initial).any contended = true := by decide +kernel
  obtain ⟨s, hs, htest⟩ := Coordinator.exists_of_execute (fun _ _ _ _ => trivial) hsample
  simp only [contended, Bool.and_eq_true, decide_eq_true_eq] at htest
  obtain ⟨⟨⟨hway, -⟩, hlock⟩, hgate⟩ := htest
  obtain ⟨thread, ht, hway⟩ := (Option.any_eq_true _ _).mp hway
  exact ⟨s, hs, ⟨thread, ht, hway⟩, hlock, hgate⟩

theorem placed_alone_contended : ∃ s thread thread' c next,
    sampleCoordinator.Reaches samplePaperStore (fun _ _ _ => True) s ∧
      s.threads 2 = some thread ∧ s.threads 3 = some thread' ∧ Placing thread ∧
        thread'.rest = .call c next ∧ c.touchesOrders = false := by
  obtain ⟨s, hs, ⟨thread, ht, hway⟩, hlock, -⟩ := exists_contended
  obtain ⟨task', made', next', ht'⟩ := callOf_some hlock
  exact ⟨s, _, _, _, next', hs, ht, ht', Or.inl hway, rfl,
    hs.placed_alone ht ht' (Or.inl hway) (by decide) rfl⟩

theorem gates_never_deadlock_contended : ∃ s,
    sampleCoordinator.Reaches samplePaperStore (fun _ _ _ => True) s ∧ WaitsOn s 3 2 ∧
      ∃ runner task made c next, Relation.ReflTransGen (WaitsOn s) 2 runner ∧
        s.threads runner = some ⟨task, made, .call c next⟩ ∧
          ∀ gate, c = .lock gate → s.memory.gates gate = none := by
  obtain ⟨s, hs, -, hlock, hgate⟩ := exists_contended
  have hwaits : WaitsOn s 3 2 := ⟨.safety, callOf_some hlock, hgate⟩
  exact ⟨s, hs, hwaits, hs.gates_never_deadlock.2 3 2 hwaits⟩

end OddsfoxExecution
