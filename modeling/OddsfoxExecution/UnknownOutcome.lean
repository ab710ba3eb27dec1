import OddsfoxExecution.AtMostOnce
import OddsfoxExecution.Coordinator.Control

/-!
# No submission while an outcome is unknown

An order turns UNKNOWN when its submission was ambiguous, under the safety gate
and just before a HALTED write, or when a startup finds it SUBMITTING.  READY
comes back only through a reconciliation, under the same gate, that resolved
every UNKNOWN order it read.
-/

namespace OddsfoxExecution

/-- The outcome of some submission is unknown. -/
def Db.Uncertain (db : Db) : Prop := ∃ o ∈ db.orders, o.state = .unknown

/-! ## What operations do to unknown outcomes -/

/-- The operations that may make an order UNKNOWN. -/
def StoreCall.mayObscure : StoreCall → Bool
  | finishSubmission _ _ _ .unknown .. | resolveUnknownSubmission _ _ .unknown ..
  | reconcileOrderProjection _ .unknown .. | recoverInterruptedSubmissions => true
  | _ => false

theorem projectedState_unknown {prior observed : OrderState}
    (h : projectedState prior observed = .unknown) : observed = .unknown := by
  unfold projectedState at h
  split at h
  · cases h
  · exact h

theorem StoreCall.moves_unknown {call : StoreCall} (hcall : call.mayObscure = false)
    {m : OrderMove} (hmove : call.Moves m) (hto : m.order.2 = .unknown) :
    m.order.1 = .unknown := by
  cases call with
  | beginSubmission | cancelPreparedOrder =>
    cases hmove
    cases hto
  | finishSubmission =>
    cases hmove
    cases hto
    cases hcall
  | recoverInterruptedSubmissions => cases hcall
  | resolveUnknownSubmission => exact congrArg Prod.fst hmove.2
  | transitionOrder =>
    obtain ⟨-, hnext, hvalid⟩ := hmove
    rw [hto] at hnext
    subst hnext
    exact (validOrderTransition_unsettled hvalid rfl).symm
  | reconcileOrderProjection =>
    obtain ⟨-, hnext⟩ := hmove
    cases projectedState_unknown (hnext.symm.trans hto)
    cases hcall
  | applyPaperTradeThrough =>
    obtain ⟨-, hnext | hnext | hnext⟩ := hmove <;> cases hto.symm.trans hnext
  | _ => exact hmove.elim

theorem StoreCall.unknown_origin {config : StoreConfig} {now : Time} {db : Db} {past : List Db}
    {call : StoreCall} (hleads : Leads db past) (hallowed : call.Allowed (db :: past))
    (hcall : call.mayObscure = false) {o' : OrderRecord}
    (ho' : o' ∈ (call.after config now db).orders) (hstate : o'.state = .unknown) :
    ∃ o ∈ db.orders, o.id = o'.id ∧ o.state = .unknown := by
  have hnew : OrderState.unknown ≠ .prepared := by decide
  exact (call.after_steps hleads config now hallowed).state_origin hnew
    (fun _ hmove hto => call.moves_unknown hcall hmove hto) ho' hstate

theorem resolveUnknownSubmission_resolves {unknown : UnknownSubmission} {venueOrderId : String}
    {state : OrderState} {remaining filled : Decimal} {price : Option Decimal} {ids : List String}
    {now : Time} {db : Db} {r : Committed Unit} (hstate : state ≠ .unknown)
    (h : resolveUnknownSubmission unknown venueOrderId state remaining filled price ids now db =
      .ok r) : ∀ o ∈ r.db.orders, o.id = unknown.orderId → o.state ≠ .unknown := by
  unfold resolveUnknownSubmission at h
  rw [if_neg hstate] at h
  split at h
  · cases h
  · split at h
    · cases h
    · split at h
      · cases h
      · cases h
        intro o ho hid hunknown
        have ho : o ∈ Table.updateWhere (OrderRecord.At unknown.orderId .unknown)
            (OrderRecord.settle state (some venueOrderId) remaining) db.orders :=
          (congrArg (o ∈ ·) applyMatchedFill_orders).mp ho
        obtain ⟨o₀, -, rfl⟩ := Table.mem_updateWhere.mp ho
        by_cases hat : OrderRecord.At unknown.orderId .unknown o₀
        · rw [if_pos hat] at hunknown
          exact hstate hunknown
        · rw [if_neg hat] at hid hunknown
          exact hat ⟨hid, hunknown⟩

theorem Coherent.unknown_listed {db : Db} (hs : Coherent db.lifecycle) {o : OrderRecord}
    (ho : o ∈ db.orders) (hstate : o.state = .unknown) :
    ∃ u ∈ db.unknownSubmissions, u.orderId = o.id := by
  have hmem : o.intentId ∈ db.preparedOrders.map PreparedOrder.intentId := by
    rw [show db.preparedOrders.map PreparedOrder.intentId = db.orders.map OrderRecord.intentId
      from hs.preparedIntents]
    exact List.mem_map_of_mem ho
  obtain ⟨p, hp, hintent⟩ := List.mem_map.mp hmem
  refine ⟨⟨o.id, o.intentId, p.deterministicOrderId⟩, ?_, rfl⟩
  simp only [Db.unknownSubmissions, List.mem_flatMap, List.mem_filter, Db.preparedJoin,
    List.mem_map, decide_eq_true_eq]
  exact ⟨o, ⟨ho, hstate⟩, p, ⟨hp, hintent⟩, rfl⟩

/-! ## What the survey of a reconciliation shows -/

/-- Since a task read the unknown submissions, every UNKNOWN order was among them and the task
has not resolved it. -/
def Surveyed (db : Db) (made : Calls) : Prop :=
  ∀ a unknown b, made = a ++ done .unknownSubmissions unknown :: b → AllQuiet a →
    ∀ o ∈ db.orders, o.state = .unknown → (∃ u ∈ unknown, u.orderId = o.id) ∧
      ∀ u ∈ unknown, u.orderId = o.id → ∀ venueOrderId state remaining filled price ids,
        done (.resolveUnknownSubmission u venueOrderId state remaining filled price ids) () ∉ a

/-- An operation that may make an order UNKNOWN is made under the safety gate. -/
theorem StorePromise.obscures {task : Task} {made : Calls} {call : StoreCall}
    (h : StorePromise task made call) (hcall : call.mayObscure = true) :
    Holds .safety made ∧ (Call.store call).quiet = false := by
  unfold StoreCall.mayObscure at hcall
  split at hcall
  · exact ⟨h.2.1, rfl⟩
  · exact absurd rfl h.1
  · exact absurd rfl h.1
  · exact ⟨h.2.1, rfl⟩
  · cases hcall

namespace Coordinator.Reaches

variable {self : Coordinator} {config : StoreConfig} {guard : CallGuard} {s : System}

/-- A call either leaves only orders UNKNOWN that were, or is an operation that may obscure. -/
theorem unknown_kept (h : self.Reaches config guard s) {t : Nat} {task : Task} {made : Calls}
    {c : Call} {next : c.Answer → Prog Call Call.Answer (Except CoordinatorError Unit)}
    (ht : s.threads t = some ⟨task, made, .call c next⟩) {r : c.Answer} {memory : Memory}
    (hanswer : c.answers config s.memory t r memory) :
    (∀ o' ∈ memory.db.orders, o'.state = .unknown →
        ∃ o ∈ s.memory.db.orders, o.id = o'.id ∧ o.state = .unknown) ∨
      ∃ call, c = .store call ∧ call.mayObscure = true := by
  by_cases hstore : ∃ call, c = .store call
  · obtain ⟨call, rfl⟩ := hstore
    cases hcall : call.mayObscure with
    | true => exact Or.inr ⟨call, rfl, hcall⟩
    | false =>
      obtain ⟨now, -, rfl⟩ := hanswer
      exact Or.inl fun _ ho' hstate =>
        StoreCall.unknown_origin h.leads (h.allowed ht) hcall ho' hstate
  · rw [(Call.answers_db hanswer fun call heq => hstore ⟨call, heq⟩).1]
    exact Or.inl fun o ho hstate => ⟨o, ho, rfl, hstate⟩

theorem surveyed_step (h : self.Reaches config guard s) {t : Nat} {task : Task} {made : Calls}
    {c : Call} {next : c.Answer → Prog Call Call.Answer (Except CoordinatorError Unit)}
    (ht : s.threads t = some ⟨task, made, .call c next⟩) {r : c.Answer} {memory : Memory}
    (hanswer : c.answers config s.memory t r memory)
    (hsurveyed : Holds .safety made → Surveyed s.memory.db made)
    (hholds : Holds .safety (⟨c, r⟩ :: made)) : Surveyed memory.db (⟨c, r⟩ :: made) := by
  intro a unknown b hmade hquiet o ho hstate
  cases a with
  | nil =>
    obtain ⟨hentry, -⟩ := List.cons.inj hmade
    cases hentry
    obtain ⟨now, hr, rfl⟩ := hanswer
    cases hr
    exact ⟨h.coherent.unknown_listed ho hstate, fun _ _ _ _ _ _ _ _ _ => List.not_mem_nil⟩
  | cons e a =>
    obtain ⟨rfl, rfl⟩ := List.cons.inj hmade
    have hnow : c.quiet = true := hquiet _ List.mem_cons_self
    have hholds := (holds_cons_quiet (e := ⟨c, r⟩) hnow).mp hholds
    have hpromise := (h.promised ht).1.call
    rcases h.unknown_kept ht hanswer with hkept | ⟨call, rfl, hcall⟩
    · obtain ⟨o₀, ho₀, hid, hstate₀⟩ := hkept o ho hstate
      obtain ⟨hlisted, hunresolved⟩ := hsurveyed hholds a unknown b rfl
        (fun e he => hquiet e (List.mem_cons_of_mem _ he)) o₀ ho₀ hstate₀
      rw [hid] at hlisted hunresolved
      refine ⟨hlisted, fun u hu huid venueOrderId state remaining filled price ids hmem => ?_⟩
      rcases List.mem_cons.mp hmem with heq | hmem
      · cases heq
        obtain ⟨now, committed, hrun, -, hdb⟩ := Call.answers_done
          (.resolveUnknownSubmission u venueOrderId state remaining filled price ids) hanswer
        rw [hdb] at ho
        exact resolveUnknownSubmission_resolves hpromise.1 hrun o ho huid.symm hstate
      · exact hunresolved u hu huid _ _ _ _ _ _ hmem
    · rw [(StorePromise.obscures hpromise hcall).2] at hnow
      cases hnow

theorem surveyed (h : self.Reaches config guard s) {t : Nat}
    {thread : Thread Call Call.Answer Task (Except CoordinatorError Unit)}
    (ht : s.threads t = some thread) (hholds : Holds .safety thread.made) :
    Surveyed s.memory.db thread.made := by
  induction h generalizing thread with
  | start => cases ht
  | @call p t₀ task made c next r memory hp ht₀ hanswer hguard ih =>
    rcases Pool.perform_threads ht with ⟨rfl, rfl⟩ | ⟨hne, hold⟩
    · exact surveyed_step hp ht₀ hanswer (fun hholds => ih ht₀ hholds) hholds
    · intro a unknown b hmade hquiet o ho hstate
      rcases unknown_kept hp ht₀ hanswer with hkept | ⟨call, rfl, hcall⟩
      · obtain ⟨o₀, ho₀, hid, hstate₀⟩ := hkept o ho hstate
        exact hid ▸ ih hold hholds a unknown b hmade hquiet o₀ ho₀ hstate₀
      · -- the task that obscures an order would hold the gate as well
        have hother := (StorePromise.obscures (promised hp ht₀).1.call hcall).1
        exact absurd (holder_unique hp ⟨thread, hold, hholds⟩ ⟨_, ht₀, hother⟩) hne
  | @arrive p task memory hp harrives ih =>
    change Surveyed memory.db _
    rw [(Task.arrives_frame harrives).1]
    rcases Pool.add_threads ht with ⟨-, rfl⟩ | ht
    · exact hholds.elim
    · exact ih ht hholds
  | drop _ _ _ ih => exact ih (Pool.remove_threads ht).2 hholds
  | surroundings _ hchange ih =>
    obtain ⟨db, hframe, rfl⟩ := hchange
    unfold Surveyed
    rw [show db.orders = _ from congrArg Lifecycle.orders hframe.lifecycle_eq]
    exact ih ht hholds
  | crash => exact absurd ht Pool.crash_threads

/-- After a reconciliation without a HALTED write no outcome is unknown. -/
theorem reconciled_certain (h : self.Reaches config guard s) {t : Nat}
    {thread : Thread Call Call.Answer Task (Except CoordinatorError Unit)}
    (ht : s.threads t = some thread) (hholds : Holds .safety thread.made) {x added y : Calls}
    {id : Uuid} (hmade : thread.made = x ++ (added ++ y)) (hx : AllQuiet x)
    (hadded : AllQuiet added) (hreconciled : Reconciled id added) (hhalt : ¬ HaltWritten added) :
    ¬ s.memory.db.Uncertain := by
  rintro ⟨o, ho, hstate⟩
  obtain ⟨trigger, unknown, findings, c₁, c₂, c₃, rfl, hresolved⟩ := hreconciled
  have hresolved : ∀ u ∈ unknown, ∃ venueOrderId state remaining filled price ids,
      done (.resolveUnknownSubmission u venueOrderId state remaining filled price ids) () ∈ c₂ := by
    rcases hresolved with ⟨-, hresolved⟩ | ⟨actor, reason, hmem⟩
    · exact hresolved
    · exact absurd ⟨actor, reason, List.mem_append_left _ hmem⟩ hhalt
  obtain ⟨⟨u, hu, huid⟩, hunresolved⟩ := h.surveyed ht hholds
    (x ++ (c₃ ++ done (.finishReconciliation id findings) () :: c₂)) unknown
    (c₁ ++ done (.startReconciliation trigger none) id :: y) (by rw [hmade]; simp)
    (hx.append fun e he => hadded e (by
      rcases List.mem_append.mp he with he | he
      · exact List.mem_append_left _ he
      · refine List.mem_append_right _ ((List.mem_cons.mp he).elim (fun h => ?_) fun h => ?_)
        · exact h ▸ List.mem_cons_self
        · exact List.mem_cons_of_mem _ (List.mem_append_left _ h))) o ho hstate
  obtain ⟨venueOrderId, state, remaining, filled, price, ids, hmem⟩ := hresolved u hu
  exact hunresolved u hu huid venueOrderId state remaining filled price ids (by simp [hmem])

/-- READY is written when no outcome is unknown. -/
theorem ready_certain (h : self.Reaches config guard s) {t : Nat} {task : Task} {made : Calls}
    {actor reason : String} {idempotency : Option Idempotency} {expected : Option Nat}
    {next : (Call.store (.setServiceState actor .ready reason idempotency expected)).Answer →
      Prog Call Call.Answer (Except CoordinatorError Unit)}
    (ht : s.threads t = some ⟨task, made, .call _ next⟩) {db' : Db}
    (hwritten : ControlWritten s.memory.db db' .ready reason expected) :
    ¬ s.memory.db.Uncertain := by
  have hpromise := (h.promised ht).1
  have hown : ownCalls t s.history = made := h.consistent.own t _ ht
  have hcontrol : ControlPromise task made .ready expected := hpromise.call.1
  cases expected with
  | none =>
    obtain ⟨rfl, hholds, -, control, after, id, added, earlier, rfl, hlive, hafter, hadded,
      hreconciled⟩ := hcontrol
    refine h.reconciled_certain ht hholds (x := done .serviceState control :: after)
      (List.cons_append ..).symm ?_ hadded hreconciled fun hhalt => ?_
    · exact (allQuiet_singleton rfl).append hafter
    · -- had the startup written HALTED since, it would have read HALTED
      obtain ⟨later, e, before, hsplit, hthread, hentry, -, hbefore⟩ :=
        ownCalls_split (a := []) hown
      obtain ⟨p, _, _, hp, hmemory, hhistory, htp, -⟩ := h.moment hsplit
      have hp : self.Reaches config guard p := hp
      have htask : e.task = .main := h.consistent.task t _ ht e
        (hsplit ▸ List.mem_append_right _ List.mem_cons_self) hthread
      rw [hthread, hbefore] at htp
      have hstands := (hp.startupControl htp htask fun e' he' =>
        hpromise.unserved e' (List.mem_cons_of_mem _ he')).halted
          (HaltStands.append hafter (hhalt.stands hadded))
      have hread := h.serviceState_read
        (hsplit ▸ List.mem_append_right _ List.mem_cons_self) hentry
      rw [hmemory, ← hread] at hstands
      exact hlive hstands
  | some revision =>
    obtain ⟨-, hholds, after, id, added, control, earlier, rfl, -, hrevision, hafter, hadded,
      hreconciled⟩ := hcontrol
    refine h.reconciled_certain ht hholds (x := after ++ [asked .heartbeat (.ok ())])
      (y := done .serviceState control :: earlier) (by simp) ?_ hadded hreconciled fun hhalt => ?_
    · exact hafter.append (allQuiet_singleton rfl)
    · obtain ⟨actor, reason, hmem⟩ := hhalt
      have hmade : ownCalls t s.history = (after ++ asked .heartbeat (.ok ()) :: added) ++
          done .serviceState control :: earlier := by
        rw [hown]
        simp
      refine h.unhalted_since_read hmade ?_ ⟨actor, reason, by simp [hmem]⟩
      exact (hwritten.expected revision rfl).2.trans hrevision.symm

/-! ## READY with an unknown outcome -/

/-- The process has not come to READY yet. -/
def Unready (s : System) : Prop :=
  s.memory.phase = .cold ∨ ∃ t made rest, s.threads t = some ⟨.main, made, rest⟩ ∧
    (∀ e ∈ made, e.1 ≠ .serve) ∧ ¬ ReadyWritten made

/-- A worker has just recorded an ambiguous submission. -/
def HaltsNext (s : System) : Prop :=
  ∃ t intentId made rest, s.threads t = some ⟨.worker intentId, made, rest⟩ ∧
    Holds .safety made ∧ LeavesUnknown made

theorem Unready.phase (h : self.Reaches config guard s) (hunready : Unready s) :
    s.memory.phase ≠ .serving ∧ s.memory.phase ≠ .stopping := by
  rcases hunready with hcold | ⟨t, made, rest, ht, hunserved, -⟩
  · exact ⟨fun hphase => (nomatch hcold.symm.trans hphase),
      fun hphase => nomatch hcold.symm.trans hphase⟩
  · have hstarting := (h.phased.main t _ ht rfl).2 hunserved
    exact ⟨fun hphase => (nomatch hstarting.symm.trans hphase),
      fun hphase => nomatch hstarting.symm.trans hphase⟩

theorem Unready.unserved (h : self.Reaches config guard s) (hunready : Unready s) {t : Nat}
    {thread : Thread Call Call.Answer Task (Except CoordinatorError Unit)}
    (ht : s.threads t = some thread) : ¬ Served thread.task := fun hserved =>
  (h.phased.served t thread ht hserved).elim (hunready.phase h).1 (hunready.phase h).2

theorem Unready.of_perform {t : Nat} {task : Task} {made : Calls}
    {c : Call} {next : c.Answer → Prog Call Call.Answer (Except CoordinatorError Unit)}
    (ht : s.threads t = some ⟨task, made, .call c next⟩) {r : c.Answer} {memory : Memory}
    (hanswer : c.answers config s.memory t r memory)
    (hunready : Unready (s.perform t task made ⟨c, r⟩ (next r) memory)) : Unready s := by
  rcases hunready with hcold | ⟨t', made', rest, ht', hunserved, hunwritten⟩
  · by_cases hserve : c = .serve
    · subst hserve
      cases hanswer
      cases hcold
    · exact Or.inl ((phase_of_other hanswer hserve).symm.trans hcold)
  · rcases Pool.perform_threads ht' with ⟨rfl, heq⟩ | ⟨-, hold⟩
    · cases heq
      refine Or.inr ⟨t', made, _, ht, fun e he => hunserved e (List.mem_cons_of_mem _ he), ?_⟩
      rintro ⟨actor, reason, idempotency, expected, hmem⟩
      exact hunwritten ⟨actor, reason, idempotency, expected, List.mem_cons_of_mem _ hmem⟩
    · exact Or.inr ⟨t', made', rest, hold, hunserved, hunwritten⟩

/-- A recovered intent goes back to the queue once the process came to READY. -/
theorem Unready.not_mayEnqueue (h : self.Reaches config guard s) (hunready : Unready s) {t : Nat}
    {thread : Thread Call Call.Answer Task (Except CoordinatorError Unit)}
    (ht : s.threads t = some thread) : ¬ MayEnqueue thread.task thread.made := by
  rintro (⟨htask, hwritten⟩ | ⟨actorId, key, reason, htask⟩)
  · rcases hunready with hcold | ⟨t', made, rest, ht', hunserved, hunwritten⟩
    · exact (h.phased.main t thread ht htask).1 hcold
    · have hsame := h.phased.unique t t' _ _ ht ht' htask rfl
      subst hsame
      cases ht.symm.trans ht'
      exact hunwritten hwritten
  · exact hunready.unserved h ht (htask ▸ trivial)

theorem queue_of_other {m m' : Memory} {t : Nat} {c : Call} {r : c.Answer}
    (h : c.answers config m t r m') (henqueue : ∀ id, c ≠ .enqueue id)
    (hsend : ∀ id, c ≠ .sendPermit id) : m'.queue = m.queue := by
  cases c with
  | enqueue id => exact absurd rfl (henqueue id)
  | sendPermit id => exact absurd rfl (hsend id)
  | store =>
    obtain ⟨now, -, rfl⟩ := h
    rfl
  | lock | takeDeferred | reserveQueue =>
    obtain ⟨-, rfl⟩ := h
    rfl
  | _ =>
    cases h
    rfl

/-- Before the process comes to READY there is no work. -/
theorem workless (h : self.Reaches config guard s) (hunready : Unready s) :
    s.memory.queue = [] ∧ ∀ t thread intentId, s.threads t = some thread →
      thread.task ≠ .worker intentId := by
  induction h with
  | start => exact ⟨rfl, fun _ _ _ h => nomatch h⟩
  | @call p t task made c next r memory hp ht hanswer hguard ih =>
    have hbefore := Unready.of_perform ht hanswer hunready
    obtain ⟨hqueue, hworkers⟩ := ih hbefore
    have hpromise := (promised hp ht).1.call
    refine ⟨?_, fun t' thread intentId ht' htask => ?_⟩
    · refine (queue_of_other hanswer ?_ ?_).trans hqueue
      · rintro id rfl
        exact hbefore.not_mayEnqueue hp ht hpromise
      · rintro id rfl
        obtain ⟨_, _, _, rfl⟩ := hpromise
        exact hbefore.unserved hp ht trivial
    · rcases Pool.perform_threads ht' with ⟨-, rfl⟩ | ⟨-, hold⟩
      · exact hworkers t _ intentId ht htask
      · exact hworkers t' thread intentId hold htask
  | @arrive p task memory hp harrives ih =>
    have hbefore : Unready p := by
      rcases hunready with hcold | ⟨t, made, rest, ht, hunserved, hunwritten⟩
      · rcases arrives_phase harrives with ⟨-, -, hphase⟩ | ⟨-, -, hphase⟩ | ⟨-, hphase, -⟩
        · cases hphase.symm.trans hcold
        · cases hphase.symm.trans hcold
        · exact Or.inl (hphase.symm.trans hcold)
      · rcases Pool.add_threads ht with ⟨-, heq⟩ | ht
        · cases heq
          exact Or.inl harrives.1
        · exact Or.inr ⟨t, made, rest, ht, hunserved, hunwritten⟩
    obtain ⟨hqueue, hworkers⟩ := ih hbefore
    have hqueue' : memory.queue = [] ∧ ∀ intentId, task ≠ .worker intentId := by
      cases task with
      | worker =>
        obtain ⟨-, _, hnext, -⟩ := harrives
        cases hqueue.symm.trans hnext
      | cancellation | reconciliation | protectiveCancellation =>
        obtain ⟨_, _, -, rfl⟩ := harrives
        exact ⟨hqueue, fun _ h => nomatch h⟩
      | scheduledReconciliation =>
        cases harrives
        exact ⟨hqueue, fun _ h => nomatch h⟩
      | _ =>
        obtain ⟨-, rfl⟩ := harrives
        exact ⟨hqueue, fun _ h => nomatch h⟩
    refine ⟨hqueue'.1, fun t thread intentId ht htask => ?_⟩
    rcases Pool.add_threads ht with ⟨-, rfl⟩ | ht
    · exact hqueue'.2 intentId htask
    · exact hworkers t thread intentId ht htask
  | @drop p t thread hp ht hdroppable ih =>
    have hbefore : Unready p := by
      rcases hunready with hcold | ⟨t', made, rest, ht', hunserved, hunwritten⟩
      · exact Or.inl hcold
      · exact Or.inr ⟨t', made, rest, (Pool.remove_threads ht').2, hunserved, hunwritten⟩
    exact ⟨(ih hbefore).1, fun t' thread intentId ht' =>
      (ih hbefore).2 t' thread intentId (Pool.remove_threads ht').2⟩
  | surroundings _ hchange ih =>
    obtain ⟨_, -, rfl⟩ := hchange
    exact ih hunready
  | crash => exact ⟨rfl, fun _ _ _ h => absurd h Pool.crash_threads⟩

/-- What makes an order UNKNOWN leaves a HALTED write to come, or starts a process up. -/
theorem obscured_excused (h : self.Reaches config VenueDecides s) {t : Nat} {task : Task}
    {made : Calls} {call : StoreCall}
    {next : (Call.store call).Answer → Prog Call Call.Answer (Except CoordinatorError Unit)}
    (ht : s.threads t = some ⟨task, made, .call (.store call) next⟩)
    {r : (Call.store call).Answer} {memory : Memory}
    (hanswer : Call.answers config s.memory t (.store call) r memory)
    (hcall : call.mayObscure = true) :
    memory.db.orders = s.memory.db.orders ∨
      HaltsNext (s.perform t task made ⟨.store call, r⟩ (next r) memory) ∨
        Unready (s.perform t task made ⟨.store call, r⟩ (next r) memory) := by
  have hpromise := (h.promised ht).1
  have hself : (s.perform t task made ⟨.store call, r⟩ (next r) memory).threads t =
      some ⟨task, ⟨.store call, r⟩ :: made, next r⟩ := Function.update_self ..
  have hstore : StorePromise task made call := hpromise.call
  unfold StoreCall.mayObscure at hcall
  split at hcall
  · rename_i intentId orderId intentState venueOrderId cls filled price ids
    obtain ⟨rfl, hholds, prepared, request, answer, earlier, hmade, hrecorded⟩ := hstore
    obtain ⟨now, rfl, rfl⟩ := hanswer
    cases hrun : StoreCall.run config now s.memory.db (.finishSubmission intentId orderId
        intentState .unknown venueOrderId cls filled price ids) with
    | error e => exact Or.inl (by simp [StoreCall.after, hrun])
    | ok committed =>
      refine Or.inr (Or.inl ⟨t, intentId, _, _, hself, hholds, ?_⟩)
      have hstate : intentState = .unknown := by
        have htruthful := h.truthful ht
        rcases h.allowed ht with rfl | ⟨rfl, -⟩
        · exact absurd rfl (htruthful rfl)
        · rfl
      subst hstate
      simp [LeavesUnknown, StoreCall.answer, hrun, Except.map]
  · exact absurd rfl hstore.1
  · exact absurd rfl hstore.1
  · obtain ⟨rfl, -, -, hunwritten⟩ := hstore
    refine Or.inr (Or.inr (Or.inr ⟨t, _, _, hself,
      unserved_cons hpromise.unserved (fun h => by cases h), ?_⟩))
    rintro ⟨actor, reason, idempotency, expected, hmem⟩
    rcases List.mem_cons.mp hmem with heq | hmem
    · cases heq
    · exact hunwritten ⟨actor, reason, idempotency, expected, hmem⟩
  · cases hcall

/-- A call that writes no control state keeps the excuse for an unknown outcome under READY. -/
theorem excuse_kept (h : self.Reaches config guard s) {t : Nat} {task : Task} {made : Calls}
    {c : Call} {next : c.Answer → Prog Call Call.Answer (Except CoordinatorError Unit)}
    (ht : s.threads t = some ⟨task, made, .call c next⟩) {r : c.Answer} {memory : Memory}
    (hanswer : c.answers config s.memory t r memory) (hnone : ∀ state, ¬ Writes state ⟨c, r⟩)
    (hready : s.memory.db.controlState.state = .ready) (hexcused : HaltsNext s ∨ Unready s) :
    HaltsNext (s.perform t task made ⟨c, r⟩ (next r) memory) ∨
      Unready (s.perform t task made ⟨c, r⟩ (next r) memory) := by
  have hpromise := (h.promised ht).1
  have hother : ∀ {t' thread}, s.threads t' = some thread → t' ≠ t →
      (s.perform t task made ⟨c, r⟩ (next r) memory).threads t' = some thread :=
    fun ht' hne => (Function.update_of_ne hne ..).trans ht'
  rcases hexcused with ⟨t', intentId, made', rest, ht', hholds, hleft⟩ | hunready
  · by_cases hsame : t' = t
    · -- the HALTED write that must follow always commits
      subst hsame
      cases ht.symm.trans ht'
      obtain rfl := hpromise.halting hleft
      obtain ⟨now, rfl, rfl⟩ := hanswer
      exact absurd ⟨"system", "ambiguous venue submission", none, none, rfl⟩ (hnone .halted)
    · exact Or.inl ⟨t', intentId, made', rest, hother ht' hsame, hholds, hleft⟩
  · refine Or.inr ?_
    rcases hunready with hcold | ⟨t', made', rest, ht', hunserved, hunwritten⟩
    · by_cases hserve : c = .serve
      · subst hserve
        obtain ⟨rfl, -⟩ : task = .main ∧ _ := hpromise.call
        exact absurd hcold (h.phased.main t _ ht rfl).1
      · exact Or.inl ((phase_of_other hanswer hserve).trans hcold)
    · by_cases hsame : t' = t
      · subst hsame
        cases ht.symm.trans ht'
        refine Or.inr ⟨t', _, _, Function.update_self .., unserved_cons hunserved ?_, ?_⟩
        · rintro rfl
          -- a startup that serves without a READY write has not found READY
          obtain ⟨-, hcontrolled⟩ : Task.main = .main ∧ Controlled _ := hpromise.call
          exact (h.startupControl ht rfl hunserved).unready hcontrolled hunwritten hready
        · rintro ⟨actor, reason, idempotency, expected, hmem⟩
          rcases List.mem_cons.mp hmem with heq | hmem
          · exact hnone .ready ⟨actor, reason, idempotency, expected, heq.symm⟩
          · exact hunwritten ⟨actor, reason, idempotency, expected, hmem⟩
      · exact Or.inr ⟨t', made', rest, hother ht' hsame, hunserved, hunwritten⟩

/-- READY with an unknown outcome lasts only until the HALTED write to come, or the startup. -/
theorem ready_excused (h : self.Reaches config VenueDecides s)
    (hready : s.memory.db.controlState.state = .ready) (hunknown : s.memory.db.Uncertain) :
    HaltsNext s ∨ Unready s := by
  induction h with
  | start =>
    obtain ⟨o, ho, -⟩ := hunknown
    cases ho
  | @call p t task made c next r memory hp ht hanswer hguard ih =>
    rcases Call.answers_control hanswer with ⟨hsame, hnone⟩ |
      ⟨actor, state, reason, idempotency, expected, hentry, hwritten⟩
    · have hfound : p.memory.db.controlState.state = .ready := hsame ▸ hready
      rcases unknown_kept hp ht hanswer with hkept | ⟨call, rfl, hcall⟩
      · obtain ⟨o', ho', hstate'⟩ := hunknown
        obtain ⟨o, ho, -, hstate⟩ := hkept o' ho' hstate'
        exact excuse_kept hp ht hanswer hnone hfound (ih hfound ⟨o, ho, hstate⟩)
      · rcases obscured_excused hp ht hanswer hcall with horders | hexcused
        · obtain ⟨o, ho, hstate⟩ := hunknown
          have ho : o ∈ p.memory.db.orders := horders ▸ ho
          exact excuse_kept hp ht hanswer hnone hfound (ih hfound ⟨o, ho, hstate⟩)
        · exact hexcused
    · cases hentry
      have hstate : memory.db.controlState.state = .ready := hready
      rw [hwritten.control] at hstate
      obtain rfl : state = .ready := hstate
      refine absurd ?_ (ready_certain hp ht hwritten)
      obtain ⟨o', ho', hstate'⟩ := hunknown
      rcases unknown_kept hp ht hanswer with hkept | ⟨call, heq, hcall⟩
      · obtain ⟨o, ho, -, hstate⟩ := hkept o' ho' hstate'
        exact ⟨o, ho, hstate⟩
      · cases heq
        cases hcall
  | @arrive p task memory hp harrives ih =>
    have hdb : memory.db = p.memory.db := (Task.arrives_frame harrives).1
    have hready : memory.db.controlState.state = .ready := hready
    have hunknown : memory.db.Uncertain := hunknown
    rw [hdb] at hready hunknown
    have hold : ∀ {t thread}, p.threads t = some thread →
        (p.add (self.machine config) task memory).threads t = some thread := fun ht =>
      (Function.update_of_ne (hp.consistent.drawn _ _ ht).ne ..).trans ht
    rcases ih hready hunknown with ⟨t, intentId, made, rest, ht, hholds, hleft⟩ |
      hcold | ⟨t, made, rest, ht, hunserved, hunwritten⟩
    · exact Or.inl ⟨t, intentId, made, rest, hold ht, hholds, hleft⟩
    · refine Or.inr ?_
      rcases arrives_phase harrives with ⟨rfl, -, -⟩ | ⟨-, hserving, -⟩ | ⟨-, hphase, -⟩
      · exact Or.inr ⟨p.fresh, [], _, Function.update_self .., fun _ he => (nomatch he),
          fun ⟨_, _, _, _, hmem⟩ => nomatch hmem⟩
      · cases hcold.symm.trans hserving
      · exact Or.inl (hphase.trans hcold)
    · exact Or.inr (Or.inr ⟨t, made, rest, hold ht, hunserved, hunwritten⟩)
  | @drop p t thread hp ht hdroppable ih =>
    have hkept : ∀ {t' thread'}, p.threads t' = some thread' →
        thread'.task.droppable ≠ true → (p.remove t
          ((self.machine config).dropped p.memory t)).threads t' = some thread' := by
      intro t' thread' ht' hfirm
      refine (Function.update_of_ne ?_ ..).trans ht'
      rintro rfl
      cases ht.symm.trans ht'
      exact hfirm hdroppable
    rcases ih hready hunknown with ⟨t', intentId, made, rest, ht', hholds, hleft⟩ |
      hcold | ⟨t', made, rest, ht', hunserved, hunwritten⟩
    · exact Or.inl ⟨t', intentId, made, rest, hkept ht' (fun h => (nomatch h)), hholds, hleft⟩
    · exact Or.inr (Or.inl hcold)
    · exact Or.inr (Or.inr ⟨t', made, rest, hkept ht' (fun h => (nomatch h)), hunserved,
        hunwritten⟩)
  | surroundings _ hchange ih =>
    obtain ⟨db, hframe, rfl⟩ := hchange
    have hready : db.controlState.state = .ready := hready
    obtain ⟨o, ho, hstate⟩ : db.Uncertain := hunknown
    rw [show db.controlState = _ from congrArg Prod.fst hframe.desk_eq] at hready
    rw [show db.orders = _ from congrArg Lifecycle.orders hframe.lifecycle_eq] at ho
    exact ih hready ⟨o, ho, hstate⟩
  | crash => exact Or.inr (Or.inl rfl)

end Coordinator.Reaches

/-- Whenever `begin_submission` commits, in a run of any length over any number of processes, no
order of the store is UNKNOWN, if the venue never acknowledges a submission with that state. -/
theorem no_unknown_at_submission {self : Coordinator} {config : StoreConfig} {s : System}
    (h : self.Reaches config VenueDecides s) {e : CallEvent} (he : e ∈ s.history)
    {intentId orderId : Uuid} (hentry : e.entry = done (.beginSubmission intentId orderId) ()) :
    ∀ o ∈ e.found.db.orders, o.state ≠ .unknown := by
  intro o ho hstate
  obtain ⟨after, before, heq⟩ := List.append_of_mem he
  obtain ⟨db', hbegan⟩ := h.began he hentry
  have hpromise := (h.kept heq).call
  rw [hentry] at hpromise
  obtain ⟨htask, hholds⟩ : e.task = .worker intentId ∧ Holds .safety _ := hpromise
  obtain ⟨p, next, memory, hp, hmemory, -, ht, -⟩ := h.moment heq
  have hp : self.Reaches config VenueDecides p := hp
  rcases hp.ready_excused (hmemory ▸ hbegan.ready) (hmemory ▸ ⟨o, ho, hstate⟩) with
    ⟨t, id, made, rest, ht', hholds', hleft⟩ | hunready
  · -- the worker that must halt the service holds the gate, so it is this one
    have hsame := hp.holder_unique ⟨_, ht, hholds⟩ ⟨_, ht', hholds'⟩
    rw [← hsame] at ht'
    injection Option.some.inj (ht'.symm.trans ht) with _ hmade
    have hleft : LeavesUnknown (ownCalls e.thread before) := hmade ▸ hleft
    have hhalts := (hp.promised ht).1.halting hleft
    rw [hentry] at hhalts
    cases hhalts
  · exact (hp.workless hunready).2 _ _ _ ht htask

def begins (e : CallEvent) : Bool :=
  match e.entry with
  | ⟨.store (.beginSubmission ..), r⟩ =>
    match (r : Except StoreError Unit) with
    | .ok () => true
    | .error _ => false
  | _ => false

theorem begins_spec {e : CallEvent} (h : begins e = true) :
    ∃ intentId orderId, e.entry = done (.beginSubmission intentId orderId) () := by
  unfold begins at h
  split at h
  · rename_i intentId orderId r heq
    split at h
    · exact ⟨intentId, orderId, heq⟩
    · cases h
  · cases h

/-- The submission of a first intent begins while no order is UNKNOWN. -/
theorem no_unknown_at_submission_first :
    ∃ s, sampleCoordinator.Reaches samplePaperStore VenueDecides s ∧
      ∃ e ∈ s.history, ∃ intentId orderId, e.entry = done (.beginSubmission intentId orderId) () ∧
        ∀ o ∈ e.found.db.orders, o.state ≠ .unknown := by
  have hsample : (sampleCoordinator.execute samplePaperStore (fun _ e => decides e)
      submissionSchedule System.initial).any (fun s => s.history.any begins) = true := by
    decide +kernel
  have hguard : ∀ m task e, decides e = true → VenueDecides m task e := fun _ _ _ =>
    decides_guards
  obtain ⟨s, h, hbegins⟩ := Coordinator.exists_of_execute hguard hsample
  obtain ⟨e, he, hbegins⟩ := List.any_eq_true.mp hbegins
  obtain ⟨intentId, orderId, hentry⟩ := begins_spec hbegins
  exact ⟨s, h, e, he, intentId, orderId, hentry, no_unknown_at_submission h he hentry⟩

end OddsfoxExecution
