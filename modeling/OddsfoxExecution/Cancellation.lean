import OddsfoxExecution.Coordinator.Schedule

/-!
# Cancellation requests

`execute_cancellation` works through the targets a request was recorded with.
A target may be missing, in flight or moved by others by the time it is reached,
and the venue may report a state the order cannot move to; the first refusal of
the store ends the loop, leaves the request PENDING and, when it is replayed,
ends the startup.  What decides is what the execution finds: the rows of its
targets, the answers of the venue and the row of the request.
-/

namespace OddsfoxExecution

/-! ## What an execution finds -/

/-- What a cancellation is about to do, or what the venue has just answered. -/
inductive Occasion where
  | target (orderId : Uuid)
  | answered (answer : VenueAnswer VenueCancellation)
  | close (id : Uuid)
  | other

/-- A moment of an execution: the database it finds, which others may have changed since the last
one. -/
structure Moment where
  db : Db
  occasion : Occasion

def momentOf : Memory × Sigma Call.Answer → Moment
  | (m, ⟨.store (.getOrder orderId), _⟩) => ⟨m.db, .target orderId⟩
  | (m, ⟨.venue (.cancel _), answer⟩) => ⟨m.db, .answered answer⟩
  | (m, ⟨.store (.finishCancellation id _), _⟩) => ⟨m.db, .close id⟩
  | (m, _) => ⟨m.db, .other⟩

abbrev moments (log : Log) : List Moment := log.map momentOf

def Next (P : Db → List Moment → Prop) : List Moment → Prop
  | [] => True
  | moment :: later => P moment.db later

/-- The order is there and may move to a state; to CANCEL_PENDING a terminal one need not. -/
def MayMove (orderId : Uuid) (next : OrderState) (db : Db) : Prop :=
  ∃ o, db.order? orderId = some o ∧
    (next = .cancelPending ∧ o.state.terminal = true ∨ validOrderTransition o.state next = true)

/-- What the venue answers for an order it knows is a state the order may move to then. -/
def AnswerFits (orderId : Uuid) : Option String → List Moment → Prop
  | some _, ⟨_, .answered (.ok cancellation)⟩ :: later =>
    Next (fun db _ => MayMove orderId cancellation.state db) later
  | _, _ => True

/-- What becomes of a target after it is found as `order`: one the venue has not seen is still
PREPARED, any other may move to CANCEL_PENDING unless it is UNKNOWN, and the venue's answer fits. -/
def TargetFits (orderId : Uuid) (order : OrderRecord) (later : List Moment) : Prop :=
  if order.state.terminal = true then True
  else if order.state = .prepared ∧ order.venueOrderId = none then
    Next (fun db _ => ∃ o ∈ db.orders, OrderRecord.At orderId .prepared o) later
  else if order.state = .unknown then AnswerFits orderId order.venueOrderId later
  else
    Next (fun db later => ∃ o, db.order? orderId = some o ∧ (o.state.terminal = true ∨
      validOrderTransition o.state .cancelPending = true ∧
        AnswerFits orderId order.venueOrderId later)) later

/-- What has to be found at a moment and from it on. -/
def Moment.Fits (moment : Moment) (later : List Moment) : Prop :=
  match moment.occasion with
  | .target orderId =>
    ∃ order, moment.db.order? orderId = some order ∧ TargetFits orderId order later
  | .close id =>
    Table.rowsAffected (CancellationRecord.PendingAt id) moment.db.cancellationRequests = 1
  | _ => True

def Unhindered : List Moment → Prop
  | [] => True
  | moment :: later => moment.Fits later ∧ Unhindered later

/-! ## What the store takes -/

theorem StoreCall.answer_error_iff {config : StoreConfig} {now : Time} {db : Db}
    {call : StoreCall} :
    (∃ e, call.answer config now db = .error e) ↔ ∃ e, call.run config now db = .error e := by
  unfold answer
  cases call.run config now db <;> simp [Except.map]

theorem StoreCall.admitted {config : StoreConfig} {now : Time} {db : Db} {call : StoreCall}
    {value : call.Value} {P : Prop}
    (hrefused : (∃ e, call.answer config now db = .error e) ↔ ¬ P)
    (h : call.answer config now db = .ok value) : P := by
  by_contra hP
  obtain ⟨e, herror⟩ := hrefused.mpr hP
  cases herror.symm.trans h

theorem getOrder_answer {config : StoreConfig} {now : Time} {db : Db} {id : Uuid} :
    (StoreCall.getOrder id).answer config now db =
      (match db.order? id with
      | none => .error .notFound
      | some order => .ok order) := by
  simp only [StoreCall.answer, StoreCall.run, StoreCall.query, getOrder]
  cases db.order? id <;> rfl

theorem cancelPreparedOrder_refused {config : StoreConfig} {now : Time} {db : Db} {id : Uuid} :
    (∃ e, (StoreCall.cancelPreparedOrder id).answer config now db = .error e) ↔
      ¬ ∃ o ∈ db.orders, OrderRecord.At id .prepared o := by
  rw [StoreCall.answer_error_iff]
  simp only [StoreCall.run, cancelPreparedOrder]
  cases hfound : db.orders.find? fun o => OrderRecord.At id .prepared o with
  | none =>
    simp only [List.find?_eq_none, decide_eq_true_eq] at hfound
    simpa using hfound
  | some order =>
    have hmem := List.mem_of_find?_eq_some hfound
    have hat := List.find?_some hfound
    simp only [decide_eq_true_eq] at hat
    simp only [reduceCtorEq, exists_false, false_iff, not_not]
    exact ⟨order, hmem, hat⟩

theorem transitionOrder_refused {config : StoreConfig} {now : Time} {db : Db} {id : Uuid}
    {next : OrderState} {venueOrderId : Option String} :
    (∃ e, (StoreCall.transitionOrder id next venueOrderId).answer config now db = .error e) ↔
      ¬ MayMove id next db := by
  rw [StoreCall.answer_error_iff]
  simp only [StoreCall.run, transitionOrder, MayMove]
  cases db.order? id with
  | none => simp
  | some prior =>
    dsimp only
    split
    · simp [*]
    · split <;> simp_all

/-- The order after a move to CANCEL_PENDING is terminal exactly if it was before. -/
theorem cancelPending_terminal {config : StoreConfig} {now : Time} {db : Db} {id : Uuid}
    {moved : OrderRecord}
    (h : (StoreCall.transitionOrder id .cancelPending none).answer config now db = .ok moved) :
    ∃ o, db.order? id = some o ∧ (o.state.terminal = true ∨
      validOrderTransition o.state .cancelPending = true) ∧
      (moved.state.terminal = true ↔ o.state.terminal = true) := by
  simp only [StoreCall.answer, StoreCall.run, transitionOrder] at h
  cases hfound : db.order? id with
  | none =>
    rw [hfound] at h
    cases h
  | some o =>
    rw [hfound] at h
    dsimp only at h
    split at h
    · rename_i hterminal
      cases h
      exact ⟨_, rfl, Or.inl hterminal.2, Iff.rfl⟩
    · rename_i hopen
      split at h
      · cases h
      · rename_i hvalid
        cases h
        refine ⟨_, rfl, Or.inr (not_not.mp hvalid), ?_⟩
        exact iff_of_false Bool.false_ne_true fun hterminal => hopen ⟨trivial, hterminal⟩

theorem finishCancellation_refused {config : StoreConfig} {now : Time} {db : Db} {id : Uuid}
    {failed : List Uuid} :
    (∃ e, (StoreCall.finishCancellation id failed).answer config now db = .error e) ↔
      Table.rowsAffected (CancellationRecord.PendingAt id) db.cancellationRequests ≠ 1 := by
  rw [StoreCall.answer_error_iff]
  simp only [StoreCall.run, finishCancellation]
  split
  · simpa using ‹_›
  · rename_i hpending
    obtain ⟨row, hrow, hat⟩ := Table.exists_of_rowsAffected_eq_one (not_not.mp hpending)
    simp only [hpending, iff_false]
    split
    · rename_i hnone
      have hfound := List.find?_eq_none.mp hnone _ (Table.mem_updateWhere_of_mem hrow hat)
      simp [hat.1] at hfound
    · simp

theorem finishCancellation_closes {id : Uuid} {failed : List Uuid} {db : Db}
    {r : Committed CancellationRecord} (h : finishCancellation id failed db = .ok r) :
    ∃ row ∈ r.db.cancellationRequests, row.id = id ∧ row.state = cancellationOutcome failed := by
  unfold finishCancellation at h
  split at h
  · cases h
  · rename_i hpending
    obtain ⟨row, hrow, hat⟩ := Table.exists_of_rowsAffected_eq_one (not_not.mp hpending)
    dsimp only at h
    split at h
    · cases h
    · cases h
      exact ⟨_, Table.mem_updateWhere_of_mem hrow hat, hat.1, rfl⟩

/-! ## Executions -/

/-- An execution of the function succeeds exactly if what it finds meets the condition; what is
found after it does not matter to it. -/
def Decides {α : Type} (S : Setting) (x : Action α) (P : List Moment → Prop) : Prop :=
  ∀ m log result m', S.Runs x m log result m' →
    match result with
    | .ok _ => ∀ later, P (moments log ++ later) ↔ Unhindered later
    | .error _ => ¬ P (moments log)

namespace Decides

variable {α β : Type} {S : Setting} {x : Action α} {f : α → Action β} {P : List Moment → Prop}

theorem pure {a : α} : Decides S (Pure.pure a : Action α) Unhindered := by
  intro m log result m' hrun
  obtain ⟨rfl, rfl, -⟩ := Setting.runs_pure.mp hrun
  exact fun later => Iff.rfl

theorem bind (hx : Decides S x P) (hf : ∀ a, Decides S (f a) Unhindered) :
    Decides S (x >>= f) P := by
  intro m log result m' hrun
  rcases Setting.runs_bind.mp hrun with
    ⟨e, hfirst, rfl⟩ | ⟨first, a, m₁, rest, hfirst, hrest, rfl⟩
  · exact hx _ _ _ _ hfirst
  · have hfirst := hx _ _ _ _ hfirst
    have hrest := hf a _ _ _ _ hrest
    cases result with
    | ok b =>
      intro later
      rw [moments, List.map_append, List.append_assoc, hfirst]
      exact hrest later
    | error e =>
      rw [moments, List.map_append, hfirst]
      exact hrest

/-- A call made first: the condition says of its moment what it leaves to the rest. -/
theorem perform {c : Call} {f : c.Answer → Action β}
    (h : ∀ m r m', c.answers S.config m S.thread r m' → ∃ Q, Decides S (f r) Q ∧
      ∀ later, P (momentOf (m, ⟨c, r⟩) :: later) ↔ Q later) :
    Decides S (Action.perform c >>= f) P := by
  intro m log result m' hrun
  obtain ⟨m₁, r, m₂, rest, -, hanswer, hrest, rfl⟩ := Setting.runs_performBind.mp hrun
  obtain ⟨Q, hf, hiff⟩ := h m₁ r m₂ hanswer
  have hrest := hf _ _ _ _ hrest
  cases result with
  | ok b => exact fun later => (hiff _).trans (hrest later)
  | error e => exact fun hP => hrest ((hiff _).mp hP)

theorem store {call : StoreCall} {f : call.Value → Action β} (moment : Db → Moment)
    (hmoment : ∀ m r, momentOf (m, ⟨.store call, r⟩) = moment m.db)
    (herror : ∀ now db, (∃ e, call.answer S.config now db = .error e) →
      ∀ later, ¬ P (moment db :: later))
    (hok : ∀ now db value, call.answer S.config now db = .ok value → ∃ Q, Decides S (f value) Q ∧
      ∀ later, P (moment db :: later) ↔ Q later) :
    Decides S (Action.store call >>= f) P := by
  intro m log result m' hrun
  rcases Setting.runs_bind.mp hrun with
    ⟨e, hfirst, rfl⟩ | ⟨first, value, m₁, rest, hfirst, hrest, rfl⟩
  · obtain ⟨m₁, now, -, rfl, houtcome, -⟩ := Setting.runs_store.mp hfirst
    cases hanswer : call.answer S.config now m₁.db with
    | ok value =>
      rw [hanswer] at houtcome
      cases houtcome
    | error e' =>
      simp only [List.map_cons, hmoment]
      exact herror now m₁.db ⟨e', hanswer⟩ _
  · obtain ⟨m₂, now, -, rfl, houtcome, rfl⟩ := Setting.runs_store.mp hfirst
    cases hanswer : call.answer S.config now m₂.db with
    | error e =>
      rw [hanswer] at houtcome
      cases houtcome
    | ok value' =>
      rw [hanswer] at houtcome
      cases houtcome
      obtain ⟨Q, hf, hiff⟩ := hok now m₂.db value hanswer
      have hrest := hf _ _ _ _ hrest
      simp only [List.map_cons, hmoment, List.cons_append, List.nil_append]
      cases result with
      | ok b => exact fun later => (hiff _).trans (hrest later)
      | error e => exact fun hP => hrest ((hiff _).mp hP)

/-- A store operation that is refused where the database it finds does not meet `P`. -/
theorem storeWhen {call : StoreCall} {f : call.Value → Action β} {P : Db → Prop}
    (hmoment : ∀ m r, momentOf (m, ⟨.store call, r⟩) = ⟨m.db, .other⟩)
    (hrefused : ∀ now db, (∃ e, call.answer S.config now db = .error e) ↔ ¬ P db)
    (hf : ∀ value, Decides S (f value) Unhindered) :
    Decides S (Action.store call >>= f) fun found => Next (fun db _ => P db) found ∧
      Unhindered found := by
  refine .store (fun db => ⟨db, .other⟩) hmoment ?_ ?_
  · intro now db herror later hfits
    exact (hrefused now db).mp herror hfits.1
  · intro now db value hanswer
    refine ⟨Unhindered, hf value, fun later => ?_⟩
    have hP := StoreCall.admitted (hrefused now db) hanswer
    exact (and_iff_right hP).trans (and_iff_right trivial)

/-- A function whose failure is passed over and that neither reaches a target nor closes a
request. -/
theorem attempt (hx : Makes (fun c => ∀ m r moments, (momentOf (m, ⟨c, r⟩)).Fits moments) x) :
    Decides S (Action.attempt x) Unhindered := by
  intro m log result m' hrun
  obtain ⟨outcome, hinner, rfl⟩ := Setting.runs_attempt.mp hrun
  intro later
  have hquiet := hinner.calls hx
  clear hinner hrun
  induction log with
  | nil => exact Iff.rfl
  | cons e log ih =>
    obtain ⟨hhead, hrest⟩ := List.forall_mem_cons.mp hquiet
    exact (and_iff_right (hhead _ _ _)).trans (ih hrest)

end Decides

namespace Coordinator

variable (self : Coordinator) (S : Setting)

theorem reconcileInner_decides (trigger : String) :
    Decides S (Action.attempt (self.reconcileInner trigger)) Unhindered := by
  refine .attempt ((self.reconcileInner_makes trigger).mono ?_)
  intro c hc m r later
  cases c with
  | store call => cases call <;> trivial
  | venue call => cases call <;> trivial
  | _ => trivial

theorem cancelAtVenue_decides (orderId : Uuid) (venueOrderId : Option String)
    (failed : List Uuid) : Decides S (self.cancelAtVenue orderId venueOrderId failed)
      fun found => AnswerFits orderId venueOrderId found ∧ Unhindered found := by
  have hnone : ∀ {name : Option String} {found : List Moment}, name = none →
      (AnswerFits orderId name found ∧ Unhindered found ↔ Unhindered found) := by
    rintro name found rfl
    exact and_iff_right trivial
  cases venueOrderId with
  | none =>
    simp only [hnone]
    exact .bind (self.reconcileInner_decides S _) fun _ => .pure
  | some venueOrderId =>
    refine .perform fun m answer m' _ => ?_
    cases answer with
    | ok cancellation =>
      refine ⟨fun found => Next (fun db _ => MayMove orderId cancellation.state db) found ∧
        Unhindered found, ?_, fun later => and_congr Iff.rfl (and_iff_right trivial)⟩
      exact .storeWhen (fun _ _ => rfl) (fun _ _ => transitionOrder_refused) fun _ => .pure
    | error e =>
      refine ⟨Unhindered, .bind (self.reconcileInner_decides S _) fun _ => .pure, fun later => ?_⟩
      exact (and_iff_right trivial).trans (and_iff_right trivial)
    | timeout =>
      refine ⟨Unhindered, .bind (self.reconcileInner_decides S _) fun _ => .pure, fun later => ?_⟩
      exact (and_iff_right trivial).trans (and_iff_right trivial)

theorem cancelPending_decides (orderId : Uuid) (venueOrderId : Option String)
    (failed : List Uuid) :
    Decides S (do
      let pending ← Action.store (.transitionOrder orderId .cancelPending none)
      if pending.state.terminal = true then pure failed
      else self.cancelAtVenue orderId venueOrderId failed)
      fun found => Next (fun db later => ∃ o, db.order? orderId = some o ∧
        (o.state.terminal = true ∨ validOrderTransition o.state .cancelPending = true ∧
          AnswerFits orderId venueOrderId later)) found ∧ Unhindered found := by
  refine .store (fun db => ⟨db, .other⟩) (fun _ _ => rfl) ?_ ?_
  · rintro now db hrefused later ⟨⟨o, hfound, hmoves⟩, -⟩
    refine transitionOrder_refused.mp hrefused ⟨o, hfound, ?_⟩
    exact hmoves.imp (fun hterminal => ⟨rfl, hterminal⟩) And.left
  · intro now db moved hmoved
    obtain ⟨o, hfound, hmoves, hterminal⟩ := cancelPending_terminal hmoved
    split
    · rename_i hdone
      have hdone := hterminal.mp hdone
      exact ⟨Unhindered, .pure, fun later =>
        (and_iff_right ⟨o, hfound, Or.inl hdone⟩).trans (and_iff_right trivial)⟩
    · rename_i hopen
      refine ⟨_, self.cancelAtVenue_decides S _ _ _, fun later => ?_⟩
      have hopen : ¬ o.state.terminal = true := fun h => hopen (hterminal.mpr h)
      refine and_congr ?_ (and_iff_right trivial)
      constructor
      · rintro ⟨o', hfound', hmoves'⟩
        obtain rfl := Option.some.inj (hfound.symm.trans hfound')
        exact (hmoves'.resolve_left hopen).2
      · intro hanswer
        exact ⟨o, hfound, Or.inr ⟨hmoves.resolve_left hopen, hanswer⟩⟩

theorem cancelTarget_decides (orderId : Uuid) (failed : List Uuid) :
    Decides S (self.cancelTarget orderId failed) Unhindered := by
  refine .store (fun db => ⟨db, .target orderId⟩) (fun _ _ => rfl) ?_ ?_
  · rintro now db ⟨e, hmissing⟩ later ⟨⟨order, hfound, -⟩, -⟩
    rw [getOrder_answer, hfound] at hmissing
    cases hmissing
  · intro now db order hread
    have hfound : db.order? orderId = some order := by
      rw [getOrder_answer] at hread
      split at hread
      · cases hread
      · cases hread
        assumption
    refine ⟨fun found => TargetFits orderId order found ∧ Unhindered found, ?_, fun later => ?_⟩
    · unfold TargetFits
      split
      · simp only [true_and]
        exact .pure
      · split
        · exact .storeWhen (fun _ _ => rfl) (fun _ _ => cancelPreparedOrder_refused) fun _ => .pure
        · split
          · exact self.cancelAtVenue_decides S _ _ _
          · exact self.cancelPending_decides S _ _ _
    · refine and_congr ?_ Iff.rfl
      constructor
      · rintro ⟨order', hfound', hfits⟩
        obtain rfl := Option.some.inj (hfound.symm.trans hfound')
        exact hfits
      · exact fun hfits => ⟨order, hfound, hfits⟩

theorem cancelTargets_decides (targets failed : List Uuid) :
    Decides S (self.cancelTargets targets failed) Unhindered := by
  induction targets generalizing failed with
  | nil => exact .pure
  | cons orderId rest ih => exact .bind (self.cancelTarget_decides S orderId failed) fun _ => ih _

theorem executeCancellation_decides (id : Uuid) (targets : List Uuid) :
    Decides S (self.executeCancellation id targets) Unhindered := by
  refine .bind (self.cancelTargets_decides S targets []) fun failed => ?_
  refine .store (fun db => ⟨db, .close id⟩) (fun _ _ => rfl) ?_ ?_
  · intro now db hrefused later hfits
    exact finishCancellation_refused.mp hrefused hfits.1
  · intro now db record hclosed
    refine ⟨Unhindered, .pure, fun later => ?_⟩
    exact and_iff_right (StoreCall.admitted finishCancellation_refused hclosed)

theorem replayCancellations_decides (pending : List CancellationRecord) :
    Decides S (self.replayCancellations pending) Unhindered := by
  induction pending with
  | nil => exact .pure
  | cons row rest ih => exact .bind (self.executeCancellation_decides S _ _) fun _ => ih

/-! ## Attempts -/

/-- The call asks for the cancellation of an order: of the store while the venue has not seen the
order, else of the venue, or for a reconciliation where the order has no name at the venue. -/
def AsksToCancel (orderId : Uuid) (order : OrderRecord) (entry : Sigma Call.Answer) : Prop :=
  entry.1 = .store (.cancelPreparedOrder orderId) ∨
    (∃ venueOrderId, order.venueOrderId = some venueOrderId ∧
      entry.1 = .venue (.cancel venueOrderId)) ∨
    order.venueOrderId = none ∧
      entry.1 = .store (.startReconciliation "cancellation_missing_venue_id" none)

/-- The execution reads the target and asks for its cancellation, unless it finds it terminal. -/
def Attempted (log : Log) (orderId : Uuid) : Prop :=
  ∃ e ∈ log, ∃ order : OrderRecord, e.2 = done (.getOrder orderId) order ∧
    (order.state.terminal = true ∨ (∃ e' ∈ log, AsksToCancel orderId order e'.2) ∨
      ∃ e' ∈ log, ∃ moved : OrderRecord,
        e'.2 = done (.transitionOrder orderId .cancelPending none) moved ∧
          moved.state.terminal = true)

theorem Attempted.mono {log log' : Log} {orderId : Uuid} (h : Attempted log orderId)
    (hsub : ∀ e ∈ log, e ∈ log') : Attempted log' orderId := by
  obtain ⟨e, he, order, hread, hattempt⟩ := h
  refine ⟨e, hsub e he, order, hread, ?_⟩
  rcases hattempt with hterminal | ⟨e', he', hasks⟩ | ⟨e', he', hmoved⟩
  · exact Or.inl hterminal
  · exact Or.inr (Or.inl ⟨e', hsub e' he', hasks⟩)
  · exact Or.inr (Or.inr ⟨e', hsub e' he', hmoved⟩)

variable {self S} {m m' : Memory} {log : Log}

theorem cancelAtVenue_attempts {orderId : Uuid} {order : OrderRecord} {failed failed' : List Uuid}
    (hrun : S.Runs (self.cancelAtVenue orderId order.venueOrderId failed) m log (.ok failed') m') :
    ∃ e ∈ log, AsksToCancel orderId order e.2 := by
  unfold cancelAtVenue at hrun
  cases hvenue : order.venueOrderId with
  | none =>
    rw [hvenue] at hrun
    obtain ⟨first, outcome, m₁, rest, hreconcile, -, rfl⟩ := Setting.runs_attemptBind.mp hrun
    rcases Setting.runs_bind.mp hreconcile with
      ⟨e, hfirst, -⟩ | ⟨started, id, m₂, later, hfirst, -, rfl⟩
    all_goals obtain ⟨m₃, now, -, rfl, -, -⟩ := Setting.runs_store.mp hfirst
    · exact ⟨_, List.mem_cons_self, Or.inr (Or.inr ⟨hvenue, rfl⟩)⟩
    · exact ⟨_, List.mem_cons_self, Or.inr (Or.inr ⟨hvenue, rfl⟩)⟩
  | some venueOrderId =>
    rw [hvenue] at hrun
    obtain ⟨m₁, answer, m₂, rest, -, -, -, rfl⟩ := Setting.runs_performBind.mp hrun
    exact ⟨_, List.mem_cons_self, Or.inr (Or.inl ⟨venueOrderId, hvenue, rfl⟩)⟩

theorem cancelTarget_attempts {orderId : Uuid} {failed failed' : List Uuid}
    (hrun : S.Runs (self.cancelTarget orderId failed) m log (.ok failed') m') :
    Attempted log orderId := by
  obtain ⟨m₁, now, order, rest, -, -, hrest, rfl⟩ := Setting.runs_storeOk hrun
  refine ⟨_, List.mem_cons_self, order, rfl, ?_⟩
  split at hrest
  · exact Or.inl ‹_›
  · refine Or.inr ?_
    split at hrest
    · obtain ⟨m₂, now, moved, rest, -, -, -, rfl⟩ := Setting.runs_storeOk hrest
      exact Or.inl ⟨_, List.mem_cons_of_mem _ List.mem_cons_self, Or.inl rfl⟩
    · split at hrest
      · obtain ⟨e, he, hasks⟩ := cancelAtVenue_attempts hrest
        exact Or.inl ⟨e, List.mem_cons_of_mem _ he, hasks⟩
      · obtain ⟨m₂, now, moved, rest, -, -, hafter, rfl⟩ := Setting.runs_storeOk hrest
        split at hafter
        · exact Or.inr ⟨_, List.mem_cons_of_mem _ List.mem_cons_self, moved, rfl, ‹_›⟩
        · obtain ⟨e, he, hasks⟩ := cancelAtVenue_attempts hafter
          exact Or.inl ⟨e, by simp [he], hasks⟩

theorem cancelTargets_attempts {targets failed failed' : List Uuid}
    (hrun : S.Runs (self.cancelTargets targets failed) m log (.ok failed') m') :
    ∀ orderId ∈ targets, Attempted log orderId := by
  induction targets generalizing failed m log with
  | nil => exact fun _ h => nomatch h
  | cons target targets ih =>
    rcases Setting.runs_bind.mp hrun with
      ⟨e, -, hresult⟩ | ⟨first, failed₁, m₁, rest, hfirst, hrest, rfl⟩
    · cases hresult
    · intro orderId horder
      rcases List.mem_cons.mp horder with rfl | hlater
      · exact (cancelTarget_attempts hfirst).mono fun e he => List.mem_append_left _ he
      · exact (ih hrest orderId hlater).mono fun e he => List.mem_append_right _ he

/-! ## Completion -/

/-- The execution returns without an error, has attempted every target, and leaves the request
COMPLETE or RECONCILIATION_REQUIRED. -/
structure Completes (id : Uuid) (targets : List Uuid) (log : Log)
    (result : Except CoordinatorError Unit) (m' : Memory) : Prop where
  returns : result = .ok ()
  attempts : ∀ orderId ∈ targets, Attempted log orderId
  closes : ∃ row ∈ m'.db.cancellationRequests, row.id = id ∧
    (row.state = .complete ∨ row.state = .reconciliationRequired)

theorem executeCancellation_completes {id : Uuid} {targets : List Uuid}
    (hrun : S.Runs (self.executeCancellation id targets) m log (.ok ()) m') :
    Completes id targets log (.ok ()) m' := by
  rcases Setting.runs_bind.mp hrun with
    ⟨e, -, hresult⟩ | ⟨first, failed, m₁, rest, hfirst, hrest, rfl⟩
  · cases hresult
  · obtain ⟨m₂, now, record, last, -, hfinish, hlast, rfl⟩ := Setting.runs_storeOk hrest
    obtain ⟨-, -, rfl⟩ := Setting.runs_pure.mp hlast
    refine ⟨rfl, fun orderId horder => ?_, ?_⟩
    · exact (cancelTargets_attempts hfirst orderId horder).mono fun e he =>
        List.mem_append_left _ he
    · obtain ⟨r, hfinished, -, hdb⟩ := StoreCall.answer_ok hfinish.symm
      obtain ⟨row, hrow, hid, hstate⟩ := finishCancellation_closes hfinished
      refine ⟨row, hdb ▸ hrow, hid, ?_⟩
      rw [hstate]
      unfold cancellationOutcome
      split
      · exact Or.inl rfl
      · exact Or.inr rfl

end Coordinator

/-- An execution of a cancellation completes, and the replay of the pending cancellations of a
startup returns, exactly if nothing it finds is in its way: every target is stored when it is
reached, one without a name at the venue that is PREPARED then still is at the next moment, any
other one may move to CANCEL_PENDING then or is UNKNOWN or terminal, a state the venue answers is
one the order may move to, and the request is still PENDING in the end. -/
theorem cancellation_completes_iff {self : Coordinator} {S : Setting} {m m' : Memory} {log : Log}
    {result : Except CoordinatorError Unit} :
    (∀ id targets, S.Runs (self.executeCancellation id targets) m log result m' →
      (Coordinator.Completes id targets log result m' ↔ Unhindered (moments log))) ∧
    ∀ pending, S.Runs (self.replayCancellations pending) m log result m' →
      (result = .ok () ↔ Unhindered (moments log)) := by
  have hreturns : ∀ x : Action Unit, Decides S x Unhindered → S.Runs x m log result m' →
      (result = .ok () ↔ Unhindered (moments log)) := by
    intro x hx hrun
    have hdecided := hx _ _ _ _ hrun
    cases result with
    | ok value =>
      have hall := hdecided []
      rw [List.append_nil] at hall
      exact iff_of_true rfl (hall.mpr trivial)
    | error e => exact iff_of_false (fun h => nomatch h) hdecided
  constructor
  · intro id targets hrun
    rw [← hreturns _ (self.executeCancellation_decides S id targets) hrun]
    constructor
    · exact fun hcompletes => hcompletes.returns
    · rintro rfl
      exact Coordinator.executeCancellation_completes hrun
  · exact fun pending hrun => hreturns _ (self.replayCancellations_decides S pending) hrun

/-- The cancellation of a resting order completes. -/
theorem cancellation_completes_iff_resting : ∃ db, Reachable samplePaperStore db ∧
    ∃ (m' : Memory) (log : Log) (result : Except CoordinatorError Unit),
      aloneSetting.Runs (sampleCoordinator.executeCancellation 8 [7]) (Memory.ofDb db []) log
        result m' ∧ result = .ok () ∧
      (Coordinator.Completes 8 [7] log result m' ↔ Unhindered (moments log)) := by
  obtain ⟨db, past, hplay, hreachable, hdone⟩ := @exists_of_play samplePaperStore 0
    (restingSample ++ [.createCancellation "operator" Coordinator.startupRequest none])
    (fun s => (playAlone 0 sampleVenue (sampleCoordinator.executeCancellation 8 [7]).run
      (Memory.ofDb s.1 [])).any fun final => final.2.1.toOption.isSome) (by decide +kernel)
  obtain ⟨log, result, m', hruns, hok⟩ := exists_of_playAlone hdone
  refine ⟨db, hreachable, m', log, result, hruns, ?_, ?_⟩
  · cases result with
    | ok value => rfl
    | error e => cases hok
  · exact (cancellation_completes_iff.1 8 [7]) hruns

def missingRequest : CancellationRequest :=
  { orderId := some 100, intentId := none, conditionId := none, allOpenOrders := false
    reason := "operator" }

/-- The request is valid and recorded; its execution fails on the missing order and leaves it
PENDING, and so does every startup that replays it. -/
theorem cancellation_fails_on_missing_order : missingRequest.validate = .ok () ∧
    ∃ db, Reachable samplePaperStore db ∧
      (∃ row ∈ db.pendingCancellations, row.selector = missingRequest ∧
        row.id = 1 ∧ row.targetOrderIds = [100]) ∧
      (∃ log result m', aloneSetting.Runs (sampleCoordinator.executeCancellation 1 [100])
        (Memory.ofDb db []) log result m' ∧ ¬ Coordinator.Completes 1 [100] log result m' ∧
        ∃ row ∈ m'.db.pendingCancellations, row.id = 1) ∧
      ∃ log result m', aloneSetting.Runs
        (sampleCoordinator.replayCancellations db.pendingCancellations) (Memory.ofDb db []) log
          result m' ∧ result = .error (.store .notFound) := by
  refine ⟨by decide +kernel, ?_⟩
  obtain ⟨db, past, -, hreachable, hcheck⟩ := @exists_of_play samplePaperStore 0
    [.createCancellation "operator" missingRequest none]
    (fun s => (s.1.pendingCancellations.any fun row => row.selector = missingRequest ∧
        row.id = 1 ∧ row.targetOrderIds = [100]) &&
      ((playAlone 0 sampleVenue (sampleCoordinator.executeCancellation 1 [100]).run
        (Memory.ofDb s.1 [])).any fun final => final.2.1 = .error (.store .notFound) ∧
          (final.2.2.db.pendingCancellations.any fun row => row.id = 1) = true) &&
      (playAlone 0 sampleVenue (sampleCoordinator.replayCancellations
        s.1.pendingCancellations).run (Memory.ofDb s.1 [])).any fun final =>
          final.2.1 = .error (.store .notFound)) (by decide +kernel)
  simp only [Bool.and_eq_true] at hcheck
  obtain ⟨⟨hrow, hexecution⟩, hreplay⟩ := hcheck
  refine ⟨db, hreachable, by simpa using hrow, ?_, ?_⟩
  · obtain ⟨log, result, m', hruns, hend⟩ := exists_of_playAlone hexecution
    obtain ⟨hfailed, hpending⟩ := of_decide_eq_true hend
    refine ⟨log, result, m', hruns, ?_, by simpa using hpending⟩
    intro hcompletes
    cases hfailed.symm.trans hcompletes.returns
  · obtain ⟨log, result, m', hruns, hend⟩ := exists_of_playAlone hreplay
    exact ⟨log, result, m', hruns, of_decide_eq_true hend⟩

end OddsfoxExecution
