import OddsfoxExecution.Coordinator.Schedule

/-!
# At-most-once submission

`begin_submission` moves an intent from PREPARED to SUBMITTING, and no later
operation takes an intent back to PREPARED; so it succeeds once for each
intent, in one task.  `submit` follows that commit at once in that task.
-/

namespace OddsfoxExecution

def submits (intentId : Uuid) (e : CallEvent) : Bool :=
  match e.task, e.entry.1 with
  | .worker id, .venue (.submit ..) => id = intentId
  | _, _ => false

/-- The intent's submission begins, in a READY service. -/
structure BeginsReady (intentId : Uuid) (e : CallEvent) : Prop where
  task : e.task = .worker intentId
  committed : ∃ orderId, e.entry = done (.beginSubmission intentId orderId) ()
  ready : e.found.db.controlState.state = .ready

/-- The intent has one prepared row, and the payload is the row's. -/
def PayloadOf (db : Db) (intentId : Uuid) (prepared : PreparedVenueOrder) : Prop :=
  ∃ row, db.preparedOrders.filter (fun p => p.intentId = intentId) = [row] ∧
    prepared.deterministicOrderId = row.deterministicOrderId ∧
      prepared.signedPayloadJson = row.signedPayloadJson

theorem submits_iff {intentId : Uuid} {e : CallEvent} :
    submits intentId e = true ↔ e.task = .worker intentId ∧
      ∃ prepared request answer, e.entry = asked (.submit prepared request) answer := by
  obtain ⟨t, task, found, c, r⟩ := e
  constructor
  · intro h
    unfold submits at h
    split at h
    · rename_i id prepared request htask hentry
      dsimp only at htask hentry
      subst htask hentry
      rw [of_decide_eq_true h]
      exact ⟨rfl, prepared, request, r, rfl⟩
    · cases h
  · rintro ⟨rfl, prepared, request, answer, hentry⟩
    cases hentry
    exact decide_eq_true rfl

/-! ## What a prepared order keeps -/

def HasPayload (db : Db) (intentId : Uuid) (prepared : PreparedVenueOrder) : Prop :=
  ∃ row ∈ db.preparedOrders, row.intentId = intentId ∧
    prepared.deterministicOrderId = row.deterministicOrderId ∧
      prepared.signedPayloadJson = row.signedPayloadJson

theorem preparedSubmission_payload {db : Db} {intentId : Uuid} {persisted : PreparedSubmission}
    (h : preparedSubmission intentId db = .ok persisted) :
    HasPayload db intentId persisted.venueOrder := by
  unfold preparedSubmission at h
  split at h
  · cases h
  · rename_i rest hrows
    split at h
    · cases h
    · cases h
      have hrow : persisted ∈ db.preparedSubmissions intentId := hrows ▸ List.mem_cons_self
      simp only [Db.preparedSubmissions, List.mem_flatMap, List.mem_filter, List.mem_map,
        decide_eq_true_eq] at hrow
      obtain ⟨o, ⟨-, howner, -⟩, p, ⟨hp, hintent⟩, -, -, rfl⟩ := hrow
      exact ⟨p, hp, hintent.trans howner, rfl, rfl⟩

theorem createPreparedOrder_payload {db : Db} {intentId : Uuid} {request : OrderIntentRequest}
    {prepared : PreparedVenueOrder} {version : String} {feeRate : Decimal} {now : Time}
    {r : Committed OrderRecord}
    (h : createPreparedOrder intentId request prepared version feeRate now db = .ok r) :
    HasPayload r.db intentId prepared := by
  unfold createPreparedOrder at h
  split at h
  · cases h
  · split at h
    · cases h
    · dsimp only at h
      split at h
      · cases h
      · split at h
        · cases h
        · split at h
          · cases h
          · split at h
            · cases h
            · cases h
              exact ⟨_, List.mem_append_right _ List.mem_cons_self, rfl, rfl, rfl⟩

/-- A payload stays, and no other row of its intent comes. -/
theorem HasPayload.unique {db db' : Db} {intentId : Uuid} {prepared : PreparedVenueOrder}
    (h : HasPayload db intentId prepared) {M : OrderMove → Prop}
    (hsteps : LifecycleSteps M db.lifecycle db'.lifecycle) (hs : Coherent db'.lifecycle) :
    PayloadOf db' intentId prepared := by
  obtain ⟨row, hrow, hintent, hpayload⟩ := h
  have hrow' : row ∈ db'.preparedOrders := hsteps.prepared_prefix.subset hrow
  have hnodup : (db'.preparedOrders.map PreparedOrder.intentId).Nodup := by
    rw [show db'.preparedOrders.map PreparedOrder.intentId = db'.orders.map OrderRecord.intentId
      from hs.preparedIntents]
    exact hs.orderIntents
  rcases Table.filter_key hnodup (p := fun p : PreparedOrder => p.intentId = intentId)
    (fun _ => id) with hnone | ⟨other, hother, howner, hone⟩
  · exact absurd (decide_eq_true hintent) (List.filter_eq_nil_iff.mp hnone row hrow')
  · have hsame : other = row :=
      Table.eq_of_key_eq hnodup hother hrow' (howner.trans hintent.symm)
    exact ⟨row, hsame ▸ hone, hpayload⟩

namespace Coordinator.Reaches

variable {self : Coordinator} {config : StoreConfig} {guard : CallGuard} {s : System}

/-! ## A submission begins once -/

theorem begun (h : self.Reaches config guard s) {e : CallEvent} (he : e ∈ s.history)
    {intentId orderId : Uuid} (hentry : e.entry = done (.beginSubmission intentId orderId) ()) :
    ∃ i ∈ s.memory.db.intents, i.id = intentId ∧ i.state.begun = true := by
  obtain ⟨-, now, r, hrun, -, hdb⟩ := h.committed he hentry
  obtain ⟨i, hi, hid, hstate⟩ := (beginSubmission_ok hrun).intent'
  obtain ⟨hcoherent, hsteps⟩ := h.leads.cons.steps _ hdb
  obtain ⟨i', hi', hid', hbegun, -⟩ := hsteps.intent_kept hcoherent hi
  exact ⟨i', hi', hid'.trans hid, hbegun (by rw [hstate]; rfl)⟩

theorem began (h : self.Reaches config guard s) {e : CallEvent} (he : e ∈ s.history)
    {intentId orderId : Uuid} (hentry : e.entry = done (.beginSubmission intentId orderId) ()) :
    ∃ db', SubmissionBegun e.found.db db' intentId orderId := by
  obtain ⟨-, now, r, hrun, -⟩ := h.committed he hentry
  exact ⟨r.db, beginSubmission_ok hrun⟩

/-- Before the commit of `begin_submission` there was none for the intent. -/
theorem begun_once (h : self.Reaches config guard s) {after before : List CallEvent}
    {b : CallEvent} (heq : s.history = after ++ b :: before) {intentId orderId orderId' : Uuid}
    (hentry : b.entry = done (.beginSubmission intentId orderId) ()) {e : CallEvent}
    (he : e ∈ before) : e.entry ≠ done (.beginSubmission intentId orderId') () := by
  intro hentry'
  obtain ⟨db', hbegan⟩ := h.began (heq ▸ List.mem_append_right _ List.mem_cons_self) hentry
  obtain ⟨i, hi, hid, hprepared⟩ := hbegan.intent
  -- at the moment of the commit the intent had not begun
  obtain ⟨p, next, memory, hp, hmemory, rfl, -⟩ := h.moment heq
  have hp : self.Reaches config guard p := hp
  obtain ⟨i', hi', hid', hbegun⟩ := hp.begun he hentry'
  have hcoherent := hp.coherent
  rw [hmemory] at hi' hcoherent
  have hsame : i' = i := Table.eq_of_key_eq hcoherent.intentIds hi' hi (hid'.trans hid.symm)
  rw [hsame, hprepared] at hbegun
  exact absurd hbegun (by decide)

/-- A submission follows the commit of `begin_submission` in its own task. -/
structure Origin (intentId : Uuid) (prepared : PreparedVenueOrder) (e b : CallEvent)
    (between earlier : List CallEvent) : Prop where
  thread : b.thread = e.thread
  task : e.task = .worker intentId
  begins : BeginsReady intentId b
  own : ownCalls e.thread between = []
  prepared : ∃ orderId, PreparedIn (ownCalls e.thread earlier) intentId orderId prepared

theorem origin (h : self.Reaches config guard s) {after before : List CallEvent} {e : CallEvent}
    (heq : s.history = after ++ e :: before) {prepared : PreparedVenueOrder}
    {request : OrderIntentRequest} {answer : VenueAnswer VenueSubmission}
    (hentry : e.entry = asked (.submit prepared request) answer) :
    ∃ intentId b between earlier, before = between ++ b :: earlier ∧
      Origin intentId prepared e b between earlier := by
  have hpromise := (h.kept heq).call
  rw [hentry] at hpromise
  obtain ⟨intentId, orderId, made, hmade, hprepared⟩ := hpromise
  obtain ⟨between, b, earlier, rfl, hthread, hbegin, hown, hearlier⟩ :=
    ownCalls_split (a := []) hmade
  have heq' : s.history = (after ++ e :: between) ++ b :: earlier := by simp [heq]
  have hbegins := (h.kept heq').call
  rw [hbegin] at hbegins
  obtain ⟨hworker, -⟩ : b.task = .worker intentId ∧ _ := hbegins
  obtain ⟨db', hbegan⟩ := h.began (heq' ▸ List.mem_append_right _ List.mem_cons_self) hbegin
  have htask : b.task = e.task := by
    obtain ⟨p, next, memory, hp, -, hhistory, ht, -⟩ := h.moment heq
    refine hp.consistent.task _ _ ht b ?_ hthread
    rw [hhistory]
    exact List.mem_append_right _ List.mem_cons_self
  exact ⟨intentId, b, between, earlier, rfl, hthread, htask ▸ hworker,
    ⟨hworker, ⟨orderId, hbegin⟩, hbegan.ready⟩, hown, orderId, hearlier ▸ hprepared⟩

/-- The prepared row a task took its order from still holds the order's payload. -/
theorem payload (h : self.Reaches config guard s) {intentId orderId : Uuid}
    {prepared : PreparedVenueOrder} {t : Nat} {earlier : List CallEvent}
    (hsub : ∀ e ∈ earlier, e ∈ s.history)
    (hprepared : PreparedIn (ownCalls t earlier) intentId orderId prepared) :
    PayloadOf s.memory.db intentId prepared := by
  rcases hprepared with ⟨persisted, hmem, -, rfl⟩ | ⟨request, version, feeRate, order, hmem, -⟩
  · obtain ⟨e, he, -, hentry⟩ := mem_ownCalls.mp hmem
    obtain ⟨hfound, now, r, hrun, rfl, -⟩ := h.committed (hsub e he) hentry
    exact (preparedSubmission_payload (StoreCall.query_ok hrun).1).unique
      (h.leads.steps _ hfound).2 h.coherent
  · obtain ⟨e, he, -, hentry⟩ := mem_ownCalls.mp hmem
    obtain ⟨-, now, r, hrun, -, hdb⟩ := h.committed (hsub e he) hentry
    exact (createPreparedOrder_payload hrun).unique (h.leads.cons.steps _ hdb).2 h.coherent

/-- The commit of `begin_submission` behind a submission of the intent. -/
theorem submission_begun (h : self.Reaches config guard s) {after before : List CallEvent}
    {e : CallEvent} (heq : s.history = after ++ e :: before) {intentId : Uuid}
    (he : submits intentId e = true) :
    ∃ b between earlier orderId, before = between ++ b :: earlier ∧ b.thread = e.thread ∧
      ownCalls e.thread between = [] ∧ b.entry = done (.beginSubmission intentId orderId) () := by
  obtain ⟨htask, prepared, request, answer, hentry⟩ := submits_iff.mp he
  obtain ⟨id, b, between, earlier, hbefore, horigin⟩ := h.origin heq hentry
  obtain ⟨orderId, hbegin⟩ := horigin.begins.committed
  cases horigin.task.symm.trans htask
  exact ⟨b, between, earlier, orderId, hbefore, horigin.thread, horigin.own, hbegin⟩

/-- A second submission of an intent would need a second commit of `begin_submission`. -/
theorem submits_once (h : self.Reaches config guard s) {after before : List CallEvent}
    {e : CallEvent} (heq : s.history = after ++ e :: before) {intentId : Uuid}
    (he : submits intentId e = true) {e' : CallEvent} (he' : e' ∈ before) :
    ¬ submits intentId e' = true := by
  intro hsubmits
  obtain ⟨b, between, earlier, orderId, rfl, hthread, hown, hbegin⟩ := h.submission_begun heq he
  have heqb : s.history = (after ++ e :: between) ++ b :: earlier := by simp [heq]
  rcases List.mem_append.mp he' with hbetween | hrest
  · -- another task submits after this one has begun, so it began after this one too
    obtain ⟨x, y, rfl⟩ := List.append_of_mem hbetween
    have heq' : s.history = (after ++ e :: x) ++ e' :: (y ++ b :: earlier) := by simp [heq]
    obtain ⟨b', between', earlier', orderId', hsplit, hthread', -, hbegin'⟩ :=
      h.submission_begun heq' hsubmits
    have hother : e'.thread ≠ e.thread := fun hsame => by
      have hmem : e'.entry ∈ ownCalls e.thread (x ++ e' :: y) :=
        mem_ownCalls.mpr ⟨e', hbetween, hsame, rfl⟩
      rw [hown] at hmem
      cases hmem
    have hb' : b' ∈ y ++ b :: earlier := hsplit ▸ List.mem_append_right _ List.mem_cons_self
    rcases List.mem_append.mp hb' with hy | hrest
    · obtain ⟨u, v, rfl⟩ := List.append_of_mem hy
      have heqb' : s.history = (after ++ e :: x ++ e' :: u) ++ b' :: (v ++ b :: earlier) := by
        simp [heq]
      exact h.begun_once heqb' hbegin' (List.mem_append_right _ List.mem_cons_self) hbegin
    · rcases List.mem_cons.mp hrest with rfl | hearlier
      · exact hother (hthread'.symm.trans hthread)
      · exact h.begun_once heqb hbegin hearlier hbegin'
  · rcases List.mem_cons.mp hrest with rfl | hearlier
    · obtain ⟨-, prepared, request, answer, hentry⟩ := submits_iff.mp hsubmits
      cases hentry.symm.trans hbegin
    · obtain ⟨x, y, rfl⟩ := List.append_of_mem hearlier
      have heq' : s.history = (after ++ e :: between ++ b :: x) ++ e' :: y := by simp [heq]
      obtain ⟨b', between', earlier', orderId', rfl, -, -, hbegin'⟩ :=
        h.submission_begun heq' hsubmits
      exact h.begun_once heqb hbegin (by simp) hbegin'

end Coordinator.Reaches

/-- The venue is asked to submit an intent at most once in a run of any length, over any number
of processes; the submission comes after the commit of `begin_submission` in a READY service and
carries the payload of the intent's one prepared row.  No task but an intent's worker submits. -/
theorem submitted_at_most_once {self : Coordinator} {config : StoreConfig} {s : System}
    (h : self.Reaches config (fun _ _ _ => True) s) :
    (∀ intentId, (s.history.filter (submits intentId)).length ≤ 1) ∧
      ∀ after before e prepared request answer, s.history = after ++ e :: before →
        e.entry = asked (.submit prepared request) answer →
          ∃ intentId, e.task = .worker intentId ∧ (∃ b ∈ before, BeginsReady intentId b) ∧
            PayloadOf s.memory.db intentId prepared := by
  refine ⟨fun intentId => ?_, fun after before e prepared request answer heq hentry => ?_⟩
  · refine length_filter_le_one fun after e before heq he e' he' => ?_
    exact h.submits_once heq he he'
  · obtain ⟨intentId, b, between, earlier, rfl, horigin⟩ := h.origin heq hentry
    obtain ⟨orderId, hprepared⟩ := horigin.prepared
    refine ⟨intentId, horigin.task, ⟨b, List.mem_append_right _ List.mem_cons_self,
      horigin.begins⟩, h.payload (fun e' he' => ?_) hprepared⟩
    rw [heq]
    simp [he']

/-- A process starts up, admits an intent and submits its order. -/
def submissionSchedule : List Move :=
  [.arrive .main, .calls 0 22 0 sampleVenue,
    .arrive (.submitIntent "operator" "first" sampleRequest), .calls 1 4 0 sampleVenue,
    .arrive (.worker 6), .calls 2 20 0 sampleVenue]

/-- The intent of the schedule is submitted, and only once. -/
theorem submitted_at_most_once_first :
    ∃ s, sampleCoordinator.Reaches samplePaperStore (fun _ _ _ => True) s ∧
      (s.history.filter (submits 6)).length = 1 := by
  have hsample : (sampleCoordinator.execute samplePaperStore (fun _ _ => true)
      submissionSchedule System.initial).any
        (fun s => 1 ≤ (s.history.filter (submits 6)).length) = true := by
    decide +kernel
  obtain ⟨s, h, hsome⟩ := Coordinator.exists_of_execute (fun _ _ _ _ => trivial) hsample
  exact ⟨s, h, Nat.le_antisymm ((submitted_at_most_once h).1 6) (of_decide_eq_true hsome)⟩

end OddsfoxExecution
