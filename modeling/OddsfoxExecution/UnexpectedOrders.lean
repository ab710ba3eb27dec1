import OddsfoxExecution.AtMostOnce
import OddsfoxExecution.Coordinator.Flagging

/-!
# The executor's own orders

A reconciliation reads the known orders after the venue's snapshot, and an
order is submitted after its prepared row is committed.  So an order whose
submission began before a snapshot is among the known ones by the time the
snapshot is compared with them, however the tasks interleave and whatever a
crash left unrecorded.
-/

namespace OddsfoxExecution

open Coordinator (unexpectedOrderIds knownVenueOrderIds)

/-- The store records that the submission of the order begins. -/
def BeginsSubmission (venueOrderId : String) (e : CallEvent) : Prop :=
  ∃ intentId orderId, e.entry = done (.beginSubmission intentId orderId) () ∧
    ∃ p ∈ e.found.db.preparedOrders, p.intentId = intentId ∧
      p.deterministicOrderId = venueOrderId

def beginsOrder (venueOrderId : String) (e : CallEvent) : Bool :=
  match e.entry with
  | ⟨.store (.beginSubmission intentId _), r⟩ =>
    match (r : Except StoreError Unit) with
    | .ok () => e.found.db.preparedOrders.any fun p =>
        p.intentId = intentId ∧ p.deterministicOrderId = venueOrderId
    | .error _ => false
  | _ => false

theorem beginsSubmission_of_beginsOrder {venueOrderId : String} {e : CallEvent}
    (h : beginsOrder venueOrderId e = true) : BeginsSubmission venueOrderId e := by
  obtain ⟨t, task, found, entry⟩ := e
  unfold beginsOrder at h
  split at h
  · rename_i intentId orderId r heq
    split at h
    · obtain ⟨p, hp, howner⟩ := List.any_eq_true.mp h
      exact ⟨intentId, orderId, heq, p, hp, of_decide_eq_true howner⟩
    · cases h
  · cases h

def snapshotOf (e : CallEvent) : Option ReconciliationResult :=
  match e.entry with
  | ⟨.venue .reconcile, r⟩ =>
    match (r : VenueAnswer ReconciliationResult) with
    | .ok result => some result
    | _ => none
  | _ => none

theorem entry_of_snapshotOf {e : CallEvent} {result : ReconciliationResult}
    (h : snapshotOf e = some result) : e.entry = asked .reconcile (.ok result) := by
  obtain ⟨t, task, found, entry⟩ := e
  unfold snapshotOf at h
  split at h
  · rename_i r heq
    split at h
    · cases h
      exact heq
    · cases h
  · cases h

/-- The call reports the order as unexpected where the venue's own findings do not, or cancels it
in the loop over `unexpected_order_ids`; `since` are the calls of its task since the venue gave the
snapshot. -/
inductive TreatsUnexpected (venueOrderId : String) (result : ReconciliationResult)
    (since : Calls) : Call → Prop
  | reported {id : Uuid} {findings : List String}
      (hlatest : ∀ e ∈ since, e.1 ≠ .venue .reconcile)
      (hfinding : unexpectedFinding venueOrderId ∈ findings)
      (hvenue : unexpectedFinding venueOrderId ∉ result.criticalFindings) :
      TreatsUnexpected venueOrderId result since (.store (.finishReconciliation id findings))
  | cancelled {known : List OrderRecord} {deterministicOrderIds : List String}
      (hloop : InLoop known deterministicOrderIds since) :
      TreatsUnexpected venueOrderId result since (.venue (.cancel venueOrderId))

/-! ## Whole runs -/

namespace Coordinator.Reaches

variable {self : Coordinator} {config : StoreConfig} {guard : CallGuard} {s : System}

/-- Once the submission of an order has begun its prepared row is there to be read. -/
theorem prepared_known (h : self.Reaches config guard s) {b : CallEvent} (hb : b ∈ s.history)
    {venueOrderId : String} (hbegins : BeginsSubmission venueOrderId b) :
    venueOrderId ∈ s.memory.db.deterministicOrderIds := by
  obtain ⟨intentId, orderId, hentry, p, hp, -, rfl⟩ := hbegins
  obtain ⟨hfound, -⟩ := h.committed hb hentry
  obtain ⟨-, hsteps⟩ := h.leads.steps _ hfound
  have hrow : p ∈ s.memory.db.preparedOrders := hsteps.prepared_prefix.subset hp
  exact List.mem_map_of_mem hrow

/-- A task at the call of `submit` has begun the submission of that order. -/
theorem submission_begins (h : self.Reaches config guard s) {t : Nat} {task : Task} {made : Calls}
    {prepared : PreparedVenueOrder} {request : OrderIntentRequest}
    {next : (Call.venue (.submit prepared request)).Answer → Prog Call Call.Answer _}
    (ht : s.threads t = some ⟨task, made, .call (.venue (.submit prepared request)) next⟩) :
    ∃ b ∈ s.history, BeginsSubmission prepared.deterministicOrderId b := by
  obtain ⟨intentId, orderId, earlier, hmade, hprepared⟩ := (h.promised ht).1.call
  have hown : ownCalls t s.history = done (.beginSubmission intentId orderId) () :: earlier :=
    (h.consistent.own t _ ht).trans hmade
  obtain ⟨between, b, before, heq, hthread, hentry, -, hearlier⟩ :=
    ownCalls_split (a := []) hown
  -- at the moment of `begin_submission` the prepared row was there
  obtain ⟨p, -, -, hp, hmemory, hhistory, -⟩ := h.moment heq
  have hp : self.Reaches config guard p := hp
  rw [← hearlier, ← hhistory] at hprepared
  obtain ⟨row, hone, hid, -⟩ := hp.payload (fun e he => he) hprepared
  have hrow : row ∈ p.memory.db.preparedOrders.filter fun p => p.intentId = intentId :=
    hone ▸ List.mem_singleton_self row
  obtain ⟨hrow, howner⟩ := List.mem_filter.mp hrow
  refine ⟨b, heq ▸ List.mem_append_right _ List.mem_cons_self, intentId, orderId, hentry, row,
    hmemory ▸ hrow, of_decide_eq_true howner, hid.symm⟩

/-- The journal a task reads after a submission has begun knows the order. -/
theorem known_when_read (h : self.Reaches config guard s) {after mid before : List CallEvent}
    (heq : s.history = after ++ (mid ++ before)) {t : Nat} {later : Calls}
    {known : List OrderRecord} {deterministicOrderIds : List String}
    (hown : ownCalls t mid =
      later ++ [done .deterministicOrderIds deterministicOrderIds, done .knownOrders known])
    {b : CallEvent} (hb : b ∈ before) {venueOrderId : String}
    (hbegins : BeginsSubmission venueOrderId b) : venueOrderId ∈ deterministicOrderIds := by
  obtain ⟨after', d, before', rfl, -, hentry, -⟩ := ownCalls_split hown
  have hsplit : s.history = (after ++ after') ++ d :: (before' ++ before) := by simp [heq]
  have hd : d ∈ s.history := hsplit ▸ List.mem_append_right _ List.mem_cons_self
  obtain ⟨-, now, r, hrun, hvalue, -⟩ := h.committed hd hentry
  obtain ⟨p, -, -, hp, hmemory, hhistory, -⟩ := h.moment hsplit
  have hp : self.Reaches config guard p := hp
  have hknown := hp.prepared_known (hhistory ▸ List.mem_append_right _ hb) hbegins
  have hread : d.found.db.deterministicOrderIds = deterministicOrderIds :=
    (Except.ok.inj (StoreCall.query_ok hrun).1).trans hvalue
  rw [← hread, ← hmemory]
  exact hknown

theorem flags (h : self.Reaches config guard s) {after before : List CallEvent} {e : CallEvent}
    (heq : s.history = after ++ e :: before) :
    FlagPromise (ownCalls e.thread before) e.entry.1 :=
  Machine.Reaches.kept (G := fun _ => FlagPromise) (fun _ _ _ => program_heeds) h heq

end Coordinator.Reaches

/-- What is flagged is shown by the snapshot and not known to the journal. -/
theorem mem_unexpectedOrderIds {observed : List ObservedVenueOrder} {known : List OrderRecord}
    {deterministicOrderIds : List String} {id : String}
    (h : id ∈ unexpectedOrderIds observed (knownVenueOrderIds known deterministicOrderIds)) :
    (∃ o ∈ observed, o.venueOrderId = id) ∧ id ∉ deterministicOrderIds := by
  obtain ⟨hshown, hunknown⟩ := List.mem_filter.mp h
  refine ⟨List.mem_map.mp hshown, fun hmem => ?_⟩
  exact of_decide_eq_true hunknown (List.mem_append_right _ hmem)

/-- A submission reaches the venue only after it has begun.  And a reconciliation neither reports
an order as unexpected nor cancels it in the loop over `unexpected_order_ids` if the order is the
executor's own: if its submission had begun before a snapshot that shows it.  The venue is taken
to show an order under the deterministic identifier of its prepared row. -/
theorem own_orders_expected {self : Coordinator} {config : StoreConfig} {guard : CallGuard}
    {s : System} (h : self.Reaches config guard s) :
    (∀ t task made prepared request next,
      s.threads t = some ⟨task, made, .call (.venue (.submit prepared request)) next⟩ →
        ∃ b ∈ s.history, BeginsSubmission prepared.deterministicOrderId b) ∧
      ∀ after e mid r before result venueOrderId,
        s.history = after ++ e :: (mid ++ r :: before) → r.thread = e.thread →
        r.entry = asked .reconcile (.ok result) →
        ((∃ o ∈ result.observedOrders, o.venueOrderId = venueOrderId) →
          ∃ b ∈ before, BeginsSubmission venueOrderId b) →
        ¬ TreatsUnexpected venueOrderId result (ownCalls e.thread mid) e.entry.1 := by
  refine ⟨fun t task made prepared request next ht => h.submission_begins ht, ?_⟩
  intro after e mid r before result venueOrderId heq hthread hsnapshot hsubmitted htreats
  have hown : ownCalls e.thread (mid ++ r :: before) =
      ownCalls e.thread mid ++ asked .reconcile (.ok result) :: ownCalls e.thread before := by
    rw [ownCalls_append, ← hthread, ownCalls_cons_self, hsnapshot]
  have hflags := h.flags heq
  rw [hown] at hflags
  have hexpected : ∀ {later known deterministicOrderIds},
      ownCalls e.thread mid =
        later ++ [done .deterministicOrderIds deterministicOrderIds, done .knownOrders known] →
      venueOrderId ∉ unexpectedOrderIds result.observedOrders
        (knownVenueOrderIds known deterministicOrderIds) := by
    intro later known deterministicOrderIds hmid hmem
    obtain ⟨hshown, hunknown⟩ := mem_unexpectedOrderIds hmem
    obtain ⟨b, hb, hbegins⟩ := hsubmitted hshown
    have hsplit : s.history = (after ++ [e]) ++ (mid ++ r :: before) := by simp [heq]
    exact hunknown (h.known_when_read hsplit hmid (List.mem_cons_of_mem _ hb) hbegins)
  generalize e.entry.1 = c at htreats hflags
  cases htreats with
  | reported hlatest hfinding hvenue =>
    obtain ⟨later, known, deterministicOrderIds, result', earlier, hmade, hlater, haccounts⟩ :=
      hflags
    have hmade' : ownCalls e.thread mid ++ asked .reconcile (.ok result) ::
        ownCalls e.thread before = (later ++ [done .deterministicOrderIds deterministicOrderIds,
          done .knownOrders known]) ++ asked .reconcile (.ok result') :: earlier := by
      simp [hmade]
    have hlater' : ∀ e ∈ later ++ [done .deterministicOrderIds deterministicOrderIds,
        done .knownOrders known], e.1 ≠ .venue .reconcile :=
      List.forall_mem_append.mpr ⟨hlater, by simp⟩
    -- both are the task's latest snapshot
    obtain ⟨hmid, hresult, -⟩ := split_unique
      (p := fun e : Sigma Call.Answer => e.1 = .venue .reconcile) hmade' hlatest hlater' rfl rfl
    cases hresult
    rcases haccounts venueOrderId hfinding with hreported | hunexpected
    · exact hvenue hreported
    · exact hexpected hmid hunexpected
  | cancelled hloop =>
    have hunexpected := hflags _ _ _ _ _ rfl hloop
    obtain ⟨cancels, hmid, -⟩ := hloop
    exact hexpected hmid hunexpected

/-- The venue has taken the order of the crashed process, and shows it. -/
def showingVenue : VenueScript
  | .reconcile => .ok ⟨[⟨"first", .live, 10, 0, none, []⟩], [], [], []⟩
  | .findOrder _ => .ok (some ⟨"first", .live, 10, 0, none, []⟩)
  | call => sampleVenue call

/-- The process dies while its submission is under way; the next one reconciles. -/
def submissionCrash : List Move :=
  [.arrive .main, .calls 0 22 0 sampleVenue,
    .arrive (.submitIntent "operator" "first" sampleRequest), .calls 1 4 0 sampleVenue,
    .arrive (.worker 6), .calls 2 19 0 sampleVenue, .crash,
    .arrive .main, .calls 3 18 0 showingVenue]

/-- The last call reports a reconciliation whose snapshot, seven calls before, shows the order after
its submission has begun. -/
def reportsShown (venueOrderId : String) (s : System) : Bool :=
  match s.history with
  | [] => false
  | e :: rest =>
    match rest.drop 6 with
    | [] => false
    | r :: before =>
      (match e.entry.1 with
        | .store (.finishReconciliation ..) => true
        | _ => false) &&
      (decide (r.thread = e.thread) && (before.any (beginsOrder venueOrderId) &&
        (snapshotOf r).any fun result =>
          result.observedOrders.any fun o => o.venueOrderId = venueOrderId))

/-- The startup after the crash reports nothing about the order, whose identifier the journal has
in its prepared row only. -/
theorem own_orders_expected_after_crash :
    ∃ s, sampleCoordinator.Reaches samplePaperStore (fun _ _ _ => True) s ∧
      ∃ e mid r before result, s.history = e :: (mid ++ r :: before) ∧
        snapshotOf r = some result ∧ (∃ o ∈ result.observedOrders, o.venueOrderId = "first") ∧
        (∃ id findings, e.entry.1 = .store (.finishReconciliation id findings)) ∧
        ¬ TreatsUnexpected "first" result (ownCalls e.thread mid) e.entry.1 := by
  have hsample : (sampleCoordinator.execute samplePaperStore (fun _ _ => true) submissionCrash
      System.initial).any (reportsShown "first") = true := by
    decide +kernel
  obtain ⟨s, h, hcheck⟩ := Coordinator.exists_of_execute (fun _ _ _ _ => trivial) hsample
  refine ⟨s, h, ?_⟩
  unfold reportsShown at hcheck
  split at hcheck
  · cases hcheck
  · rename_i e rest hhistory
    split at hcheck
    · cases hcheck
    · rename_i r before hrest
      simp only [Bool.and_eq_true, decide_eq_true_eq] at hcheck
      obtain ⟨hreport, hthread, hbegins, hshown⟩ := hcheck
      obtain ⟨result, hsnapshot, hshown⟩ := (Option.any_eq_true _ _).mp hshown
      obtain ⟨o, ho, hid⟩ := List.any_eq_true.mp hshown
      obtain ⟨b, hb, hbegins⟩ := List.any_eq_true.mp hbegins
      have hsplit : s.history = e :: (rest.take 6 ++ r :: before) := by
        rw [hhistory, ← hrest, List.take_append_drop]
      refine ⟨e, rest.take 6, r, before, result, hsplit, hsnapshot,
        ⟨o, ho, of_decide_eq_true hid⟩, ?_, ?_⟩
      · split at hreport
        · exact ⟨_, _, ‹_›⟩
        · cases hreport
      · exact (own_orders_expected h).2 [] e _ r before result "first" hsplit hthread
          (entry_of_snapshotOf hsnapshot) fun _ => ⟨b, hb, beginsSubmission_of_beginsOrder hbegins⟩

end OddsfoxExecution
