import OddsfoxExecution.Attempts
import OddsfoxExecution.Representation

/-!
# Recovery after a crash

A restart runs `recover_interrupted_submissions` and then
`recover_pre_submission_work`.  The first turns every SUBMITTING pair UNKNOWN,
the second rewinds every intent that has no order yet to RECEIVED and releases
its reservation.  Both succeed in every reachable database; what they leave,
neither of them touches again, so that a restart that dies on the way makes no
difference to the next.
-/

namespace OddsfoxExecution

/-! ## Interrupted submissions -/

section Interrupted

variable {db : Db}

/-- The rows the snapshot reads of the orders: an UNKNOWN order counts as a SUBMITTING one does. -/
theorem recoverInterrupted_orderExposures (hs : Coherent db.lifecycle) {row : UnknownSubmission}
    {o : OrderRecord} (ho : o ∈ db.orders) (hid : row.orderId = o.id)
    (hstate : o.state = .submitting) :
    (recoverInterrupted row db).1.orderExposures = db.orderExposures := by
  have hids : (db.orders.map OrderRecord.id).Nodup := hs.orderIds
  have hat : ∀ other ∈ db.orders, other.id = row.orderId → other.state = .submitting := by
    intro other hother heq
    rw [Table.eq_of_key_eq hids hother ho (heq.trans hid), hstate]
  change (((Table.updateWhere (fun o : OrderRecord => o.id = row.orderId) _ db.orders).filter
    fun o => o.state.exposed).map _) = _
  rw [Table.updateWhere, List.filter_map, List.map_map, Db.orderExposures]
  have hsame : db.orders.filter ((fun o : OrderRecord => o.state.exposed) ∘ fun o =>
      if o.id = row.orderId then { o with
        state := OrderState.unknown
        venueOrderId := o.venueOrderId.or (some row.deterministicOrderId) } else o) =
      db.orders.filter fun o => o.state.exposed := by
    refine List.filter_congr fun other hother => ?_
    simp only [Function.comp_apply]
    split
    · rename_i heq
      rw [hat other hother heq]
      rfl
    · rfl
  rw [hsame]
  refine List.map_congr_left fun other _ => ?_
  simp only [Function.comp_apply]
  split <;> rfl

/-- The recovery leaves what the snapshot reads. -/
structure Db.SameExposure (db db' : Db) : Prop where
  orders : db'.orderExposures = db.orderExposures
  reservations : db'.reservationExposures = db.reservationExposures
  trades : db'.trades = db.trades
  positions : db'.positions = db.positions

theorem recoverInterruptedRows_exposure {rows : List UnknownSubmission} (hs : Coherent db.lifecycle)
    (hrows : RecoverableRows rows db.lifecycle) :
    db.SameExposure (recoverInterruptedRows rows db).1 := by
  induction rows generalizing db with
  | nil => exact ⟨rfl, rfl, rfl, rfl⟩
  | cons row rows ih =>
    obtain ⟨i, hi, o, ho, hrowO, hrowI, howner, hstates⟩ :=
      hrows.submitting row List.mem_cons_self
    have hsteps := recoverInterrupted_steps hs hi ho ⟨hrowO, hrowI⟩ howner hstates
    have hrest := ih (hs.moves hsteps) (hrows.next hs)
    have horders := recoverInterrupted_orderExposures hs ho hrowO hstates.2
    exact ⟨hrest.orders.trans horders, hrest.reservations, hrest.trades, hrest.positions⟩

/-- An order that is SUBMITTING after the recovery was SUBMITTING before, and none of its rows. -/
theorem recoverInterruptedRows_submitting {rows : List UnknownSubmission} {o' : OrderRecord}
    (ho' : o' ∈ (recoverInterruptedRows rows db).1.orders) (hstate : o'.state = .submitting) :
    o'.id ∉ rows.map UnknownSubmission.orderId ∧ o' ∈ db.orders := by
  induction rows generalizing db with
  | nil => exact ⟨List.not_mem_nil, ho'⟩
  | cons row rows ih =>
    obtain ⟨hrest, hmem⟩ := ih ho'
    obtain ⟨o, ho, rfl⟩ := Table.mem_updateWhere.mp hmem
    by_cases hrow : o.id = row.orderId
    · rw [if_pos hrow] at hstate
      cases hstate
    · rw [if_neg hrow] at hrest ⊢
      refine ⟨fun hin => ?_, ho⟩
      rcases List.mem_cons.mp hin with heq | hin
      · exact hrow heq
      · exact hrest hin

theorem mem_interruptedSubmissions (hs : Coherent db.lifecycle) {o : OrderRecord}
    (ho : o ∈ db.orders) (hstate : o.state = .submitting) :
    o.id ∈ db.interruptedSubmissions.map UnknownSubmission.orderId := by
  obtain ⟨i, hi, howner, -⟩ := hs.owner ho
  obtain ⟨p, hp, hpi, -⟩ := exists_attempt hs ho
  have hjoin : ⟨o.id, o.intentId, p.deterministicOrderId⟩ ∈ db.preparedJoin o :=
    List.mem_map.mpr ⟨p, List.mem_filter.mpr ⟨hp, by simpa using hpi⟩, rfl⟩
  have hrow : ⟨o.id, o.intentId, p.deterministicOrderId⟩ ∈ db.interruptedSubmissions := by
    refine List.mem_flatMap.mpr ⟨o, ho, List.mem_flatMap.mpr ⟨i, ?_, hjoin⟩⟩
    exact List.mem_filter.mpr ⟨hi, by simp [howner, hstate]⟩
  exact List.mem_map.mpr ⟨_, hrow, rfl⟩

/-- The database `recover_interrupted_submissions` leaves. -/
def Db.settled (db : Db) : Db := (recoverInterruptedRows db.interruptedSubmissions db).1

theorem recoverInterruptedSubmissions_settled (config : StoreConfig) (now : Time) :
    StoreCall.recoverInterruptedSubmissions.after config now db = db.settled := rfl

theorem Db.settled_eq_self (h : db.interruptedSubmissions = []) : db.settled = db := by
  rw [Db.settled, h]
  rfl

/-- In a coherent database without SUBMITTING orders there is nothing to recover. -/
theorem interruptedSubmissions_eq_nil (hs : Coherent db.lifecycle)
    (hnone : ∀ o ∈ db.orders, o.state ≠ .submitting) : db.interruptedSubmissions = [] := by
  apply List.eq_nil_iff_forall_not_mem.mpr
  intro row hrow
  obtain ⟨-, -, o, ho, -, -, -, -, hstate⟩ :=
    (interruptedSubmissions_recoverable hs).submitting row hrow
  exact hnone o ho hstate

theorem Db.settled_submitting (hs : Coherent db.lifecycle) :
    ∀ o ∈ db.settled.orders, o.state ≠ .submitting := by
  intro o ho hstate
  obtain ⟨hnot, hmem⟩ := recoverInterruptedRows_submitting ho hstate
  exact hnot (mem_interruptedSubmissions hs hmem hstate)

end Interrupted

/-! ## Work before submission -/

def IntentState.rewinds : IntentState → Bool
  | .validating | .approved | .preparing => true
  | _ => false

def IntentRecord.rewound (i : IntentRecord) : IntentRecord :=
  if i.state.rewinds = true then { i with state := .received } else i

theorem IntentRecord.rewound_id (i : IntentRecord) : i.rewound.id = i.id := by
  unfold rewound
  split <;> rfl

theorem IntentRecord.rewound_createdAt (i : IntentRecord) : i.rewound.createdAt = i.createdAt := by
  unfold rewound
  split <;> rfl

/-- An intent before submission is RECEIVED or PREPARED once it is rewound, and no other is. -/
theorem IntentRecord.rewound_state (i : IntentRecord) :
    (i.rewound.state = .received ∨ i.rewound.state = .prepared) ↔ i.state.preSubmission = true := by
  unfold rewound
  cases hstate : i.state <;> simp [IntentState.rewinds, IntentState.preSubmission, hstate]

theorem IntentRecord.rewound_of_settled {i : IntentRecord}
    (h : i.state = .received ∨ i.state = .prepared) : i.rewound = i := by
  unfold rewound
  rcases h with h | h <;> rw [h] <;> rfl

section Rewind

variable {db db' : Db} {row : IntentRecord} {events events' : List ExecutionEvent}

theorem recoverIntent_of_settled (hstate : row.state = .received ∨ row.state = .prepared)
    (htriples : row.state = .prepared → db.preparedTriples row.id = 1) :
    recoverIntent row db events = .ok (db, events) := by
  unfold recoverIntent
  rcases hstate with hstate | hstate
  · rw [hstate]
    rfl
  · rw [if_pos hstate, if_neg (not_not.mpr (htriples hstate))]

/-- The recovery of one intent succeeds and touches intents and reservations alone. -/
theorem recoverIntent_total (htriples : row.state = .prepared → db.preparedTriples row.id = 1) :
    ∃ db' events', recoverIntent row db events = .ok (db', events') ∧
      ∀ id, db'.preparedTriples id = db.preparedTriples id := by
  unfold recoverIntent
  split
  · rename_i hstate
    rw [if_neg (not_not.mpr (htriples hstate))]
    exact ⟨db, events, rfl, fun _ => rfl⟩
  · split
    · exact ⟨db, events, rfl, fun _ => rfl⟩
    · dsimp only
      split
      · exact ⟨_, _, rfl, fun _ => rfl⟩
      · exact ⟨_, _, rfl, fun _ => rfl⟩

theorem recoverIntents_total {rows : List IntentRecord}
    (htriples : ∀ row ∈ rows, row.state = .prepared → db.preparedTriples row.id = 1) :
    ∃ db' events', recoverIntents rows db events = .ok (db', events') := by
  induction rows generalizing db events with
  | nil => exact ⟨db, events, rfl⟩
  | cons row rows ih =>
    obtain ⟨db₁, events₁, hrow, hsame⟩ :=
      @recoverIntent_total db row events (htriples row List.mem_cons_self)
    have htriples₁ : ∀ other ∈ rows, other.state = .prepared →
        db₁.preparedTriples other.id = 1 := fun other hother hstate => by
      rw [hsame]
      exact htriples other (List.mem_cons_of_mem _ hother) hstate
    simp only [recoverIntents, hrow]
    exact ih htriples₁

theorem recoverIntents_of_settled {rows : List IntentRecord}
    (hstates : ∀ row ∈ rows, row.state = .received ∨ row.state = .prepared)
    (htriples : ∀ row ∈ rows, row.state = .prepared → db.preparedTriples row.id = 1) :
    recoverIntents rows db events = .ok (db, events) := by
  induction rows with
  | nil => rfl
  | cons row rows ih =>
    simp only [recoverIntents]
    rw [recoverIntent_of_settled (hstates row List.mem_cons_self)
      (htriples row List.mem_cons_self)]
    exact ih (fun other hother => hstates other (List.mem_cons_of_mem _ hother))
      fun other hother => htriples other (List.mem_cons_of_mem _ hother)

theorem recoverIntent_intents (hids : (db.intents.map IntentRecord.id).Nodup)
    (hrow : row ∈ db.intents) (hstate : row.state.preSubmission = true)
    (h : recoverIntent row db events = .ok (db', events')) :
    db'.intents = db.intents.map fun i => if i.id = row.id then i.rewound else i := by
  have hat : ∀ i ∈ db.intents, i.id = row.id → i = row :=
    fun i hi heq => Table.eq_of_key_eq hids hi hrow heq
  by_cases hsettled : row.state = .received ∨ row.state = .prepared
  · -- nothing is written
    have hsame : db' = db := by
      unfold recoverIntent at h
      split at h
      · split at h <;> cases h
        rfl
      · rename_i hprepared
        rw [if_pos (hsettled.resolve_right hprepared)] at h
        cases h
        rfl
    rw [hsame]
    conv_lhs => rw [← List.map_id db.intents]
    refine List.map_congr_left fun i hi => ?_
    split
    · rename_i heq
      rw [hat i hi heq, IntentRecord.rewound_of_settled hsettled]
      rfl
    · rfl
  · obtain ⟨hreceived, hprepared⟩ := not_or.mp hsettled
    have hintents : db'.intents = Table.updateWhere (IntentRecord.At row.id row.state)
        (fun i => { i with state := .received }) db.intents := by
      unfold recoverIntent at h
      rw [if_neg hprepared, if_neg hreceived] at h
      dsimp only at h
      split at h <;> cases h <;> rfl
    have hrewinds : row.state.rewinds = true := by
      cases hrowState : row.state <;> simp_all [IntentState.rewinds, IntentState.preSubmission]
    rw [hintents, Table.updateWhere]
    refine List.map_congr_left fun i hi => ?_
    by_cases heq : i.id = row.id
    · have hself : IntentRecord.At row.id row.state row := ⟨rfl, rfl⟩
      rw [hat i hi heq, if_pos hself, if_pos rfl, IntentRecord.rewound, if_pos hrewinds]
    · rw [if_neg fun hrow => heq hrow.1, if_neg heq]

theorem recoverIntents_intents {rows : List IntentRecord}
    (hids : (db.intents.map IntentRecord.id).Nodup)
    (hrows : ∀ row ∈ rows, row ∈ db.intents ∧ row.state.preSubmission = true)
    (hdistinct : (rows.map IntentRecord.id).Nodup)
    (h : recoverIntents rows db events = .ok (db', events')) :
    db'.intents =
      db.intents.map fun i => if i.id ∈ rows.map IntentRecord.id then i.rewound else i := by
  induction rows generalizing db events with
  | nil =>
    cases h
    simp
  | cons row rows ih =>
    obtain ⟨hfresh, hdistinct⟩ := List.nodup_cons.mp hdistinct
    obtain ⟨hrow, hstate⟩ := hrows row List.mem_cons_self
    simp only [recoverIntents] at h
    split at h
    · cases h
    · rename_i db₁ events₁ hfirst
      have hintents := recoverIntent_intents hids hrow hstate hfirst
      have hsame : ∀ i : IntentRecord, (if i.id = row.id then i.rewound else i).id = i.id := by
        intro i
        split
        · exact i.rewound_id
        · rfl
      have hids₁ : (db₁.intents.map IntentRecord.id).Nodup := by
        have hcolumn : (IntentRecord.id ∘ fun i : IntentRecord =>
          if i.id = row.id then i.rewound else i) = IntentRecord.id := funext hsame
        rw [hintents, List.map_map, hcolumn]
        exact hids
      have hrows₁ : ∀ other ∈ rows, other ∈ db₁.intents ∧ other.state.preSubmission = true := by
        intro other hother
        obtain ⟨hmem, hother'⟩ := hrows other (List.mem_cons_of_mem _ hother)
        have hne : other.id ≠ row.id := fun heq =>
          hfresh (List.mem_map.mpr ⟨other, hother, heq⟩)
        rw [hintents]
        exact ⟨List.mem_map.mpr ⟨other, hmem, if_neg hne⟩, hother'⟩
      rw [ih hids₁ hrows₁ hdistinct h, hintents, List.map_map]
      refine List.map_congr_left fun i _ => ?_
      simp only [Function.comp_apply, hsame, List.map_cons, List.mem_cons]
      by_cases heq : i.id = row.id
      · rw [if_neg (heq ▸ hfresh), if_pos heq, if_pos (Or.inl heq)]
      · rw [if_neg heq]
        simp only [heq, false_or]

end Rewind

/-- The order in which the recovery works on intents and returns them. -/
def IntentRecord.Before (a b : IntentRecord) : Prop :=
  createdBefore (a.createdAt, a.id) (b.createdAt, b.id)

instance : DecidableRel IntentRecord.Before := fun a b =>
  inferInstanceAs (Decidable (createdBefore (a.createdAt, a.id) (b.createdAt, b.id)))

/-- The intents that are RECEIVED or PREPARED, in the order of their creation. -/
def Db.recoverable (db : Db) : List Uuid :=
  ((db.intents.filter fun i => i.state = .received ∨ i.state = .prepared).insertionSort
    IntentRecord.Before).map IntentRecord.id

section Work

variable {db : Db} {r : Committed (List Uuid)}

theorem recoverPreSubmissionWork_intents (hids : (db.intents.map IntentRecord.id).Nodup)
    (h : recoverPreSubmissionWork db = .ok r) :
    r.db.intents = db.intents.map IntentRecord.rewound ∧ r.value = r.db.recoverable := by
  unfold recoverPreSubmissionWork at h
  dsimp only at h
  split at h
  · cases h
  · rename_i db' events' hrows
    cases h
    have hmem : ∀ row, row ∈ (db.intents.filter fun i => i.state.preSubmission).insertionSort
        IntentRecord.Before ↔ row ∈ db.intents ∧ row.state.preSubmission = true := fun row => by
      rw [List.mem_insertionSort, List.mem_filter]
    have hdistinct : (((db.intents.filter fun i => i.state.preSubmission).insertionSort
        IntentRecord.Before).map IntentRecord.id).Nodup := by
      refine ((List.perm_insertionSort _ _).map _).nodup_iff.mpr ?_
      exact hids.sublist (List.filter_sublist.map _)
    have hintents : db'.intents = db.intents.map IntentRecord.rewound := by
      refine (recoverIntents_intents hids (fun row hrow => (hmem row).mp hrow) hdistinct
        hrows).trans (List.map_congr_left fun i hi => ?_)
      split
      · rfl
      · rename_i hnot
        have hlater : i.state.preSubmission ≠ true := fun hpre =>
          hnot (List.mem_map_of_mem ((hmem i).mpr ⟨hi, hpre⟩))
        unfold IntentRecord.rewound
        rw [if_neg]
        intro hrewinds
        revert hlater hrewinds
        cases i.state <;> simp [IntentState.rewinds, IntentState.preSubmission]
    refine ⟨hintents, ?_⟩
    have hfilter : db'.intents.filter (fun i => i.state = .received ∨ i.state = .prepared) =
        (db.intents.filter fun i => i.state.preSubmission).map IntentRecord.rewound := by
      rw [hintents, List.filter_map]
      congr 1
      refine List.filter_congr fun i _ => ?_
      rw [Function.comp_apply, Bool.eq_iff_iff, decide_eq_true_eq]
      exact i.rewound_state
    have hsort := List.map_insertionSort (r := IntentRecord.Before) (s := IntentRecord.Before)
      IntentRecord.rewound (db.intents.filter fun i => i.state.preSubmission) fun a _ b _ => by
        simp only [IntentRecord.Before, IntentRecord.rewound_id, IntentRecord.rewound_createdAt]
    change _ = db'.recoverable
    rw [Db.recoverable, hfilter, ← hsort, List.map_map]
    exact List.map_congr_left fun i _ => i.rewound_id.symm

theorem recoverPreSubmissionWork_frame (hids : (db.intents.map IntentRecord.id).Nodup)
    (h : recoverPreSubmissionWork db = .ok r) :
    r.db.orders = db.orders ∧ r.db.trades = db.trades ∧ r.db.positions = db.positions :=
  recoverPreSubmissionWork_induction
    (I := fun db' => db'.orders = db.orders ∧ db'.trades = db.trades ∧
      db'.positions = db.positions) hids ⟨rfl, rfl, rfl⟩
    (fun _ _ _ _ _ hrecovered ⟨horders, htrades, hpositions⟩ =>
      ⟨hrecovered.orders.trans horders, hrecovered.trades.trans htrades,
        hrecovered.positions.trans hpositions⟩) h

/-- A PREPARED intent has one PREPARED order and one PREPARED attempt. -/
theorem preparedTriples_eq_one {answered : Prop} (hs : Coherent db.lifecycle)
    (h : Represented answered db.lifecycle)
    (hattempts : ∀ f ∈ db.registry.files, f.order = .prepared → f.attempt = some .prepared)
    {i : IntentRecord} (hi : i ∈ db.intents) (hstate : i.state = .prepared) :
    db.preparedTriples i.id = 1 := by
  obtain ⟨o, ho, howner⟩ := h.ordered i hi (by rw [hstate]; rfl)
  obtain ⟨p, hp, hpi, a, ha, hap⟩ := exists_attempt hs ho
  have horder : o.state = .prepared := by
    have hpaired := hs.paired_of_mem hi ho howner
    rw [hstate] at hpaired
    cases horder : o.state <;> simp_all [paired]
  have hattempt : a.state = .prepared := by
    have hfile := hattempts (db.file o) (List.mem_map_of_mem ho) horder
    rw [Db.file, ← hpi, attemptState_of_mem hs hp ha hap] at hfile
    exact Option.some.inj hfile
  have hids : (db.orders.map OrderRecord.intentId).Nodup := hs.orderIntents
  have hpayloads : (db.preparedOrders.map PreparedOrder.intentId).Nodup :=
    hs.preparedIntents ▸ hs.orderIntents
  have hnodup : (db.submissionAttempts.map SubmissionAttempt.preparedOrderId).Nodup :=
    hs.attempts ▸ hs.preparedIds
  have horders : (db.orders.filter fun o => o.intentId = i.id ∧ o.state = .prepared) = [o] := by
    refine Table.filter_eq_singleton hids ho ⟨howner, horder⟩ fun other hother => ?_
    exact hother.1.trans howner.symm
  have hprepared : (db.preparedOrders.filter fun p => p.intentId = i.id) = [p] := by
    refine Table.filter_eq_singleton hpayloads hp (hpi.trans howner) fun other hother => ?_
    exact Eq.trans hother (hpi.trans howner).symm
  have hone : Table.rowsAffected (fun a : SubmissionAttempt => a.preparedOrderId = p.id ∧
      a.state = .prepared) db.submissionAttempts = 1 :=
    Table.rowsAffected_eq_one_of_mem hnodup ha ⟨hap, hattempt⟩ fun other hother =>
      hother.1.trans hap.symm
  simp only [Db.preparedTriples]
  rw [horders, hprepared, List.map_singleton, hone]
  rfl

end Work

/-! ## Both steps -/

/-- The tables without the active reservations of intents that have no prepared order. -/
def Db.withoutUnprepared (db : Db) : Db :=
  { db with
    riskReservations := db.riskReservations.filter fun r =>
      ¬ (r.state = .active ∧ ∀ p ∈ db.preparedOrders, p.intentId ≠ r.intentId) }

/-- The databases that restarts leave which died after a committed step of the recovery. -/
inductive Restarted (config : StoreConfig) (db : Db) : Db → Prop
  | none : Restarted config db db
  | first {db' : Db} (now : Time) (h : Restarted config db db') :
      Restarted config db (StoreCall.recoverInterruptedSubmissions.after config now db')
  | both {db' : Db} (now now' : Time) (h : Restarted config db db') :
      Restarted config db (StoreCall.recoverPreSubmissionWork.after config now'
        (StoreCall.recoverInterruptedSubmissions.after config now db'))

/-- What the recovery leaves of a database. -/
structure CrashRecovered (config : StoreConfig) (db db' : Db) (ids : List Uuid) : Prop where
  again : ∀ restarted, Restarted config db restarted → ∀ now now', ∃ r,
    StoreCall.recoverPreSubmissionWork.run config now'
      (StoreCall.recoverInterruptedSubmissions.after config now restarted) = .ok r ∧
    r.db = db' ∧ r.value = ids
  snapshot : ∀ conditionId tokenId now, db'.riskSnapshot conditionId tokenId now =
    db.withoutUnprepared.riskSnapshot conditionId tokenId now
  returned : ids = db'.recoverable

section Both

variable {config : StoreConfig} {db : Db}

theorem Reachable.after {config : StoreConfig} {db : Db} (h : Reachable config db)
    (call : StoreCall) (now : Time) (hallowed : ∀ past, call.Allowed past) :
    Reachable config (call.after config now db) := by
  obtain ⟨past, hrun⟩ := h
  exact ⟨db :: past, .call call now hrun (hallowed _) trivial⟩

theorem Reachable.represented (h : Reachable config db) : Represented False db.lifecycle := by
  obtain ⟨past, hrun⟩ := h
  exact (hrun.mono fun _ _ _ hfalse => hfalse.elim).represented

theorem Reachable.preparedTriples (h : Reachable config db) {i : IntentRecord}
    (hi : i ∈ db.intents) (hstate : i.state = .prepared) : db.preparedTriples i.id = 1 := by
  have hrepresented := h.represented
  obtain ⟨past, hrun⟩ := h
  exact preparedTriples_eq_one hrun.coherent hrepresented hrun.attempt_prepared hi hstate

/-- The check for exactly one prepared order and attempt never fires. -/
theorem Reachable.recoverPreSubmissionWork_ok (h : Reachable config db) :
    ∃ r, recoverPreSubmissionWork db = .ok r := by
  have htriples : ∀ row ∈ (db.intents.filter fun i => i.state.preSubmission).insertionSort
      (fun a b => createdBefore (a.createdAt, a.id) (b.createdAt, b.id)),
      row.state = .prepared → db.preparedTriples row.id = 1 := fun row hrow hstate => by
    rw [List.mem_insertionSort, List.mem_filter] at hrow
    exact h.preparedTriples hrow.1 hstate
  obtain ⟨db', events', hrows⟩ : ∃ db' events', recoverIntents _ db [] = .ok (db', events') :=
    recoverIntents_total htriples
  simp only [recoverPreSubmissionWork, hrows]
  exact ⟨_, rfl⟩

/-- Where every intent before submission is RECEIVED or PREPARED, nothing is left to do. -/
theorem Reachable.recoverPreSubmissionWork_again (h : Reachable config db)
    (hsettled : ∀ i ∈ db.intents, i.state.preSubmission = true →
      i.state = .received ∨ i.state = .prepared) :
    ∃ r, recoverPreSubmissionWork db = .ok r ∧ r.db = db := by
  have hmem : ∀ row ∈ (db.intents.filter fun i => i.state.preSubmission).insertionSort
      (fun a b => createdBefore (a.createdAt, a.id) (b.createdAt, b.id)),
      row ∈ db.intents ∧ row.state.preSubmission = true := fun row hrow => by
    rwa [List.mem_insertionSort, List.mem_filter] at hrow
  simp only [recoverPreSubmissionWork]
  rw [recoverIntents_of_settled
    (fun row hrow => hsettled row (hmem row hrow).1 (hmem row hrow).2)
    (fun row hrow hstate => h.preparedTriples (hmem row hrow).1 hstate)]
  exact ⟨_, rfl, rfl⟩

theorem Reachable.settled (h : Reachable config db) : Reachable config db.settled :=
  h.after .recoverInterruptedSubmissions 0 fun _ => trivial

theorem Reachable.settled_interrupted (h : Reachable config db) :
    db.settled.interruptedSubmissions = [] :=
  interruptedSubmissions_eq_nil h.settled.coherent (Db.settled_submitting h.coherent)

theorem Reachable.recovered (h : Reachable config db) {r : Committed (List Uuid)}
    (hrun : recoverPreSubmissionWork db = .ok r) : Reachable config r.db := by
  have hafter := h.after .recoverPreSubmissionWork 0 fun _ => trivial
  rwa [StoreCall.after, show StoreCall.recoverPreSubmissionWork.run config 0 db = .ok r from hrun]
    at hafter

/-- The snapshot reads the exposures, the trades and the positions. -/
theorem Db.SameExposure.riskSnapshot {db db' : Db} (h : db.SameExposure db')
    (conditionId tokenId : String) (now : Time) :
    db'.riskSnapshot conditionId tokenId now = db.riskSnapshot conditionId tokenId now := by
  simp only [Db.riskSnapshot, Db.positionShares, h.orders, h.reservations, h.trades, h.positions]

theorem reservationExposures_eq_nil (h : ∀ r ∈ db.riskReservations, r.state ≠ .active) :
    db.reservationExposures = [] := by
  rw [Db.reservationExposures, List.filter_eq_nil_iff.mpr fun r hr => by simpa using h r hr]
  rfl

/-- An active reservation belongs to an intent that is APPROVED or PREPARING. -/
theorem Reachable.reserving (h : Reachable config db) {r : RiskReservation}
    (hr : r ∈ db.riskReservations) (hactive : r.state = .active) :
    ∃ i ∈ db.intents, i.id = r.intentId ∧ i.state.reserving = true := by
  obtain ⟨i, hi, hid⟩ := h.represented.owned r hr
  exact ⟨i, hi, hid, (h.represented.reserving i hi).mpr ⟨r, hr, hid.symm, hactive⟩⟩

theorem Reachable.unprepared (h : Reachable config db) {r : RiskReservation}
    (hr : r ∈ db.riskReservations) (hactive : r.state = .active) :
    ∀ p ∈ db.preparedOrders, p.intentId ≠ r.intentId := by
  intro p hp heq
  obtain ⟨i, hi, hid, hreserving⟩ := h.reserving hr hactive
  have hintents : db.preparedOrders.map PreparedOrder.intentId =
    db.orders.map OrderRecord.intentId := h.coherent.preparedIntents
  have hmem : p.intentId ∈ db.orders.map OrderRecord.intentId := by
    rw [← hintents]
    exact List.mem_map_of_mem hp
  obtain ⟨o, ho, howner⟩ := List.mem_map.mp hmem
  have hordered :=
    paired_ordered (h.coherent.paired_of_mem hi ho (howner.trans (heq.trans hid.symm)))
  revert hordered hreserving
  cases i.state <;> simp [IntentState.unordered, IntentState.reserving]

theorem Reachable.released (h : Reachable config db) {intents : List IntentRecord}
    (hintents : db.intents = intents.map IntentRecord.rewound) :
    ∀ r ∈ db.riskReservations, r.state ≠ .active := by
  intro r hr hactive
  obtain ⟨i, hi, -, hreserving⟩ := h.reserving hr hactive
  rw [hintents] at hi
  obtain ⟨before, -, rfl⟩ := List.mem_map.mp hi
  revert hreserving
  unfold IntentRecord.rewound
  cases hstate : before.state <;> simp [IntentState.rewinds, IntentState.reserving, hstate]

/-- The databases restarts leave: the first, the one without SUBMITTING pairs and the last. -/
theorem Restarted.cases {restarted : Db} {r : Committed (List Uuid)}
    (hrun : recoverPreSubmissionWork db.settled = .ok r)
    (hsettled : db.settled.settled = db.settled)
    (hlast : r.db.settled = r.db)
    (hagain : ∃ r', recoverPreSubmissionWork r.db = .ok r' ∧ r'.db = r.db)
    (h : Restarted config db restarted) :
    restarted = db ∨ restarted = db.settled ∨ restarted = r.db := by
  have hpair : ∀ {db₀ : Db} {r₀ : Committed (List Uuid)} {now : Time},
      recoverPreSubmissionWork db₀ = .ok r₀ →
      StoreCall.recoverPreSubmissionWork.after config now db₀ = r₀.db := by
    intro db₀ r₀ now h₀
    rw [StoreCall.after,
      show StoreCall.recoverPreSubmissionWork.run config now db₀ = .ok r₀ from h₀]
  obtain ⟨r', hrun', hsame⟩ := hagain
  induction h with
  | none => exact Or.inl rfl
  | first now _ ih =>
    rw [recoverInterruptedSubmissions_settled]
    rcases ih with rfl | rfl | rfl
    · exact Or.inr (Or.inl rfl)
    · exact Or.inr (Or.inl hsettled)
    · exact Or.inr (Or.inr hlast)
  | both now now' _ ih =>
    rw [recoverInterruptedSubmissions_settled]
    refine Or.inr (Or.inr ?_)
    rcases ih with rfl | rfl | rfl
    · exact hpair hrun
    · rw [hsettled]
      exact hpair hrun
    · rw [hlast, hpair hrun']
      exact hsame

/-- In every reachable database the recovery completes; restarts that died on the way make no
difference to what it leaves and returns. -/
theorem Reachable.crash_recovered (h : Reachable config db) :
    ∃ db' ids, CrashRecovered config db db' ids := by
  obtain ⟨r, hrun⟩ := h.settled.recoverPreSubmissionWork_ok
  have hids : (db.settled.intents.map IntentRecord.id).Nodup := h.settled.coherent.intentIds
  obtain ⟨hintents, hvalue⟩ := recoverPreSubmissionWork_intents hids hrun
  obtain ⟨horders, htrades, hpositions⟩ := recoverPreSubmissionWork_frame hids hrun
  have hreachable := h.settled.recovered hrun
  have hsettled : db.settled.settled = db.settled := Db.settled_eq_self h.settled_interrupted
  have hlast : r.db.settled = r.db := by
    refine Db.settled_eq_self (interruptedSubmissions_eq_nil hreachable.coherent ?_)
    rw [horders]
    exact Db.settled_submitting h.coherent
  have hagain := hreachable.recoverPreSubmissionWork_again fun i hi hpre => by
    rw [hintents] at hi
    obtain ⟨before, -, rfl⟩ := List.mem_map.mp hi
    revert hpre
    unfold IntentRecord.rewound
    cases hstate : before.state <;> simp [IntentState.rewinds, IntentState.preSubmission, hstate]
  refine ⟨r.db, r.value, ?_, ?_, hvalue⟩
  · intro restarted hrestarted now now'
    rw [recoverInterruptedSubmissions_settled]
    rcases hrestarted.cases hrun hsettled hlast hagain with rfl | rfl | rfl
    · exact ⟨r, hrun, rfl, rfl⟩
    · rw [hsettled]
      exact ⟨r, hrun, rfl, rfl⟩
    · obtain ⟨r', hrun', hsame⟩ := hagain
      rw [hlast]
      have hvalue' := (recoverPreSubmissionWork_intents hreachable.coherent.intentIds hrun').2
      rw [hsame] at hvalue'
      exact ⟨r', hrun', hsame, hvalue'.trans hvalue.symm⟩
  · have hexposure := recoverInterruptedRows_exposure h.coherent
      (interruptedSubmissions_recoverable h.coherent)
    have hbefore : db.withoutUnprepared.reservationExposures = [] := by
      refine reservationExposures_eq_nil fun r hr hactive => ?_
      obtain ⟨hr, hkept⟩ := List.mem_filter.mp hr
      exact of_decide_eq_true hkept ⟨hactive, h.unprepared hr hactive⟩
    have hafter : r.db.reservationExposures = [] :=
      reservationExposures_eq_nil (hreachable.released hintents)
    have hsame : db.withoutUnprepared.SameExposure r.db := by
      constructor
      · rw [Db.orderExposures, horders]
        exact hexposure.orders
      · rw [hafter, hbefore]
      · exact htrades.trans hexposure.trades
      · exact hpositions.trans hexposure.positions
    exact hsame.riskSnapshot

/-- An approved intent, a prepared one and one that is being submitted when the process dies. -/
def interruptedSample : List StoreCall :=
  readySample ++ prepareSample "first" 3 ++ [.beginSubmission 3 7] ++ prepareSample "second" 8 ++
    [.admitIntent "operator" "third" sampleRequest,
      .transitionIntent 13 .received .validating none,
      .evaluateAndReserveRisk 13 sampleRequest sampleMarket sampleBook samplePolicy]

/-- The process dies with one submission begun, one order prepared and one intent approved. -/
theorem crash_recovered_interrupted :
    ∃ db past, play samplePaperStore 0 interruptedSample Db.initial [] = some (db, past) ∧
      (∃ o ∈ db.orders, o.state = .submitting) ∧ (∃ i ∈ db.intents, i.state = .approved) ∧
      ∃ db' ids, CrashRecovered samplePaperStore db db' ids := by
  have hsample : ((play samplePaperStore 0 interruptedSample Db.initial []).any fun reached =>
      (reached.1.orders.any fun o => o.state = .submitting) &&
        reached.1.intents.any fun i => i.state = .approved) = true := by
    decide +kernel
  obtain ⟨db, past, hplay, hreachable, hsample⟩ := exists_of_play hsample
  obtain ⟨hsubmitting, happroved⟩ := Bool.and_eq_true_iff.mp hsample
  obtain ⟨o, ho, horder⟩ := List.any_eq_true.mp hsubmitting
  obtain ⟨i, hi, hintent⟩ := List.any_eq_true.mp happroved
  exact ⟨db, past, hplay, ⟨o, ho, of_decide_eq_true horder⟩, ⟨i, hi, of_decide_eq_true hintent⟩,
    hreachable.crash_recovered⟩

end Both

end OddsfoxExecution
