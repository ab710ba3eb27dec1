import OddsfoxExecution.Store.Orders
import OddsfoxExecution.Store.Pipeline

/-!
# The same evidence twice

`reconcile_order_projection` infers what it has booked of an order from the
remaining quantity, which it copies from the evidence.  Evidence that leaves a
part of the order neither remaining nor filled makes it infer too much, and the
same evidence is then refused as a regression.
-/

namespace OddsfoxExecution

variable {db : Db} {orderId : Uuid} {state : OrderState} {remaining total : Decimal}
  {price : Option Decimal} {ids : List String} {now later : Time} {r : Committed Unit}

def OrderRecord.project (o : OrderRecord) (observed : OrderState) (remaining : Decimal) :
    OrderRecord :=
  { o with state := projectedState o.state observed, remainingQuantity := remaining }

/-- What an accepted projection found, and what it leaves of the order. -/
structure Projected (orderId : Uuid) (state : OrderState) (remaining total : Decimal)
    (price : Option Decimal) (db db' : Db) (order : OrderRecord) : Prop where
  found : db.order? orderId = some order
  evidence : validateVenueOrderEvidence order.originalQuantity state remaining total price = .ok ()
  progress : order.localFilled ≤ total
  order : db'.order? orderId = some (order.project state remaining)

theorem reconcileOrderProjection_ok
    (h : reconcileOrderProjection orderId state remaining total price ids now db = .ok r) :
    ∃ order, Projected orderId state remaining total price db r.db order := by
  unfold reconcileOrderProjection at h
  split at h
  · cases h
  · rename_i order hfound
    split at h
    · cases h
    · rename_i hevidence
      split at h
      · cases h
      · rename_i hprogress
        refine ⟨order, hfound, hevidence, not_lt.mp hprogress, ?_⟩
        dsimp only at h
        split at h
        · rename_i hsame
          cases h
          have hself : order.project state remaining = order := by
            simp only [OrderRecord.project, hsame.1, hsame.2.1]
          rw [hself]
          exact hfound
        · cases h
          have hid : order.id = orderId := by simpa using List.find?_some hfound
          let reported : OrderRecord → OrderRecord := fun o => { o with
            state := projectedState order.state state, remainingQuantity := remaining }
          have hids : ∀ o, OrderRecord.id (reported o) = OrderRecord.id o := fun _ => rfl
          have horder := Table.find?_updateWhere (t := db.orders)
            (p := fun o : OrderRecord => o.id = orderId) hids orderId
          unfold Db.order? at hfound ⊢
          simp only [Db.appendEvent, applyMatchedFill_orders]
          rw [horder, hfound]
          simp [hid, reported, OrderRecord.project]

theorem projectedState_twice {prior : OrderState} (hlocal : state ≠ .cancelPending) :
    projectedState (projectedState prior state) state = projectedState prior state := by
  unfold projectedState
  cases prior <;> cases state <;> simp_all

theorem OrderRecord.localFilled_eq {o : OrderRecord}
    (h : o.remainingQuantity ≤ o.originalQuantity) :
    o.localFilled = o.originalQuantity - o.remainingQuantity :=
  max_eq_left (sub_nonneg.mpr h)

/-- The same evidence once more: refused, unless what remains and what is filled make up the
order. -/
theorem Projected.again {order : OrderRecord} {db' : Db}
    (h : Projected orderId state remaining total price db db' order) :
    reconcileOrderProjection orderId state remaining total price ids later db' =
      if remaining + total = order.originalQuantity then .ok ⟨(), db', []⟩
      else .error (.identityMismatch s!"venue fill quantity {decimalText total
        } regressed below local {decimalText (order.originalQuantity - remaining)}") := by
  have haccepted := validateVenueOrderEvidence_ok h.evidence
  have hlocal : (order.project state remaining).localFilled = order.originalQuantity - remaining :=
    OrderRecord.localFilled_eq (by
      simp only [OrderRecord.project]
      linarith [haccepted.within, haccepted.filled_nonneg])
  unfold reconcileOrderProjection
  simp only [h.order, hlocal]
  rw [show (order.project state remaining).originalQuantity = order.originalQuantity from rfl,
    h.evidence]
  have hwithin := haccepted.within
  dsimp only
  by_cases hwhole : remaining + total = order.originalQuantity
  · have hlt : ¬ total < order.originalQuantity - remaining := by linarith
    have hdelta : total - (order.originalQuantity - remaining) = 0 := by linarith
    rw [if_neg hlt, if_pos hwhole, if_pos]
    exact ⟨projectedState_twice haccepted.reportable.2.2, rfl, hdelta⟩
  · have hlt : total < order.originalQuantity - remaining := by
      rcases lt_or_eq_of_le hwithin with hless | heq
      · linarith
      · exact absurd heq hwhole
    rw [if_pos hlt, if_neg hwhole]

/-- After an accepted projection the same evidence is accepted and changes nothing exactly when
what remains and what is filled make up the order. -/
theorem projection_replays (db : Db) (orderId : Uuid) (state : OrderState)
    (remaining total : Decimal) (price : Option Decimal) (ids : List String) (now later : Time)
    (r : Committed Unit)
    (h : reconcileOrderProjection orderId state remaining total price ids now db = .ok r) :
    (∃ again, reconcileOrderProjection orderId state remaining total price ids later r.db =
        .ok again ∧ again.db = r.db ∧ again.broadcast = []) ↔
      ∃ order, db.order? orderId = some order ∧ remaining + total = order.originalQuantity := by
  obtain ⟨order, hprojected⟩ := reconcileOrderProjection_ok h
  rw [hprojected.again]
  constructor
  · rintro ⟨again, hagain, -⟩
    split at hagain
    · exact ⟨order, hprojected.found, ‹_›⟩
    · cases hagain
  · rintro ⟨other, hfound, hwhole⟩
    rw [hprojected.found] at hfound
    cases hfound
    exact ⟨_, if_pos hwhole, rfl, rfl⟩

/-- What the venue reports of the resting order: partly filled, the rest still open. -/
theorem projection_replays_sample :
    ∃ db r again, Reachable samplePaperStore db ∧
      reconcileOrderProjection 7 .partiallyFilled 6 4 (some (1 / 2)) ["trade"] 0 db = .ok r ∧
      reconcileOrderProjection 7 .partiallyFilled 6 4 (some (1 / 2)) ["trade"] 0 r.db =
        .ok again ∧ again.db = r.db := by
  have hsample : ((play samplePaperStore 0 restingSample Db.initial []).any fun reached =>
      ((reconcileOrderProjection 7 .partiallyFilled 6 4 (some (1 / 2)) ["trade"] 0
        reached.1).toOption.any fun _ => true) ∧
      (reached.1.order? 7).any fun o => o.originalQuantity = 10) = true := by
    decide +kernel
  obtain ⟨db, _, -, hreachable, hcheck⟩ := exists_of_play hsample
  obtain ⟨haccepted, hten⟩ := of_decide_eq_true hcheck
  obtain ⟨r, hrun, -⟩ := exists_ok_of_any haccepted
  obtain ⟨order, horder, hquantity⟩ := (Option.any_eq_true _ _).mp hten
  obtain ⟨again, hagain, hsame, -⟩ := (projection_replays db 7 .partiallyFilled 6 4
    (some (1 / 2)) ["trade"] 0 0 r hrun).mpr
      ⟨order, horder, by rw [of_decide_eq_true hquantity]; norm_num⟩
  exact ⟨db, r, again, hreachable, hrun, hagain, hsame⟩

/-- The venue cancels the resting order after four of its ten shares: the evidence is accepted,
and refused when it is reported again. -/
theorem projection_not_replayed :
    ∃ db r e, Reachable samplePaperStore db ∧
      (∃ o, db.order? 7 = some o ∧ o.state.terminal = false) ∧
      reconcileOrderProjection 7 .cancelled 0 4 (some (1 / 2)) ["trade"] 0 db = .ok r ∧
      reconcileOrderProjection 7 .cancelled 0 4 (some (1 / 2)) ["trade"] 0 r.db = .error e := by
  have hsample : ((play samplePaperStore 0 restingSample Db.initial []).any fun reached =>
      ((reached.1.order? 7).any fun o => o.state.terminal = false) ∧
      (reconcileOrderProjection 7 .cancelled 0 4 (some (1 / 2)) ["trade"] 0
        reached.1).toOption.any fun r =>
          (reconcileOrderProjection 7 .cancelled 0 4 (some (1 / 2)) ["trade"] 0
            r.db).toOption.isNone) = true := by
    decide +kernel
  obtain ⟨db, _, -, hreachable, hcheck⟩ := exists_of_play hsample
  obtain ⟨hopen, haccepted⟩ := of_decide_eq_true hcheck
  obtain ⟨o, ho, hstate⟩ := (Option.any_eq_true _ _).mp hopen
  obtain ⟨r, hr, hrefused⟩ := exists_ok_of_any haccepted
  obtain ⟨e, he⟩ : ∃ e, reconcileOrderProjection 7 .cancelled 0 4 (some (1 / 2)) ["trade"] 0 r.db =
      .error e := by
    cases hresult : reconcileOrderProjection 7 .cancelled 0 4 (some (1 / 2)) ["trade"] 0 r.db with
    | error e => exact ⟨e, rfl⟩
    | ok again =>
      rw [hresult] at hrefused
      cases hrefused
  exact ⟨db, r, e, hreachable, ⟨o, ho, of_decide_eq_true hstate⟩, hr, he⟩

end OddsfoxExecution
