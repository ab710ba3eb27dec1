import OddsfoxExecution.Store.Run

/-!
# Terminal order states

FILLED, CANCELLED, EXPIRED and REJECTED are meant to absorb (section 9.3 of the
product specification).  Every operation that writes an order's state guards on
the state it finds, with one exception: `reconcile_order_projection` writes the
observed state over whatever state the order has reached since the active
orders were listed.  An order cancelled in between, whose remaining quantity
still shows no fill, comes back to life from a stale observation.
-/

namespace OddsfoxExecution

/-- What keeps an operation from moving a terminal order: a projection of one is refused by the
evidence check or the regression check, or observes the very state the order is in. -/
def SparesTerminal : StoreCall → Db → Prop
  | .reconcileOrderProjection orderId observed remaining total price _, db =>
    ∀ order, db.order? orderId = some order → order.state.terminal = true →
      validateVenueOrderEvidence order.originalQuantity observed remaining total price ≠ .ok () ∨
        total < order.localFilled ∨ observed = order.state
  | _, _ => True

theorem validOrderTransition_terminal {prior next : OrderState} (hterminal : prior.terminal = true)
    (hvalid : validOrderTransition prior next = true) : next = prior := by
  cases prior <;> cases next <;> simp_all [OrderState.terminal, validOrderTransition]

theorem projectedState_terminal {prior observed : OrderState} (hterminal : prior.terminal = true) :
    projectedState prior observed = observed := by
  cases prior <;> simp_all [OrderState.terminal, projectedState]

theorem reconcileOrderProjection_refused {config : StoreConfig} {now : Time} {db : Db}
    {orderId : Uuid} {observed : OrderState} {remaining total : Decimal} {price : Option Decimal}
    {ids : List String} {order : OrderRecord} (horder : db.order? orderId = some order)
    (hrefused : validateVenueOrderEvidence order.originalQuantity observed remaining total price ≠
      .ok () ∨ total < order.localFilled) :
    (StoreCall.reconcileOrderProjection orderId observed remaining total price ids).after config
      now db = db := by
  have herror : ∃ e, reconcileOrderProjection orderId observed remaining total price ids now db =
      .error e := by
    unfold reconcileOrderProjection
    simp only [horder]
    split
    · exact ⟨_, rfl⟩
    · rename_i hok
      rcases hrefused with hevidence | hregressed
      · exact absurd hok hevidence
      · exact ⟨_, by rw [if_pos hregressed]⟩
  obtain ⟨e, he⟩ := herror
  simp only [StoreCall.after, StoreCall.run, he]

/-- No operation but a projection moves an order out of a terminal state. -/
theorem moves_terminal {call : StoreCall} {m : OrderMove} (hm : call.Moves m)
    (hterminal : m.order.1.terminal = true)
    (hprojection : ∀ orderId observed remaining total price ids,
      call ≠ .reconcileOrderProjection orderId observed remaining total price ids) :
    m.order.2 = m.order.1 := by
  cases call with
  | beginSubmission | finishSubmission | cancelPreparedOrder =>
    subst hm
    exact absurd hterminal Bool.false_ne_true
  | recoverInterruptedSubmissions | resolveUnknownSubmission =>
    rw [hm.2] at hterminal
    exact absurd hterminal Bool.false_ne_true
  | transitionOrder =>
    rw [hm.2.1]
    exact validOrderTransition_terminal hterminal hm.2.2
  | reconcileOrderProjection orderId observed remaining total price ids =>
    exact absurd rfl (hprojection orderId observed remaining total price ids)
  | applyPaperTradeThrough =>
    have hactive := hm.1
    revert hactive hterminal
    cases m.order.1 <;> simp [OrderState.active, OrderState.terminal]
  | _ => exact hm.elim

/-- One operation: a terminal order stays as it is when the operation spares terminal orders. -/
theorem terminal_after {config : StoreConfig} {now : Time} {db : Db} {past : List Db}
    (hleads : Leads db past) {call : StoreCall} (hallowed : call.Allowed (db :: past))
    (hspares : SparesTerminal call db) {o : OrderRecord} (ho : o ∈ db.orders)
    (hterminal : o.state.terminal = true) :
    ∃ o' ∈ (call.after config now db).orders, o'.id = o.id ∧ o'.state = o.state := by
  obtain ⟨o', ho', hterms, hstate⟩ :=
    (call.after_steps hleads config now hallowed).order_kept hleads.coherent ho
  by_cases hprojection : ∃ observed remaining total price ids,
      call = .reconcileOrderProjection o.id observed remaining total price ids
  · -- a projection of this very order is refused, or observes the state it finds
    obtain ⟨observed, remaining, total, price, ids, rfl⟩ := hprojection
    have horder : db.order? o.id = some o := Table.find?_eq_some_of_mem hleads.coherent.orderIds ho
    rcases or_assoc.mpr (hspares o horder hterminal) with hrefused | hsame
    · rw [reconcileOrderProjection_refused horder hrefused]
      exact ⟨o, ho, rfl, rfl⟩
    · refine ⟨o', ho', hterms.1, hstate fun m hm _ hfrom => ?_⟩
      rw [hm.2, hfrom, projectedState_terminal hterminal, hsame]
  · refine ⟨o', ho', hterms.1, hstate fun m hm hid hfrom => ?_⟩
    rw [← hfrom]
    by_cases hother : ∃ orderId observed remaining total price ids,
        call = .reconcileOrderProjection orderId observed remaining total price ids
    · obtain ⟨orderId, observed, remaining, total, price, ids, rfl⟩ := hother
      refine absurd ⟨observed, remaining, total, price, ids, ?_⟩ hprojection
      rw [← hm.1, hid]
    · exact moves_terminal hm (hfrom ▸ hterminal) fun orderId observed remaining total price ids
        heq => hother ⟨orderId, observed, remaining, total, price, ids, heq⟩

/-- Along a run whose operations all spare terminal orders, terminal states absorb: an order that
is terminal in some database of the run is in the same state in every later one. -/
theorem terminal_absorbing {config : StoreConfig} {db : Db} {past : List Db}
    (h : StoreRun config SparesTerminal db past) :
    ∀ earlier ∈ past, ∀ o ∈ earlier.orders, o.state.terminal = true →
      ∃ o' ∈ db.orders, o'.id = o.id ∧ o'.state = o.state := by
  induction h with
  | initial => exact fun _ hearlier => absurd hearlier List.not_mem_nil
  | @call db past call now hrun hallowed hspares ih =>
    intro earlier hearlier o ho hterminal
    have hnow : ∃ o' ∈ db.orders, o'.id = o.id ∧ o'.state = o.state := by
      rcases List.mem_cons.mp hearlier with rfl | hpast
      · exact ⟨o, ho, rfl, rfl⟩
      · exact ih earlier hpast o ho hterminal
    obtain ⟨o₁, ho₁, hid₁, hstate₁⟩ := hnow
    obtain ⟨o₂, ho₂, hid₂, hstate₂⟩ :=
      terminal_after hrun.leads hallowed hspares ho₁ (hstate₁ ▸ hterminal)
    exact ⟨o₂, ho₂, hid₂.trans hid₁, hstate₂.trans hstate₁⟩
  | @venue db db' past hrun hframe ih =>
    intro earlier hearlier o ho hterminal
    have horders : db'.orders = db.orders := congrArg Lifecycle.orders hframe.lifecycle_eq
    rw [horders]
    rcases List.mem_cons.mp hearlier with rfl | hpast
    · exact ⟨o, ho, rfl, rfl⟩
    · exact ih earlier hpast o ho hterminal

def cancelledSample : List StoreCall :=
  restingSample ++ [.transitionOrder 7 .cancelPending none, .transitionOrder 7 .cancelled none]

/-- The order cancelled in a run is still cancelled after the recovery that follows a restart. -/
theorem terminal_absorbing_cancelled :
    ∃ db past, play samplePaperStore 0 (cancelledSample ++ [.recoverInterruptedSubmissions])
        Db.initial [] = some (db, past) ∧ ∃ o ∈ db.orders, o.id = 7 ∧ o.state = .cancelled := by
  have hcancelled : ((play samplePaperStore 0
      (cancelledSample ++ [.recoverInterruptedSubmissions]) Db.initial []).any fun reached =>
        reached.2.any fun earlier => earlier.orders.any fun o =>
          o.id = 7 ∧ o.state = .cancelled) = true := by
    decide +kernel
  obtain ⟨db, past, hplay, -, hcancelled⟩ := exists_of_play hcancelled
  obtain ⟨earlier, hearlier, horder⟩ := List.any_eq_true.mp hcancelled
  obtain ⟨o, ho, hat⟩ := List.any_eq_true.mp horder
  obtain ⟨hid, hstate⟩ := of_decide_eq_true hat
  have hspares : ∀ call ∈ cancelledSample ++ [.recoverInterruptedSubmissions], ∀ db,
      SparesTerminal call db := by
    simp [cancelledSample, restingSample, readySample, prepareSample, SparesTerminal]
  obtain ⟨o', ho', hid', hstate'⟩ := terminal_absorbing (play_run .initial hspares hplay) earlier
    hearlier o ho (by rw [hstate]; rfl)
  exact ⟨db, past, hplay, o', ho', hid'.trans hid, hstate'.trans hstate⟩

/-- A projection that does not spare a terminal order takes it out of its terminal state. -/
theorem projection_revives_terminal {config : StoreConfig} {now : Time} {db : Db}
    {orderId : Uuid} {observed : OrderState} {remaining total : Decimal} {price : Option Decimal}
    {ids : List String}
    (hrevives : ¬ SparesTerminal (.reconcileOrderProjection orderId observed remaining total price
      ids) db) :
    ∃ o ∈ db.orders, o.id = orderId ∧ o.state.terminal = true ∧
      ∃ o' ∈ ((StoreCall.reconcileOrderProjection orderId observed remaining total price
        ids).after config now db).orders, o'.id = orderId ∧ o'.state ≠ o.state := by
  simp only [SparesTerminal, not_forall, not_or, not_not, not_lt] at hrevives
  obtain ⟨o, horder, hterminal, hevidence, hregressed, hstate⟩ := hrevives
  obtain ⟨hmem, hid⟩ := find?_mem horder
  have hmoved : projectedState o.state observed ≠ o.state := by
    rwa [projectedState_terminal hterminal]
  refine ⟨o, hmem, hid, hterminal, ?_⟩
  simp only [StoreCall.after, StoreCall.run, reconcileOrderProjection, horder, hevidence,
    if_neg (not_lt.mpr hregressed), if_neg (fun h : _ ∧ _ => hmoved h.1)]
  generalize hfill : applyMatchedFill _ o o.venueOrderId (total - o.localFilled) price ids now =
    result
  obtain ⟨_, _, _, _, _, -, hframe⟩ := applyMatchedFill_frame _ o o.venueOrderId
    (total - o.localFilled) price ids now
  rw [hfill] at hframe
  obtain ⟨db', event⟩ := result
  subst hframe
  exact ⟨_, Table.mem_updateWhere.mpr ⟨o, hmem, rfl⟩, by rw [if_pos hid]; exact hid,
    by rw [if_pos hid]; exact hmoved⟩

/-- The venue's snapshot shows the order resting; the order is cancelled before the projection of
that snapshot is committed, and the projection makes it LIVE again. -/
theorem terminal_not_absorbing :
    ∃ db past, play samplePaperStore 0 cancelledSample Db.initial [] = some (db, past) ∧
      Reachable samplePaperStore db ∧
      (StoreCall.reconcileOrderProjection 7 .live 10 0 none []).Allowed (db :: past) ∧
      (∃ o ∈ db.orders, o.id = 7 ∧ o.state = .cancelled) ∧
      ∃ o ∈ ((StoreCall.reconcileOrderProjection 7 .live 10 0 none []).after samplePaperStore 0
        db).orders, o.id = 7 ∧ o.state = .live := by
  have hsample : ((play samplePaperStore 0 cancelledSample Db.initial []).any fun reached =>
      (StoreCall.reconcileOrderProjection 7 .live 10 0 none []).Allowed
          (reached.1 :: reached.2) ∧
        (reached.1.orders.any fun o => o.id = 7 ∧ o.state = .cancelled) ∧
        ((StoreCall.reconcileOrderProjection 7 .live 10 0 none []).after samplePaperStore 0
          reached.1).orders.any fun o => o.id = 7 ∧ o.state = .live) = true := by
    decide +kernel
  obtain ⟨db, past, hplay, hreachable, hsample⟩ := exists_of_play hsample
  obtain ⟨hallowed, hcancelled, hlive⟩ := of_decide_eq_true hsample
  obtain ⟨o, ho, hat⟩ := List.any_eq_true.mp hcancelled
  obtain ⟨o', ho', hat'⟩ := List.any_eq_true.mp hlive
  exact ⟨db, past, hplay, hreachable, hallowed, ⟨o, ho, of_decide_eq_true hat⟩,
    ⟨o', ho', of_decide_eq_true hat'⟩⟩

end OddsfoxExecution
