import OddsfoxExecution.Store.Run

/-!
# The stages of an order

An order is prepared, then being submitted, then known to the venue or closed;
no operation takes it back.  It leaves SUBMITTING only when the outcome of its
submission is recorded, or by the recovery of interrupted submissions.
-/

namespace OddsfoxExecution

def OrderState.stage : OrderState → Nat
  | .prepared => 0
  | .submitting => 1
  | _ => 2

/-- The states a venue can report an order in. -/
def OrderState.reportable : OrderState → Bool
  | .prepared | .submitting | .cancelPending => false
  | _ => true

theorem OrderState.stage_le (state : OrderState) : state.stage ≤ 2 := by
  cases state <;> decide

theorem OrderState.stage_of_reportable {state : OrderState} (h : state.reportable = true) :
    state.stage = 2 := by
  cases state <;> first
    | rfl
    | cases h

theorem AcceptedEvidence.is_reportable {originalQuantity : Decimal} {state : OrderState}
    {remaining filled : Decimal} (h : AcceptedEvidence originalQuantity state remaining filled) :
    state.reportable = true := by
  obtain ⟨hprepared, hsubmitting, hpending⟩ := h.reportable
  cases state <;> first
    | rfl
    | contradiction

theorem finishSubmission_reportable {intentId orderId : Uuid} {intentState : IntentState}
    {state : OrderState} {venueOrderId : Option String} {cls : String} {filled : Decimal}
    {price : Option Decimal} {ids : List String} {now : Time} {db : Db} {r : Committed Unit}
    (h : finishSubmission intentId orderId intentState state venueOrderId cls filled price ids now
      db = .ok r) : state.reportable = true := by
  unfold finishSubmission at h
  split at h
  · cases h
  · split at h
    · cases h
    · dsimp only at h
      split at h
      · cases h
      · rename_i hevidence
        exact (validateVenueOrderEvidence_ok hevidence).is_reportable

theorem resolveUnknownSubmission_reportable {unknown : UnknownSubmission} {venueOrderId : String}
    {state : OrderState} {remaining filled : Decimal} {price : Option Decimal} {ids : List String}
    {now : Time} {db : Db} {r : Committed Unit}
    (h : resolveUnknownSubmission unknown venueOrderId state remaining filled price ids now db =
      .ok r) : state.reportable = true := by
  unfold resolveUnknownSubmission at h
  split at h
  · rename_i hunknown
    rw [hunknown]
    rfl
  · split at h
    · cases h
    · split at h
      · cases h
      · rename_i hevidence
        exact (validateVenueOrderEvidence_ok hevidence).is_reportable

theorem reconcileOrderProjection_reportable {orderId : Uuid} {state : OrderState}
    {remaining total : Decimal} {price : Option Decimal} {ids : List String} {now : Time} {db : Db}
    {r : Committed Unit}
    (h : reconcileOrderProjection orderId state remaining total price ids now db = .ok r) :
    state.reportable = true := by
  unfold reconcileOrderProjection at h
  split at h
  · cases h
  · split at h
    · cases h
    · rename_i hevidence
      exact (validateVenueOrderEvidence_ok hevidence).is_reportable

/-- The operations that record a state the venue reported report a state it can be in. -/
theorem StoreCall.after_reportable (call : StoreCall) (config : StoreConfig) (now : Time)
    (db : Db) :
    (match call with
      | .finishSubmission _ _ _ state .. | .resolveUnknownSubmission _ _ state ..
      | .reconcileOrderProjection _ state .. => state.reportable = true
      | _ => True) ∨ call.after config now db = db := by
  unfold StoreCall.after
  cases hrun : call.run config now db with
  | error e => exact Or.inr rfl
  | ok r =>
    cases call with
    | finishSubmission => exact Or.inl (finishSubmission_reportable hrun)
    | resolveUnknownSubmission => exact Or.inl (resolveUnknownSubmission_reportable hrun)
    | reconcileOrderProjection => exact Or.inl (reconcileOrderProjection_reportable hrun)
    | _ => exact Or.inl trivial

theorem validOrderTransition_stage {prior next : OrderState}
    (h : validOrderTransition prior next = true) : prior.stage ≤ next.stage := by
  cases prior <;> cases next <;> first
    | decide
    | cases h

theorem projectedState_stage {prior observed : OrderState} (h : observed.reportable = true) :
    prior.stage ≤ (projectedState prior observed).stage := by
  unfold projectedState
  split
  · exact prior.stage_le
  · rw [OrderState.stage_of_reportable h]
    exact prior.stage_le

/-- No operation takes an order back to an earlier stage. -/
theorem StoreCall.after_stage {config : StoreConfig} {now : Time} {db : Db} {past : List Db}
    {call : StoreCall} (hleads : Leads db past) (hallowed : call.Allowed (db :: past))
    {o : OrderRecord} (ho : o ∈ db.orders) :
    ∃ o' ∈ (call.after config now db).orders, o.SameTerms o' ∧ o.state.stage ≤ o'.state.stage := by
  rcases call.after_reportable config now db with hreport | hsame
  · refine (call.after_steps hleads config now hallowed).order_related hleads.coherent
      (fun state state' => state.stage ≤ state'.stage) (fun _ => le_refl _)
      (fun _ _ _ => le_trans) (fun m hmove => ?_) ho
    cases call with
    | beginSubmission | cancelPreparedOrder =>
      cases hmove
      exact Nat.zero_le _
    | finishSubmission =>
      cases hmove
      exact (OrderState.stage_of_reportable hreport).symm ▸ (by decide : (1 : Nat) ≤ 2)
    | recoverInterruptedSubmissions =>
      obtain ⟨-, hmove⟩ := hmove
      rw [hmove]
      decide
    | resolveUnknownSubmission =>
      obtain ⟨-, hmove⟩ := hmove
      rw [hmove]
      exact (OrderState.stage_of_reportable hreport).ge
    | transitionOrder =>
      obtain ⟨-, hnext, hvalid⟩ := hmove
      exact hnext ▸ validOrderTransition_stage hvalid
    | reconcileOrderProjection =>
      obtain ⟨-, hnext⟩ := hmove
      exact hnext ▸ projectedState_stage hreport
    | applyPaperTradeThrough =>
      obtain ⟨-, hnext | hnext | hnext⟩ := hmove <;> rw [hnext] <;> exact OrderState.stage_le _
    | _ => exact hmove.elim
  · rw [hsame]
    exact ⟨o, ho, .refl o, le_refl _⟩

theorem StoreRun.stage_le {config : StoreConfig} {guard : StoreCall → Db → Prop} {db : Db}
    {past : List Db} (h : StoreRun config guard db past) :
    ∀ earlier ∈ db :: past, ∀ o ∈ earlier.orders, ∃ o' ∈ db.orders, o.SameTerms o' ∧
      o.state.stage ≤ o'.state.stage := by
  induction h with
  | initial =>
    intro earlier hearlier o ho
    obtain rfl := List.mem_singleton.mp hearlier
    exact ⟨o, ho, .refl o, le_refl _⟩
  | @call db past call now hrun hallowed _ ih =>
    intro earlier hearlier o ho
    rcases List.mem_cons.mp hearlier with rfl | hearlier
    · exact ⟨o, ho, .refl o, le_refl _⟩
    · obtain ⟨o₁, ho₁, hterms₁, hle₁⟩ := ih earlier hearlier o ho
      obtain ⟨o₂, ho₂, hterms₂, hle₂⟩ :=
        @StoreCall.after_stage config now _ _ _ hrun.leads hallowed _ ho₁
      exact ⟨o₂, ho₂, hterms₁.trans hterms₂, hle₁.trans hle₂⟩
  | venue _ hframe ih =>
    obtain ⟨_, _, _, _, _, _, rfl⟩ := hframe
    intro earlier hearlier o ho
    rcases List.mem_cons.mp hearlier with rfl | hearlier
    · exact ⟨o, ho, .refl o, le_refl _⟩
    · exact ih earlier hearlier o ho

/-- A recorded outcome takes the order out of SUBMITTING. -/
theorem finishSubmission_leaves {intentId orderId : Uuid} {intentState : IntentState}
    {state : OrderState} {venueOrderId : Option String} {cls : String} {filled : Decimal}
    {price : Option Decimal} {ids : List String} {now : Time} {db : Db} {r : Committed Unit}
    (h : finishSubmission intentId orderId intentState state venueOrderId cls filled price ids now
      db = .ok r) :
    ∃ o' ∈ r.db.orders, o'.id = orderId ∧ o'.state.stage = 2 := by
  have hreportable := finishSubmission_reportable h
  unfold finishSubmission at h
  split at h
  · cases h
  · split at h
    · cases h
    · rename_i prior hprior
      dsimp only at h
      split at h
      · cases h
      · split at h
        · cases h
        · cases h
          have hmem := List.mem_of_find?_eq_some hprior
          have hat := List.find?_some hprior
          simp only [decide_eq_true_eq] at hat
          refine ⟨OrderRecord.settle state venueOrderId
            (submissionRemaining prior.originalQuantity state filled) prior, ?_, hat.1,
            OrderState.stage_of_reportable hreportable⟩
          simp only [Db.appendEvent]
          split
          · rw [applyMatchedFill_orders]
            exact Table.mem_updateWhere_of_mem hmem hat
          · exact Table.mem_updateWhere_of_mem hmem hat

/-- The operations that end a submission. -/
def StoreCall.concludes : StoreCall → Bool
  | finishSubmission .. | recoverInterruptedSubmissions => true
  | _ => false

theorem StoreCall.submitting_kept {config : StoreConfig} {now : Time} {db : Db} {past : List Db}
    {call : StoreCall} (hleads : Leads db past) (hallowed : call.Allowed (db :: past))
    (hcall : call.concludes = false) {o : OrderRecord} (ho : o ∈ db.orders)
    (hstate : o.state = .submitting) :
    ∃ o' ∈ (call.after config now db).orders, o.SameTerms o' ∧ o'.state = .submitting := by
  obtain ⟨o', ho', hterms, hkept⟩ :=
    (call.after_steps hleads config now hallowed).order_kept hleads.coherent ho
  refine ⟨o', ho', hterms, (hkept fun m hmove hid hfrom => ?_).trans hstate⟩
  rw [hstate] at hfrom ⊢
  cases call with
  | beginSubmission | cancelPreparedOrder =>
    cases hmove
    cases hfrom
  | finishSubmission | recoverInterruptedSubmissions => cases hcall
  | resolveUnknownSubmission =>
    obtain ⟨-, hmove⟩ := hmove
    rw [hmove] at hfrom
    cases hfrom
  | transitionOrder id next =>
    obtain ⟨-, hnext, hvalid⟩ := hmove
    rw [hfrom] at hvalid
    rw [hnext]
    cases next <;> first
      | rfl
      | cases hvalid
  | reconcileOrderProjection =>
    -- an order read as active belongs to a submitted intent by now
    obtain ⟨earlier, hearlier, read, hknown, hread, hactive⟩ := hallowed
    obtain ⟨i, hi, howner, hpaired⟩ := hleads.coherent.owner ho
    have hsubmitted := hleads.cons.submitted_of_active hearlier (List.mem_filter.mp hknown).1
      hactive ho (hid.symm.trans (hmove.1.trans hread.symm)) hi howner.symm
    rw [hsubmitted, hstate] at hpaired
    cases hpaired
  | applyPaperTradeThrough =>
    obtain ⟨hactive, -⟩ := hmove
    rw [hfrom] at hactive
    cases hactive
  | _ => exact hmove.elim

end OddsfoxExecution
