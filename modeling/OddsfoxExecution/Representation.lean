import OddsfoxExecution.AtMostOnce
import OddsfoxExecution.Store.Decisions

/-!
# Exposure is represented once

Before its order exists an intent is represented by an active reservation, from
then on by its one order, and never by both.  `Represented` says so for the
lifecycle tables; every operation the coordinator issues keeps it, as long as
no answer of the venue reports an order as UNKNOWN.
-/

namespace OddsfoxExecution

/-- The states of an intent that holds an active reservation. -/
def IntentState.reserving : IntentState → Bool
  | .approved | .preparing => true
  | _ => false

/-- The states of an intent that has an order, unless it was cancelled before submission. -/
def IntentState.ordered : IntentState → Bool
  | .prepared | .submitting | .submitted | .unknown => true
  | _ => false

def Lifecycle.Reserves (s : Lifecycle) (id : Uuid) : Prop :=
  ∃ r ∈ s.riskReservations, RiskReservation.At id .active r

/-- How reservations and orders represent intents; `answered` says that no answer of the venue
reports an order as UNKNOWN. -/
structure Represented (answered : Prop) (s : Lifecycle) : Prop where
  reservationIntents : (s.riskReservations.map RiskReservation.intentId).Nodup
  owned : ∀ r ∈ s.riskReservations, ∃ i ∈ s.intents, i.id = r.intentId
  reserving : ∀ i ∈ s.intents, (i.state.reserving = true ↔ s.Reserves i.id)
  ordered : ∀ i ∈ s.intents, i.state.ordered = true → ∃ o ∈ s.orders, o.intentId = i.id
  settled : answered → ∀ i ∈ s.intents, ∀ o ∈ s.orders, o.intentId = i.id →
    i.state = .submitted → o.state ≠ .unknown

namespace Represented

variable {answered : Prop} {M : OrderMove → Prop} {s s' : Lifecycle}

theorem initial : Represented answered Db.initial.lifecycle := by
  constructor <;> simp [Db.initial, Db.lifecycle]

theorem enroll (hs : Coherent s) (h : Represented answered s) {record : IntentRecord}
    (hstate : record.state = .received) (hid : record.id = s.nextUuid)
    (hintents : s'.intents = s.intents ++ [record])
    (hreservations : s'.riskReservations = s.riskReservations) (horders : s'.orders = s.orders) :
    Represented answered s' := by
  have hnew : ∀ i ∈ s'.intents, i ∈ s.intents ∨ i = record := fun i hi => by
    rw [hintents] at hi
    simpa using hi
  have hreserves : ∀ id, s'.Reserves id ↔ s.Reserves id := fun id => by
    rw [Lifecycle.Reserves, Lifecycle.Reserves, hreservations]
  constructor
  case reservationIntents => rw [hreservations]; exact h.reservationIntents
  case owned =>
    rw [hreservations, hintents]
    intro r hr
    obtain ⟨i, hi, howner⟩ := h.owned r hr
    exact ⟨i, List.mem_append_left _ hi, howner⟩
  case reserving =>
    intro i hi
    rw [hreserves]
    rcases hnew i hi with hi | rfl
    · exact h.reserving i hi
    · rw [hstate]
      refine ⟨fun hreserving => (nomatch hreserving), ?_⟩
      rintro ⟨r, hr, hat, -⟩
      obtain ⟨owner, howner, heq⟩ := h.owned r hr
      have hdrawn := hs.intentsDrawn owner howner
      rw [heq, hat, hid] at hdrawn
      exact absurd hdrawn (lt_irrefl _)
  case ordered =>
    intro i hi hordered
    rw [horders]
    rcases hnew i hi with hi | rfl
    · exact h.ordered i hi hordered
    · rw [hstate] at hordered
      cases hordered
  case settled =>
    intro hanswered i hi o ho howner hsubmitted
    rw [horders] at ho
    rcases hnew i hi with hi | rfl
    · exact h.settled hanswered i hi o ho howner hsubmitted
    · rw [hstate] at hsubmitted
      cases hsubmitted

/-- One intent advances, and with it what reserves and orders it. -/
theorem advance (hids : (s.intents.map IntentRecord.id).Nodup)
    (h : Represented answered s) {i : IntentRecord} {next : IntentState}
    {f : IntentRecord → IntentRecord} (hi : i ∈ s.intents)
    (hset : ∀ i, (f i).id = i.id ∧ (f i).state = next) (hnext : next ≠ .submitted)
    (hintents : s'.intents = Table.updateWhere (IntentRecord.At i.id i.state) f s.intents)
    (hunique : (s'.riskReservations.map RiskReservation.intentId).Nodup)
    (howned : ∀ r ∈ s'.riskReservations, r.intentId = i.id ∨
      ∃ r' ∈ s.riskReservations, r'.intentId = r.intentId)
    (hothers : ∀ id, id ≠ i.id → (s'.Reserves id ↔ s.Reserves id))
    (hown : next.reserving = true ↔ s'.Reserves i.id)
    (horders : ∀ o, o ∈ s.orders → o ∈ s'.orders)
    (hfresh : ∀ o ∈ s'.orders, o ∈ s.orders ∨ o.intentId = i.id)
    (hordered : next.ordered = true → ∃ o ∈ s'.orders, o.intentId = i.id) :
    Represented answered s' := by
  -- the rows of the intents table after the update
  have hrows : ∀ i' ∈ s'.intents, (i'.id = i.id ∧ i'.state = next) ∨
      (i'.id ≠ i.id ∧ i' ∈ s.intents) := fun i' hi' => by
    rw [hintents] at hi'
    obtain ⟨old, hold, rfl⟩ := Table.mem_updateWhere.mp hi'
    by_cases hid : old.id = i.id
    · have hsame : old = i := Table.eq_of_key_eq hids hold hi hid
      have hat : IntentRecord.At i.id i.state old := by rw [hsame]; exact ⟨rfl, rfl⟩
      rw [if_pos hat]
      exact Or.inl ⟨(hset old).1.trans hid, (hset old).2⟩
    · rw [if_neg fun hat => hid hat.1]
      exact Or.inr ⟨hid, hold⟩
  have hkept : ∀ old ∈ s.intents, ∃ i' ∈ s'.intents, i'.id = old.id := fun old hold => by
    refine ⟨_, hintents ▸ Table.mem_updateWhere.mpr ⟨old, hold, rfl⟩, ?_⟩
    split
    · exact (hset old).1
    · rfl
  constructor
  case reservationIntents => exact hunique
  case owned =>
    intro r hr
    rcases howned r hr with heq | ⟨r', hr', heq⟩
    · rw [heq]
      exact hkept i hi
    · obtain ⟨owner, howner, hid⟩ := h.owned r' hr'
      obtain ⟨i', hi', hid'⟩ := hkept owner howner
      exact ⟨i', hi', hid'.trans (hid.trans heq)⟩
  case reserving =>
    intro i' hi'
    rcases hrows i' hi' with ⟨hid, hstate⟩ | ⟨hne, hi'⟩
    · rw [hid, hstate]
      exact hown
    · rw [hothers _ hne]
      exact h.reserving i' hi'
  case ordered =>
    intro i' hi' hstate
    rcases hrows i' hi' with ⟨hid, hstate'⟩ | ⟨-, hi'⟩
    · rw [hstate'] at hstate
      rw [hid]
      exact hordered hstate
    · obtain ⟨o, ho, howner⟩ := h.ordered i' hi' hstate
      exact ⟨o, horders o ho, howner⟩
  case settled =>
    intro hanswered i' hi' o ho howner hsubmitted
    rcases hrows i' hi' with ⟨-, hstate⟩ | ⟨hne, hi'⟩
    · exact absurd (hstate.symm.trans hsubmitted) hnext
    · rcases hfresh o ho with ho | howner'
      · exact h.settled hanswered i' hi' o ho howner hsubmitted
      · exact absurd (howner.symm.trans howner') hne

/-- An intent advances with the reservations and the orders as they are. -/
theorem advance_only (hids : (s.intents.map IntentRecord.id).Nodup)
    (h : Represented answered s) {i : IntentRecord} {next : IntentState}
    {f : IntentRecord → IntentRecord} (hi : i ∈ s.intents)
    (hset : ∀ i, (f i).id = i.id ∧ (f i).state = next) (hnext : next.ordered = false)
    (hreserving : next.reserving = i.state.reserving)
    (hintents : s'.intents = Table.updateWhere (IntentRecord.At i.id i.state) f s.intents)
    (hreservations : s'.riskReservations = s.riskReservations) (horders : s'.orders = s.orders) :
    Represented answered s' := by
  have hreserves : ∀ id, s'.Reserves id ↔ s.Reserves id := fun id => by
    rw [Lifecycle.Reserves, Lifecycle.Reserves, hreservations]
  refine advance hids h hi hset (fun heq => ?_) hintents (hreservations ▸ h.reservationIntents)
    (fun r hr => Or.inr ⟨r, hreservations ▸ hr, rfl⟩) (fun id _ => hreserves id) ?_
    (fun o ho => horders ▸ ho) (fun o ho => Or.inl (horders ▸ ho)) (fun hordered => ?_)
  · rw [heq] at hnext
    cases hnext
  · rw [hreserving, hreserves]
    exact h.reserving i hi
  · rw [hnext] at hordered
    cases hordered

/-- Closing the active reservation of an intent leaves the others active. -/
theorem reserves_closed {id id' : Uuid} {state : ReservationState} (hstate : state ≠ .active)
    (hreservations : s'.riskReservations = Table.updateWhere (RiskReservation.At id .active)
      (fun r => { r with state }) s.riskReservations) :
    s'.Reserves id' ↔ id' ≠ id ∧ s.Reserves id' := by
  unfold Lifecycle.Reserves
  rw [hreservations]
  constructor
  · rintro ⟨r, hr, hat⟩
    obtain ⟨old, hold, rfl⟩ := Table.mem_updateWhere.mp hr
    by_cases hclosed : RiskReservation.At id .active old
    · rw [if_pos hclosed] at hat
      exact absurd hat.2 hstate
    · rw [if_neg hclosed] at hat
      exact ⟨fun heq => hclosed (heq ▸ hat), old, hold, hat⟩
  · rintro ⟨hne, r, hr, hat⟩
    refine ⟨r, Table.mem_updateWhere.mpr ⟨r, hr, (if_neg fun hclosed => ?_).symm⟩, hat⟩
    exact hne (hat.1.symm.trans hclosed.1)

theorem close (hids : (s.intents.map IntentRecord.id).Nodup) (h : Represented answered s)
    {i : IntentRecord} (next : IntentState) (state : ReservationState)
    {f : IntentRecord → IntentRecord} (hi : i ∈ s.intents)
    (hset : ∀ i, (f i).id = i.id ∧ (f i).state = next) (hnext : next ≠ .submitted)
    (hreserving : next.reserving = false) (hstate : state ≠ .active)
    (hintents : s'.intents = Table.updateWhere (IntentRecord.At i.id i.state) f s.intents)
    (hreservations : s'.riskReservations = Table.updateWhere (RiskReservation.At i.id .active)
      (fun r => { r with state }) s.riskReservations)
    (horders : ∀ o, o ∈ s.orders → o ∈ s'.orders)
    (hfresh : ∀ o ∈ s'.orders, o ∈ s.orders ∨ o.intentId = i.id)
    (hordered : next.ordered = true → ∃ o ∈ s'.orders, o.intentId = i.id) :
    Represented answered s' := by
  have hcolumn : s'.riskReservations.map RiskReservation.intentId =
      s.riskReservations.map RiskReservation.intentId := by
    rw [hreservations, Table.map_updateWhere]
    exact fun _ => rfl
  refine advance hids h hi hset hnext hintents (hcolumn ▸ h.reservationIntents) (fun r hr => ?_)
    (fun id hne => ?_) ?_ horders hfresh hordered
  · have hmem : r.intentId ∈ s.riskReservations.map RiskReservation.intentId :=
      hcolumn ▸ List.mem_map_of_mem hr
    exact Or.inr (List.mem_map.mp hmem)
  · rw [reserves_closed hstate hreservations]
    exact and_iff_right hne
  · rw [hreserving, reserves_closed hstate hreservations]
    simp

theorem approve (hids : (s.intents.map IntentRecord.id).Nodup)
    (h : Represented answered s) {i : IntentRecord} {row : RiskReservation}
    {f : IntentRecord → IntentRecord} (hi : i ∈ s.intents)
    (hset : ∀ i, (f i).id = i.id ∧ (f i).state = .approved)
    (hrow : RiskReservation.At i.id .active row)
    (hfresh : ∀ r ∈ s.riskReservations, r.intentId ≠ i.id)
    (hintents : s'.intents = Table.updateWhere (IntentRecord.At i.id i.state) f s.intents)
    (hreservations : s'.riskReservations = s.riskReservations ++ [row])
    (horders : s'.orders = s.orders) : Represented answered s' := by
  have hmem : ∀ r, r ∈ s'.riskReservations ↔ r ∈ s.riskReservations ∨ r = row := fun r => by
    rw [hreservations]
    simp
  refine advance hids h hi hset (by decide) hintents ?_ (fun r hr => ?_) (fun id hne => ?_) ?_
    (fun o ho => horders ▸ ho) (fun o ho => Or.inl (horders ▸ ho)) (fun h => nomatch h)
  · rw [hreservations]
    exact Table.nodup_append_row h.reservationIntents fun r hr => hrow.1 ▸ hfresh r hr
  · rcases (hmem r).mp hr with hr | rfl
    · exact Or.inr ⟨r, hr, rfl⟩
    · exact Or.inl hrow.1
  · refine ⟨?_, fun ⟨r, hr, hat⟩ => ⟨r, (hmem r).mpr (Or.inl hr), hat⟩⟩
    rintro ⟨r, hr, hat⟩
    rcases (hmem r).mp hr with hr | rfl
    · exact ⟨r, hr, hat⟩
    · exact absurd (hat.1.symm.trans hrow.1) hne
  · exact ⟨fun _ => ⟨row, (hmem row).mpr (Or.inr rfl), hrow⟩, fun _ => rfl⟩

theorem move (hs : Coherent s) (h : Represented answered s)
    (hstep : MoveStep (fun m => M m ∧ (answered → m.Honest)) s s') : Represented answered s' := by
  cases hstep with
  | draw hle =>
    exact ⟨h.reservationIntents, h.owned, h.reserving, h.ordered, h.settled⟩
  | @move i i' o o' attempts hi ho howner hi' hterms hremaining hattempts hlegal hmove =>
    have hnever : ∀ {state : IntentState} {order : OrderState}, paired state order = true →
        state.reserving = false := fun {state order} hpaired => by
      have hordered := paired_ordered hpaired
      cases state <;> simp_all [IntentState.unordered, IntentState.reserving]
    have hpaired := hs.paired_of_mem hi ho howner
    have hunreserved : ¬ s.Reserves i.id := fun hreserves => by
      have hreserving := (h.reserving i hi).mpr hreserves
      rw [hnever hpaired] at hreserving
      cases hreserving
    have howner' : o'.intentId = i.id := hterms.2.1.trans howner
    constructor
    case reservationIntents => exact h.reservationIntents
    case owned =>
      intro r hr
      obtain ⟨owner, hmem, hid⟩ := h.owned r hr
      by_cases hsame : owner.id = i'.id
      · exact ⟨i', Table.mem_replace.mpr (Or.inr ⟨rfl, owner, hmem, hsame⟩),
          hsame.symm.trans hid⟩
      · exact ⟨owner, Table.mem_replace.mpr (Or.inl ⟨hmem, hsame⟩), hid⟩
    case reserving =>
      intro row hrow
      rcases Table.mem_replace.mp hrow with ⟨hrow, -⟩ | ⟨rfl, -⟩
      · exact h.reserving row hrow
      · rw [hnever hlegal.paired, hi']
        exact ⟨fun heq => (by cases heq), fun hreserves => absurd hreserves hunreserved⟩
    case ordered =>
      intro row hrow hordered
      rcases Table.mem_replace.mp hrow with ⟨hrow, hne⟩ | ⟨rfl, -⟩
      · obtain ⟨other, hother, hotherOwner⟩ := h.ordered row hrow hordered
        refine ⟨other, Table.mem_replace.mpr (Or.inl ⟨hother, fun heq => hne ?_⟩), hotherOwner⟩
        have hsame : other = o := Table.eq_of_key_eq hs.orderIds hother ho (heq.trans hterms.1)
        rw [← hotherOwner, hsame, howner, hi']
      · exact ⟨o', Table.mem_replace.mpr (Or.inr ⟨rfl, o, ho, hterms.1.symm⟩),
          howner'.trans hi'.symm⟩
    case settled =>
      intro hanswered row hrow other hother hotherOwner hsubmitted
      rcases Table.mem_replace.mp hrow with ⟨hrow, hne⟩ | ⟨rfl, -⟩
      · rcases Table.mem_replace.mp hother with ⟨hother, -⟩ | ⟨rfl, -⟩
        · exact h.settled hanswered row hrow other hother hotherOwner hsubmitted
        · exact absurd (hotherOwner.symm.trans (howner'.trans hi'.symm)) hne
      · rcases Table.mem_replace.mp hother with ⟨hother, hne⟩ | ⟨rfl, -⟩
        · -- the intent has one order
          refine absurd ?_ hne
          rw [Table.eq_of_key_eq hs.orderIntents hother ho
            (hotherOwner.trans (hi'.trans howner.symm)), hterms.1]
        · intro hunknown
          obtain ⟨hbefore, hsubmitted'⟩ := hmove.2 hanswered hunknown hsubmitted
          exact h.settled hanswered i hi o ho howner hsubmitted' hbefore

theorem moves (hs : Coherent s) (h : Represented answered s)
    (hsteps : MoveSteps (fun m => M m ∧ (answered → m.Honest)) s s') : Represented answered s' := by
  induction hsteps with
  | refl => exact h
  | tail hbefore hstep ih => exact move (hs.moves hbefore) ih hstep

end Represented

/-! ## Operations -/

theorem updateWhere_at {db : Db} {id : Uuid} {state : IntentState} {i : IntentRecord}
    {f : IntentRecord → IntentRecord} (hat : IntentRecord.At id state i) :
    Table.updateWhere (IntentRecord.At id state) f db.intents =
      Table.updateWhere (IntentRecord.At i.id i.state) f db.intents := by
  obtain ⟨rfl, rfl⟩ := hat
  rfl

section Operations

variable {answered : Prop} {db : Db}

theorem admitIntent_represented (hs : Coherent db.lifecycle) (h : Represented answered db.lifecycle)
    {actorId key : String} {request : OrderIntentRequest} {now : Time} {r : Committed Admission}
    (hrun : admitIntent actorId key request now db = .ok r) :
    Represented answered r.db.lifecycle := by
  unfold admitIntent at hrun
  split at hrun
  · split at hrun
    · cases hrun
    · split at hrun
      · cases hrun
      · split at hrun <;> cases hrun
        exact h
  · split at hrun
    · cases hrun
    · dsimp only at hrun
      split at hrun <;> cases hrun
      exact .enroll hs h rfl rfl rfl rfl rfl

theorem transitionIntent_represented (hs : Coherent db.lifecycle)
    (h : Represented answered db.lifecycle)
    {id : Uuid} {expected next : IntentState} {rejection : Option (String × String)}
    {r : Committed IntentRecord} (hadvances : expected.advances next = true)
    (hrun : transitionIntent id expected next rejection db = .ok r) :
    Represented answered r.db.lifecycle := by
  have hstates : next.ordered = false ∧ next.reserving = expected.reserving := by
    cases expected <;> cases next <;>
      simp_all [IntentState.advances, IntentState.ordered, IntentState.reserving]
  unfold transitionIntent at hrun
  dsimp only at hrun
  split at hrun
  · cases hrun
  · rename_i hone
    obtain ⟨i, hi, hat⟩ := Table.exists_of_rowsAffected_eq_one (not_not.mp hone)
    split at hrun <;> cases hrun
    refine .advance_only hs.intentIds h hi ?_ hstates.1 (hstates.2.trans (by rw [hat.2]))
      (updateWhere_at hat) rfl rfl
    exact fun _ => ⟨rfl, rfl⟩

theorem evaluateAndReserveRisk_represented (hs : Coherent db.lifecycle)
    (h : Represented answered db.lifecycle) {intentId : Uuid} {request : OrderIntentRequest}
    {market : MarketRules} {book : OrderBook} {policy : RiskPolicy} {now : Time}
    {r : Committed RiskDecision}
    (hrun : evaluateAndReserveRisk intentId request market book policy now db = .ok r) :
    Represented answered r.db.lifecycle := by
  have hdecided := evaluateAndReserveRisk_ok hrun
  obtain ⟨i, hi, hat⟩ := hdecided.validating
  obtain ⟨snapshot, next, f, -, hset, hintents, houtcome⟩ := hdecided.outcome
  have hset : ∀ i, (f i).id = i.id ∧ (f i).state = next := fun i => ⟨(hset i).1, (hset i).2.2⟩
  rcases houtcome with ⟨rfl, -, row, ⟨hfresh, _, _, _, _, -, -, -, rfl⟩, hreservations⟩ |
    ⟨rfl, hreservations⟩
  · exact .approve hs.intentIds h hi hset ⟨hat.1.symm, rfl⟩ (fun r hr => hat.1 ▸ hfresh r hr)
      (hintents.trans (updateWhere_at hat)) hreservations hdecided.orders
  · exact .advance_only hs.intentIds h hi hset rfl (by rw [hat.2]; rfl)
      (hintents.trans (updateWhere_at hat)) hreservations hdecided.orders

theorem createPreparedOrder_represented (hs : Coherent db.lifecycle)
    (h : Represented answered db.lifecycle) {intentId : Uuid} {request : OrderIntentRequest}
    {prepared : PreparedVenueOrder} {version : String} {feeRate : Decimal} {now : Time}
    {r : Committed OrderRecord}
    (hrun : createPreparedOrder intentId request prepared version feeRate now db = .ok r) :
    Represented answered r.db.lifecycle := by
  have hprepared := createPreparedOrder_ok hrun
  obtain ⟨i, hi, hat⟩ := hprepared.preparing
  obtain ⟨_, -, -, _, order, -, horders, -, howner, -⟩ := hprepared.order
  have howner : order.intentId = i.id := howner.trans hat.1.symm
  have hmem : ∀ o, o ∈ r.db.orders ↔ o ∈ db.orders ∨ o = order := fun o => by
    rw [horders]
    simp
  refine .close hs.intentIds h .prepared .consumed hi ?_ (by decide) rfl (by decide)
    (hprepared.intents.trans (updateWhere_at hat)) ?_ (fun o ho => (hmem o).mpr (Or.inl ho))
    (fun o ho => ?_) fun _ => ⟨order, (hmem order).mpr (Or.inr rfl), howner⟩
  · exact fun _ => ⟨rfl, rfl⟩
  · rw [hat.1]
    exact hprepared.reservations
  · rcases (hmem o).mp ho with ho | rfl
    · exact Or.inl ho
    · exact Or.inr howner

theorem rejectPreparation_represented (hs : Coherent db.lifecycle)
    (h : Represented answered db.lifecycle)
    {intentId : Uuid} {code message : String} {r : Committed Unit}
    (hrun : rejectPreparation intentId code message db = .ok r) :
    Represented answered r.db.lifecycle := by
  have hrejected := rejectPreparation_ok hrun
  obtain ⟨i, hi, hat⟩ := hrejected.preparing
  obtain ⟨f, hset, hintents⟩ := hrejected.intents
  have horders : r.db.lifecycle.orders = db.lifecycle.orders := hrejected.orders
  exact .close hs.intentIds h .rejected .released hi (fun i => ⟨(hset i).1, (hset i).2.2⟩)
    (by decide) rfl (by decide) (hintents.trans (updateWhere_at hat))
    (hat.1 ▸ hrejected.reservations) (fun o ho => horders ▸ ho)
    (fun o ho => Or.inl (horders ▸ ho)) (fun h => nomatch h)

theorem recoverPreSubmissionWork_represented (hs : Coherent db.lifecycle)
    (h : Represented answered db.lifecycle) {r : Committed (List Uuid)}
    (hrun : recoverPreSubmissionWork db = .ok r) : Represented answered r.db.lifecycle := by
  refine recoverPreSubmissionWork_induction (I := fun db => Represented answered db.lifecycle)
    hs.intentIds h (fun row db db' hrow hids hrecovered h => ?_) hrun
  have horders : db'.lifecycle.orders = db.lifecycle.orders := hrecovered.orders
  refine .close hids h .received .released hrow ?_ (by decide) rfl (by decide) hrecovered.intents
    hrecovered.reservations (fun o ho => horders ▸ ho) (fun o ho => Or.inl (horders ▸ ho))
    (fun h => nomatch h)
  exact fun _ => ⟨rfl, rfl⟩

end Operations

/-- Every operation the coordinator issues keeps exposure represented once. -/
theorem StoreCall.after_represented {answered : Prop} {db : Db} {past : List Db}
    (hleads : Leads db past)
    (config : StoreConfig) (now : Time) (call : StoreCall) (hallowed : call.Allowed (db :: past))
    (htruthful : answered → call.Truthful) (h : Represented answered db.lifecycle) :
    Represented answered (call.after config now db).lifecycle := by
  have hs := hleads.coherent
  cases hearly : call.early with
  | false =>
    exact .moves hs h ((call.after_moves hleads config now hallowed hearly).mono fun _ hm =>
      ⟨hm.1, fun hanswered => hm.2 (htruthful hanswered)⟩)
  | true =>
    unfold StoreCall.after
    cases hrun : call.run config now db with
    | error e => exact h
    | ok r =>
      cases call with
      | admitIntent => exact admitIntent_represented hs h hrun
      | transitionIntent => exact transitionIntent_represented hs h hallowed hrun
      | evaluateAndReserveRisk => exact evaluateAndReserveRisk_represented hs h hrun
      | createPreparedOrder => exact createPreparedOrder_represented hs h hrun
      | rejectPreparation => exact rejectPreparation_represented hs h hrun
      | recoverPreSubmissionWork => exact recoverPreSubmissionWork_represented hs h hrun
      | _ => cases hearly

theorem StoreRun.represented {answered : Prop} {config : StoreConfig} {db : Db} {past : List Db}
    (h : StoreRun config (fun call _ => answered → call.Truthful) db past) :
    Represented answered db.lifecycle := by
  induction h with
  | initial => exact .initial
  | call call now hrun hallowed htruthful ih =>
    exact call.after_represented hrun.leads _ now hallowed htruthful ih
  | venue _ hframe ih => exact hframe.lifecycle_eq ▸ ih

/-! ## Every state of the executor -/

def Db.ordersOf (db : Db) (intentId : Uuid) : List OrderRecord :=
  db.orders.filter fun o => o.intentId = intentId

def Db.activeReservations (db : Db) (intentId : Uuid) : Nat :=
  Table.rowsAffected (RiskReservation.At intentId .active) db.riskReservations

/-- The exposure of an intent is represented once, as its state asks. -/
def RepresentedOnce (db : Db) (i : IntentRecord) : Prop :=
  match i.state with
  | .approved | .preparing => db.activeReservations i.id = 1 ∧ db.ordersOf i.id = []
  | .prepared => db.activeReservations i.id = 0 ∧
      ∃ o, db.ordersOf i.id = [o] ∧ o.state = .prepared
  | .submitting => db.activeReservations i.id = 0 ∧
      ∃ o, db.ordersOf i.id = [o] ∧ o.state = .submitting
  | .unknown => db.activeReservations i.id = 0 ∧
      ∃ o, db.ordersOf i.id = [o] ∧ o.state = .unknown
  | .submitted => db.activeReservations i.id = 0 ∧ ∃ o, db.ordersOf i.id = [o] ∧
      (o.state = .live ∨ o.state = .partiallyFilled ∨ o.state = .cancelPending ∨
        o.state.terminal = true)
  | .received | .validating | .rejected => db.activeReservations i.id = 0 ∧
      ∀ o ∈ db.ordersOf i.id, o.state.exposed = false

theorem Represented.activeReservations {answered : Prop} {db : Db}
    (h : Represented answered db.lifecycle)
    {i : IntentRecord} (hi : i ∈ db.intents) :
    db.activeReservations i.id = if i.state.reserving = true then 1 else 0 := by
  split
  · rename_i hreserving
    obtain ⟨r, hr, hat⟩ := (h.reserving i hi).mp hreserving
    exact Table.rowsAffected_eq_one_of_mem h.reservationIntents hr hat
      fun other hother => hother.1.trans hat.1.symm
  · rename_i hreserving
    exact Table.rowsAffected_eq_zero.mpr fun r hr hat =>
      hreserving ((h.reserving i hi).mpr ⟨r, hr, hat⟩)

/-- An intent has no order, or one, whose state goes with its own. -/
theorem Coherent.ordersOf {db : Db} (hs : Coherent db.lifecycle) {i : IntentRecord}
    (hi : i ∈ db.intents) : db.ordersOf i.id = [] ∨
      ∃ o ∈ db.orders, db.ordersOf i.id = [o] ∧ o.intentId = i.id ∧
        OddsfoxExecution.paired i.state o.state = true := by
  rcases Table.filter_key hs.orderIntents
    (fun (o : OrderRecord) (ho : o.intentId = i.id) => ho) with hnone | ⟨o, ho, howner, hone⟩
  · exact Or.inl hnone
  · exact Or.inr ⟨o, ho, hone, howner, hs.paired_of_mem hi ho howner⟩

theorem paired_cases {i : IntentState} {o : OrderState} (h : paired i o = true) :
    (i = .prepared ∧ o = .prepared) ∨ (i = .submitting ∧ o = .submitting) ∨
      (i = .unknown ∧ o = .unknown) ∨ (i = .rejected ∧ o = .cancelled) ∨
      (i = .submitted ∧ o ≠ .prepared ∧ o ≠ .submitting) := by
  cases i <;> cases o <;> simp_all [paired]

theorem Represented.once {db : Db} (hs : Coherent db.lifecycle)
    (h : Represented True db.lifecycle)
    {i : IntentRecord} (hi : i ∈ db.intents) : RepresentedOnce db i := by
  have hactive := h.activeReservations hi
  have hnone : i.state.ordered = true → db.ordersOf i.id ≠ [] := fun hordered hnone => by
    obtain ⟨o, ho, howner⟩ := h.ordered i hi hordered
    have hmem : o ∈ db.ordersOf i.id := List.mem_filter.mpr ⟨ho, by simpa using howner⟩
    rw [hnone] at hmem
    cases hmem
  unfold RepresentedOnce
  rcases hs.ordersOf hi with hno | ⟨o, ho, hone, howner, hpaired⟩
  · rw [hno]
    cases hstate : i.state <;> rw [hstate] at hactive hnone
    case prepared | submitting | submitted | unknown => exact absurd hno (hnone rfl)
    case approved | preparing => exact ⟨hactive, rfl⟩
    all_goals exact ⟨hactive, fun _ h => nomatch h⟩
  · rw [hone]
    rcases paired_cases hpaired with ⟨hstate, horder⟩ | ⟨hstate, horder⟩ | ⟨hstate, horder⟩ |
      ⟨hstate, horder⟩ | ⟨hstate, hprepared, hsubmitting⟩ <;> rw [hstate] at hactive ⊢
    · exact ⟨hactive, o, rfl, horder⟩
    · exact ⟨hactive, o, rfl, horder⟩
    · exact ⟨hactive, o, rfl, horder⟩
    · refine ⟨hactive, fun other hother => ?_⟩
      rw [List.mem_singleton.mp hother, horder]
      rfl
    · have hunknown : o.state ≠ .unknown := h.settled trivial i hi o ho howner hstate
      refine ⟨hactive, o, rfl, ?_⟩
      cases horder : o.state <;> simp_all [OrderState.terminal]

/-- In every state the executor reaches, through crashes and recoveries, the exposure of every
intent is represented once, where no venue acknowledges a submission with UNKNOWN. -/
theorem exposure_represented_once (self : Coordinator) (config : StoreConfig) {s : System}
    (h : self.Reaches config VenueDecides s) :
    ∀ i ∈ s.memory.db.intents, RepresentedOnce s.memory.db i := by
  have hrun : StoreRun config (fun call _ => True → call.Truthful) s.memory.db s.memory.past :=
    h.storeRun_of fun hs ht _ => hs.truthful ht
  exact fun i hi => hrun.represented.once hrun.coherent hi

/-- A first intent that was submitted is represented by the one order that rests at the venue. -/
theorem exposure_represented_once_first :
    ∃ s, sampleCoordinator.Reaches samplePaperStore VenueDecides s ∧
      ∃ i ∈ s.memory.db.intents, i.state = .submitted ∧ RepresentedOnce s.memory.db i := by
  have hsample : (sampleCoordinator.execute samplePaperStore (fun _ e => decides e)
      (submissionSchedule ++ [.calls 2 1 0 sampleVenue]) System.initial).any
        (fun s => s.memory.db.intents.any fun i => i.state = .submitted) = true := by
    decide +kernel
  have hguard : ∀ m task e, decides e = true → VenueDecides m task e := fun _ _ _ =>
    decides_guards
  obtain ⟨s, h, hsubmitted⟩ := Coordinator.exists_of_execute hguard hsample
  obtain ⟨i, hi, hstate⟩ := List.any_eq_true.mp hsubmitted
  exact ⟨s, h, i, hi, of_decide_eq_true hstate,
    exposure_represented_once sampleCoordinator samplePaperStore h i hi⟩

end OddsfoxExecution
