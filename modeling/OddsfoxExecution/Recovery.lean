import OddsfoxExecution.Store.Run

/-!
# The second evaluation of recovered work

`recover_pre_submission_work` releases the reservation of an unfinished intent
and rewinds the intent to RECEIVED, so that it is evaluated again.  The
released row stays under its primary key, the intent; a second approval inserts
under the same key and the transaction fails.
-/

namespace OddsfoxExecution

/-- What a risk decision leaves behind: an approval with one ACTIVE reservation, or a rejection. -/
inductive DecisionCommitted (intentId : Uuid) (db' : Db) (decision : RiskDecision) : Prop
  | approved (hdecision : decision.approved = true)
      (hintent : ∃ i ∈ db'.intents, IntentRecord.At intentId .approved i)
      (hreserved :
        Table.rowsAffected (RiskReservation.At intentId .active) db'.riskReservations = 1)
  | rejected (hdecision : decision.approved = false)
      (hintent : ∃ i ∈ db'.intents, IntentRecord.At intentId .rejected i)

/-- No reservation row is kept under the intent, or the policy does not approve the request over
the exposure the database shows. -/
def Redecidable (db : Db) (intentId : Uuid) (request : OrderIntentRequest) (market : MarketRules)
    (book : OrderBook) (policy : RiskPolicy) (now : Time) : Prop :=
  (∀ r ∈ db.riskReservations, r.intentId ≠ intentId) ∨
    ∀ snapshot, db.riskSnapshot request.conditionId request.tokenId now = .ok snapshot →
      (policy.evaluate request market book snapshot).approved = false

/-! ## The snapshot -/

/-- Every exposure of a coherent database has a positive original quantity. -/
theorem Coherent.riskSnapshot_ok {db : Db} (hs : Coherent db.lifecycle)
    (conditionId tokenId : String) (now : Time) :
    ∃ snapshot, db.riskSnapshot conditionId tokenId now = .ok snapshot := by
  unfold Db.riskSnapshot
  dsimp only
  split
  · rename_i hany
    obtain ⟨row, hrow, hnonpositive⟩ := List.any_eq_true.mp hany
    have hpositive : 0 < row.originalQuantity := by
      rcases List.mem_append.mp hrow with horder | hreservation
      · obtain ⟨o, ho, rfl⟩ := List.mem_map.mp horder
        exact hs.positive o (List.mem_filter.mp ho).1
      · obtain ⟨r, hr, rfl⟩ := List.mem_map.mp hreservation
        exact hs.reserved r (List.mem_filter.mp hr).1
    exact absurd hpositive (not_lt.mpr (of_decide_eq_true hnonpositive))
  · exact ⟨_, rfl⟩

/-! ## The two halves of the transaction -/

section Decision

variable {db : Db} {intentId : Uuid}

/-- An approved request is reserved exactly when no row is kept under the intent. -/
theorem reserveRisk_ok_iff {policy : RiskPolicy} {request : OrderIntentRequest}
    {market : MarketRules} {book : OrderBook} {snapshot : RiskSnapshot}
    (happroved : (policy.evaluate request market book snapshot).approved = true) :
    (∃ result, reserveRisk intentId request market db = .ok result) ↔
      ∀ r ∈ db.riskReservations, r.intentId ≠ intentId := by
  obtain ⟨quantity, price, ⟨shares, quote⟩, hquantity, hprice, hexposure⟩ :=
    RiskPolicy.exposure_of_approved happroved
  simp only [reserveRisk, hquantity, hprice, hexposure]
  split
  · rename_i htaken
    obtain ⟨r, hr, heq⟩ := Table.insertNew_eq_none.mp htaken
    refine iff_of_false ?_ fun hfresh => hfresh r hr heq
    rintro ⟨result, hresult⟩
    cases hresult
  · rename_i hinsert
    exact iff_of_true ⟨_, rfl⟩ (Table.insertNew_eq_some.mp hinsert).1

/-- A reservation leaves the intents alone and adds one ACTIVE row for an intent that had none. -/
theorem reserveRisk_reserved {request : OrderIntentRequest} {market : MarketRules} {db' : Db}
    {event : ExecutionEvent} (h : reserveRisk intentId request market db = .ok (db', event)) :
    db'.intents = db.intents ∧
      Table.rowsAffected (RiskReservation.At intentId .active) db'.riskReservations = 1 := by
  unfold reserveRisk at h
  split at h
  · cases h
  · split at h
    · cases h
    · split at h
      · cases h
      · split at h
        · cases h
        · rename_i hinsert
          cases h
          obtain ⟨hfresh, rfl⟩ := Table.insertNew_eq_some.mp hinsert
          exact ⟨rfl, Table.rowsAffected_append_eq_one (fun r hr hat => hfresh r hr hat.1)
            ⟨rfl, rfl⟩⟩

/-- A VALIDATING intent leaves VALIDATING with the decision made about it. -/
theorem concludeRisk_committed (hs : (db.intents.map IntentRecord.id).Nodup)
    (hvalidating : ∃ i ∈ db.intents, IntentRecord.At intentId .validating i)
    (decision : RiskDecision) (events : List ExecutionEvent)
    (hreserved : decision.approved = true →
      Table.rowsAffected (RiskReservation.At intentId .active) db.riskReservations = 1) :
    ∃ r, concludeRisk intentId decision events db = .ok r ∧
      DecisionCommitted intentId r.db r.value := by
  obtain ⟨i, hi, hat⟩ := hvalidating
  have hone : Table.rowsAffected (IntentRecord.At intentId .validating) db.intents = 1 :=
    Table.rowsAffected_eq_one_of_mem hs hi hat fun other hother => hother.1.trans hat.1.symm
  unfold concludeRisk
  rw [if_neg (not_not.mpr hone)]
  refine ⟨_, rfl, ?_⟩
  cases hdecision : decision.approved with
  | true =>
    exact .approved hdecision ⟨_, Table.mem_updateWhere_of_mem hi hat, hat.1, rfl⟩
      (hreserved hdecision)
  | false => exact .rejected hdecision ⟨_, Table.mem_updateWhere_of_mem hi hat, hat.1, rfl⟩

/-- The evaluation of a VALIDATING intent commits a decision exactly when its outcome leaves no
reservation to insert under a taken key. -/
theorem evaluateAndReserveRisk_committed_iff (hs : Coherent db.lifecycle)
    (hvalidating : ∃ i ∈ db.intents, IntentRecord.At intentId .validating i)
    (request : OrderIntentRequest) (market : MarketRules) (book : OrderBook) (policy : RiskPolicy)
    (now : Time) :
    (∃ r, evaluateAndReserveRisk intentId request market book policy now db = .ok r ∧
        DecisionCommitted intentId r.db r.value) ↔
      Redecidable db intentId request market book policy now := by
  obtain ⟨snapshot, hsnapshot⟩ :=
    hs.riskSnapshot_ok request.conditionId request.tokenId now
  have hintent : db.intent? intentId ≠ none := by
    obtain ⟨i, hi, hat⟩ := hvalidating
    have hfound : db.intent? i.id = some i := Table.find?_eq_some_of_mem hs.intentIds hi
    rw [← hat.1, hfound]
    exact Option.some_ne_none i
  have hredecidable : Redecidable db intentId request market book policy now ↔
      (∀ r ∈ db.riskReservations, r.intentId ≠ intentId) ∨
        (policy.evaluate request market book snapshot).approved = false := by
    simp only [Redecidable, hsnapshot, Except.ok.injEq, forall_eq']
  rw [hredecidable]
  simp only [evaluateAndReserveRisk, hsnapshot, if_neg hintent]
  cases hdecision : (policy.evaluate request market book snapshot).approved with
  | false =>
    refine iff_of_true ?_ (Or.inr rfl)
    simp only [Bool.false_eq_true, if_false]
    refine concludeRisk_committed ?_ ?_ _ _ fun happroved => ?_
    · exact hs.intentIds
    · exact hvalidating
    · rw [hdecision] at happroved
      cases happroved
  | true =>
    simp only [if_true, Bool.true_eq_false, or_false]
    split
    · rename_i hreserve
      have hfailed : ¬ ∃ result, reserveRisk intentId request market _ = .ok result :=
        fun ⟨result, hresult⟩ => nomatch hreserve.symm.trans hresult
      refine iff_of_false ?_ fun hfresh => hfailed ((reserveRisk_ok_iff hdecision).mpr hfresh)
      rintro ⟨r, hr, -⟩
      cases hr
    · rename_i db' reserved hreserve
      obtain ⟨hintents, hreserved⟩ := reserveRisk_reserved hreserve
      have hfresh := (reserveRisk_ok_iff hdecision).mp ⟨_, hreserve⟩
      refine iff_of_true ?_ hfresh
      refine concludeRisk_committed ?_ ?_ _ _ fun _ => hreserved
      · rw [hintents]
        exact hs.intentIds
      · rw [hintents]
        exact hvalidating

end Decision

/-! ## Evaluating a recovered intent -/

/-- A RECEIVED intent moves to VALIDATING, and nothing the evaluation reads changes. -/
theorem transitionIntent_validating {db : Db} (hs : Coherent db.lifecycle) {i : IntentRecord}
    (hi : i ∈ db.intents) (hreceived : i.state = .received) :
    ∃ r, transitionIntent i.id .received .validating none db = .ok r ∧
      (∃ i' ∈ r.db.intents, IntentRecord.At i.id .validating i') ∧
      r.db.riskReservations = db.riskReservations ∧
      ∀ conditionId tokenId now,
        r.db.riskSnapshot conditionId tokenId now = db.riskSnapshot conditionId tokenId now := by
  have hat : IntentRecord.At i.id .received i := ⟨rfl, hreceived⟩
  have hone : Table.rowsAffected (IntentRecord.At i.id .received) db.intents = 1 :=
    Table.rowsAffected_eq_one_of_mem hs.intentIds hi hat fun other hother => hother.1
  simp only [transitionIntent, if_neg (not_not.mpr hone)]
  split
  · rename_i hnone
    exact absurd rfl (of_decide_eq_false (Bool.not_eq_true _ ▸
      List.find?_eq_none.mp hnone _ (Table.mem_updateWhere_of_mem hi hat)))
  · exact ⟨_, rfl, ⟨_, Table.mem_updateWhere_of_mem hi hat, rfl, rfl⟩, rfl, fun _ _ _ => rfl⟩

/-- In every reachable database a RECEIVED intent moves to VALIDATING, and its evaluation then
commits a decision exactly when no reservation row is kept under it or the policy does not approve
it. -/
theorem recovered_intent_decided_iff {config : StoreConfig} {db : Db}
    (hreachable : Reachable config db) {i : IntentRecord} (hi : i ∈ db.intents)
    (hreceived : i.state = .received) (request : OrderIntentRequest) (market : MarketRules)
    (book : OrderBook) (policy : RiskPolicy) (now : Time) :
    ∃ moved, transitionIntent i.id .received .validating none db = .ok moved ∧
      ((∃ r, evaluateAndReserveRisk i.id request market book policy now moved.db = .ok r ∧
          DecisionCommitted i.id r.db r.value) ↔
        Redecidable db i.id request market book policy now) := by
  have hs := hreachable.coherent
  obtain ⟨moved, hmoved, hvalidating, hreservations, hsnapshot⟩ :=
    transitionIntent_validating hs hi hreceived
  refine ⟨moved, hmoved, ?_⟩
  have hsteps := transitionIntent_steps (M := fun _ => True) rfl hmoved
  rw [evaluateAndReserveRisk_committed_iff (hs.steps hsteps) hvalidating]
  simp only [Redecidable, hreservations, hsnapshot]

/-- An intent approved before a crash: the restart releases its reservation and rewinds it. -/
def recoveredSample : List StoreCall :=
  readySample ++
    [.admitIntent "operator" "first" sampleRequest,
      .transitionIntent 3 .received .validating none,
      .evaluateAndReserveRisk 3 sampleRequest sampleMarket sampleBook samplePolicy,
      .recoverInterruptedSubmissions, .recoverPreSubmissionWork]

/-- A policy that no longer allows a purchase. -/
def sellOnlyPolicy : RiskPolicy := { samplePolicy with allowedSides := [.sell] }

/-- An intent approved before the crash is evaluated again under a policy that rejects it. -/
theorem recovered_intent_decided_iff_rejected :
    ∃ db past, play samplePaperStore 0 recoveredSample Db.initial [] = some (db, past) ∧
      (∃ r ∈ db.riskReservations, RiskReservation.At 3 .released r) ∧
      ∃ moved, transitionIntent 3 .received .validating none db = .ok moved ∧
        ∃ r, evaluateAndReserveRisk 3 sampleRequest sampleMarket sampleBook sellOnlyPolicy 0
          moved.db = .ok r ∧ DecisionCommitted 3 r.db r.value := by
  have hsample : ((play samplePaperStore 0 recoveredSample Db.initial []).any fun reached =>
      (reached.1.intents.any fun i => IntentRecord.At 3 .received i) &&
      (reached.1.riskReservations.any fun r => RiskReservation.At 3 .released r) &&
      (reached.1.riskSnapshot sampleRequest.conditionId sampleRequest.tokenId 0).toOption.all
        fun snapshot => !(sellOnlyPolicy.evaluate sampleRequest sampleMarket sampleBook
          snapshot).approved) = true := by
    decide +kernel
  obtain ⟨db, past, hplay, hreachable, hsample⟩ := exists_of_play hsample
  simp only [Bool.and_eq_true] at hsample
  obtain ⟨⟨hreceived, hreleased⟩, hrejected⟩ := hsample
  obtain ⟨i, hi, hat⟩ := List.any_eq_true.mp hreceived
  obtain ⟨reservation, hreservation, hrow⟩ := List.any_eq_true.mp hreleased
  obtain ⟨hid, hstate⟩ := of_decide_eq_true hat
  have hredecidable : Redecidable db i.id sampleRequest sampleMarket sampleBook
      sellOnlyPolicy 0 := by
    refine Or.inr fun snapshot hsnapshot => ?_
    rw [hsnapshot] at hrejected
    simpa [Except.toOption] using hrejected
  obtain ⟨moved, hmoved, hiff⟩ := recovered_intent_decided_iff hreachable hi hstate sampleRequest
    sampleMarket sampleBook sellOnlyPolicy 0
  rw [hid] at hmoved hiff hredecidable
  exact ⟨db, past, hplay, ⟨reservation, hreservation, of_decide_eq_true hrow⟩, moved, hmoved,
    hiff.mpr hredecidable⟩

/-- The second approval of an intent whose first reservation was released fails on the primary
key of `risk_reservations`. -/
theorem second_evaluation_fails :
    ∃ db past, play samplePaperStore 0 recoveredSample Db.initial [] = some (db, past) ∧
      Reachable samplePaperStore db ∧ (∃ i ∈ db.intents, IntentRecord.At 3 .received i) ∧
      (∃ r ∈ db.riskReservations, RiskReservation.At 3 .released r) ∧
      ∃ moved, transitionIntent 3 .received .validating none db = .ok moved ∧
        evaluateAndReserveRisk 3 sampleRequest sampleMarket sampleBook samplePolicy 0 moved.db =
          .error (.database "UNIQUE constraint failed: risk_reservations.intent_id") := by
  have hsample : ((play samplePaperStore 0 recoveredSample Db.initial []).any fun reached =>
      (reached.1.intents.any fun i => IntentRecord.At 3 .received i) &&
      (reached.1.riskReservations.any fun r => RiskReservation.At 3 .released r) &&
      match transitionIntent 3 .received .validating none reached.1 with
      | .error _ => false
      | .ok moved =>
        match evaluateAndReserveRisk 3 sampleRequest sampleMarket sampleBook samplePolicy 0
            moved.db with
        | .error e => e = .database "UNIQUE constraint failed: risk_reservations.intent_id"
        | .ok _ => false) = true := by
    decide +kernel
  obtain ⟨db, past, hplay, hreachable, hsample⟩ := exists_of_play hsample
  simp only [Bool.and_eq_true] at hsample
  obtain ⟨⟨hreceived, hreleased⟩, hfails⟩ := hsample
  obtain ⟨i, hi, hat⟩ := List.any_eq_true.mp hreceived
  obtain ⟨reservation, hreservation, hrow⟩ := List.any_eq_true.mp hreleased
  refine ⟨db, past, hplay, hreachable, ⟨i, hi, of_decide_eq_true hat⟩,
    ⟨reservation, hreservation, of_decide_eq_true hrow⟩, ?_⟩
  split at hfails
  · cases hfails
  · rename_i moved hmoved
    refine ⟨moved, hmoved, ?_⟩
    split at hfails
    · rename_i hresult
      rw [hresult, of_decide_eq_true hfails]
    · cases hfails

end OddsfoxExecution
