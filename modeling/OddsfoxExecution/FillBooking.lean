import OddsfoxExecution.Store.Run

/-!
# The booking of fills

A fill the venue reports is recognised by `finish_submission`,
`resolve_unknown_submission` or `reconcile_order_projection`: each compares the
reported quantity with what the order's remaining quantity already reflects and
hands the difference to `apply_matched_fill`.  The trade's key is derived from
the venue's identifiers, and the insert ignores a conflict after the remaining
quantity has been updated; so a fill is booked exactly when its key is fresh.
-/

namespace OddsfoxExecution

/-- The same commit inserts one trade of size `d` for the order and moves the position of its
token, and of no other token, by `d`. -/
structure BookedOnce (db db' : Db) (o : OrderRecord) (d : Decimal) : Prop where
  trade : ∃ t, db'.trades = db.trades ++ [t] ∧ t.orderId = o.id ∧ t.size = d
  position : db'.positionShares o.tokenId = o.side.apply (db.positionShares o.tokenId) d
  others : ∀ token, token ≠ o.tokenId → db'.positionShares token = db.positionShares token

/-- The order a call reports about and the quantity it reports filled in total.  A resolution
that is still UNKNOWN reports nothing. -/
def StoreCall.reportedFill : StoreCall → Option (Uuid × Decimal)
  | finishSubmission _ orderId _ _ _ _ filled _ _ => some (orderId, filled)
  | resolveUnknownSubmission unknown _ state _ filled _ _ =>
    if state = .unknown then none else some (unknown.orderId, filled)
  | reconcileOrderProjection orderId _ _ total _ _ => some (orderId, total)
  | _ => none

/-- The key a call derives for the trade of the fill it reports; a submission that leaves the
intent UNKNOWN makes no trade. -/
def StoreCall.fillKey (o : OrderRecord) : StoreCall → Option String
  | finishSubmission _ _ intentState _ venueOrderId _ _ _ ids =>
    if intentState = .submitted then some (fillTradeId o venueOrderId ids) else none
  | resolveUnknownSubmission _ venueOrderId _ _ _ _ ids =>
    some (fillTradeId o (some venueOrderId) ids)
  | reconcileOrderProjection _ _ _ _ _ ids => some (fillTradeId o o.venueOrderId ids)
  | _ => none

/-- The call derives a key for the fill it reports, and no trade has that key yet. -/
def StoreCall.FreshFill (db : Db) (o : OrderRecord) (call : StoreCall) : Prop :=
  ∃ key, call.fillKey o = some key ∧ ∀ t ∈ db.trades, t.venueTradeId ≠ key

/-! ## One matched fill -/

def Db.ledger (db : Db) : List TradeRecord × List PositionRecord := (db.trades, db.positions)

theorem BookedOnce.of_ledger {a a' b b' : Db} {o : OrderRecord} {d : Decimal}
    (h : BookedOnce a b o d) (ha : a'.ledger = a.ledger) (hb : b'.ledger = b.ledger) :
    BookedOnce a' b' o d := by
  obtain ⟨ha₁, ha₂⟩ := Prod.mk.inj ha
  obtain ⟨hb₁, hb₂⟩ := Prod.mk.inj hb
  obtain ⟨htrade, hposition, hothers⟩ := h
  refine ⟨?_, ?_, ?_⟩
  · rwa [ha₁, hb₁]
  · rwa [Db.positionShares, Db.positionShares, ha₂, hb₂]
  · simpa only [Db.positionShares, ha₂, hb₂] using hothers

section Fill

variable {db : Db}

theorem positionShares_upsert {db' : Db} {row : PositionRecord}
    (hpositions : db'.positions = Table.upsert PositionRecord.tokenId row
      (fun p => { p with conditionId := row.conditionId, shares := row.shares }) db.positions)
    (token : String) :
    db'.positionShares token =
      if token = row.tokenId then row.shares else db.positionShares token := by
  by_cases htoken : token = row.tokenId
  · rw [if_pos htoken, Db.positionShares, hpositions, htoken, Table.find?_upsert_self]
    · cases db.positions.find? fun p => decide (p.tokenId = row.tokenId) <;> rfl
    · exact fun _ => rfl
  · rw [if_neg htoken, Db.positionShares, hpositions, Table.find?_upsert_of_ne ?_ htoken,
      Db.positionShares]
    exact fun _ => rfl

theorem applyMatchedFill_booked {order : OrderRecord} {venueOrderId : Option String}
    {filled : Decimal} {price : Option Decimal} {ids : List String} {now : Time}
    (hpositive : 0 < filled)
    (hfresh : ∀ t ∈ db.trades, t.venueTradeId ≠ fillTradeId order venueOrderId ids) :
    BookedOnce db (applyMatchedFill db order venueOrderId filled price ids now).1 order filled := by
  unfold applyMatchedFill
  rw [if_neg (not_le.mpr hpositive)]
  dsimp only
  split
  · rename_i htaken
    obtain ⟨t, ht, heq⟩ := Table.insertNew_eq_none.mp htaken
    exact absurd heq (hfresh t ht)
  · rename_i hinsert
    obtain ⟨-, rfl⟩ := Table.insertNew_eq_some.mp hinsert
    refine ⟨⟨_, rfl, rfl, rfl⟩, ?_, fun token hne => ?_⟩
    · exact (positionShares_upsert rfl _).trans (if_pos rfl)
    · exact (positionShares_upsert rfl token).trans (if_neg hne)

theorem applyMatchedFill_dropped {order : OrderRecord} {venueOrderId : Option String}
    {filled : Decimal} {price : Option Decimal} {ids : List String} {now : Time}
    (htaken : ∃ t ∈ db.trades, t.venueTradeId = fillTradeId order venueOrderId ids) :
    (applyMatchedFill db order venueOrderId filled price ids now).1.trades = db.trades := by
  unfold applyMatchedFill
  split
  · rfl
  · dsimp only
    split
    · rfl
    · rename_i hinsert
      obtain ⟨t, ht, heq⟩ := htaken
      exact absurd heq ((Table.insertNew_eq_some.mp hinsert).1 t ht)

end Fill

/-! ## The calls that report fills -/

/-- No fill of an order whose submission is still open has been recognised. -/
theorem Coherent.localFilled_unsettled {s : Lifecycle} (hs : Coherent s) {o : OrderRecord}
    (ho : o ∈ s.orders) (hunsettled : o.state.unsettled = true) : o.localFilled = 0 := by
  rw [OrderRecord.localFilled, hs.unsettled o ho hunsettled, sub_self, max_self]

section Ledger

variable {db : Db} {filled : Decimal} {price : Option Decimal} {ids : List String} {now : Time}
  {r : Committed Unit}

/-- The answer to a submission hands its fill to `apply_matched_fill` when the intent becomes
SUBMITTED. -/
theorem finishSubmission_ledger {intentId orderId : Uuid} {intentState : IntentState}
    {orderState : OrderState} {venueOrderId : Option String} {classification : String}
    (h : finishSubmission intentId orderId intentState orderState venueOrderId classification filled
      price ids now db = .ok r) :
    ∃ o ∈ db.orders, o.id = orderId ∧ o.state = .submitting ∧
      ((intentState ≠ .submitted ∧ r.db.ledger = db.ledger) ∨
        (intentState = .submitted ∧ ∃ db', db'.ledger = db.ledger ∧ r.db.ledger =
          (applyMatchedFill db' o venueOrderId filled price ids now).1.ledger)) := by
  simp only [finishSubmission] at h
  split at h
  · cases h
  · split at h
    · cases h
    · rename_i prior hprior
      obtain ⟨hmem, hid, -, hstate⟩ := find?_mem hprior
      refine ⟨prior, hmem, hid, hstate, ?_⟩
      split at h
      · cases h
      · split at h
        · cases h
        · split at h
          · rename_i hsubmitted
            generalize hfill : applyMatchedFill _ prior venueOrderId filled price ids now =
              result at h
            cases h
            refine .inr ⟨hsubmitted, _, ?_, congrArg (fun fill => fill.1.ledger) hfill.symm⟩
            rfl
          · rename_i hsubmitted
            cases h
            exact .inl ⟨hsubmitted, rfl⟩

/-- The resolution of an UNKNOWN order hands its fill to `apply_matched_fill`. -/
theorem resolveUnknownSubmission_ledger {unknown : UnknownSubmission} {venueOrderId : String}
    {state : OrderState} {remaining : Decimal} (hresolved : state ≠ .unknown)
    (h : resolveUnknownSubmission unknown venueOrderId state remaining filled price ids now db =
      .ok r) :
    ∃ o ∈ db.orders, o.id = unknown.orderId ∧ o.state = .unknown ∧
      ∃ db', db'.ledger = db.ledger ∧ r.db.ledger =
        (applyMatchedFill db' o (some venueOrderId) filled price ids now).1.ledger := by
  unfold resolveUnknownSubmission at h
  rw [if_neg hresolved] at h
  split at h
  · cases h
  · rename_i prior hprior
    obtain ⟨hmem, hid, hstate⟩ := find?_mem hprior
    refine ⟨prior, hmem, hid, hstate, ?_⟩
    split at h
    · cases h
    · split at h
      · cases h
      · dsimp only at h
        generalize hfill : applyMatchedFill _ prior (some venueOrderId) filled price ids now =
          result at h
        cases h
        refine ⟨_, ?_, congrArg (fun fill => fill.1.ledger) hfill.symm⟩
        rfl

/-- A projection hands what is new of the venue's total to `apply_matched_fill`. -/
theorem reconcileOrderProjection_ledger {orderId : Uuid} {observed : OrderState}
    {remaining : Decimal}
    (h : reconcileOrderProjection orderId observed remaining filled price ids now db = .ok r) :
    ∃ o ∈ db.orders, o.id = orderId ∧ ∃ db', db'.ledger = db.ledger ∧ r.db.ledger =
      (applyMatchedFill db' o o.venueOrderId (filled - o.localFilled) price ids
        now).1.ledger := by
  unfold reconcileOrderProjection at h
  split at h
  · cases h
  · rename_i prior hprior
    obtain ⟨hmem, hid⟩ := find?_mem hprior
    refine ⟨prior, hmem, hid, ?_⟩
    split at h
    · cases h
    · split at h
      · cases h
      · dsimp only at h
        split at h
        · rename_i hunchanged
          cases h
          refine ⟨db, rfl, ?_⟩
          unfold applyMatchedFill
          rw [if_pos hunchanged.2.2.le]
        · generalize hfill : applyMatchedFill _ prior prior.venueOrderId
            (filled - prior.localFilled) price ids now = result at h
          cases h
          refine ⟨_, ?_, congrArg (fun fill => fill.1.ledger) hfill.symm⟩
          rfl

end Ledger

/-- What a successful call that recognises a fill makes of the ledger: it has no key for the fill
and leaves the ledger alone, or it hands the fill to `apply_matched_fill` under its key. -/
theorem StoreCall.run_ledger {config : StoreConfig} {now : Time} {db : Db} {call : StoreCall}
    {r : Committed call.Value} {o : OrderRecord} {filled : Decimal}
    (hs : Coherent db.lifecycle) (h : call.run config now db = .ok r)
    (hreports : call.reportedFill = some (o.id, filled)) (ho : o ∈ db.orders) :
    (call.fillKey o = none ∧ r.db.ledger = db.ledger) ∨
      ∃ db' venueOrderId price ids, db'.ledger = db.ledger ∧
        call.fillKey o = some (fillTradeId o venueOrderId ids) ∧
        r.db.ledger = (applyMatchedFill db' o venueOrderId (filled - o.localFilled) price ids
          now).1.ledger := by
  have hsame : ∀ prior ∈ db.orders, prior.id = o.id → prior = o :=
    fun prior hprior hid => Table.eq_of_key_eq hs.orderIds hprior ho hid
  cases call with
  | finishSubmission intentId orderId intentState orderState venueOrderId cls quantity price ids =>
    cases hreports
    obtain ⟨prior, hprior, hid, hstate, hledger⟩ := finishSubmission_ledger h
    obtain rfl := hsame prior hprior hid
    rw [hs.localFilled_unsettled ho (by rw [hstate]; rfl), sub_zero]
    rcases hledger with ⟨hsubmitted, hledger⟩ | ⟨hsubmitted, db', hdb', hledger⟩
    · exact .inl ⟨if_neg hsubmitted, hledger⟩
    · exact .inr ⟨db', venueOrderId, price, ids, hdb', if_pos hsubmitted, hledger⟩
  | resolveUnknownSubmission unknown venueOrderId state remaining quantity price ids =>
    simp only [StoreCall.reportedFill] at hreports
    split at hreports
    · cases hreports
    · rename_i hresolved
      obtain ⟨hid, rfl⟩ := Prod.mk.inj (Option.some.inj hreports)
      obtain ⟨prior, hprior, hid', hstate, db', hdb', hledger⟩ :=
        resolveUnknownSubmission_ledger hresolved h
      obtain rfl := hsame prior hprior (hid'.trans hid)
      rw [hs.localFilled_unsettled ho (by rw [hstate]; rfl), sub_zero]
      exact .inr ⟨db', some venueOrderId, price, ids, hdb', rfl, hledger⟩
  | reconcileOrderProjection orderId state remaining total price ids =>
    cases hreports
    obtain ⟨prior, hprior, hid, db', hdb', hledger⟩ := reconcileOrderProjection_ledger h
    obtain rfl := hsame prior hprior hid
    exact .inr ⟨db', prior.venueOrderId, price, ids, hdb', rfl, hledger⟩
  | _ => cases hreports

/-- A successful call that recognises a positive new fill books it exactly when the key it derives
for the fill is fresh. -/
theorem fill_booked_iff_fresh {config : StoreConfig} {now : Time} {db : Db}
    (hreachable : Reachable config db) {call : StoreCall} {r : Committed call.Value}
    (h : call.run config now db = .ok r) {o : OrderRecord} (ho : o ∈ db.orders)
    {filled : Decimal} (hreports : call.reportedFill = some (o.id, filled))
    (hnew : 0 < filled - o.localFilled) :
    BookedOnce db r.db o (filled - o.localFilled) ↔ call.FreshFill db o := by
  have hunbooked : r.db.trades = db.trades →
      ¬ BookedOnce db r.db o (filled - o.localFilled) := by
    rintro hsame ⟨⟨t, htrades, -⟩, -, -⟩
    rw [hsame] at htrades
    exact absurd (List.self_eq_append_right.mp htrades) (List.cons_ne_nil _ _)
  rcases StoreCall.run_ledger hreachable.coherent h hreports ho with
    ⟨hnone, hledger⟩ | ⟨db', venueOrderId, price, ids, hdb', hkey, hledger⟩
  · refine iff_of_false (hunbooked (Prod.mk.inj hledger).1) ?_
    rintro ⟨key, hkey, -⟩
    rw [hnone] at hkey
    cases hkey
  · obtain ⟨htrades, -⟩ := Prod.mk.inj hdb'
    constructor
    · intro hbooked
      refine ⟨_, hkey, fun t ht htaken => ?_⟩
      have hdropped := @applyMatchedFill_dropped db' o venueOrderId (filled - o.localFilled) price
        ids now ⟨t, htrades ▸ ht, htaken⟩
      exact hunbooked ((Prod.mk.inj hledger).1.trans (hdropped.trans htrades)) hbooked
    · rintro ⟨key, hkey', hfresh⟩
      rw [hkey] at hkey'
      cases hkey'
      exact (applyMatchedFill_booked hnew (htrades ▸ hfresh)).of_ledger hdb'.symm hledger

/-- A venue report on the resting order: `total` of its ten shares are filled, and the venue names
no trades. -/
def unnamedFill (total : Decimal) : StoreCall :=
  .reconcileOrderProjection 7 .partiallyFilled (10 - total) total (some (1 / 2)) []

/-- The first fill a venue reports without naming a trade is booked. -/
theorem fill_booked_iff_fresh_first :
    ∃ db past, play samplePaperStore 0 restingSample Db.initial [] = some (db, past) ∧
      ∃ r o, (unnamedFill 4).run samplePaperStore 0 db = .ok r ∧ o ∈ db.orders ∧
        (BookedOnce db r.db o (4 - o.localFilled) ↔ (unnamedFill 4).FreshFill db o) := by
  have hsample : ((play samplePaperStore 0 restingSample Db.initial []).any fun reached =>
      ((unnamedFill 4).run samplePaperStore 0 reached.1).isOk ∧
        reached.1.orders.any fun o => o.id = 7 ∧ 0 < 4 - o.localFilled) = true := by
    decide +kernel
  obtain ⟨db, past, hplay, hreachable, hsample⟩ := exists_of_play hsample
  obtain ⟨hok, horder⟩ := of_decide_eq_true hsample
  obtain ⟨o, ho, horder⟩ := List.any_eq_true.mp horder
  obtain ⟨hid, hnew⟩ := of_decide_eq_true horder
  cases hrun : (unnamedFill 4).run samplePaperStore 0 db with
  | error e =>
    rw [hrun] at hok
    cases hok
  | ok r =>
    exact ⟨db, past, hplay, r, o, hrun, ho,
      fill_booked_iff_fresh hreachable hrun ho (by rw [hid]; rfl) hnew⟩

/-- The venue reports a second fill of the order without naming a trade: the order's remaining
quantity drops to two and nothing is booked. -/
theorem second_fill_dropped :
    ∃ db past, play samplePaperStore 0 (restingSample ++ [unnamedFill 4]) Db.initial [] =
        some (db, past) ∧ Reachable samplePaperStore db ∧
      ∃ r o, (unnamedFill 8).run samplePaperStore 0 db = .ok r ∧ o ∈ db.orders ∧
        (unnamedFill 8).reportedFill = some (o.id, 8) ∧ 8 - o.localFilled = 4 ∧
        r.db.orders.map OrderRecord.remainingQuantity = [2] ∧ r.db.trades = db.trades ∧
        r.db.positions = db.positions ∧ ¬ BookedOnce db r.db o (8 - o.localFilled) := by
  have hsample : ((play samplePaperStore 0 (restingSample ++ [unnamedFill 4]) Db.initial []).any
      fun reached => match (unnamedFill 8).run samplePaperStore 0 reached.1 with
        | .error _ => false
        | .ok r => decide (r.db.orders.map OrderRecord.remainingQuantity = [2] ∧
            r.db.trades = reached.1.trades ∧ r.db.positions = reached.1.positions) &&
          reached.1.orders.any fun o => o.id = 7 ∧ 8 - o.localFilled = 4) = true := by
    decide +kernel
  obtain ⟨db, past, hplay, hreachable, hsample⟩ := exists_of_play hsample
  dsimp only at hsample
  split at hsample
  · cases hsample
  · rename_i r hrun
    obtain ⟨htables, horder⟩ := (Bool.and_eq_true _ _).mp hsample
    obtain ⟨hremaining, htrades, hpositions⟩ := of_decide_eq_true htables
    obtain ⟨o, ho, horder⟩ := List.any_eq_true.mp horder
    obtain ⟨hid, hnew⟩ := of_decide_eq_true horder
    refine ⟨db, past, hplay, hreachable, r, o, hrun, ho, by rw [hid]; rfl, hnew, hremaining,
      htrades, hpositions, ?_⟩
    rintro ⟨⟨t, happended, -⟩, -, -⟩
    rw [htrades] at happended
    exact absurd (List.self_eq_append_right.mp happended) (List.cons_ne_nil _ _)

end OddsfoxExecution
