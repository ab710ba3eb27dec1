import OddsfoxExecution.TradeFinality

/-!
# The status of a trade of several components

A fill reported with several venue trades becomes one trade whose identifier
joins theirs.  Its status aggregates what is recorded of the components, but it
is recomputed only when an observation finds this trade first: a fill whose
components are recorded already enters as MATCHED, and of the trades that share
a component only the first follows it.
-/

namespace OddsfoxExecution

/-! ## Components -/

def componentStatuses (status : String → Option TradeState) (venueTradeId : String) :
    List TradeState :=
  (tradeComponentIds venueTradeId).filterMap status

def AllRecorded (status : String → Option TradeState) (venueTradeId : String) : Prop :=
  ∀ component ∈ tradeComponentIds venueTradeId, (status component).isSome = true

instance (status : String → Option TradeState) (venueTradeId : String) :
    Decidable (AllRecorded status venueTradeId) := by
  unfold AllRecorded
  infer_instance

/-- Once its components are all recorded, a trade has the status that aggregates theirs. -/
def TradeRecord.Aggregates (status : String → Option TradeState) (t : TradeRecord) : Prop :=
  AllRecorded status t.venueTradeId →
    t.status = aggregateTradeStatus (componentStatuses status t.venueTradeId)

instance (status : String → Option TradeState) (t : TradeRecord) :
    Decidable (t.Aggregates status) := by
  unfold TradeRecord.Aggregates
  infer_instance

/-- Every trade aggregates its components. -/
def Db.StatusesAggregate (db : Db) : Prop := ∀ t ∈ db.trades, t.Aggregates db.finalityStatus

theorem length_componentStatuses {status : String → Option TradeState} {venueTradeId : String} :
    (componentStatuses status venueTradeId).length = (tradeComponentIds venueTradeId).length ↔
      AllRecorded status venueTradeId :=
  List.filterMap_length_eq_length

/-- A component that is not the trade's does not change what it aggregates. -/
theorem aggregates_update {status : String → Option TradeState} {t : TradeRecord}
    {component : String} (hnot : component ∉ tradeComponentIds t.venueTradeId)
    (value : Option TradeState) :
    t.Aggregates (Function.update status component value) ↔ t.Aggregates status := by
  have hsame : ∀ c ∈ tradeComponentIds t.venueTradeId,
      Function.update status component value c = status c := by
    intro c hc
    refine Function.update_of_ne ?_ _ _
    rintro rfl
    exact hnot hc
  have hstatuses : componentStatuses (Function.update status component value) t.venueTradeId =
      componentStatuses status t.venueTradeId :=
    List.filterMap_congr hsame
  unfold TradeRecord.Aggregates AllRecorded
  rw [hstatuses]
  refine imp_congr_left (forall₂_congr fun c hc => ?_)
  rw [hsame c hc]

/-- The identifiers of a fill are the components of its trade, when none of them has a comma. -/
theorem tradeComponentIds_fillTradeId (order : OrderRecord) (venueOrderId : Option String)
    {venueTradeIds : List String} (hmany : 2 ≤ venueTradeIds.length)
    (hcomma : ∀ id ∈ venueTradeIds, ',' ∉ id.toList) :
    tradeComponentIds (fillTradeId order venueOrderId venueTradeIds) = venueTradeIds := by
  have hkey : fillTradeId order venueOrderId venueTradeIds =
      "submission:" ++ ",".intercalate venueTradeIds := by
    match venueTradeIds, hmany with
    | _ :: _ :: _, _ => rfl
  have hnone : venueTradeIds ≠ [] := by
    rintro rfl
    cases hmany
  have hchars : (fillTradeId order venueOrderId venueTradeIds).toList =
      "submission:".toList ++ [','].intercalate (venueTradeIds.map String.toList) := by
    rw [hkey, String.toList_append, String.toList_intercalate]
    rfl
  have hsplit : ([','].intercalate (venueTradeIds.map String.toList)).splitOn ',' =
      venueTradeIds.map String.toList := by
    refine List.splitOn_intercalate ',' (fun chars hchars => ?_) (by simpa using hnone)
    obtain ⟨id, hid, rfl⟩ := List.mem_map.mp hchars
    exact hcomma id hid
  unfold tradeComponentIds
  dsimp only
  rw [hchars, if_pos (List.isPrefixOf_iff_prefix.mpr (List.prefix_append _ _)),
    List.drop_left, hsplit, List.map_map]
  refine (List.map_congr_left fun id _ => ?_).trans (List.map_id _)
  exact String.ofList_toList

/-! ## Operations on trades -/

/-- What is done to the trades: a fill is booked, or a status is observed. -/
inductive TradeOp where
  | fill (order : OrderRecord) (venueOrderId : Option String) (filledQuantity : Decimal)
      (filledPrice : Option Decimal) (venueTradeIds : List String) (now : Time)
  | record (orderId : Uuid) (venueTradeId : String) (status : TradeState)

def TradeOp.after (op : TradeOp) (db : Db) : Db :=
  match op with
  | .fill order venueOrderId filledQuantity filledPrice venueTradeIds now =>
    (applyMatchedFill db order venueOrderId filledQuantity filledPrice venueTradeIds now).1
  | .record orderId venueTradeId status =>
    match recordVenueTradeFinality orderId venueTradeId status db with
    | .ok r => r.db
    | .error _ => db

def Db.observedTrade (db : Db) (orderId : Uuid) (venueTradeId : String) : Option TradeRecord :=
  ((db.trades.filter fun t => t.orderId = orderId).insertionSort fun a b => a.id ≤ b.id).find?
    fun t => venueTradeId ∈ tradeComponentIds t.venueTradeId

/-- What keeps the statuses: a new trade has a component without a status, or components that
aggregate to MATCHED; and where a status changes, each trade of the component but the one that is
found first has another component without a status, or has the status that results already. -/
def TradeOp.KeepsAggregates : TradeOp → Db → Prop
  | .fill order venueOrderId filledQuantity _ venueTradeIds _, db =>
    0 < filledQuantity →
    (∀ t ∈ db.trades, t.venueTradeId ≠ fillTradeId order venueOrderId venueTradeIds) →
    AllRecorded db.finalityStatus (fillTradeId order venueOrderId venueTradeIds) →
      aggregateTradeStatus (componentStatuses db.finalityStatus
        (fillTradeId order venueOrderId venueTradeIds)) = .matched
  | .record orderId venueTradeId status, db =>
    ∀ first, db.observedTrade orderId venueTradeId = some first →
      db.finalityStatus venueTradeId ≠ some status →
      ∀ t ∈ db.trades, t.id ≠ first.id → venueTradeId ∈ tradeComponentIds t.venueTradeId →
        t.Aggregates (Function.update db.finalityStatus venueTradeId (some status))

instance (op : TradeOp) (db : Db) : Decidable (op.KeepsAggregates db) :=
  match op with
  | .fill order venueOrderId filledQuantity _ venueTradeIds _ =>
    inferInstanceAs (Decidable (0 < filledQuantity →
      (∀ t ∈ db.trades, t.venueTradeId ≠ fillTradeId order venueOrderId venueTradeIds) →
      AllRecorded db.finalityStatus (fillTradeId order venueOrderId venueTradeIds) →
        aggregateTradeStatus (componentStatuses db.finalityStatus
          (fillTradeId order venueOrderId venueTradeIds)) = .matched))
  | .record orderId venueTradeId status =>
    inferInstanceAs (Decidable (∀ first ∈ db.observedTrade orderId venueTradeId,
      db.finalityStatus venueTradeId ≠ some status →
      ∀ t ∈ db.trades, t.id ≠ first.id → venueTradeId ∈ tradeComponentIds t.venueTradeId →
        t.Aggregates (Function.update db.finalityStatus venueTradeId (some status))))

def TradeOp.Fresh : TradeOp → Db → Prop
  | .fill .., db => ∀ t ∈ db.trades, t.id ≠ db.nextUuid
  | .record .., _ => True

instance (op : TradeOp) (db : Db) : Decidable (op.Fresh db) :=
  match op with
  | .fill .. => inferInstanceAs (Decidable (∀ t ∈ db.trades, t.id ≠ db.nextUuid))
  | .record .. => inferInstanceAs (Decidable True)

theorem Db.statusesAggregate_congr {db db' : Db} (htrades : db'.trades = db.trades)
    (hfinality : db'.finalityStatus = db.finalityStatus) :
    db'.StatusesAggregate ↔ db.StatusesAggregate := by
  unfold StatusesAggregate
  rw [htrades, hfinality]

theorem Db.finalityStatus_congr {db db' : Db}
    (h : db'.venueTradeFinality = db.venueTradeFinality) :
    db'.finalityStatus = db.finalityStatus := by
  funext venueTradeId
  rw [finalityStatus, h, finalityStatus]

/-- What `apply_matched_fill` does to the trades: it adds one under a key that is new. -/
theorem applyMatchedFill_trades {db : Db} {order : OrderRecord} {venueOrderId : Option String}
    {filled : Decimal} {price : Option Decimal} {ids : List String} {now : Time} :
    let db' := (applyMatchedFill db order venueOrderId filled price ids now).1
    db'.venueTradeFinality = db.venueTradeFinality ∧
      ((db'.trades = db.trades ∧ ¬ (0 < filled ∧
          ∀ t ∈ db.trades, t.venueTradeId ≠ fillTradeId order venueOrderId ids)) ∨
        (0 < filled ∧ (∀ t ∈ db.trades, t.venueTradeId ≠ fillTradeId order venueOrderId ids) ∧
          ∃ t, db'.trades = db.trades ++ [t] ∧ t.id = db.nextUuid ∧ t.status = .matched ∧
            t.venueTradeId = fillTradeId order venueOrderId ids)) := by
  dsimp only
  unfold applyMatchedFill
  split
  · rename_i hnone
    exact ⟨rfl, .inl ⟨rfl, fun hsome => hnone.not_gt hsome.1⟩⟩
  · rename_i hsome
    dsimp only
    split
    · rename_i htaken
      obtain ⟨t, ht, heq⟩ := Table.insertNew_eq_none.mp htaken
      exact ⟨rfl, .inl ⟨rfl, fun hfresh => hfresh.2 t ht heq⟩⟩
    · rename_i hinsert
      obtain ⟨hfresh, rfl⟩ := Table.insertNew_eq_some.mp hinsert
      exact ⟨rfl, .inr ⟨not_le.mp hsome, hfresh, _, rfl, rfl, rfl, rfl⟩⟩

theorem fill_keeps_iff {db : Db} (h : db.StatusesAggregate) (order : OrderRecord)
    (venueOrderId : Option String) (filled : Decimal) (price : Option Decimal) (ids : List String)
    (now : Time) :
    ((TradeOp.fill order venueOrderId filled price ids now).after db).StatusesAggregate ↔
      (TradeOp.fill order venueOrderId filled price ids now).KeepsAggregates db := by
  obtain ⟨hfinality, ⟨hsame, hnot⟩ | ⟨hfilled, hfresh, t, htrades, -, hstatus, hkey⟩⟩ :=
    @applyMatchedFill_trades db order venueOrderId filled price ids now
  · refine iff_of_true ((Db.statusesAggregate_congr hsame
      (Db.finalityStatus_congr hfinality)).mpr h) fun hfilled hfresh => ?_
    exact absurd ⟨hfilled, hfresh⟩ hnot
  · have hafter : ((TradeOp.fill order venueOrderId filled price ids now).after
        db).StatusesAggregate ↔ ∀ other ∈ db.trades ++ [t], other.Aggregates db.finalityStatus := by
      unfold Db.StatusesAggregate TradeOp.after
      dsimp only
      rw [htrades, Db.finalityStatus_congr hfinality]
    have hlast : t.Aggregates db.finalityStatus ↔
        (AllRecorded db.finalityStatus (fillTradeId order venueOrderId ids) →
          aggregateTradeStatus (componentStatuses db.finalityStatus
            (fillTradeId order venueOrderId ids)) = .matched) := by
      unfold TradeRecord.Aggregates
      rw [hkey, hstatus]
      exact imp_congr_right fun _ => eq_comm
    rw [hafter, List.forall_mem_append, List.forall_mem_singleton, hlast]
    exact ⟨fun hkeeps _ _ => hkeeps.2, fun hkeeps => ⟨h, hkeeps hfilled hfresh⟩⟩

/-- The status an observation leaves the trade it finds first in. -/
def TradeRecord.observe (t : TradeRecord) (status : String → Option TradeState) : TradeRecord :=
  { t with status :=
      if AllRecorded status t.venueTradeId then
        aggregateTradeStatus (componentStatuses status t.venueTradeId)
      else t.status }

theorem TradeRecord.observe_aggregates (t : TradeRecord) (status : String → Option TradeState) :
    (t.observe status).Aggregates status := by
  intro hall
  have hall : AllRecorded status t.venueTradeId := hall
  exact if_pos hall

theorem Db.finalityStatus_upsert (db : Db) (row : VenueTradeFinality) :
    ({ db with
        venueTradeFinality := Table.upsert VenueTradeFinality.venueTradeId row (fun _ => row)
          db.venueTradeFinality } : Db).finalityStatus =
      Function.update db.finalityStatus row.venueTradeId (some row.status) := by
  funext venueTradeId
  rw [Function.update_apply]
  simp only [finalityStatus]
  rw [Table.find?_upsert_row]
  split <;> rfl

/-- The update `record_venue_trade_finality` makes, only where the status changes. -/
theorem replace_observe {trades : List TradeRecord} (hids : (trades.map TradeRecord.id).Nodup)
    {first : TradeRecord} (hmem : first ∈ trades) (status : String → Option TradeState) :
    Table.replace TradeRecord.id (first.observe status) trades =
      if (if (componentStatuses status first.venueTradeId).length =
            (tradeComponentIds first.venueTradeId).length then
          aggregateTradeStatus (componentStatuses status first.venueTradeId)
        else first.status) ≠ first.status then
        Table.updateWhere (fun t : TradeRecord => t.id = first.id)
          (fun t => { t with status :=
            if (componentStatuses status first.venueTradeId).length =
                (tradeComponentIds first.venueTradeId).length then
              aggregateTradeStatus (componentStatuses status first.venueTradeId)
            else first.status }) trades
      else trades := by
  simp only [length_componentStatuses]
  by_cases hsame : (first.observe status).status = first.status
  · have hfirst : first.observe status = first := by
      change { first with status := (first.observe status).status } = first
      rw [hsame]
    rw [hfirst, Table.replace_self hids hmem]
    exact (if_neg (not_not.mpr hsame)).symm
  · refine Eq.trans ?_ (if_pos hsame).symm
    exact (Table.updateWhere_eq_replace (p := fun t : TradeRecord => t.id = first.id)
      (f := fun t => { t with status := (first.observe status).status }) hids hmem rfl
      (fun _ _ heq => heq) rfl).symm

/-- What `record_venue_trade_finality` does: nothing where no trade has the component or its status
is the same, else it records the status and the trade it finds first observes it. -/
theorem record_after {db : Db} (hids : (db.trades.map TradeRecord.id).Nodup) (orderId : Uuid)
    (venueTradeId : String) (status : TradeState) :
    ((∀ first, db.observedTrade orderId venueTradeId = some first →
        db.finalityStatus venueTradeId = some status) ∧
      (TradeOp.record orderId venueTradeId status).after db = db) ∨
    ∃ first, db.observedTrade orderId venueTradeId = some first ∧
      db.finalityStatus venueTradeId ≠ some status ∧
      ((TradeOp.record orderId venueTradeId status).after db).finalityStatus =
        Function.update db.finalityStatus venueTradeId (some status) ∧
      ((TradeOp.record orderId venueTradeId status).after db).trades =
        Table.replace TradeRecord.id (first.observe
          (Function.update db.finalityStatus venueTradeId (some status))) db.trades := by
  cases hfirst : db.observedTrade orderId venueTradeId with
  | none =>
    refine .inl ⟨fun first hsome => (nomatch hsome), ?_⟩
    unfold Db.observedTrade at hfirst
    simp only [TradeOp.after, recordVenueTradeFinality, hfirst]
  | some first =>
    have hmem : first ∈ db.trades := by
      have hlisted := List.mem_of_find?_eq_some hfirst
      rw [List.mem_insertionSort] at hlisted
      exact (List.mem_filter.mp hlisted).1
    unfold Db.observedTrade at hfirst
    by_cases hsame : db.finalityStatus venueTradeId = some status
    · refine .inl ⟨fun _ _ => hsame, ?_⟩
      simp only [TradeOp.after, recordVenueTradeFinality, hfirst, if_pos hsame]
    · refine .inr ⟨first, rfl, hsame, ?_⟩
      have hstatus := db.finalityStatus_upsert ⟨venueTradeId, first.id, status⟩
      have hobserved := replace_observe hids hmem
        (Function.update db.finalityStatus venueTradeId (some status))
      simp only [TradeOp.after, recordVenueTradeFinality, hfirst, if_neg hsame]
      refine ⟨hstatus, ?_⟩
      rw [hobserved]
      simp only [Db.appendEvent, hstatus]
      rfl

theorem record_keeps_iff {db : Db} (h : db.StatusesAggregate)
    (hids : (db.trades.map TradeRecord.id).Nodup) (orderId : Uuid) (venueTradeId : String)
    (status : TradeState) :
    ((TradeOp.record orderId venueTradeId status).after db).StatusesAggregate ↔
      (TradeOp.record orderId venueTradeId status).KeepsAggregates db := by
  rcases record_after hids orderId venueTradeId status with
    ⟨hsame, hafter⟩ | ⟨first, hfirst, hchanged, hstatus, htrades⟩
  · rw [hafter]
    exact iff_of_true h fun first hfirst hne => absurd (hsame first hfirst) hne
  · have hmem : first ∈ db.trades := by
      have hlisted := List.mem_of_find?_eq_some hfirst
      rw [List.mem_insertionSort] at hlisted
      exact (List.mem_filter.mp hlisted).1
    unfold Db.StatusesAggregate
    rw [hstatus, htrades]
    constructor
    · intro hall first' hfirst' _ t ht hne _
      obtain rfl : first = first' := Option.some.inj (hfirst.symm.trans hfirst')
      exact hall t (Table.mem_replace.mpr (.inl ⟨ht, hne⟩))
    · intro hkeeps t ht
      rcases Table.mem_replace.mp ht with ⟨ht, hne⟩ | ⟨rfl, -⟩
      · by_cases hcomponent : venueTradeId ∈ tradeComponentIds t.venueTradeId
        · exact hkeeps first hfirst hchanged t ht hne hcomponent
        · exact (aggregates_update hcomponent _).mpr (h t ht)
      · exact first.observe_aggregates _

/-! ## Runs -/

/-- The databases that fills and observations lead to, each with the operations before it and the
database each was run in.  Anything that leaves the trades and the recorded statuses alone may come
between them. -/
inductive TradeRun : Db → List (TradeOp × Db) → Prop
  | empty {db : Db} (htrades : db.trades = []) (hfinality : db.venueTradeFinality = []) :
      TradeRun db []
  | step {db : Db} {past : List (TradeOp × Db)} (op : TradeOp) (hrun : TradeRun db past)
      (hfresh : op.Fresh db) : TradeRun (op.after db) ((op, db) :: past)
  | other {db db' : Db} {past : List (TradeOp × Db)} (hrun : TradeRun db past)
      (htrades : db'.trades = db.trades)
      (hfinality : db'.venueTradeFinality = db.venueTradeFinality) : TradeRun db' past

theorem TradeOp.after_ids {op : TradeOp} {db : Db} (hids : (db.trades.map TradeRecord.id).Nodup)
    (hfresh : op.Fresh db) : ((op.after db).trades.map TradeRecord.id).Nodup := by
  cases op with
  | fill order venueOrderId filled price ids now =>
    obtain ⟨-, ⟨hsame, -⟩ | ⟨-, -, t, htrades, hid, -, -⟩⟩ :=
      @applyMatchedFill_trades db order venueOrderId filled price ids now
    · unfold TradeOp.after
      dsimp only
      rwa [hsame]
    · unfold TradeOp.after
      dsimp only
      rw [htrades]
      exact Table.nodup_append_row hids fun other hother => hid ▸ hfresh other hother
  | record orderId venueTradeId status =>
    rcases record_after hids orderId venueTradeId status with
      ⟨-, hsame⟩ | ⟨first, -, -, -, htrades⟩
    · rwa [hsame]
    · rw [htrades, Table.map_key_replace]
      exact hids

theorem TradeOp.keeps_iff {op : TradeOp} {db : Db} (h : db.StatusesAggregate)
    (hids : (db.trades.map TradeRecord.id).Nodup) :
    (op.after db).StatusesAggregate ↔ op.KeepsAggregates db := by
  cases op with
  | fill order venueOrderId filled price ids now =>
    exact fill_keeps_iff h order venueOrderId filled price ids now
  | record orderId venueTradeId status => exact record_keeps_iff h hids orderId venueTradeId status

theorem TradeRun.ids {db : Db} {past : List (TradeOp × Db)} (h : TradeRun db past) :
    (db.trades.map TradeRecord.id).Nodup := by
  induction h with
  | empty htrades _ => simp [htrades]
  | step op _ hfresh ih => exact TradeOp.after_ids ih hfresh
  | other _ htrades _ ih => rwa [htrades]

/-- Over every run of fills and observations, every trade has in every database of the run the
status that aggregates its components, once they are all recorded, if and only if every operation
of the run met the condition in the database it was run in; and the components of a fill reported
with several identifiers without a comma are these. -/
theorem trade_status_aggregates {db : Db} {past : List (TradeOp × Db)} (h : TradeRun db past) :
    ((db.StatusesAggregate ∧ ∀ entry ∈ past, entry.2.StatusesAggregate) ↔
      ∀ entry ∈ past, entry.1.KeepsAggregates entry.2) ∧
    ∀ order venueOrderId (venueTradeIds : List String), 2 ≤ venueTradeIds.length →
      (∀ id ∈ venueTradeIds, ',' ∉ id.toList) →
      tradeComponentIds (fillTradeId order venueOrderId venueTradeIds) = venueTradeIds := by
  refine ⟨?_, fun order venueOrderId _ => tradeComponentIds_fillTradeId order venueOrderId⟩
  induction h with
  | empty htrades _ => simp [Db.StatusesAggregate, htrades]
  | @step db past op hrun _ ih =>
    rw [List.forall_mem_cons, List.forall_mem_cons, ← ih]
    constructor
    · rintro ⟨hafter, hnow, hpast⟩
      exact ⟨(TradeOp.keeps_iff hnow hrun.ids).mp hafter, hnow, hpast⟩
    · rintro ⟨hkeeps, hnow, hpast⟩
      exact ⟨(TradeOp.keeps_iff hnow hrun.ids).mpr hkeeps, hnow, hpast⟩
  | other _ htrades hfinality ih =>
    rw [Db.statusesAggregate_congr htrades (Db.finalityStatus_congr hfinality)]
    exact ih

def sampleOrder : OrderRecord where
  id := 7
  intentId := 3
  venueOrderId := some "first"
  conditionId := "condition"
  tokenId := "7"
  side := .buy
  timeInForce := .gtc
  price := 1 / 2
  feeRate := 0
  quoteExposure := 5
  originalQuantity := 10
  remainingQuantity := 10
  state := .live
  createdAt := 0

/-- The operations one after another, from a database with this past. -/
def playTrades : List TradeOp → Db → List (TradeOp × Db) → Option (Db × List (TradeOp × Db))
  | [], db, past => some (db, past)
  | op :: ops, db, past =>
    if op.Fresh db then playTrades ops (op.after db) ((op, db) :: past) else none

theorem TradeRun.playTrades {ops : List TradeOp} {db db' : Db} {past past' : List (TradeOp × Db)}
    (h : TradeRun db past)
    (hplay : OddsfoxExecution.playTrades ops db past = some (db', past')) :
    TradeRun db' past' := by
  induction ops generalizing db past with
  | nil =>
    cases hplay
    exact h
  | cons op ops ih =>
    simp only [OddsfoxExecution.playTrades] at hplay
    split at hplay
    · exact ih (.step op h ‹_›) hplay
    · cases hplay

/-- Two fills that share two venue trades, whose third is observed last. -/
def sharedTrades : List TradeOp :=
  [.fill sampleOrder (some "first") 4 (some (1 / 2)) ["a", "b"] 0,
    .fill sampleOrder (some "first") 6 (some (1 / 2)) ["a", "b", "c"] 0,
    .record 7 "a" .mined, .record 7 "b" .confirmed, .record 7 "a" .confirmed,
    .record 7 "c" .confirmed]

/-- Both trades have the status of their components all along, and are CONFIRMED at last. -/
theorem trade_status_aggregates_sample :
    ∃ db past, playTrades sharedTrades Db.initial [] = some (db, past) ∧
      db.trades.map TradeRecord.venueTradeId = ["submission:a,b", "submission:a,b,c"] ∧
      db.trades.map TradeRecord.status = [.confirmed, .confirmed] ∧
      db.StatusesAggregate ∧ ∀ entry ∈ past, entry.2.StatusesAggregate := by
  have hsample : (playTrades sharedTrades Db.initial []).any (fun reached =>
      decide (reached.1.trades.map TradeRecord.venueTradeId =
        ["submission:a,b", "submission:a,b,c"]) &&
      decide (reached.1.trades.map TradeRecord.status = [.confirmed, .confirmed]) &&
        decide (∀ entry ∈ reached.2, entry.1.KeepsAggregates entry.2)) = true := by
    decide +kernel
  obtain ⟨⟨db, past⟩, hplay, hcheck⟩ := (Option.any_eq_true _ _).mp hsample
  simp only [Bool.and_eq_true, decide_eq_true_eq] at hcheck
  obtain ⟨⟨hnames, hstatuses⟩, hkeeps⟩ := hcheck
  have hrun := (TradeRun.empty rfl rfl).playTrades hplay
  exact ⟨db, past, hplay, hnames, hstatuses, (trade_status_aggregates hrun).1.mpr hkeeps⟩

/-- The operations after which the first order of a READY service has a trade of two venue trades
and one of these and a third, all of them confirmed at last. -/
def sharedSample : List StoreCall :=
  readySample ++ prepareSample "first" 3 ++
    [.beginSubmission 3 7,
      .finishSubmission 3 7 .submitted .partiallyFilled (some "first") "VENUE_RESPONSE" 4
        (some (1 / 2)) ["a", "b"],
      .reconcileOrderProjection 7 .filled 0 10 (some (1 / 2)) ["a", "b", "c"],
      .recordVenueTradeFinality 7 "a" .mined, .recordVenueTradeFinality 7 "b" .mined,
      .recordVenueTradeFinality 7 "c" .confirmed, .recordVenueTradeFinality 7 "a" .confirmed,
      .recordVenueTradeFinality 7 "b" .confirmed]

/-- The second trade stays MINED when all of its components are CONFIRMED. -/
theorem trade_status_left_behind :
    ∃ db, Reachable sampleLiveStore db ∧ ∃ t ∈ db.trades,
      AllRecorded db.finalityStatus t.venueTradeId ∧ t.status = .mined ∧
        aggregateTradeStatus (componentStatuses db.finalityStatus t.venueTradeId) = .confirmed := by
  have hsample : ((play sampleLiveStore 0 sharedSample Db.initial []).any fun reached =>
      reached.1.trades.any fun t => AllRecorded reached.1.finalityStatus t.venueTradeId ∧
        t.status = .mined ∧ aggregateTradeStatus
          (componentStatuses reached.1.finalityStatus t.venueTradeId) = .confirmed) = true := by
    decide +kernel
  obtain ⟨db, past, -, hreachable, hsample⟩ := exists_of_play hsample
  obtain ⟨t, ht, hleft⟩ := List.any_eq_true.mp hsample
  exact ⟨db, hreachable, t, ht, of_decide_eq_true hleft⟩

end OddsfoxExecution
