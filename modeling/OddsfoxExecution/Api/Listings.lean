import OddsfoxExecution.Api.Mutations
import OddsfoxExecution.Library.Keyset
import Mathlib.Data.Prod.Lex
import Mathlib.Logic.Equiv.Nat

/-!
# The paginated listings

`list_intents`, `list_orders` and `list_trades` of `src/api.rs` over the
`list_*_page` queries of `src/store.rs`.  A stored timestamp compares as the time
it stands for; the text of a cursor is left to its codec.
-/

namespace OddsfoxExecution

structure ResourceCursor where
  createdAt : Time
  id : Uuid
deriving DecidableEq

namespace ResourceCursor

/-- `created_at > … OR (created_at = … AND id > …)`. -/
def precedes (c other : ResourceCursor) : Bool :=
  c.createdAt < other.createdAt || (c.createdAt = other.createdAt && c.id < other.id)

/-- `ORDER BY created_at, id`. -/
def sortsBefore (c other : ResourceCursor) : Prop :=
  c.createdAt < other.createdAt ∨ c.createdAt = other.createdAt ∧ c.id ≤ other.id

instance : DecidableRel sortsBefore := fun c other =>
  inferInstanceAs (Decidable (c.createdAt < other.createdAt ∨ _))

/-- Creation time first, then the id. -/
instance : LinearOrder ResourceCursor :=
  LinearOrder.lift' (fun c => toLex (c.createdAt, c.id)) fun a b h => by
    obtain ⟨hcreated, hid⟩ := Prod.mk.inj (toLex.injective h)
    cases a
    cases b
    simp_all

theorem precedes_iff {c other : ResourceCursor} : c.precedes other = true ↔ c < other := by
  change _ ↔ toLex (c.createdAt, c.id) < toLex (other.createdAt, other.id)
  simp [precedes, Prod.Lex.toLex_lt_toLex]

theorem sortsBefore_iff {c other : ResourceCursor} : c.sortsBefore other ↔ c ≤ other := by
  change _ ↔ toLex (c.createdAt, c.id) ≤ toLex (other.createdAt, other.id)
  simp [sortsBefore, Prod.Lex.toLex_le_toLex]

end ResourceCursor

/-! ## The queries -/

/-- The rows of one page and one more, `LIMIT limit + 1`, of what a `WHERE` clause selects. -/
def selectPage {α : Type} (columns : α → ResourceCursor) (limit : Nat)
    (cursor : Option ResourceCursor) (rows : List α) : List α :=
  let limit := max 1 (min limit 500)
  ((rows.filter fun row => cursor.all fun c => c.precedes (columns row)).insertionSort
    fun a b => (columns a).sortsBefore (columns b)).take (limit + 1)

def IntentRecord.cursor (r : IntentRecord) : ResourceCursor := ⟨r.createdAt, r.id⟩

def OrderRecord.cursor (r : OrderRecord) : ResourceCursor := ⟨r.createdAt, r.id⟩

def TradeRecord.cursor (r : TradeRecord) : ResourceCursor := ⟨r.createdAt, r.id⟩

namespace Db

def listIntentsPage (db : Db) (limit : Nat) (state : Option IntentState)
    (conditionId : Option String) (createdAfter : Option Time) (cursor : Option ResourceCursor) :
    List IntentRecord :=
  selectPage IntentRecord.cursor limit cursor <| db.intents.filter fun i =>
    state.all (fun state => i.state = state) &&
      conditionId.all (fun conditionId => i.request.conditionId = conditionId) &&
      createdAfter.all (fun createdAfter => createdAfter ≤ i.createdAt)

def listOrdersPage (db : Db) (limit : Nat) (state : Option OrderState)
    (conditionId tokenId : Option String) (cursor : Option ResourceCursor) : List OrderRecord :=
  selectPage OrderRecord.cursor limit cursor <| db.orders.filter fun o =>
    state.all (fun state => o.state = state) &&
      conditionId.all (fun conditionId => o.conditionId = conditionId) &&
      tokenId.all (fun tokenId => o.tokenId = tokenId)

/-- `trades JOIN orders ON orders.id = trades.order_id`. -/
def tradesJoinOrders (db : Db) : List (TradeRecord × OrderRecord) :=
  db.trades.flatMap fun t =>
    (db.orders.filter fun o => o.id = t.orderId).map fun o => (t, o)

def listTradesPage (db : Db) (limit : Nat) (status : Option TradeState)
    (conditionId tokenId : Option String) (cursor : Option ResourceCursor) : List TradeRecord :=
  selectPage TradeRecord.cursor limit cursor <| (db.tradesJoinOrders.filter fun (t, o) =>
    status.all (fun status => t.status = status) &&
      conditionId.all (fun conditionId => o.conditionId = conditionId) &&
      tokenId.all (fun tokenId => o.tokenId = tokenId)).map Prod.fst

end Db

/-! ## The handlers -/

/-- Base64 over the JSON of a cursor. -/
structure CursorCodec where
  encode : ResourceCursor → String
  decode : String → Option ResourceCursor

def decodeCursor (codec : CursorCodec) (raw : Option String) :
    Except ApiError (Option ResourceCursor) :=
  match raw with
  | none => .ok none
  | some raw =>
    match codec.decode raw with
    | none =>
      .error ⟨400, "PAGINATION_CURSOR_INVALID", "pagination cursor is invalid", false, none⟩
    | some cursor => .ok (some cursor)

/-- A limit that `validate_limit` let pass. -/
structure PageLimit where
  value : Nat
  positive : 1 ≤ value
  bounded : value ≤ 500

def validateLimit (limit : Nat) : Except ApiError PageLimit :=
  if h : 1 ≤ limit ∧ limit ≤ 500 then .ok ⟨limit, h.1, h.2⟩
  else .error ⟨400, "PAGINATION_LIMIT_INVALID", "pagination limit must be between 1 and 500",
    false, none⟩

structure ListPage (α : Type) where
  items : List α
  nextCursor : Option String
deriving DecidableEq

theorem take_ne_nil {α : Type} {items : List α} {limit : PageLimit}
    (h : limit.value < items.length) : items.take limit.value ≠ [] := by
  have hpositive := limit.positive
  intro hnil
  have hlength := congrArg List.length hnil
  rw [List.length_take, List.length_nil] at hlength
  omega

/-- `page`: a limit fits a `usize`, and a page with more rows is never empty, so that its last row
is there. -/
def page {α : Type} (codec : CursorCodec) (items : List α) (limit : PageLimit)
    (cursorFor : α → ResourceCursor) : ListPage α :=
  { items := items.take limit.value
    nextCursor :=
      if hasMore : limit.value < items.length then
        some (codec.encode (cursorFor ((items.take limit.value).getLast (take_ne_nil hasMore))))
      else none }

/-- What the three handlers do with their query. -/
def listPage {α : Type} (codec : CursorCodec) (limit : Nat) (cursor : Option String)
    (rows : Nat → Option ResourceCursor → List α) (cursorFor : α → ResourceCursor) :
    Except ApiError (ListPage α) := do
  let limit ← validateLimit limit
  let cursor ← decodeCursor codec cursor
  pure (page codec (rows limit.value cursor) limit cursorFor)

structure IntentListQuery where
  limit : Nat := 100
  state : Option IntentState := none
  conditionId : Option String := none
  createdAfter : Option Time := none
  cursor : Option String := none

structure OrderListQuery where
  limit : Nat := 100
  state : Option OrderState := none
  conditionId : Option String := none
  tokenId : Option String := none
  cursor : Option String := none

structure TradeListQuery where
  limit : Nat := 100
  status : Option TradeState := none
  conditionId : Option String := none
  tokenId : Option String := none
  cursor : Option String := none

def listIntents (codec : CursorCodec) (db : Db) (query : IntentListQuery) :
    Except ApiError (ListPage IntentRecord) :=
  listPage codec query.limit query.cursor
    (fun limit cursor =>
      db.listIntentsPage limit query.state query.conditionId query.createdAfter cursor)
    IntentRecord.cursor

def listOrders (codec : CursorCodec) (db : Db) (query : OrderListQuery) :
    Except ApiError (ListPage OrderRecord) :=
  listPage codec query.limit query.cursor
    (fun limit cursor => db.listOrdersPage limit query.state query.conditionId query.tokenId cursor)
    OrderRecord.cursor

def listTrades (codec : CursorCodec) (db : Db) (query : TradeListQuery) :
    Except ApiError (ListPage TradeRecord) :=
  listPage codec query.limit query.cursor
    (fun limit cursor =>
      db.listTradesPage limit query.status query.conditionId query.tokenId cursor)
    TradeRecord.cursor

/-! ## Walking the pages -/

section Walk

variable {α : Type} {codec : CursorCodec} {columns : α → ResourceCursor} {rows : List α}

/-- The answers to a client: the items and the cursor it may follow. -/
def answers (handler : Option String → Except ApiError (ListPage α)) (cursor : Option String) :
    Option (List α × Option String) :=
  (handler cursor).toOption.map fun page => (page.items, page.nextCursor)

/-- The pages a client gets that asks for the first one and follows `next_cursor`. -/
def followPages (handler : Option String → Except ApiError (ListPage α)) (requests : Nat) :
    Option (List (List α)) := Keyset.follow (answers handler) requests none

theorem insertionSort_columns (rows : List α) :
    (rows.insertionSort fun a b => (columns a).sortsBefore (columns b)) =
      Keyset.ordered columns rows := by
  unfold Keyset.ordered
  have hrelation : (fun a b => (columns a).sortsBefore (columns b)) =
      fun a b => columns a ≤ columns b := by
    funext a b
    exact propext ResourceCursor.sortsBefore_iff
  simp only [hrelation]

theorem selectPage_eq (hnodup : (rows.map columns).Nodup) {limit : Nat} (hpositive : 1 ≤ limit)
    (hbounded : limit ≤ 500) (cursor : Option ResourceCursor) :
    selectPage columns limit cursor rows =
      (Keyset.past columns cursor (Keyset.ordered columns rows)).take (limit + 1) := by
  have hclamp : max 1 (min limit 500) = limit := by omega
  have hpast : (fun row => cursor.all fun c => c.precedes (columns row)) =
      fun row => cursor.all fun c => decide (c < columns row) := by
    funext row
    cases cursor with
    | none => rfl
    | some c =>
      rw [Option.all_some, Option.all_some, Bool.eq_iff_iff, decide_eq_true_eq]
      exact ResourceCursor.precedes_iff
  unfold selectPage
  simp only [hclamp]
  rw [insertionSort_columns, hpast, Keyset.ordered_filter hnodup]
  rfl

theorem listPage_serves (hcodec : ∀ c, codec.decode (codec.encode c) = some c)
    (hnodup : (rows.map columns).Nodup) {limit : Nat} (hpositive : 1 ≤ limit)
    (hbounded : limit ≤ 500) :
    Keyset.Serves columns
      (answers fun cursor => listPage codec limit cursor
        (fun limit cursor => selectPage columns limit cursor rows) columns)
      codec.encode limit (Keyset.ordered columns rows) := by
  intro cursor
  have hlimit : validateLimit limit = .ok ⟨limit, hpositive, hbounded⟩ :=
    dif_pos ⟨hpositive, hbounded⟩
  have hcursor : decodeCursor codec (cursor.map codec.encode) = .ok cursor := by
    cases cursor with
    | none => rfl
    | some c => simp [decodeCursor, hcodec]
  set rest := Keyset.past columns cursor (Keyset.ordered columns rows) with hrest
  have hrows : selectPage columns limit cursor rows = rest.take (limit + 1) :=
    selectPage_eq hnodup hpositive hbounded cursor
  have hpage : listPage codec limit (cursor.map codec.encode)
      (fun limit cursor => selectPage columns limit cursor rows) columns =
        .ok (page codec (rest.take (limit + 1)) ⟨limit, hpositive, hbounded⟩ columns) := by
    unfold listPage
    rw [hlimit, hcursor]
    change Except.ok (page codec (selectPage columns limit cursor rows) _ columns) = _
    rw [hrows]
  have hitems : (rest.take (limit + 1)).take limit = rest.take limit := by
    rw [List.take_take]
    congr 1
    omega
  have hmore : limit < (rest.take (limit + 1)).length ↔ limit < rest.length := by
    rw [List.length_take]
    omega
  rw [answers, hpage]
  simp only [Except.toOption, Option.map_some, page, hitems, hmore]
  congr 2
  by_cases h : limit < rest.length
  · have hnil : rest.take limit ≠ [] := @take_ne_nil _ _ ⟨limit, hpositive, hbounded⟩ h
    rw [dif_pos h, if_pos h, List.getLast?_eq_getLast_of_ne_nil hnil]
    rfl
  · rw [dif_neg h, if_neg h]

/-- The pages hold the matching rows, each one once, by creation time and id, and every page but
the last is full. -/
structure Enumerates (columns : α → ResourceCursor) (limit : Nat) (matching : List α)
    (pages : List (List α)) : Prop where
  rows : pages.flatten.Perm matching
  ascending : pages.flatten.Pairwise fun a b => (columns a).precedes (columns b)
  full : ∀ page ∈ pages.dropLast, page.length = limit

theorem listPage_enumerates (hcodec : ∀ c, codec.decode (codec.encode c) = some c)
    (hnodup : (rows.map columns).Nodup) {limit : Nat} (hpositive : 1 ≤ limit)
    (hbounded : limit ≤ 500) :
    ∃ pages, followPages (fun cursor => listPage codec limit cursor
        (fun limit cursor => selectPage columns limit cursor rows) columns)
          (rows.length + 1) = some pages ∧ Enumerates columns limit rows pages := by
  have hascending := Keyset.ascending_ordered hnodup
  have hperm : (Keyset.ordered columns rows).Perm rows := Keyset.ordered_perm rows
  obtain ⟨pages, hpages, hpaginates⟩ :=
    (listPage_serves hcodec hnodup hpositive hbounded).follow_all hascending hpositive
  rw [hperm.length_eq] at hpages
  refine ⟨pages, hpages, ?_, ?_, hpaginates.full⟩
  · rw [hpaginates.flatten]
    exact hperm
  · rw [hpaginates.flatten]
    exact hascending.imp fun h => ResourceCursor.precedes_iff.mpr h

end Walk

/-! ## The three endpoints -/

def IntentListQuery.Matches (query : IntentListQuery) (i : IntentRecord) : Prop :=
  (query.state = none ∨ query.state = some i.state) ∧
    (query.conditionId = none ∨ query.conditionId = some i.request.conditionId) ∧
    ∀ createdAfter ∈ query.createdAfter, createdAfter ≤ i.createdAt

def OrderListQuery.Matches (query : OrderListQuery) (o : OrderRecord) : Prop :=
  (query.state = none ∨ query.state = some o.state) ∧
    (query.conditionId = none ∨ query.conditionId = some o.conditionId) ∧
    (query.tokenId = none ∨ query.tokenId = some o.tokenId)

def TradeListQuery.Matches (query : TradeListQuery) (db : Db) (t : TradeRecord) : Prop :=
  (query.status = none ∨ query.status = some t.status) ∧
    ∃ o ∈ db.orders, o.id = t.orderId ∧
      (query.conditionId = none ∨ query.conditionId = some o.conditionId) ∧
      (query.tokenId = none ∨ query.tokenId = some o.tokenId)

instance (query : IntentListQuery) : DecidablePred query.Matches := fun _ =>
  inferInstanceAs (Decidable (_ ∧ _ ∧ ∀ createdAfter ∈ query.createdAfter, _))

instance (query : OrderListQuery) : DecidablePred query.Matches := fun _ =>
  inferInstanceAs (Decidable (_ ∧ _ ∧ _))

instance (query : TradeListQuery) (db : Db) : DecidablePred (query.Matches db) := fun _ =>
  inferInstanceAs (Decidable (_ ∧ ∃ o ∈ db.orders, _))

theorem all_eq_iff {β : Type} [DecidableEq β] {filter : Option β} {value : β} :
    (filter.all fun wanted => decide (value = wanted)) = true ↔
      filter = none ∨ filter = some value := by
  cases filter with
  | none => simp
  | some wanted => simp [eq_comm]

section Endpoints

variable {db : Db}

theorem intents_matching (query : IntentListQuery) :
    (db.intents.filter fun i =>
      query.state.all (fun state => i.state = state) &&
        query.conditionId.all (fun conditionId => i.request.conditionId = conditionId) &&
        query.createdAfter.all (fun createdAfter => createdAfter ≤ i.createdAt)) =
      db.intents.filter fun i => query.Matches i := by
  apply List.filter_congr
  intro i _
  rw [Bool.eq_iff_iff, Bool.and_eq_true, Bool.and_eq_true, all_eq_iff, all_eq_iff, and_assoc]
  simp [IntentListQuery.Matches, Option.all_eq_true]

theorem orders_matching (query : OrderListQuery) :
    (db.orders.filter fun o =>
      query.state.all (fun state => o.state = state) &&
        query.conditionId.all (fun conditionId => o.conditionId = conditionId) &&
        query.tokenId.all (fun tokenId => o.tokenId = tokenId)) =
      db.orders.filter fun o => query.Matches o := by
  apply List.filter_congr
  intro o _
  rw [Bool.eq_iff_iff, Bool.and_eq_true, Bool.and_eq_true, all_eq_iff, all_eq_iff, all_eq_iff,
    and_assoc, decide_eq_true_eq]
  exact Iff.rfl

/-- Each trade meets its one order in the join. -/
theorem trades_matching (horders : (db.orders.map OrderRecord.id).Nodup)
    (query : TradeListQuery) :
    ((db.tradesJoinOrders.filter fun (t, o) =>
      query.status.all (fun status => t.status = status) &&
        query.conditionId.all (fun conditionId => o.conditionId = conditionId) &&
        query.tokenId.all (fun tokenId => o.tokenId = tokenId)).map Prod.fst) =
      db.trades.filter fun t => query.Matches db t := by
  rw [Db.tradesJoinOrders, Table.filter_join horders TradeRecord.orderId fun t o =>
    query.status.all (fun status => t.status = status) &&
      query.conditionId.all (fun conditionId => o.conditionId = conditionId) &&
      query.tokenId.all (fun tokenId => o.tokenId = tokenId)]
  apply List.filter_congr
  intro t _
  rw [Bool.eq_iff_iff, List.any_eq_true, decide_eq_true_eq]
  simp only [Bool.and_eq_true, decide_eq_true_eq, all_eq_iff, TradeListQuery.Matches]
  constructor
  · rintro ⟨o, ho, hid, ⟨hstatus, hcondition⟩, htoken⟩
    exact ⟨hstatus, o, ho, hid, hcondition, htoken⟩
  · rintro ⟨hstatus, o, ho, hid, hcondition, htoken⟩
    exact ⟨o, ho, hid, ⟨hstatus, hcondition⟩, htoken⟩

theorem nodup_cursors {α : Type} {rows : List α} {columns : α → ResourceCursor} {id : α → Uuid}
    (hid : ∀ row, (columns row).id = id row) (hnodup : (rows.map id).Nodup) (p : α → Bool) :
    ((rows.filter p).map columns).Nodup := by
  have hsub : (((rows.filter p).map columns).map ResourceCursor.id).Nodup := by
    rw [List.map_map]
    have hcolumn : ResourceCursor.id ∘ columns = id := funext hid
    rw [hcolumn]
    exact hnodup.sublist (List.filter_sublist.map id)
  exact hsub.of_map _

/-- Following `next_cursor` through any of the three listings ends and enumerates exactly the
matching rows, each once, by creation time and id, in pages of which all but the last are full. -/
theorem listings_enumerate (codec : CursorCodec)
    (hcodec : ∀ c, codec.decode (codec.encode c) = some c) (db : Db)
    (hintents : (db.intents.map IntentRecord.id).Nodup)
    (horders : (db.orders.map OrderRecord.id).Nodup)
    (htrades : (db.trades.map TradeRecord.id).Nodup) :
    (∀ query : IntentListQuery, 1 ≤ query.limit → query.limit ≤ 500 →
      ∃ requests pages,
        followPages (fun cursor => listIntents codec db { query with cursor }) requests =
          some pages ∧
        Enumerates IntentRecord.cursor query.limit
          (db.intents.filter fun i => query.Matches i) pages) ∧
    (∀ query : OrderListQuery, 1 ≤ query.limit → query.limit ≤ 500 →
      ∃ requests pages,
        followPages (fun cursor => listOrders codec db { query with cursor }) requests =
          some pages ∧
        Enumerates OrderRecord.cursor query.limit
          (db.orders.filter fun o => query.Matches o) pages) ∧
    (∀ query : TradeListQuery, 1 ≤ query.limit → query.limit ≤ 500 →
      ∃ requests pages,
        followPages (fun cursor => listTrades codec db { query with cursor }) requests =
          some pages ∧
        Enumerates TradeRecord.cursor query.limit
          (db.trades.filter fun t => query.Matches db t) pages) := by
  refine ⟨fun query hpositive hbounded => ?_, fun query hpositive hbounded => ?_,
    fun query hpositive hbounded => ?_⟩
  · have hhandler : (fun cursor => listIntents codec db { query with cursor }) = fun cursor =>
        listPage codec query.limit cursor (fun limit cursor => selectPage IntentRecord.cursor limit
          cursor (db.intents.filter fun i => query.Matches i)) IntentRecord.cursor := by
      simp only [listIntents, Db.listIntentsPage, intents_matching query]
    rw [hhandler]
    exact ⟨_, listPage_enumerates hcodec (nodup_cursors (fun _ => rfl) hintents _) hpositive
      hbounded⟩
  · have hhandler : (fun cursor => listOrders codec db { query with cursor }) = fun cursor =>
        listPage codec query.limit cursor (fun limit cursor => selectPage OrderRecord.cursor limit
          cursor (db.orders.filter fun o => query.Matches o)) OrderRecord.cursor := by
      simp only [listOrders, Db.listOrdersPage, orders_matching query]
    rw [hhandler]
    exact ⟨_, listPage_enumerates hcodec (nodup_cursors (fun _ => rfl) horders _) hpositive
      hbounded⟩
  · have hhandler : (fun cursor => listTrades codec db { query with cursor }) = fun cursor =>
        listPage codec query.limit cursor (fun limit cursor => selectPage TradeRecord.cursor limit
          cursor (db.trades.filter fun t => query.Matches db t)) TradeRecord.cursor := by
      simp only [listTrades, Db.listTradesPage, trades_matching horders query]
    rw [hhandler]
    exact ⟨_, listPage_enumerates hcodec (nodup_cursors (fun _ => rfl) htrades _) hpositive
      hbounded⟩

end Endpoints

/-! ## Two trades of one instant -/

/-- The text of the cursor past the second trade of the epoch. -/
def secondTradeCursor : String :=
  "eyJjcmVhdGVkX2F0IjoiMTk3MC0wMS0wMVQwMDowMDowMFoiLCJpZCI6IjAwMDAwMDAwLTAwMDAtMDAwMC0wMDAwL" ++
    "TAwMDAwMDAwMDAwMiJ9"

/-- The code's text for that cursor, and some text for each other one. -/
def sampleCursors : CursorCodec where
  encode c :=
    if c = ⟨0, 2⟩ then secondTradeCursor
    else String.ofList (List.replicate (Nat.pair (Equiv.intEquivNat c.createdAt) c.id) '.')
  decode raw :=
    if raw = secondTradeCursor then some ⟨0, 2⟩
    else
      some ⟨Equiv.intEquivNat.symm (Nat.unpair raw.length).1, (Nat.unpair raw.length).2⟩

theorem sampleCursors_decode (c : ResourceCursor) :
    sampleCursors.decode (sampleCursors.encode c) = some c := by
  simp only [sampleCursors]
  by_cases hsecond : c = ⟨0, 2⟩
  · rw [if_pos hsecond, if_pos rfl, hsecond]
  · have hother : ∀ n, String.ofList (List.replicate n '.') ≠ secondTradeCursor := by
      intro n heq
      have hletter : 'e' ∈ List.replicate n '.' := by
        rw [← String.toList_ofList (l := List.replicate n '.'), heq]
        decide +kernel
      exact absurd (List.eq_of_mem_replicate hletter) (by decide)
    rw [if_neg hsecond, if_neg (hother _), String.length_ofList, List.length_replicate,
      Nat.unpair_pair, Equiv.symm_apply_apply]

/-- An order of condition `condition` with three trades, the first two of one instant. -/
def tradedDb : Db :=
  { Db.initial with
    orders := [{
      id := 5, intentId := 1, venueOrderId := some "venue", conditionId := "condition"
      tokenId := "7", side := .buy, timeInForce := .gtc, price := 1 / 2, feeRate := 0
      quoteExposure := 5, originalQuantity := 10, remainingQuantity := 4, state := .live
      createdAt := 0 }]
    trades := [⟨3, 5, "third", 1 / 2, 2, .matched, 7⟩, ⟨2, 5, "second", 1 / 2, 2, .matched, 0⟩,
      ⟨1, 5, "first", 1 / 2, 2, .matched, 0⟩] }

theorem listings_enumerate_traded :
    ∃ requests pages,
      followPages (fun cursor => listTrades sampleCursors tradedDb
        { limit := 2, conditionId := some "condition", cursor }) requests = some pages ∧
      Enumerates TradeRecord.cursor 2 tradedDb.trades pages :=
  (listings_enumerate sampleCursors sampleCursors_decode tradedDb (by decide) (by decide)
    (by decide)).2.2 { limit := 2, conditionId := some "condition" } (by decide) (by decide)

/-- The second page starts after the second of the two. -/
example : (followPages (fun cursor => listTrades sampleCursors tradedDb
    { limit := 2, conditionId := some "condition", cursor }) 3).map
      (List.map (List.map TradeRecord.id)) = some [[1, 2], [3]] := by
  decide +kernel

end OddsfoxExecution
