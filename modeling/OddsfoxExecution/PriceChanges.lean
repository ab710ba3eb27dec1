import OddsfoxExecution.Domain
import OddsfoxExecution.Venue
import OddsfoxExecution.Library.Overlay
import OddsfoxExecution.Library.Table
import Mathlib.Algebra.Order.Ring.Rat
import Mathlib.Data.Finset.Card
import Mathlib.Data.List.Permutation

/-!
# The live book cache

The price stream task of `ensure_market_subscription` in
`src/venue/polymarket.rs`, which holds the cache for a whole message.  The task
checks the book after every entry, although the entries of one message are one
change of the book: a batch that crosses the book on the way to an uncrossed
one loses the book.
-/

namespace OddsfoxExecution

/-- An entry of `price_changes`. -/
structure PriceChangeEntry where
  assetId : String
  side : Side
  price : Decimal
  size : Option Decimal
  hash : Option String
deriving DecidableEq

/-- `valid_levels`, with the prices seen so far. -/
def validLevels (prices : List Decimal) : List PriceLevel → Bool
  | [] => true
  | level :: rest =>
    0 < level.price && level.price ≤ 1 && 0 < level.size && level.price ∉ prices &&
      validLevels (level.price :: prices) rest

def bookIsConsistent (book : OrderBook) : Bool :=
  if !validLevels [] book.bids || !validLevels [] book.asks then false
  else if book.bestBid.any fun bid => book.bestAsk.any fun ask => decide (ask ≤ bid) then false
  else book.hash.all fun hash => !trimIsEmpty hash

namespace OrderBook

/-- The levels with what an entry says of its price. -/
def replaceLevel (entry : PriceChangeEntry) (levels : List PriceLevel) : List PriceLevel :=
  levels.filter (fun level => level.price ≠ entry.price) ++
    ((entry.size.filter fun size => 0 < size).map fun size => ⟨entry.price, size⟩).toList

/-- The book with an entry, before it is checked. -/
def applyEntry (observedAt : Time) (book : OrderBook) (entry : PriceChangeEntry) : OrderBook where
  bids := if entry.side = .buy then replaceLevel entry book.bids else book.bids
  asks := if entry.side = .buy then book.asks else replaceLevel entry book.asks
  observedAt := observedAt
  hash := entry.hash.or book.hash

end OrderBook

/-- The cached books and the number of stream gaps. -/
structure BookCache where
  books : String → Option OrderBook
  gaps : Nat

namespace BookCache

/-- `books.remove` with a gap. -/
def lose (cache : BookCache) (assetId : String) : BookCache where
  books := Function.update cache.books assetId none
  gaps := cache.gaps + 1

/-- One turn of the loop over `price_changes`. -/
def applyEntry (observedAt : Time) (cache : BookCache) (entry : PriceChangeEntry) : BookCache :=
  match cache.books entry.assetId with
  | none => cache
  | some book =>
    if observedAt < book.observedAt then cache.lose entry.assetId
    else
      let book := book.applyEntry observedAt entry
      if bookIsConsistent book then
        { cache with books := Function.update cache.books entry.assetId (some book) }
      else cache.lose entry.assetId

/-- What a message of the price stream does to the cache. -/
def applyPriceChanges (observedAt : Time) (cache : BookCache) (entries : List PriceChangeEntry) :
    BookCache := entries.foldl (applyEntry observedAt) cache

end BookCache

/-! ## What a book says -/

/-- The size at each price of each side, and the hash of the book. -/
structure Quotes where
  sizes : Side × Decimal → Option Decimal
  hash : Option String

/-- The levels are well formed and do not cross, and the hash is not blank. -/
structure Quotes.Consistent (q : Quotes) : Prop where
  levels : ∀ quote size, q.sizes quote = some size → 0 < quote.2 ∧ quote.2 ≤ 1 ∧ 0 < size
  uncrossed : ∀ bid ask, q.sizes (.buy, bid) ≠ none → q.sizes (.sell, ask) ≠ none → bid < ask
  hash : ∀ hash ∈ q.hash, trimIsEmpty hash = false

/-- A size of zero, or none, takes the level away. -/
def PriceChangeEntry.update (entry : PriceChangeEntry) :
    Overlay.Update (Side × Decimal) Decimal :=
  ⟨(entry.side, entry.price), entry.size.filter fun size => 0 < size⟩

/-- The book with all of the entries at once. -/
def Quotes.overlay (q : Quotes) (entries : List PriceChangeEntry) : Quotes where
  sizes := Overlay.overlay q.sizes (entries.map PriceChangeEntry.update)
  hash := entries.foldl (fun hash entry => entry.hash.or hash) q.hash

namespace OrderBook

def levels (book : OrderBook) : Side → List PriceLevel
  | .buy => book.bids
  | .sell => book.asks

def sizes (book : OrderBook) (quote : Side × Decimal) : Option Decimal :=
  ((book.levels quote.1).find? fun level => level.price = quote.2).map PriceLevel.size

def quotes (book : OrderBook) : Quotes := ⟨book.sizes, book.hash⟩

/-- No side has two levels of one price. -/
def DistinctPrices (book : OrderBook) : Prop :=
  ∀ side, ((book.levels side).map PriceLevel.price).Nodup

theorem sizes_eq_some {book : OrderBook} (h : book.DistinctPrices) {side : Side}
    {price size : Decimal} :
    book.sizes (side, price) = some size ↔ ⟨price, size⟩ ∈ book.levels side := by
  rw [sizes, Option.map_eq_some_iff]
  constructor
  · rintro ⟨level, hfind, rfl⟩
    have hprice : level.price = price := by
      simpa using List.find?_some hfind
    rw [← hprice]
    exact List.mem_of_find?_eq_some hfind
  · intro hmem
    have hfind : (book.levels side).find? (fun level => level.price = price) = some ⟨price, size⟩ :=
      Table.find?_eq_some_of_mem (h side) hmem
    exact ⟨_, hfind, rfl⟩

theorem sizes_ne_none {book : OrderBook} {side : Side} {price : Decimal} :
    book.sizes (side, price) ≠ none ↔ ∃ level ∈ book.levels side, level.price = price := by
  simp [sizes]

end OrderBook

theorem validLevels_iff {prices : List Decimal} {levels : List PriceLevel} :
    validLevels prices levels = true ↔
      (∀ level ∈ levels, 0 < level.price ∧ level.price ≤ 1 ∧ 0 < level.size) ∧
        (levels.map PriceLevel.price).Nodup ∧ ∀ level ∈ levels, level.price ∉ prices := by
  induction levels generalizing prices with
  | nil => simp [validLevels]
  | cons level rest ih =>
    rw [validLevels, Bool.and_eq_true, Bool.and_eq_true, Bool.and_eq_true, Bool.and_eq_true,
      ih, List.forall_mem_cons, List.forall_mem_cons, List.map_cons, List.nodup_cons]
    simp only [decide_eq_true_eq, List.mem_cons, not_or, List.mem_map, not_exists, not_and]
    constructor
    · rintro ⟨⟨⟨⟨hlow, hhigh⟩, hsize⟩, hfresh⟩, hrest, hnodup, hapart⟩
      exact ⟨⟨⟨hlow, hhigh, hsize⟩, hrest⟩, ⟨fun other hother => (hapart other hother).1, hnodup⟩,
        hfresh, fun other hother => (hapart other hother).2⟩
    · rintro ⟨⟨⟨hlow, hhigh, hsize⟩, hrest⟩, ⟨hapart, hnodup⟩, hfresh, hothers⟩
      exact ⟨⟨⟨⟨hlow, hhigh⟩, hsize⟩, hfresh⟩, hrest, hnodup,
        fun other hother => ⟨hapart other hother, hothers other hother⟩⟩

/-- The check of the best prices is a check of all. -/
theorem crossed_iff {book : OrderBook} :
    (book.bestBid.any fun bid => book.bestAsk.any fun ask => decide (ask ≤ bid)) = true ↔
      ∃ bid ∈ book.bids, ∃ ask ∈ book.asks, ask.price ≤ bid.price := by
  simp only [Option.any_eq_true, decide_eq_true_eq]
  constructor
  · rintro ⟨bid, hbid, ask, hask, hle⟩
    obtain ⟨b, hb, rfl⟩ := List.mem_map.mp (List.max?_mem hbid)
    obtain ⟨a, ha, rfl⟩ := List.mem_map.mp (List.min?_mem hask)
    exact ⟨b, hb, a, ha, hle⟩
  · rintro ⟨b, hb, a, ha, hle⟩
    have hbids : book.bids.map PriceLevel.price ≠ [] := by
      intro hnil
      rw [List.map_eq_nil_iff.mp hnil] at hb
      cases hb
    have hasks : book.asks.map PriceLevel.price ≠ [] := by
      intro hnil
      rw [List.map_eq_nil_iff.mp hnil] at ha
      cases ha
    obtain ⟨bid, hbid⟩ := Option.ne_none_iff_exists'.mp (mt List.max?_eq_none_iff.mp hbids)
    obtain ⟨ask, hask⟩ := Option.ne_none_iff_exists'.mp (mt List.min?_eq_none_iff.mp hasks)
    refine ⟨bid, hbid, ask, hask, ?_⟩
    have hbest := (List.max?_eq_some_iff.mp hbid).2 _ (List.mem_map_of_mem hb)
    have hleast := (List.min?_eq_some_iff.mp hask).2 _ (List.mem_map_of_mem ha)
    exact hleast.trans (hle.trans hbest)

theorem bookIsConsistent_iff {book : OrderBook} :
    bookIsConsistent book = true ↔ book.DistinctPrices ∧ book.quotes.Consistent := by
  have hunfold : bookIsConsistent book = true ↔
      (validLevels [] book.bids = true ∧ validLevels [] book.asks = true) ∧
        (¬ ∃ bid ∈ book.bids, ∃ ask ∈ book.asks, ask.price ≤ bid.price) ∧
        ∀ hash ∈ book.hash, trimIsEmpty hash = false := by
    rw [← crossed_iff, bookIsConsistent]
    cases validLevels [] book.bids <;> cases validLevels [] book.asks <;>
      simp [Option.all_eq_true]
  rw [hunfold, validLevels_iff, validLevels_iff]
  constructor
  · rintro ⟨⟨⟨hbids, hbidsNodup, -⟩, hasks, hasksNodup, -⟩, huncrossed, hhash⟩
    have hdistinct : book.DistinctPrices := by
      intro side
      cases side
      · exact hbidsNodup
      · exact hasksNodup
    refine ⟨hdistinct, ⟨?_, ?_, hhash⟩⟩
    · rintro ⟨side, price⟩ size hsize
      have hmem := (OrderBook.sizes_eq_some hdistinct).mp hsize
      cases side
      · exact hbids _ hmem
      · exact hasks _ hmem
    · intro bid ask hbid hask
      obtain ⟨b, hb, rfl⟩ := OrderBook.sizes_ne_none.mp hbid
      obtain ⟨a, ha, rfl⟩ := OrderBook.sizes_ne_none.mp hask
      exact not_le.mp fun hle => huncrossed ⟨b, hb, a, ha, hle⟩
  · rintro ⟨hdistinct, hconsistent⟩
    have hlevels : ∀ side, ∀ level ∈ book.levels side,
        0 < level.price ∧ level.price ≤ 1 ∧ 0 < level.size := fun side level hlevel =>
      hconsistent.levels (side, level.price) level.size
        ((OrderBook.sizes_eq_some hdistinct).mpr hlevel)
    refine ⟨⟨⟨hlevels .buy, hdistinct .buy, fun _ _ => List.not_mem_nil⟩,
      hlevels .sell, hdistinct .sell, fun _ _ => List.not_mem_nil⟩, ?_, hconsistent.hash⟩
    rintro ⟨bid, hbid, ask, hask, hle⟩
    have hlt := hconsistent.uncrossed bid.price ask.price
      (OrderBook.sizes_ne_none.mpr ⟨bid, hbid, rfl⟩) (OrderBook.sizes_ne_none.mpr ⟨ask, hask, rfl⟩)
    exact absurd hlt (not_lt.mpr hle)

/-! ## One entry -/

theorem find?_replaceLevel (entry : PriceChangeEntry) (levels : List PriceLevel)
    (price : Decimal) :
    ((OrderBook.replaceLevel entry levels).find? fun level => level.price = price).map
        PriceLevel.size =
      if price = entry.price then entry.size.filter fun size => 0 < size
      else (levels.find? fun level => level.price = price).map PriceLevel.size := by
  rw [OrderBook.replaceLevel, List.find?_append]
  by_cases hprice : price = entry.price
  · have hnone : (levels.filter fun level => level.price ≠ entry.price).find?
        (fun level => level.price = price) = none := by
      rw [List.find?_eq_none]
      intro level hlevel
      have hother := (List.mem_filter.mp hlevel).2
      simp_all
    rw [hnone, if_pos hprice, Option.none_or]
    cases hsize : entry.size.filter fun size => 0 < size with
    | none => rfl
    | some size => simp [hprice]
  · have hsame : (levels.filter fun level => level.price ≠ entry.price).find?
        (fun level => level.price = price) = levels.find? fun level => level.price = price := by
      rw [List.find?_filter]
      congr 1
      funext level
      by_cases heq : level.price = price
      · simp [heq, hprice]
      · simp [heq]
    have hnew : ((entry.size.filter fun size => 0 < size).map fun size =>
        (⟨entry.price, size⟩ : PriceLevel)).toList.find? (fun level => level.price = price) =
          none := by
      rw [List.find?_eq_none]
      intro level hlevel
      simp only [Option.mem_toList, Option.map_eq_some_iff] at hlevel
      obtain ⟨size, -, rfl⟩ := hlevel
      simpa using Ne.symm hprice
    rw [hsame, hnew, if_neg hprice, Option.or_none]

theorem nodup_replaceLevel (entry : PriceChangeEntry) {levels : List PriceLevel}
    (h : (levels.map PriceLevel.price).Nodup) :
    ((OrderBook.replaceLevel entry levels).map PriceLevel.price).Nodup := by
  rw [OrderBook.replaceLevel, List.map_append]
  have hkept := h.sublist ((List.filter_sublist
    (p := fun level : PriceLevel => decide (level.price ≠ entry.price))).map PriceLevel.price)
  cases entry.size.filter fun size => 0 < size with
  | none => simpa using hkept
  | some size =>
    refine List.Nodup.append hkept (List.nodup_singleton _) ?_
    simp [List.disjoint_singleton]

namespace OrderBook

theorem levels_applyEntry (observedAt : Time) (book : OrderBook) (entry : PriceChangeEntry)
    (side : Side) : (book.applyEntry observedAt entry).levels side =
      if side = entry.side then replaceLevel entry (book.levels side) else book.levels side := by
  cases side <;> cases hside : entry.side <;> simp [applyEntry, levels, hside]

theorem DistinctPrices.applyEntry {book : OrderBook} (h : book.DistinctPrices)
    (observedAt : Time) (entry : PriceChangeEntry) :
    (book.applyEntry observedAt entry).DistinctPrices := by
  intro side
  rw [levels_applyEntry]
  split
  · exact nodup_replaceLevel entry (h side)
  · exact h side

theorem quotes_applyEntry (observedAt : Time) (book : OrderBook) (entry : PriceChangeEntry) :
    (book.applyEntry observedAt entry).quotes = book.quotes.overlay [entry] := by
  have hsizes : (book.applyEntry observedAt entry).sizes =
      Function.update book.sizes (entry.side, entry.price)
        (entry.size.filter fun size => 0 < size) := by
    funext ⟨side, price⟩
    rw [Function.update_apply, sizes, levels_applyEntry]
    by_cases hside : side = entry.side
    · rw [if_pos hside, find?_replaceLevel]
      simp [hside, sizes, Prod.ext_iff]
    · rw [if_neg hside, if_neg fun h => hside (congrArg Prod.fst h)]
      rfl
  simp only [quotes, hsizes]
  rfl

theorem quotes_foldl (observedAt : Time) (entries : List PriceChangeEntry) (book : OrderBook) :
    (entries.foldl (applyEntry observedAt) book).quotes = book.quotes.overlay entries := by
  induction entries generalizing book with
  | nil => rfl
  | cons entry rest ih =>
    rw [List.foldl_cons, ih, quotes_applyEntry]
    rfl

theorem DistinctPrices.foldl (observedAt : Time) (entries : List PriceChangeEntry)
    {book : OrderBook} (h : book.DistinctPrices) :
    (entries.foldl (OrderBook.applyEntry observedAt) book).DistinctPrices := by
  induction entries generalizing book with
  | nil => exact h
  | cons entry rest ih => exact ih (h.applyEntry observedAt entry)

end OrderBook

/-! ## A message -/

def entriesOf (asset : String) (entries : List PriceChangeEntry) : List PriceChangeEntry :=
  entries.filter fun entry => entry.assetId = asset

namespace BookCache

variable {observedAt : Time} {cache : BookCache} {entries : List PriceChangeEntry}

theorem books_applyEntry (entry : PriceChangeEntry) (asset : String) :
    (cache.applyEntry observedAt entry).books asset =
      if entry.assetId = asset then
        (cache.books asset).bind fun book =>
          if observedAt < book.observedAt then none
          else if bookIsConsistent (book.applyEntry observedAt entry) then
            some (book.applyEntry observedAt entry)
          else none
      else cache.books asset := by
  by_cases hasset : entry.assetId = asset
  · subst hasset
    rw [if_pos rfl, applyEntry]
    cases hbook : cache.books entry.assetId with
    | none => simpa using hbook
    | some book =>
      by_cases hregressed : observedAt < book.observedAt
      · simp [hregressed, lose]
      · by_cases hok : bookIsConsistent (book.applyEntry observedAt entry) = true
        · simp [hregressed, hok]
        · simp [hregressed, hok, lose]
  · rw [if_neg hasset, applyEntry]
    cases cache.books entry.assetId with
    | none => rfl
    | some book =>
      by_cases hregressed : observedAt < book.observedAt
      · simp [hregressed, lose, Function.update_of_ne (Ne.symm hasset)]
      · by_cases hok : bookIsConsistent (book.applyEntry observedAt entry) = true
        · simp [hregressed, hok, Function.update_of_ne (Ne.symm hasset)]
        · simp [hregressed, hok, lose, Function.update_of_ne (Ne.symm hasset)]

theorem books_none {asset : String} (h : cache.books asset = none) :
    (cache.applyPriceChanges observedAt entries).books asset = none := by
  unfold applyPriceChanges
  induction entries generalizing cache with
  | nil => exact h
  | cons entry rest ih =>
    apply ih
    rw [books_applyEntry, h]
    simp

/-- A cached book takes the entries of its asset one after the other, checked after each. -/
theorem books_some {asset : String} {book : OrderBook} (h : cache.books asset = some book)
    (htime : ∀ entry ∈ entriesOf asset entries, book.observedAt ≤ observedAt) :
    (cache.applyPriceChanges observedAt entries).books asset =
      Overlay.checkedRun (OrderBook.applyEntry observedAt) bookIsConsistent book
        (entriesOf asset entries) := by
  unfold applyPriceChanges
  induction entries generalizing cache book with
  | nil => exact h
  | cons entry rest ih =>
    have hstep := @books_applyEntry observedAt cache entry asset
    rw [h] at hstep
    rw [List.foldl_cons]
    by_cases hasset : entry.assetId = asset
    · have hentries : entriesOf asset (entry :: rest) = entry :: entriesOf asset rest :=
        List.filter_cons_of_pos (by simpa using hasset)
      rw [hentries] at htime ⊢
      rw [if_pos hasset, Option.bind_some,
        if_neg (not_lt.mpr (htime entry List.mem_cons_self))] at hstep
      rw [Overlay.checkedRun]
      by_cases hok : bookIsConsistent (book.applyEntry observedAt entry) = true
      · rw [if_pos hok] at hstep ⊢
        exact ih hstep fun _ _ => le_refl observedAt
      · rw [if_neg hok] at hstep ⊢
        exact books_none hstep
    · have hentries : entriesOf asset (entry :: rest) = entriesOf asset rest :=
        List.filter_cons_of_neg (by simpa using hasset)
      rw [hentries] at htime ⊢
      rw [if_neg hasset] at hstep
      exact ih hstep htime

theorem gaps_applyEntry {assets : Finset String} {entry : PriceChangeEntry}
    (hentry : entry.assetId ∈ assets) :
    (cache.applyEntry observedAt entry).gaps +
        (assets.filter fun asset =>
          ((cache.applyEntry observedAt entry).books asset).isSome).card =
      cache.gaps + (assets.filter fun asset => (cache.books asset).isSome).card := by
  have hlose : ∀ {book : OrderBook}, cache.books entry.assetId = some book →
      (cache.lose entry.assetId).gaps +
          (assets.filter fun asset =>
            ((cache.lose entry.assetId).books asset).isSome).card =
        cache.gaps + (assets.filter fun asset => (cache.books asset).isSome).card := by
    intro book hbook
    have herase : (assets.filter fun asset =>
        ((cache.lose entry.assetId).books asset).isSome) =
          (assets.filter fun asset => (cache.books asset).isSome).erase entry.assetId := by
      ext asset
      by_cases hasset : asset = entry.assetId <;> simp [lose, Function.update_apply, hasset]
    have hmem : entry.assetId ∈ assets.filter fun asset => (cache.books asset).isSome := by
      simp [hentry, hbook]
    have hpos := Finset.card_pos.mpr ⟨_, hmem⟩
    rw [herase, Finset.card_erase_of_mem hmem]
    change cache.gaps + 1 + _ = _
    omega
  rw [applyEntry]
  cases hbook : cache.books entry.assetId with
  | none => rfl
  | some book =>
    by_cases hregressed : observedAt < book.observedAt
    · simp only [hregressed, if_true]
      exact hlose hbook
    · by_cases hok : bookIsConsistent (book.applyEntry observedAt entry) = true
      · simp only [hregressed, hok, if_true, if_false]
        congr 2
        ext asset
        by_cases hasset : asset = entry.assetId <;> simp [Function.update_apply, hasset, hbook]
      · simp only [hregressed, hok, if_false]
        exact hlose hbook

theorem gaps_applyPriceChanges {assets : Finset String}
    (hentries : ∀ entry ∈ entries, entry.assetId ∈ assets) :
    (cache.applyPriceChanges observedAt entries).gaps +
        (assets.filter fun asset =>
          ((cache.applyPriceChanges observedAt entries).books asset).isSome).card =
      cache.gaps + (assets.filter fun asset => (cache.books asset).isSome).card := by
  unfold applyPriceChanges
  induction entries generalizing cache with
  | nil => rfl
  | cons entry rest ih =>
    rw [List.foldl_cons, ih fun other hother => hentries other (List.mem_cons_of_mem _ hother)]
    exact gaps_applyEntry (hentries entry List.mem_cons_self)

end BookCache

/-! ## When a batch is atomic -/

def PriceChangeEntry.level (entry : PriceChangeEntry) : String × Side × Decimal :=
  (entry.assetId, entry.side, entry.price)

/-- The same books at the same sizes, after as many gaps. -/
structure BookCache.Agrees (cache other : BookCache) : Prop where
  sizes : ∀ asset, (cache.books asset).map OrderBook.sizes =
    (other.books asset).map OrderBook.sizes
  gaps : cache.gaps = other.gaps

/-- The message takes each cached book to its overlay with all entries of the asset, when that is
consistent, and loses it otherwise; entries of distinct levels may come in any order. -/
structure AppliesAtomically (observedAt : Time) (cache : BookCache)
    (entries : List PriceChangeEntry) : Prop where
  cached : ∀ asset book, cache.books asset = some book →
    ((cache.applyPriceChanges observedAt entries).books asset ≠ none ↔
      (book.quotes.overlay (entriesOf asset entries)).Consistent)
  overlaid : ∀ asset book, cache.books asset = some book →
    ∀ after, (cache.applyPriceChanges observedAt entries).books asset = some after →
      after.quotes = book.quotes.overlay (entriesOf asset entries)
  reordered : (entries.map PriceChangeEntry.level).Nodup → ∀ entries', entries'.Perm entries →
    (cache.applyPriceChanges observedAt entries').Agrees
      (cache.applyPriceChanges observedAt entries)

/-- A batch that leaves a cached book consistent keeps it consistent after every entry, in the
order it comes in and, when its entries are of distinct levels, in every order. -/
def StaysConsistent (cache : BookCache) (entries : List PriceChangeEntry) : Prop :=
  ∀ asset book, cache.books asset = some book →
    (book.quotes.overlay (entriesOf asset entries)).Consistent →
      (∀ first, first <+: entriesOf asset entries → (book.quotes.overlay first).Consistent) ∧
      ((entries.map PriceChangeEntry.level).Nodup →
        ∀ entries', entries'.Perm (entriesOf asset entries) →
          ∀ first, first <+: entries' → (book.quotes.overlay first).Consistent)

section Atomic

variable {observedAt : Time} {cache : BookCache} {entries : List PriceChangeEntry}

/-- The checks on the way are checks of the overlays. -/
theorem passesThroughout_iff {book : OrderBook} (h : book.DistinctPrices)
    (entries : List PriceChangeEntry) :
    Overlay.PassesThroughout (OrderBook.applyEntry observedAt) bookIsConsistent book entries ↔
      ∀ first, first <+: entries → (book.quotes.overlay first).Consistent := by
  have hstate : ∀ first, bookIsConsistent (first.foldl (OrderBook.applyEntry observedAt) book) =
      true ↔ (book.quotes.overlay first).Consistent := by
    intro first
    rw [bookIsConsistent_iff, OrderBook.quotes_foldl]
    exact and_iff_right (h.foldl observedAt first)
  constructor
  · intro hpass first hfirst
    exact (hstate first).mp (hpass first hfirst)
  · intro hpass first hfirst
    exact (hstate first).mpr (hpass first hfirst)

theorem mem_entriesOf {asset : String} {entry : PriceChangeEntry} :
    entry ∈ entriesOf asset entries ↔ entry ∈ entries ∧ entry.assetId = asset := by
  simp [entriesOf]

/-- The message keeps a consistent book that it does not precede when every overlay on the way is
consistent, and then it leaves the last one. -/
theorem books_eq_some_iff {asset : String} {book after : OrderBook}
    (hbook : cache.books asset = some book) (hconsistent : bookIsConsistent book = true)
    (htime : ∀ entry ∈ entries, ∀ book, cache.books entry.assetId = some book →
      book.observedAt ≤ observedAt) :
    (cache.applyPriceChanges observedAt entries).books asset = some after ↔
      (∀ first, first <+: entriesOf asset entries → (book.quotes.overlay first).Consistent) ∧
        (entriesOf asset entries).foldl (OrderBook.applyEntry observedAt) book = after := by
  have hentries : ∀ entry ∈ entriesOf asset entries, book.observedAt ≤ observedAt := by
    intro entry hentry
    obtain ⟨hmem, rfl⟩ := mem_entriesOf.mp hentry
    exact htime entry hmem book hbook
  rw [BookCache.books_some hbook hentries, Overlay.checkedRun_eq_some hconsistent,
    passesThroughout_iff (bookIsConsistent_iff.mp hconsistent).1]

theorem overlay_sizes_perm {q : Quotes} {batch batch' : List PriceChangeEntry}
    (hnodup : (batch.map fun entry => entry.update.key).Nodup) (hperm : batch'.Perm batch) :
    (q.overlay batch').sizes = (q.overlay batch).sizes := by
  refine (Overlay.overlay_perm ?_ (hperm.symm.map PriceChangeEntry.update)).symm
  rw [List.map_map]
  exact hnodup

theorem nodup_keys (hnodup : (entries.map PriceChangeEntry.level).Nodup) (asset : String) :
    ((entriesOf asset entries).map fun entry => entry.update.key).Nodup := by
  have hlevels := hnodup.sublist ((List.filter_sublist
    (p := fun entry : PriceChangeEntry => decide (entry.assetId = asset))).map
      PriceChangeEntry.level)
  refine List.Nodup.map_on ?_ hlevels.of_map
  intro a ha b hb hkey
  obtain ⟨-, hasset⟩ := mem_entriesOf.mp ha
  obtain ⟨-, hasset'⟩ := mem_entriesOf.mp hb
  refine List.inj_on_of_nodup_map hlevels ha hb ?_
  exact Prod.ext (hasset.trans hasset'.symm) hkey

/-- The hash of an overlay is that of an entry, or the one before. -/
theorem overlay_hash (entries : List PriceChangeEntry) (q : Quotes) :
    (q.overlay entries).hash = q.hash ∨
      ∃ entry ∈ entries, entry.hash ≠ none ∧ (q.overlay entries).hash = entry.hash := by
  induction entries generalizing q with
  | nil => exact Or.inl rfl
  | cons entry rest ih =>
    have hcons : q.overlay (entry :: rest) = (q.overlay [entry]).overlay rest := rfl
    rw [hcons]
    rcases ih (q.overlay [entry]) with hsame | ⟨other, hother, hsome, hhash⟩
    · rw [hsame]
      cases hhash : entry.hash with
      | none => exact Or.inl (by simp [Quotes.overlay, hhash])
      | some hash =>
        refine Or.inr ⟨entry, List.mem_cons_self, by simp [hhash], ?_⟩
        simp [Quotes.overlay, hhash]
    · exact Or.inr ⟨other, List.mem_cons_of_mem _ hother, hsome, hhash⟩

/-- A batch that passes throughout gives no blank hash, in whatever order it comes. -/
theorem consistent_of_perm {q : Quotes} {batch batch' : List PriceChangeEntry}
    (hq : q.Consistent) (hnodup : (batch.map fun entry => entry.update.key).Nodup)
    (hperm : batch'.Perm batch)
    (hpass : ∀ first, first <+: batch' → (q.overlay first).Consistent) :
    (q.overlay batch).Consistent := by
  have hwhole := hpass batch' (List.prefix_refl _)
  have hsizes := overlay_sizes_perm (q := q) hnodup hperm
  refine ⟨?_, ?_, ?_⟩
  · rw [← hsizes]
    exact hwhole.levels
  · rw [← hsizes]
    exact hwhole.uncrossed
  · rcases overlay_hash batch q with hsame | ⟨entry, hentry, hsome, hhash⟩
    · rw [hsame]
      exact hq.hash
    · -- the entry that gives the hash is the last of a prefix of the other order
      rw [hhash]
      obtain ⟨before, after, hsplit⟩ := List.append_of_mem (hperm.mem_iff.mpr hentry)
      have hfirst : before ++ [entry] <+: batch' := ⟨after, by simp [hsplit]⟩
      have hgiven : (q.overlay (before ++ [entry])).hash = entry.hash := by
        obtain ⟨hash, hhash⟩ := Option.ne_none_iff_exists'.mp hsome
        simp [Quotes.overlay, List.foldl_append, hhash]
      rw [← hgiven]
      exact (hpass _ hfirst).hash

theorem sizes_perm (hcached : ∀ asset book, cache.books asset = some book →
      bookIsConsistent book = true)
    (htime : ∀ entry ∈ entries, ∀ book, cache.books entry.assetId = some book →
      book.observedAt ≤ observedAt) (hstays : StaysConsistent cache entries)
    (hnodup : (entries.map PriceChangeEntry.level).Nodup) {entries' : List PriceChangeEntry}
    (hperm : entries'.Perm entries) (asset : String) :
    ((cache.applyPriceChanges observedAt entries').books asset).map OrderBook.sizes =
      ((cache.applyPriceChanges observedAt entries).books asset).map OrderBook.sizes := by
  cases hbook : cache.books asset with
  | none => rw [BookCache.books_none hbook, BookCache.books_none hbook]
  | some book =>
    have hconsistent := hcached asset book hbook
    have hq := (bookIsConsistent_iff.mp hconsistent).2
    have htime' : ∀ entry ∈ entries', ∀ book, cache.books entry.assetId = some book →
        book.observedAt ≤ observedAt := fun entry hentry =>
      htime entry (hperm.mem_iff.mp hentry)
    have hbatch : (entriesOf asset entries').Perm (entriesOf asset entries) := hperm.filter _
    have hkeys := nodup_keys hnodup asset
    by_cases hwhole : (book.quotes.overlay (entriesOf asset entries)).Consistent
    · obtain ⟨hpass, hpasses⟩ := hstays asset book hbook hwhole
      rw [(books_eq_some_iff hbook hconsistent htime').mpr ⟨hpasses hnodup _ hbatch, rfl⟩,
        (books_eq_some_iff hbook hconsistent htime).mpr ⟨hpass, rfl⟩, Option.map_some,
        Option.map_some]
      congr 1
      have hsizes := overlay_sizes_perm (q := book.quotes) hkeys hbatch
      rwa [← OrderBook.quotes_foldl observedAt, ← OrderBook.quotes_foldl observedAt] at hsizes
    · have hlost : ∀ {batch : List PriceChangeEntry}, (entriesOf asset batch).Perm
          (entriesOf asset entries) → (∀ entry ∈ batch, ∀ book,
            cache.books entry.assetId = some book → book.observedAt ≤ observedAt) →
          (cache.applyPriceChanges observedAt batch).books asset = none := by
        intro batch hsame hbefore
        by_contra hsome
        obtain ⟨after, hafter⟩ := Option.ne_none_iff_exists'.mp hsome
        have hpass := ((books_eq_some_iff hbook hconsistent hbefore).mp hafter).1
        exact hwhole (consistent_of_perm hq hkeys hsame hpass)
      rw [hlost hbatch htime', hlost (List.Perm.refl _) htime]

/-- A message and an order of it that leave the same books raise as many gaps. -/
theorem gaps_perm {entries' : List PriceChangeEntry} (hperm : entries'.Perm entries)
    (hsizes : ∀ asset,
      ((cache.applyPriceChanges observedAt entries').books asset).map OrderBook.sizes =
        ((cache.applyPriceChanges observedAt entries).books asset).map OrderBook.sizes) :
    (cache.applyPriceChanges observedAt entries').gaps =
      (cache.applyPriceChanges observedAt entries).gaps := by
  let assets := (entries.map PriceChangeEntry.assetId).toFinset
  have hassets : ∀ entry ∈ entries, entry.assetId ∈ assets := by
    intro entry hentry
    exact List.mem_toFinset.mpr (List.mem_map_of_mem hentry)
  have hassets' : ∀ entry ∈ entries', entry.assetId ∈ assets := by
    intro entry hentry
    exact hassets entry (hperm.mem_iff.mp hentry)
  have hgaps := @BookCache.gaps_applyPriceChanges observedAt cache entries assets hassets
  have hgaps' := @BookCache.gaps_applyPriceChanges observedAt cache entries' assets hassets'
  -- as many books are lost
  have hsame : (assets.filter fun asset =>
      ((cache.applyPriceChanges observedAt entries').books asset).isSome) =
        assets.filter fun asset =>
          ((cache.applyPriceChanges observedAt entries).books asset).isSome := by
    apply Finset.filter_congr
    intro asset _
    rw [← Option.isSome_map (f := OrderBook.sizes), hsizes asset, Option.isSome_map]
  rw [hsame] at hgaps'
  omega

/-- Every order of the entries of an asset is that of an order of the message. -/
theorem exists_perm_entriesOf {asset : String} {batch : List PriceChangeEntry}
    (hbatch : batch.Perm (entriesOf asset entries)) :
    ∃ entries', entries'.Perm entries ∧ entriesOf asset entries' = batch := by
  -- the other entries of the message follow those of the asset
  refine ⟨batch ++ entries.filter fun entry => !decide (entry.assetId = asset),
    (hbatch.append_right _).trans (List.filter_append_perm _ entries), ?_⟩
  have hown : batch.filter (fun entry => decide (entry.assetId = asset)) = batch := by
    rw [List.filter_eq_self]
    intro entry hentry
    simpa using (mem_entriesOf.mp (hbatch.mem_iff.mp hentry)).2
  simp [entriesOf, List.filter_append, hown]

/-- A message that is not older than the consistent books it is about applies atomically exactly
when no book that it leaves consistent is inconsistent on the way. -/
theorem price_changes_atomic_iff (hcached : ∀ asset book, cache.books asset = some book →
      bookIsConsistent book = true)
    (htime : ∀ entry ∈ entries, ∀ book, cache.books entry.assetId = some book →
      book.observedAt ≤ observedAt) :
    AppliesAtomically observedAt cache entries ↔ StaysConsistent cache entries := by
  constructor
  · intro h asset book hbook hwhole
    have hconsistent := hcached asset book hbook
    have hkept := (h.cached asset book hbook).mpr hwhole
    obtain ⟨after, hafter⟩ := Option.ne_none_iff_exists'.mp hkept
    refine ⟨((books_eq_some_iff hbook hconsistent htime).mp hafter).1,
      fun hnodup batch hbatch => ?_⟩
    obtain ⟨entries', hperm, hown⟩ := exists_perm_entriesOf hbatch
    have htime' : ∀ entry ∈ entries', ∀ book, cache.books entry.assetId = some book →
        book.observedAt ≤ observedAt := fun entry hentry =>
      htime entry (hperm.mem_iff.mp hentry)
    have hsizes := (h.reordered hnodup entries' hperm).sizes asset
    rw [hafter, Option.map_some, Option.map_eq_some_iff] at hsizes
    obtain ⟨after', hafter', -⟩ := hsizes
    rw [← hown]
    exact ((books_eq_some_iff hbook hconsistent htime').mp hafter').1
  · intro hstays
    have hkept : ∀ asset book, cache.books asset = some book → ∀ after,
        (cache.applyPriceChanges observedAt entries).books asset = some after →
          after.quotes = book.quotes.overlay (entriesOf asset entries) ∧
            (book.quotes.overlay (entriesOf asset entries)).Consistent := by
      intro asset book hbook after hafter
      obtain ⟨hpass, rfl⟩ :=
        (books_eq_some_iff hbook (hcached asset book hbook) htime).mp hafter
      exact ⟨OrderBook.quotes_foldl _ _ _, hpass _ (List.prefix_refl _)⟩
    refine ⟨fun asset book hbook => ?_, fun asset book hbook after hafter =>
      (hkept asset book hbook after hafter).1, fun hnodup entries' hperm => ?_⟩
    · constructor
      · intro hsome
        obtain ⟨after, hafter⟩ := Option.ne_none_iff_exists'.mp hsome
        exact (hkept asset book hbook after hafter).2
      · intro hwhole
        rw [(books_eq_some_iff hbook (hcached asset book hbook) htime).mpr
          ⟨(hstays asset book hbook hwhole).1, rfl⟩]
        exact Option.some_ne_none _
    · have hsizes := sizes_perm hcached htime hstays hnodup hperm
      exact ⟨hsizes, gaps_perm hperm hsizes⟩

end Atomic

/-! ## A book that trades through -/

/-- One bid and two asks of asset `7`. -/
def quotedCache : BookCache where
  books asset := if asset = "7" then
      some ⟨[⟨1 / 2, 10⟩], [⟨13 / 25, 10⟩, ⟨11 / 20, 10⟩], 0, some "book"⟩
    else none
  gaps := 0

theorem quotedCache_consistent (asset : String) (book : OrderBook)
    (h : quotedCache.books asset = some book) :
    bookIsConsistent book = true ∧ book.observedAt = 0 := by
  simp only [quotedCache] at h
  split at h
  · obtain rfl := Option.some.inj h
    exact ⟨by decide +kernel, rfl⟩
  · cases h

/-- A bid at 0.53 buys the ask at 0.52: the new bid and the end of the ask. -/
def tradeThroughBatch : List PriceChangeEntry :=
  [⟨"7", .buy, 53 / 100, some 5, some "after"⟩, ⟨"7", .sell, 13 / 25, some 0, some "after"⟩]

/-- The batch loses the book and raises a gap; the same entries the other way round do not. -/
theorem price_changes_not_atomic :
    bookIsConsistent ⟨[⟨1 / 2, 10⟩], [⟨13 / 25, 10⟩, ⟨11 / 20, 10⟩], 0, some "book"⟩ = true ∧
      (quotedCache.applyPriceChanges 1 tradeThroughBatch).books "7" = none ∧
      (quotedCache.applyPriceChanges 1 tradeThroughBatch).gaps = 1 ∧
      (quotedCache.applyPriceChanges 1 tradeThroughBatch.reverse).books "7" ≠ none ∧
      (quotedCache.applyPriceChanges 1 tradeThroughBatch.reverse).gaps = 0 ∧
      ¬ AppliesAtomically 1 quotedCache tradeThroughBatch := by
  have hlost : (quotedCache.applyPriceChanges 1 tradeThroughBatch).books "7" = none := by
    decide +kernel
  have hkept : (quotedCache.applyPriceChanges 1 tradeThroughBatch.reverse).books "7" ≠ none := by
    decide +kernel
  refine ⟨by decide +kernel, hlost, by decide +kernel, hkept, by decide +kernel, fun h => ?_⟩
  have hsizes := (h.reordered (by decide +kernel) _ (List.reverse_perm _)).sizes "7"
  rw [hlost, Option.map_none, Option.map_eq_none_iff] at hsizes
  exact hkept hsizes

/-- Checks of the books along every order of the entries of an asset are enough. -/
theorem staysConsistent_of_checks {cache : BookCache} {entries : List PriceChangeEntry}
    (hbooks : ∀ asset book, cache.books asset = some book →
      ∀ batch ∈ (entriesOf asset entries).permutations', ∀ first ∈ batch.inits,
        bookIsConsistent (first.foldl (OrderBook.applyEntry 0) book) = true) :
    StaysConsistent cache entries := by
  intro asset book hbook _
  have hfirst : ∀ batch : List PriceChangeEntry, batch.Perm (entriesOf asset entries) →
      ∀ first, first <+: batch → (book.quotes.overlay first).Consistent := by
    intro batch hbatch first hprefix
    have hcheck := hbooks asset book hbook batch (List.mem_permutations'.mpr hbatch) first
      (List.mem_inits _ _ |>.mpr hprefix)
    rw [← OrderBook.quotes_foldl 0]
    exact (bookIsConsistent_iff.mp hcheck).2
  exact ⟨hfirst _ (.refl _), fun _ batch hbatch => hfirst batch hbatch⟩

/-- A better bid and the end of the second ask. -/
def quietBatch : List PriceChangeEntry :=
  [⟨"7", .buy, 51 / 100, some 5, some "after"⟩, ⟨"7", .sell, 11 / 20, some 0, some "after"⟩]

theorem price_changes_atomic_two_entries : AppliesAtomically 1 quotedCache quietBatch := by
  refine (price_changes_atomic_iff (fun asset book h => (quotedCache_consistent asset book h).1)
    fun entry _ book h => ?_).mpr (staysConsistent_of_checks fun asset book hbook => ?_)
  · rw [(quotedCache_consistent entry.assetId book h).2]
    decide
  · simp only [quotedCache] at hbook
    split at hbook
    · rename_i hasset
      subst hasset
      obtain rfl := Option.some.inj hbook
      decide +kernel
    · cases hbook

end OddsfoxExecution
