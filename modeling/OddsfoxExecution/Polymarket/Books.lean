import OddsfoxExecution.Polymarket.Generations

/-!
# What the book cache holds

Two streams write the cached book of a token, in any order and beside those of
other tokens.  A book that is cached is what the last snapshot of its asset
says, with every price change since, and its time never went back; `order_book`
serves such a book while it is fresh, and otherwise one it has checked.
-/

namespace OddsfoxExecution

/-- A book is another one with price changes on top, each at a time of its own. -/
structure Replay (first : OrderBook) (entries : List (Time × PriceChangeEntry))
    (book : OrderBook) : Prop where
  quotes : book.quotes = first.quotes.overlay (entries.map Prod.snd)
  times : (first.observedAt :: entries.map Prod.fst).Pairwise (· ≤ ·)
  last : (first.observedAt :: entries.map Prod.fst).getLast? = some book.observedAt

theorem Replay.start (book : OrderBook) : Replay book [] book := ⟨rfl, by simp, rfl⟩

theorem Replay.entry {first book : OrderBook} {entries : List (Time × PriceChangeEntry)}
    (h : Replay first entries book) {observedAt : Time} (entry : PriceChangeEntry)
    (htime : book.observedAt ≤ observedAt) :
    Replay first (entries ++ [(observedAt, entry)]) (book.applyEntry observedAt entry) where
  quotes := by
    rw [OrderBook.quotes_applyEntry, h.quotes]
    simp [Quotes.overlay, Overlay.overlay, List.foldl_append]
  times := by
    rw [List.map_append, ← List.cons_append, List.pairwise_append]
    refine ⟨h.times, by simp, fun earlier hearlier later hlater => ?_⟩
    obtain rfl : later = observedAt := by simpa using hlater
    -- no time before the last is later than the last
    obtain ⟨init, hinit⟩ := List.getLast?_eq_some_iff.mp h.last
    have htimes := h.times
    rw [hinit] at hearlier htimes
    rcases List.mem_append.mp hearlier with hin | hin
    · have hle := (List.pairwise_append.mp htimes).2.2 earlier hin book.observedAt (by simp)
      exact hle.trans htime
    · obtain rfl := List.mem_singleton.mp hin
      exact htime
  last := by
    rw [List.map_append, ← List.cons_append, List.getLast?_append]
    rfl

/-- The entries of one message for an asset, each at the time of the message. -/
def entriesAt (asset : String) (observedAt : Time) (entries : List PriceChangeEntry) :
    List (Time × PriceChangeEntry) :=
  (entriesOf asset entries).map fun entry => (observedAt, entry)

/-- A book that is cached after a message was cached before, and took its entries in order. -/
theorem replay_applyPriceChanges {cache : BookCache} {observedAt : Time}
    {changes : List PriceChangeEntry} {asset : String} {after : OrderBook}
    (h : (cache.applyPriceChanges observedAt changes).books asset = some after) :
    ∃ book, cache.books asset = some book ∧
      (bookIsConsistent book = true → bookIsConsistent after = true) ∧
      ∀ first entries, Replay first entries book →
        Replay first (entries ++ entriesAt asset observedAt changes) after := by
  unfold BookCache.applyPriceChanges at h
  induction changes generalizing cache with
  | nil =>
    exact ⟨after, h, id, fun _ entries hreplay => by simpa [entriesAt, entriesOf] using hreplay⟩
  | cons entry rest ih =>
    obtain ⟨next, hnext, hconsistent, hreplay⟩ := ih h
    rw [BookCache.books_applyEntry] at hnext
    by_cases hasset : entry.assetId = asset
    · rw [if_pos hasset] at hnext
      obtain ⟨book, hbook, hstep⟩ := Option.bind_eq_some_iff.mp hnext
      split at hstep
      · cases hstep
      · rename_i htime
        split at hstep
        · rename_i hok
          cases hstep
          refine ⟨book, hbook, fun _ => hconsistent hok, fun first entries hbefore => ?_⟩
          have hafter := hreplay first _ (hbefore.entry entry (not_lt.mp htime))
          simpa [entriesAt, entriesOf, hasset] using hafter
        · cases hstep
    · rw [if_neg hasset] at hnext
      refine ⟨next, hnext, hconsistent, fun first entries hbefore => ?_⟩
      simpa [entriesAt, entriesOf, hasset] using hreplay first entries hbefore

/-! ## The cache over a run -/

/-- The update says anew what the cache holds of the asset. -/
def BookUpdate.resets (asset : String) : BookUpdate → Bool
  | .snapshot assetId _ | .lost assetId => assetId = asset
  | .priceChanges .. => false

def BookUpdate.entries (asset : String) : BookUpdate → List (Time × PriceChangeEntry)
  | .priceChanges observedAt changes => entriesAt asset observedAt changes
  | .snapshot .. | .lost _ => []

def PolymarketCall.update? : PolymarketCall → Option BookUpdate
  | .updateBooks update => some update
  | _ => none

/-- The price changes of an asset in a part of a history, in the order they were made. -/
def entriesIn (asset : String) : List VenueEvent → List (Time × PriceChangeEntry)
  | [] => []
  | e :: before => entriesIn asset before ++ (e.entry.1.update?.map (·.entries asset)).getD []

/-- The book is the last snapshot of its asset with everything since, all by one venue. -/
def CachedIn (process : Nat) (history : List VenueEvent) (asset : String) (book : OrderBook) :
    Prop :=
  ∃ later snapshot earlier first, history = later ++ snapshot :: earlier ∧
    snapshot.entry.1 = .updateBooks (.snapshot asset first) ∧
    (∀ e ∈ snapshot :: later, e.found.process = process) ∧
    (∀ e ∈ later, ∀ update, e.entry.1.update? = some update → update.resets asset = false) ∧
    Replay first (entriesIn asset later) book

/-- An event that does not reset the asset adds its price changes. -/
theorem CachedIn.extend {process : Nat} {history : List VenueEvent} {asset : String}
    {book after : OrderBook} (h : CachedIn process history asset book) {e : VenueEvent}
    (he : e.found.process = process)
    (hresets : ∀ update, e.entry.1.update? = some update → update.resets asset = false)
    (hreplay : ∀ first entries, Replay first entries book →
      Replay first (entries ++ (e.entry.1.update?.map (·.entries asset)).getD []) after) :
    CachedIn process (e :: history) asset after := by
  obtain ⟨later, snapshot, earlier, first, rfl, hsnapshot, hprocess, hkept, hbook⟩ := h
  refine ⟨e :: later, snapshot, earlier, first, rfl, hsnapshot, ?_,
    List.forall_mem_cons.mpr ⟨hresets, hkept⟩, hreplay first _ hbook⟩
  intro e' he'
  rcases List.mem_cons.mp he' with rfl | he'
  · exact hprocess _ List.mem_cons_self
  · rcases List.mem_cons.mp he' with rfl | he'
    · exact he
    · exact hprocess e' (List.mem_cons_of_mem _ he')

theorem PolymarketCall.answers_books {m m' : PolymarketMemory} {t : Nat} {c : PolymarketCall}
    {r : c.Answer} (h : c.answers m t r m') (hc : c.update? = none) : m'.books = m.books := by
  cases c with
  | updateBooks => cases hc
  | lock | subscriptions | heartbeatId | load | loadReconciled | cachedBook =>
    obtain ⟨-, rfl⟩ := h
    rfl
  | hashOrder =>
    obtain ⟨-, -, rfl⟩ := h
    rfl
  | _ =>
    cases h
    rfl

/-- What an update leaves cached: a consistent snapshot, or what was there with its changes. -/
theorem BookUpdate.apply_some {cache : BookCache} {update : BookUpdate} {asset : String}
    {after : OrderBook} (h : (update.apply cache).books asset = some after) :
    (update = .snapshot asset after ∧ bookIsConsistent after = true) ∨
      update.resets asset = false ∧ ∃ book, cache.books asset = some book ∧
        (bookIsConsistent book = true → bookIsConsistent after = true) ∧
        ∀ first entries, Replay first entries book →
          Replay first (entries ++ update.entries asset) after := by
  have hsame : ∀ {books : String → Option OrderBook} {assetId : String} {value : Option OrderBook},
      Function.update books assetId value asset = some after → assetId ≠ asset →
        books asset = some after := fun hbook hne => by
    rwa [Function.update_of_ne (Ne.symm hne)] at hbook
  have hkept : cache.books asset = some after → ∃ book, cache.books asset = some book ∧
      (bookIsConsistent book = true → bookIsConsistent after = true) ∧
      ∀ first entries, Replay first entries book → Replay first (entries ++ []) after :=
    fun hbook => ⟨after, hbook, id, fun _ _ hreplay => by rwa [List.append_nil]⟩
  cases update with
  | snapshot assetId next =>
    by_cases hasset : assetId = asset
    · subst hasset
      left
      simp only [apply] at h
      split at h
      · simp [BookCache.lose] at h
      · rename_i haccepted
        obtain rfl : next = after := by simpa using h
        refine ⟨rfl, ?_⟩
        by_contra hinconsistent
        exact haccepted (Or.inr (Bool.eq_false_of_not_eq_true hinconsistent))
    · right
      refine ⟨decide_eq_false hasset, hkept ?_⟩
      simp only [apply] at h
      split at h
      · exact hsame h hasset
      · exact hsame h hasset
  | priceChanges observedAt changes =>
    exact Or.inr ⟨rfl, replay_applyPriceChanges h⟩
  | lost assetId =>
    by_cases hasset : assetId = asset
    · subst hasset
      simp [apply, BookCache.lose] at h
    · exact Or.inr ⟨decide_eq_false hasset, hkept (hsame h hasset)⟩

namespace PolymarketVenue.Reaches

variable {self : PolymarketVenue} {s : PolymarketSystem}

/-- Every cached book passes the check, and is the last snapshot of its asset with every price
change since, in whatever order the streams of any number of tokens were handled. -/
theorem cached_replayed (h : self.Reaches s) {asset : String} {book : OrderBook}
    (hbook : s.memory.books asset = some book) :
    bookIsConsistent book = true ∧ CachedIn s.memory.process s.history asset book := by
  induction h generalizing book with
  | start => cases hbook
  | @call p t task made c next r memory hp ht hanswer _ ih =>
    have hprocess : memory.process = p.memory.process := PolymarketCall.answers_process hanswer
    have hbook : memory.books asset = some book := hbook
    change _ ∧ CachedIn memory.process (⟨t, task, p.memory, ⟨c, r⟩⟩ :: p.history) asset book
    rw [hprocess]
    cases hupdate : c.update? with
    | none =>
      rw [PolymarketCall.answers_books hanswer hupdate] at hbook
      obtain ⟨hconsistent, hcached⟩ := ih hbook
      refine ⟨hconsistent, hcached.extend rfl (fun update hsome => ?_)
        fun first entries hreplay => ?_⟩
      · rw [show c.update? = some update from hsome] at hupdate
        cases hupdate
      · simpa [hupdate] using hreplay
    | some update =>
      have hc : c = .updateBooks update := by
        cases c with
        | updateBooks => exact congrArg _ (Option.some.inj hupdate)
        | _ => cases hupdate
      subst hc
      obtain ⟨-, rfl⟩ := hanswer
      rcases BookUpdate.apply_some hbook with ⟨rfl, hconsistent⟩ | ⟨hresets, before, hbefore,
        hconsistent, hreplay⟩
      · exact ⟨hconsistent, [], _, p.history, book, rfl, rfl, by simp, by simp, .start book⟩
      · obtain ⟨hok, hcached⟩ := ih hbefore
        refine ⟨hconsistent hok, hcached.extend rfl (fun update' hsome => ?_) hreplay⟩
        obtain rfl := Option.some.inj hsome
        exact hresets
  | @arrive p task memory _ harrives ih =>
    have hmemory : memory = p.memory := by
      cases task with
      | bookMessage | priceMessage => exact harrives.2
      | _ => exact harrives
    subst hmemory
    exact ih hbook
  | drop _ _ _ ih => exact ih hbook
  | surroundings _ hchange => exact hchange.elim
  | crash => cases hbook

/-- A book that `order_book` returns passes the check.  It was cached at most two seconds after its
time, and then it is the replay of its streams, or it was fetched for the caller. -/
theorem served_book (h : self.Reaches s) {after before : List VenueEvent} {e : VenueEvent}
    {tokenId : String} {book : OrderBook} (heq : s.history = after ++ e :: before)
    (he : e.entry = ⟨.reply (.method (.orderBook tokenId) (.ok book)), ()⟩) :
    bookIsConsistent book = true ∧
      ((∃ between read older now, before = between ++ read :: older ∧ read.thread = e.thread ∧
          read.entry = ⟨.cachedBook tokenId, some book⟩ ∧
          ⟨.now, now⟩ ∈ ownCalls e.thread between ∧ (now - book.observedAt).tdiv 1000 ≤ 2 ∧
          CachedIn e.found.process older tokenId book) ∨
        ∃ token fetched, self.parseU256 tokenId = .ok token ∧
          answered (.orderBook token) fetched ∈ ownCalls e.thread before ∧
          book = ⟨fetched.bids, fetched.asks, fetched.timestamp, fetched.hash⟩) := by
  have hpromise := h.kept heq
  rw [he] at hpromise
  rcases hpromise.2 with ⟨now, hcalls, hfresh⟩ | ⟨token, fetched, htoken, hfetched, hok, hbook⟩
  · obtain ⟨between, read, older, rfl, hthread, hread, hown, -⟩ :=
      ownCalls_split (a := [⟨PolymarketCall.now, now⟩]) hcalls
    have hsplit : s.history = (after ++ e :: between) ++ read :: older := by
      rw [heq]
      simp
    obtain ⟨p, next, memory, hp, hmemory, hhistory, -, hanswer, -⟩ := h.moment hsplit
    have hprocess := (h.same_task heq (by simp) hthread).2
    rw [hread] at hanswer
    have hbook : p.memory.books tokenId = some book := hmemory ▸ hanswer.1.symm
    obtain ⟨hconsistent, hcached⟩ := cached_replayed hp hbook
    rw [hmemory, hhistory, hprocess] at hcached
    refine ⟨hconsistent,
      Or.inl ⟨between, read, older, now, rfl, hthread, hread, ?_, hfresh, hcached⟩⟩
    rw [hown]
    exact List.mem_cons_self
  · exact ⟨hok, Or.inr ⟨token, fetched, htoken, hfetched, hbook⟩⟩

end PolymarketVenue.Reaches

/-! ## A snapshot and a price change -/

/-- A subscription to token `7`, a snapshot of its book and a better bid. -/
def quotedSchedule : VenueSchedule :=
  [.arrive (.method (.marketRules "condition" "7")), .calls 0 8 sampleClients,
    .arrive (.bookMessage "7" (.ok ⟨7, [⟨1 / 2, 10⟩], [⟨3 / 5, 10⟩], some 0, some "book"⟩)),
    .calls 1 1 sampleClients,
    .arrive (.priceMessage "7" (.ok ⟨some 1, [⟨"7", .buy, 11 / 20, some 5, none⟩]⟩)),
    .calls 2 1 sampleClients]

theorem cached_replayed_run : ∃ s book, sampleVenueAdapter.Reaches s ∧
    s.memory.books "7" = some book ∧ bookIsConsistent book = true ∧
    CachedIn s.memory.process s.history "7" book := by
  obtain ⟨s, hs, htest⟩ := exists_scheduled quotedSchedule
    (fun s => (s.memory.books "7").isSome) (by decide +kernel)
  obtain ⟨book, hbook⟩ := Option.isSome_iff_exists.mp htest
  exact ⟨s, book, hs, hbook, hs.cached_replayed hbook⟩

def servesBook : Sigma PolymarketCall.Answer → Bool
  | ⟨.reply (.method (.orderBook tokenId) (.ok _)), _⟩ => tokenId = "7"
  | _ => false

theorem servesBook_spec {entry : Sigma PolymarketCall.Answer} (h : servesBook entry = true) :
    ∃ book, entry = ⟨.reply (.method (.orderBook "7") (.ok book)), ()⟩ := by
  unfold servesBook at h
  split at h
  · rename_i book _
    obtain rfl := of_decide_eq_true h
    exact ⟨book, rfl⟩
  · cases h

theorem served_book_run : ∃ s e before book, sampleVenueAdapter.Reaches s ∧
    s.history = [] ++ e :: before ∧ e.entry = ⟨.reply (.method (.orderBook "7") (.ok book)), ()⟩ ∧
    bookIsConsistent book = true ∧
      ((∃ between read older now, before = between ++ read :: older ∧ read.thread = e.thread ∧
          read.entry = ⟨.cachedBook "7", some book⟩ ∧
          ⟨.now, now⟩ ∈ ownCalls e.thread between ∧ (now - book.observedAt).tdiv 1000 ≤ 2 ∧
          CachedIn e.found.process older "7" book) ∨
        ∃ token fetched, sampleVenueAdapter.parseU256 "7" = .ok token ∧
          answered (.orderBook token) fetched ∈ ownCalls e.thread before ∧
          book = ⟨fetched.bids, fetched.asks, fetched.timestamp, fetched.hash⟩) := by
  obtain ⟨s, e, before, hs, heq, hserves⟩ := exists_latest
    (quotedSchedule ++ [.arrive (.method (.orderBook "7")), .calls 3 3 sampleClients]) servesBook
    (by decide +kernel)
  obtain ⟨book, he⟩ := servesBook_spec hserves
  exact ⟨s, e, before, book, hs, heq, he, hs.served_book heq he⟩

end OddsfoxExecution
