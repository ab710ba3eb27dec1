import OddsfoxExecution.Polymarket.Books

/-!
# What happens when a book is lost

A book leaves the cache only under the task of a stream, and that task raises a
gap before it does anything else.  As long as no gap is raised a cached book
stays, and its time does not go back.
-/

namespace OddsfoxExecution

/-! ## One update -/

/-- A cache keeps the books of another, none of them older. -/
def KeepsBooks (books books' : String → Option OrderBook) : Prop :=
  ∀ asset book, books asset = some book →
    ∃ next, books' asset = some next ∧ book.observedAt ≤ next.observedAt

theorem KeepsBooks.refl (books : String → Option OrderBook) : KeepsBooks books books :=
  fun _ book h => ⟨book, h, le_refl _⟩

theorem KeepsBooks.trans {a b c : String → Option OrderBook} (h : KeepsBooks a b)
    (h' : KeepsBooks b c) : KeepsBooks a c := by
  intro asset book hbook
  obtain ⟨next, hnext, hle⟩ := h asset book hbook
  obtain ⟨last, hlast, hle'⟩ := h' asset next hnext
  exact ⟨last, hlast, hle.trans hle'⟩

theorem KeepsBooks.update {books : String → Option OrderBook} {asset : String} {next : OrderBook}
    (h : ∀ book, books asset = some book → book.observedAt ≤ next.observedAt) :
    KeepsBooks books (Function.update books asset (some next)) := by
  intro other book hbook
  by_cases hasset : other = asset
  · subst hasset
    exact ⟨next, Function.update_self .., h book hbook⟩
  · exact ⟨book, by rw [Function.update_of_ne hasset]; exact hbook, le_refl _⟩

namespace BookCache

variable {cache : BookCache} {observedAt : Time}

theorem applyEntry_keeps (cache : BookCache) (observedAt : Time) (entry : PriceChangeEntry) :
    (cache.applyEntry observedAt entry).gaps = cache.gaps + 1 ∨
      (cache.applyEntry observedAt entry).gaps = cache.gaps ∧
        KeepsBooks cache.books (cache.applyEntry observedAt entry).books := by
  unfold applyEntry
  cases hbook : cache.books entry.assetId with
  | none => exact Or.inr ⟨rfl, .refl _⟩
  | some book =>
    dsimp only
    split
    · exact Or.inl rfl
    · rename_i htime
      split
      · refine Or.inr ⟨rfl, .update fun book' hbook' => ?_⟩
        rw [hbook] at hbook'
        obtain rfl := Option.some.inj hbook'
        exact not_lt.mp htime
      · exact Or.inl rfl

theorem applyPriceChanges_keeps (entries : List PriceChangeEntry) :
    cache.gaps ≤ (cache.applyPriceChanges observedAt entries).gaps ∧
      ((cache.applyPriceChanges observedAt entries).gaps = cache.gaps →
        KeepsBooks cache.books (cache.applyPriceChanges observedAt entries).books) := by
  unfold applyPriceChanges
  induction entries generalizing cache with
  | nil => exact ⟨Nat.le_refl _, fun _ => .refl _⟩
  | cons entry rest ih =>
    obtain ⟨hmore, hkeeps⟩ := @ih (cache.applyEntry observedAt entry)
    rw [List.foldl_cons]
    rcases applyEntry_keeps cache observedAt entry with hgap | ⟨hsame, hstep⟩
    · exact ⟨by omega, fun heq => by omega⟩
    · exact ⟨by omega, fun heq => hstep.trans (hkeeps (by omega))⟩

end BookCache

theorem BookUpdate.apply_keeps {books : String → Option OrderBook} {update : BookUpdate}
    (h : (update.apply ⟨books, 0⟩).gaps = 0) :
    KeepsBooks books (update.apply ⟨books, 0⟩).books := by
  cases update with
  | snapshot assetId next =>
    simp only [apply] at h ⊢
    split at h
    · cases h
    · rename_i haccepted
      rw [if_neg haccepted]
      refine .update fun book hbook => ?_
      by_contra hnewer
      exact haccepted (Or.inl (by simp [hbook, not_le.mp hnewer]))
  | priceChanges observedAt entries => exact (BookCache.applyPriceChanges_keeps entries).2 h
  | lost assetId => cases h

/-! ## What a task owes -/

/-- The last call of a task was an update that made gaps. -/
def Owes (made : VenueCalls) : Prop :=
  ∃ update gaps, made.head? = some ⟨.updateBooks update, gaps⟩ ∧ gaps ≠ 0

/-- Only a stream task updates books; one that owes a gap raises it next. -/
def OwedPromise (task : PolymarketTask) (made : VenueCalls) (c : PolymarketCall) : Prop :=
  (Owes made → c = .bump .streamGaps) ∧ (c.update? ≠ none → task.droppable = false)

theorem not_owes_cons {made : VenueCalls} {c : PolymarketCall} {r : c.Answer}
    (hc : c.update? = none) : ¬ Owes (⟨c, r⟩ :: made) := by
  rintro ⟨update, gaps, hhead, -⟩
  obtain ⟨rfl, -⟩ := Sigma.mk.inj (Option.some.inj hhead)
  cases hc

theorem not_owes_nil : ¬ Owes [] := by
  rintro ⟨_, _, hhead, -⟩
  cases hhead

/-- The action leaves the cached books alone. -/
abbrev LeavesBooks {α : Type} (x : VenueAction α) : Prop :=
  Prog.Gives (fun c : PolymarketCall => c.update? = none) x fun _ _ => True

theorem leavesBooks_of_plainly {α : Type} {x : VenueAction α} {Q : VenueCalls → α → Prop}
    (h : Plainly x Q) : LeavesBooks x := by
  refine (h.kind fun c hc => ?_).calls
  cases c with
  | updateBooks => cases hc
  | _ => rfl

theorem leavesBooks_perform {c : PolymarketCall} (hc : c.update? = none) :
    LeavesBooks (VenueAction.perform c) := .perform hc fun _ => trivial

theorem LeavesBooks.owed {α : Type} {x : VenueAction α} (h : LeavesBooks x)
    {task : PolymarketTask} {made : VenueCalls} (hmade : ¬ Owes made) :
    x.run.wp (OwedPromise task) (fun made _ => ¬ Owes made) made :=
  h.wp hmade (fun _ _ _ _ hc => not_owes_cons hc)
    (fun _ _ howes hc => ⟨fun h => absurd h howes, fun hne => absurd hc hne⟩)
    fun _ _ howes _ => howes

section Tasks

variable {self : PolymarketVenue}

theorem leavesBooks_submit {prepared : PreparedVenueOrder} {request : OrderIntentRequest} :
    LeavesBooks (self.submit prepared request) := by
  unfold PolymarketVenue.submit
  split
  · exact .throw
  · refine (leavesBooks_of_plainly plainly_orThrow).bind fun signed _ _ => ?_
    refine (leavesBooks_perform rfl).bind fun answer _ _ => ?_
    cases answer with
    | ok response => exact leavesBooks_of_plainly plainly_orThrow
    | error e => exact .throw

theorem leavesBooks_reconcile : LeavesBooks self.reconcile := by
  refine (leavesBooks_perform rfl).bind fun users _ _ => ?_
  refine (leavesBooks_perform rfl).bind fun gaps _ _ => ?_
  refine (leavesBooks_of_plainly plainly_ensureTradingAllowed).bind fun _ _ _ => ?_
  refine (leavesBooks_perform rfl).bind fun connected _ _ => ?_
  split
  · refine (leavesBooks_of_plainly plainly_readAccount).bind fun read _ _ => ?_
    refine (leavesBooks_of_plainly plainly_marketStreamAlive).bind fun alive _ _ => ?_
    split
    · refine (leavesBooks_perform rfl).bind fun _ _ _ => ?_
      exact (leavesBooks_perform rfl).bind fun _ _ _ => .pure trivial
    · exact .throw
  · exact .throw

theorem leavesBooks_heartbeat : LeavesBooks PolymarketVenue.heartbeat := by
  refine (leavesBooks_perform rfl).bind fun connected _ _ => ?_
  split
  · refine (leavesBooks_of_plainly plainly_marketStreamAlive).bind fun alive _ _ => ?_
    split
    · refine (leavesBooks_perform rfl).bind fun gaps _ _ => ?_
      refine (leavesBooks_perform rfl).bind fun reconciled _ _ => ?_
      split
      · have hpost : LeavesBooks PolymarketVenue.postHeartbeat := by
          refine (leavesBooks_perform rfl).bind fun heartbeatId _ _ => ?_
          have hclient : LeavesBooks (VenueAction.client (.postHeartbeat heartbeatId)) :=
            (gives_client (K := fun c => c.update? = none) rfl).calls
          refine hclient.bind fun response _ _ => ?_
          split
          · exact .throw
          · exact leavesBooks_perform rfl
        exact gives_withLock hpost rfl rfl
      · exact .throw
    · exact .throw
  · exact .throw

theorem leavesBooks_method (call : VenueCall) : LeavesBooks (self.method call) := by
  cases call with
  | marketRules => exact leavesBooks_of_plainly plainly_marketRules
  | orderBook => exact leavesBooks_of_plainly plainly_orderBook
  | prepare => exact leavesBooks_of_plainly plainly_prepare
  | submit => exact leavesBooks_submit
  | cancel => exact leavesBooks_of_plainly plainly_cancel
  | reconcile => exact leavesBooks_reconcile
  | findOrder => exact leavesBooks_of_plainly plainly_findOrder
  | heartbeat => exact leavesBooks_heartbeat

theorem leavesBooks_bumpGaps (gaps : Nat) : LeavesBooks (bumpGaps gaps) := by
  induction gaps with
  | zero => exact .pure trivial
  | succ gaps ih => exact (leavesBooks_perform rfl).bind fun _ _ _ => ih

theorem owed_changeBooks {task : PolymarketTask} (htask : task.droppable = false)
    {update : BookUpdate} {made : VenueCalls} (hmade : ¬ Owes made) :
    (changeBooks update).run.wp (OwedPromise task) (fun made _ => ¬ Owes made) made := by
  refine VenueAction.wp_performBind.mpr
    ⟨⟨fun howes => absurd howes hmade, fun _ => htask⟩, fun gaps => ?_⟩
  cases gaps with
  | zero =>
    rintro ⟨_, _, hhead, hne⟩
    obtain ⟨_, hgaps⟩ := Sigma.mk.inj (Option.some.inj hhead)
    simp_all
  | succ gaps =>
    refine VenueAction.wp_performBind.mpr ⟨⟨fun _ => rfl, fun hne => absurd rfl hne⟩, fun _ => ?_⟩
    exact (leavesBooks_bumpGaps gaps).owed (not_owes_cons rfl)

theorem owed_message {task : PolymarketTask} (htask : task.droppable = false)
    {timestamp : Option Time} {update : Time → BookUpdate} :
    (do
      let observedAt ← observedAtOrNow timestamp
      changeBooks (update observedAt) : VenueAction Unit).run.wp (OwedPromise task)
        (fun made _ => ¬ Owes made) [] := by
  have htime : LeavesBooks (observedAtOrNow timestamp) := by
    cases timestamp with
    | some observedAt => exact .pure trivial
    | none => exact leavesBooks_perform rfl
  refine Prog.wp_run_bind.mpr (Prog.wp_mono (htime.owed not_owes_nil) fun made result howes => ?_)
  cases result with
  | ok observedAt => exact owed_changeBooks htask howes
  | error e => exact howes

/-- Every task raises the gaps it owes before its next call, and ends owing nothing. -/
theorem polymarket_owed (task : PolymarketTask) :
    (self.program task).wp (OwedPromise task) (fun made _ => ¬ Owes made) [] := by
  cases task with
  | method call =>
    have haction : LeavesBooks (self.action (.method call)) :=
      (leavesBooks_method call).attempt.calls.bind fun _ _ _ => leavesBooks_perform rfl
    exact haction.owed not_owes_nil
  | reconciliationRequired =>
    have haction : LeavesBooks (self.action .reconciliationRequired) := by
      have hrequired : LeavesBooks PolymarketVenue.reconciliationRequired :=
        (leavesBooks_perform rfl).bind fun _ _ _ => (leavesBooks_perform rfl).bind
          fun _ _ _ => .pure trivial
      exact hrequired.bind fun _ _ _ => leavesBooks_perform rfl
    exact haction.owed not_owes_nil
  | userMessage message =>
    have haction : LeavesBooks (onUserMessage message) := by
      cases message <;> exact leavesBooks_perform rfl
    exact haction.owed not_owes_nil
  | bookMessage tokenId message =>
    cases message with
    | ok book => exact owed_message rfl
    | error | ended => exact owed_changeBooks rfl not_owes_nil
  | priceMessage tokenId message =>
    cases message with
    | ok change => exact owed_message rfl
    | error | ended => exact owed_changeBooks rfl not_owes_nil

end Tasks

/-! ## Runs -/

/-- A stream task that is about to raise a gap. -/
def GapPending (s : PolymarketSystem) : Prop :=
  ∃ t task made next, s.threads t = some ⟨task, made, .call (.bump .streamGaps) next⟩ ∧
    task.droppable = false

namespace PolymarketVenue.Reaches

variable {self : PolymarketVenue} {s : PolymarketSystem}

theorem keeps_owed (h : self.Reaches s) {t : Nat}
    {thread : Thread PolymarketCall PolymarketCall.Answer PolymarketTask (Except VenueError Unit)}
    (ht : s.threads t = some thread) :
    thread.rest.wp (OwedPromise thread.task) (fun made _ => ¬ Owes made) thread.made :=
  Machine.Reaches.promised (fun _ task _ _ => polymarket_owed task) h ht

/-- After a call a book is still cached, or the task that lost it is about to raise a gap. -/
theorem kept_or_pending (h : self.Reaches s) {t : Nat} {task : PolymarketTask} {made : VenueCalls}
    {c : PolymarketCall} {next : c.Answer → Prog PolymarketCall PolymarketCall.Answer
      (Except VenueError Unit)} {r : c.Answer} {memory : PolymarketMemory}
    (ht : s.threads t = some ⟨task, made, .call c next⟩) (hanswer : c.answers s.memory t r memory) :
    KeepsBooks s.memory.books memory.books ∨
      GapPending (s.perform t task made ⟨c, r⟩ (next r) memory) := by
  cases hupdate : c.update? with
  | none => exact Or.inl (PolymarketCall.answers_books hanswer hupdate ▸ .refl _)
  | some update =>
    obtain ⟨⟨-, hundroppable⟩, hrest⟩ := h.keeps_owed ht
    have htask := hundroppable (by simp [hupdate])
    have hc : c = .updateBooks update := by
      cases c with
      | updateBooks => exact congrArg _ (Option.some.inj hupdate)
      | _ => cases hupdate
    subst hc
    obtain ⟨rfl, rfl⟩ := hanswer
    rcases Nat.eq_zero_or_pos (update.apply ⟨s.memory.books, 0⟩).gaps with hgaps | hgaps
    · exact Or.inl (BookUpdate.apply_keeps hgaps)
    · right
      -- the gaps are owed, so the task cannot end here and its next call is a gap
      have howes : Owes (⟨.updateBooks update, (update.apply ⟨s.memory.books, 0⟩).gaps⟩ :: made) :=
        ⟨update, _, rfl, hgaps.ne'⟩
      have hnext := hrest (update.apply ⟨s.memory.books, 0⟩).gaps
      cases hrun : next (update.apply ⟨s.memory.books, 0⟩).gaps with
      | pure value =>
        rw [hrun] at hnext
        exact absurd howes hnext
      | call c' next' =>
        rw [hrun] at hnext
        obtain rfl := hnext.1.1 howes
        exact ⟨t, task, _, next', Function.update_self .., htask⟩

/-- A stream task goes on to raise its gap whatever the others call. -/
theorem pending_call {t : Nat} {task : PolymarketTask} {made : VenueCalls} {c : PolymarketCall}
    {next : c.Answer → Prog PolymarketCall PolymarketCall.Answer (Except VenueError Unit)}
    {r : c.Answer} {rest : Prog PolymarketCall PolymarketCall.Answer (Except VenueError Unit)}
    (memory : PolymarketMemory) (hpending : GapPending s)
    (ht : s.threads t = some ⟨task, made, .call c next⟩) :
    (⟨c, r⟩ : Sigma PolymarketCall.Answer) = ⟨.bump .streamGaps, ()⟩ ∨
      GapPending (s.perform t task made ⟨c, r⟩ rest memory) := by
  obtain ⟨t', task', made', next', ht', htask'⟩ := hpending
  by_cases hthread : t' = t
  · subst hthread
    rw [ht] at ht'
    cases ht'
    exact Or.inl rfl
  · exact Or.inr ⟨t', task', made', next', (Function.update_of_ne hthread ..).trans ht', htask'⟩

theorem pending_add (h : self.Reaches s) (hpending : GapPending s) (task : PolymarketTask)
    (memory : PolymarketMemory) : GapPending (s.add self.machine task memory) := by
  obtain ⟨t, task', made, next, ht, htask⟩ := hpending
  have hne : t ≠ s.fresh := Nat.ne_of_lt (h.consistent.drawn t _ ht)
  exact ⟨t, task', made, next, (Function.update_of_ne hne ..).trans ht, htask⟩

theorem pending_remove (hpending : GapPending s) {t : Nat}
    {thread : Thread PolymarketCall PolymarketCall.Answer PolymarketTask (Except VenueError Unit)}
    (ht : s.threads t = some thread) (hdroppable : thread.task.droppable = true)
    (memory : PolymarketMemory) : GapPending (s.remove t memory) := by
  obtain ⟨t', task', made, next, ht', htask⟩ := hpending
  have hne : t' ≠ t := by
    rintro rfl
    rw [ht] at ht'
    cases ht'
    exact nomatch hdroppable.symm.trans htask
  exact ⟨t', task', made, next, (Function.update_of_ne hne ..).trans ht', htask⟩

/-- A book that was cached still is, and has not gone back in time, unless a gap was raised since
or a stream task is about to raise one. -/
theorem kept_or_raised (h : self.Reaches s) {after before : List VenueEvent} {e : VenueEvent}
    {asset : String} {book : OrderBook} (heq : s.history = after ++ e :: before)
    (hprocess : e.found.process = s.memory.process) (hcached : e.found.books asset = some book) :
    (∃ next, s.memory.books asset = some next ∧ book.observedAt ≤ next.observedAt) ∨
      (∃ gap ∈ after, gap.entry = ⟨.bump .streamGaps, ()⟩) ∨ GapPending s := by
  induction h generalizing after with
  | start => cases after <;> cases heq
  | @call p t task made c next r memory hp ht hanswer _ ih =>
    change e.found.process = memory.process at hprocess
    rw [PolymarketCall.answers_process hanswer] at hprocess
    have hstep := kept_or_pending hp ht hanswer
    cases after with
    | nil =>
      obtain ⟨rfl, rfl⟩ := List.cons.inj heq
      rcases hstep with hkeeps | hpending
      · exact Or.inl (hkeeps asset book hcached)
      · exact Or.inr (Or.inr hpending)
    | cons latest after =>
      obtain ⟨rfl, hrest⟩ := List.cons.inj heq
      rcases ih hrest hprocess with ⟨next', hnext, hle⟩ | ⟨gap, hgap, hentry⟩ | hpending
      · rcases hstep with hkeeps | hpending
        · obtain ⟨last, hlast, hle'⟩ := hkeeps asset next' hnext
          exact Or.inl ⟨last, hlast, hle.trans hle'⟩
        · exact Or.inr (Or.inr hpending)
      · exact Or.inr (Or.inl ⟨gap, List.mem_cons_of_mem _ hgap, hentry⟩)
      · rcases pending_call memory hpending ht with hentry | hpending
        · exact Or.inr (Or.inl ⟨_, List.mem_cons_self, hentry⟩)
        · exact Or.inr (Or.inr hpending)
  | @arrive p task memory hp harrives ih =>
    have hmemory : memory = p.memory := by
      cases task with
      | bookMessage | priceMessage => exact harrives.2
      | _ => exact harrives
    subst hmemory
    exact (ih heq hprocess).imp_right (Or.imp_right fun hpending => pending_add hp hpending _ _)
  | drop _ ht hdroppable ih =>
    exact (ih heq hprocess).imp_right
      (Or.imp_right fun hpending => pending_remove hpending ht hdroppable _)
  | surroundings _ hchange => exact hchange.elim
  | @crash p hp ih =>
    -- the memory is that of a venue no event has seen
    have hknown := (generations hp).known e (by rw [show p.history = _ from heq]; simp)
    change e.found.process = p.memory.process + 1 at hprocess
    omega

end PolymarketVenue.Reaches

/-- The history went on from `s` to `s'` with a stream gap. -/
def RaisedSince (s s' : PolymarketSystem) : Prop :=
  ∃ newer, s'.history = newer ++ s.history ∧ ∃ gap ∈ newer, gap.entry = ⟨.bump .streamGaps, ()⟩

/-- However the venue goes on without a crash, a stream task has raised a gap or is about to, and
nothing keeps it from doing so. -/
structure PolymarketVenue.RaisesGap (self : PolymarketVenue) (s : PolymarketSystem) : Prop where
  pending : GapPending s
  kept : ∀ s', self.machine.Continues (fun _ _ _ => True) s s' → RaisedSince s s' ∨ GapPending s'
  free : ∀ s', self.machine.Continues (fun _ _ _ => True) s s' → GapPending s' →
    ∃ s'', self.machine.Continues (fun _ _ _ => True) s' s'' ∧ RaisedSince s' s''

namespace PolymarketVenue.Reaches

variable {self : PolymarketVenue} {s : PolymarketSystem}

theorem raised_or_pending (h : self.Reaches s) (hpending : GapPending s) {s' : PolymarketSystem}
    (hs' : self.machine.Continues (fun _ _ _ => True) s s') : RaisedSince s s' ∨ GapPending s' := by
  induction hs' with
  | refl => exact Or.inr hpending
  | @call q t task made c next r memory hq ht _ _ ih =>
    rcases ih with ⟨newer, hhistory, gap, hgap, hentry⟩ | hpending
    · exact Or.inl ⟨_ :: newer, congrArg (List.cons _) hhistory, gap, List.mem_cons_of_mem _ hgap,
        hentry⟩
    · refine (pending_call memory hpending ht).imp_left fun hentry => ?_
      obtain ⟨newer, hhistory⟩ := hq.history
      exact ⟨_ :: newer, congrArg (List.cons _) hhistory.symm, _, List.mem_cons_self, hentry⟩
  | arrive hq _ ih => exact ih.imp_right fun hpending => pending_add (h.continues hq) hpending _ _
  | drop _ ht hdroppable ih =>
    exact ih.imp_right fun hpending => pending_remove hpending ht hdroppable _
  | surroundings _ hchange => exact hchange.elim

theorem raisesGap (h : self.Reaches s) (hpending : GapPending s) : self.RaisesGap s := by
  refine ⟨hpending, fun s' => h.raised_or_pending hpending, fun s' _ hpending' => ?_⟩
  obtain ⟨t, task, made, next, ht, -⟩ := hpending'
  exact ⟨_, .call .refl ht rfl trivial, [_], rfl, _, List.mem_singleton_self _, rfl⟩

/-- A book that was cached still is, and has not gone back in time, unless a gap was raised since
or a stream task is about to raise one and will whatever the others do. -/
theorem lost_book_raises_gap (h : self.Reaches s) {after before : List VenueEvent} {e : VenueEvent}
    {asset : String} {book : OrderBook} (heq : s.history = after ++ e :: before)
    (hprocess : e.found.process = s.memory.process) (hcached : e.found.books asset = some book) :
    (∃ next, s.memory.books asset = some next ∧ book.observedAt ≤ next.observedAt) ∨
      (∃ gap ∈ after, gap.entry = ⟨.bump .streamGaps, ()⟩) ∨ self.RaisesGap s :=
  (h.kept_or_raised heq hprocess hcached).imp_right (Or.imp_right h.raisesGap)

end PolymarketVenue.Reaches

/-! ## A snapshot older than the cached one -/

def lossSchedule : VenueSchedule :=
  [.arrive (.method (.marketRules "condition" "7")), .calls 0 8 sampleClients,
    .arrive (.bookMessage "7" (.ok ⟨7, [⟨1 / 2, 10⟩], [⟨3 / 5, 10⟩], some 5, none⟩)),
    .calls 1 1 sampleClients,
    .arrive (.bookMessage "7" (.ok ⟨7, [⟨1 / 2, 10⟩], [⟨3 / 5, 10⟩], some 1, none⟩)),
    .calls 2 1 sampleClients]

/-- The latest call found a book of token `7` that is gone now. -/
def losesBook (s : PolymarketSystem) : Bool :=
  (s.memory.books "7").isNone && s.history.head?.any fun e =>
    (e.found.books "7").isSome && decide (e.found.process = s.memory.process)

theorem lost_book_raises_gap_run : ∃ s, sampleVenueAdapter.Reaches s ∧
    s.memory.books "7" = none ∧ sampleVenueAdapter.RaisesGap s := by
  obtain ⟨s, hs, htest⟩ := exists_scheduled lossSchedule losesBook (by decide +kernel)
  obtain ⟨hnone, hlatest⟩ := (Bool.and_eq_true _ _).mp htest
  obtain ⟨e, he, hfound⟩ := (Option.any_eq_true _ _).mp hlatest
  obtain ⟨before, heq⟩ := List.head?_eq_some_iff.mp he
  obtain ⟨hbook, hprocess⟩ := (Bool.and_eq_true _ _).mp hfound
  obtain ⟨book, hcached⟩ := Option.isSome_iff_exists.mp hbook
  have hnone := Option.isNone_iff_eq_none.mp hnone
  refine ⟨s, hs, hnone, ?_⟩
  have hsplit : s.history = [] ++ e :: before := heq
  rcases hs.lost_book_raises_gap hsplit (of_decide_eq_true hprocess) hcached with
    ⟨next, hnext, -⟩ | ⟨gap, hgap, -⟩ | hpending
  · rw [hnone] at hnext
    cases hnext
  · cases hgap
  · exact hpending

end OddsfoxExecution
