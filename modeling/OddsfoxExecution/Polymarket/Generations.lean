import OddsfoxExecution.Library.Refresh
import OddsfoxExecution.Polymarket.Conduct

/-!
# What the generations guarantee

The stream tasks bump a generation for every event and for every gap; a
reconciliation loads both before its first request and stores what it loaded
when it is done; the heartbeat and `reconciliation_required` compare.  Whatever
runs side by side, a comparison that finds no difference means that everything
seen before it was followed by a reconciliation that read the whole account.
-/

namespace OddsfoxExecution

def actOn (g : Generation) : Sigma PolymarketCall.Answer → Refresh.Act
  | ⟨.bump g', _⟩ => if g' = g then .bump else .other
  | ⟨.load g', value⟩ => if g' = g then .load value else .other
  | ⟨.storeReconciled g' value, _⟩ => if g' = g then .store value else .other
  | ⟨.loadReconciled g', value⟩ => if g' = g then .reread value else .other
  | _ => .other

abbrev VenueEvent.act (g : Generation) (e : VenueEvent) : Refresh.Act := actOn g e.entry

def eventsOf (process : Nat) (history : List VenueEvent) : List VenueEvent :=
  history.filter fun e => e.found.process = process

theorem mem_eventsOf {process : Nat} {history : List VenueEvent} {e : VenueEvent} :
    e ∈ eventsOf process history ↔ e ∈ history ∧ e.found.process = process := by
  simp [eventsOf]

theorem eventsOf_cons_self {e : VenueEvent} {history : List VenueEvent} :
    eventsOf e.found.process (e :: history) = e :: eventsOf e.found.process history :=
  List.filter_cons_of_pos (by simp)

theorem suffix_of_eventsOf {process : Nat} {history older : List VenueEvent} {e : VenueEvent}
    (h : e :: older <:+ eventsOf process history) :
    ∃ older', e :: older' <:+ history ∧ older = eventsOf process older' := by
  obtain ⟨newer, heq⟩ := h
  obtain ⟨first, second, rfl, -, hsecond⟩ := List.filter_eq_append_iff.mp heq.symm
  obtain ⟨skipped, older', rfl, -, -, rfl⟩ := List.filter_eq_cons_iff.mp hsecond
  exact ⟨older', ⟨first ++ skipped, by simp⟩, rfl⟩

theorem eventsOf_suffix {process : Nat} {older history : List VenueEvent}
    (h : older <:+ history) : eventsOf process older <:+ eventsOf process history := by
  obtain ⟨newer, rfl⟩ := h
  exact ⟨eventsOf process newer, (List.filter_append ..).symm⟩

/-- What a venue saw at a moment tells where in its history the moment is. -/
theorem suffix_of_suffix_eventsOf {process : Nat} {history older b : List VenueEvent}
    {e : VenueEvent} (he : e :: older <:+ history) (hb : b <:+ history)
    (hprocess : e.found.process = process)
    (h : e :: eventsOf process older <:+ eventsOf process b) : e :: older <:+ b := by
  subst hprocess
  rcases List.suffix_or_suffix_of_suffix he hb with hin | ⟨x, hx⟩
  · exact hin
  · cases x with
    | nil => exact ⟨[], hx.symm⟩
    | cons e' x =>
      -- then `b` is older than the event
      obtain ⟨rfl, rfl⟩ := List.cons.inj hx
      have hlength : (eventsOf e'.found.process (x ++ b)).length + 1 ≤
          (eventsOf e'.found.process b).length := h.length_le
      have hsuffix : eventsOf e'.found.process b <:+ eventsOf e'.found.process (x ++ b) :=
        eventsOf_suffix (List.suffix_append x b)
      have := hsuffix.length_le
      omega

/-! ## What a call does -/

section Steps

attribute [local simp] actOn

variable {m m' : PolymarketMemory} {t : Nat} {c : PolymarketCall} {r : c.Answer}

theorem PolymarketCall.answers_process (h : c.answers m t r m') : m'.process = m.process := by
  cases c with
  | lock | subscriptions | heartbeatId | load | loadReconciled | updateBooks | cachedBook =>
    obtain ⟨-, rfl⟩ := h
    rfl
  | hashOrder =>
    obtain ⟨-, -, rfl⟩ := h
    rfl
  | _ =>
    cases h
    rfl

theorem PolymarketCall.answers_generation (h : c.answers m t r m') (g : Generation) :
    m'.generation g = m.generation g + if actOn g ⟨c, r⟩ = .bump then 1 else 0 := by
  cases c with
  | bump g' =>
    cases h
    by_cases hg : g' = g
    · subst hg
      simp
    · simp [hg, Function.update_of_ne (Ne.symm hg)]
  | load g' | loadReconciled g' =>
    obtain ⟨-, rfl⟩ := h
    by_cases hg : g' = g <;> simp [hg]
  | storeReconciled g' =>
    cases h
    by_cases hg : g' = g <;> simp [hg]
  | lock | subscriptions | heartbeatId | updateBooks | cachedBook =>
    obtain ⟨-, rfl⟩ := h
    rfl
  | hashOrder =>
    obtain ⟨-, -, rfl⟩ := h
    rfl
  | _ =>
    cases h
    rfl

theorem PolymarketCall.answers_reconciled (h : c.answers m t r m') (g : Generation) :
    m'.reconciled g = (actOn g ⟨c, r⟩).storedOr (m.reconciled g) := by
  cases c with
  | storeReconciled g' value =>
    cases h
    by_cases hg : g' = g
    · subst hg
      simp [Refresh.Act.storedOr]
    · simp [hg, Refresh.Act.storedOr, Function.update_of_ne (Ne.symm hg)]
  | load g' | loadReconciled g' =>
    obtain ⟨-, rfl⟩ := h
    by_cases hg : g' = g <;> simp [hg, Refresh.Act.storedOr]
  | bump g' =>
    cases h
    by_cases hg : g' = g <;> simp [hg, Refresh.Act.storedOr]
  | lock | subscriptions | heartbeatId | updateBooks | cachedBook =>
    obtain ⟨-, rfl⟩ := h
    rfl
  | hashOrder =>
    obtain ⟨-, -, rfl⟩ := h
    rfl
  | _ =>
    cases h
    rfl

theorem actOn_load {g : Generation} {entry : Sigma PolymarketCall.Answer} {value : Nat} :
    actOn g entry = .load value ↔ entry = ⟨.load g, value⟩ := by
  constructor
  · obtain ⟨c, r⟩ := entry
    intro h
    cases c with
    | load g' =>
      by_cases hg : g' = g
      · subst hg
        simp only [actOn, if_true, Refresh.Act.load.injEq] at h
        rw [h]
      · simp [hg] at h
    | bump g' | loadReconciled g' | storeReconciled g' =>
      by_cases hg : g' = g <;> simp [hg] at h
    | _ => cases h
  · rintro rfl
    simp

theorem actOn_store {g : Generation} {entry : Sigma PolymarketCall.Answer} {value : Nat} :
    actOn g entry = .store value ↔ entry = ⟨.storeReconciled g value, ()⟩ := by
  constructor
  · obtain ⟨c, r⟩ := entry
    intro h
    cases c with
    | storeReconciled g' =>
      by_cases hg : g' = g
      · subst hg
        simp only [actOn, if_true, Refresh.Act.store.injEq] at h
        rw [h]
      · simp [hg] at h
    | bump g' | loadReconciled g' | load g' =>
      by_cases hg : g' = g <;> simp [hg] at h
    | _ => cases h
  · rintro rfl
    simp

theorem actOn_reread {g : Generation} {entry : Sigma PolymarketCall.Answer} {value : Nat} :
    actOn g entry = .reread value ↔ entry = ⟨.loadReconciled g, value⟩ := by
  constructor
  · obtain ⟨c, r⟩ := entry
    intro h
    cases c with
    | loadReconciled g' =>
      by_cases hg : g' = g
      · subst hg
        simp only [actOn, if_true, Refresh.Act.reread.injEq] at h
        rw [h]
      · simp [hg] at h
    | bump g' | storeReconciled g' | load g' =>
      by_cases hg : g' = g <;> simp [hg] at h
    | _ => cases h
  · rintro rfl
    simp

theorem actOn_bump {g : Generation} {r : Unit} : actOn g ⟨.bump g, r⟩ = .bump := by
  simp

end Steps

/-! ## The invariant -/

/-- The memory holds what the events of its venue say, and every live task is of that venue. -/
structure GenerationsSound (s : PolymarketSystem) : Prop where
  known : ∀ e ∈ s.history, e.found.process ≤ s.memory.process
  live : ∀ t thread, s.threads t = some thread → ∀ e ∈ s.history, e.thread = t →
    e.found.process = s.memory.process
  counter : ∀ g, s.memory.generation g =
    Refresh.bumps (VenueEvent.act g) (eventsOf s.memory.process s.history)
  cell : ∀ g, s.memory.reconciled g =
    Refresh.stored (VenueEvent.act g) (eventsOf s.memory.process s.history)

namespace PolymarketVenue.Reaches

variable {self : PolymarketVenue} {s : PolymarketSystem}

theorem kept (h : self.Reaches s) {after before : List VenueEvent} {e : VenueEvent}
    (heq : s.history = after ++ e :: before) :
    PolymarketPromise self e.task (ownCalls e.thread before) e.entry.1 :=
  Machine.Reaches.kept (fun _ _ _ _ => polymarket_promised _) h heq

theorem generations (h : self.Reaches s) : GenerationsSound s := by
  induction h with
  | start => exact ⟨by simp, by simp, fun _ => rfl, fun _ => rfl⟩
  | @call p t task made c next r memory hp ht hanswer _ ih =>
    have hprocess := PolymarketCall.answers_process hanswer
    have hevents : eventsOf memory.process (p.perform t task made ⟨c, r⟩ (next r) memory).history =
        ⟨t, task, p.memory, ⟨c, r⟩⟩ :: eventsOf p.memory.process p.history := by
      rw [hprocess]
      exact eventsOf_cons_self
    refine ⟨?_, ?_, fun g => ?_, fun g => ?_⟩
    · intro e he
      rw [show (p.perform t task made ⟨c, r⟩ (next r) memory).memory.process = _ from hprocess]
      rcases List.mem_cons.mp he with rfl | he
      · exact Nat.le_refl _
      · exact ih.known e he
    · intro t' thread hthread e he het
      rw [show (p.perform t task made ⟨c, r⟩ (next r) memory).memory.process = _ from hprocess]
      rcases List.mem_cons.mp he with rfl | hpast
      · rfl
      · rcases Pool.perform_threads hthread with ⟨rfl, -⟩ | ⟨-, hthread⟩
        · exact ih.live _ _ ht e hpast het
        · exact ih.live _ _ hthread e hpast het
    · have hcounter := PolymarketCall.answers_generation hanswer g
      rw [ih.counter g] at hcounter
      change memory.generation g = Refresh.bumps _ (eventsOf memory.process _)
      rw [hevents, hcounter, Refresh.bumps_cons]
    · have hcell := PolymarketCall.answers_reconciled hanswer g
      rw [ih.cell g] at hcell
      change memory.reconciled g = Refresh.stored _ (eventsOf memory.process _)
      rw [hevents, hcell]
      rfl
  | arrive hp harrives ih =>
    rename_i p task memory
    have hmemory : memory = p.memory := by
      cases task with
      | bookMessage | priceMessage => exact harrives.2
      | _ => exact harrives
    subst hmemory
    refine ⟨ih.known, ?_, ih.counter, ih.cell⟩
    intro t thread hthread e he het
    rcases Pool.add_threads hthread with ⟨rfl, -⟩ | hthread
    · exact absurd het (Nat.ne_of_lt (hp.consistent.past e he))
    · exact ih.live t thread hthread e he het
  | drop _ _ _ ih =>
    exact ⟨ih.known, fun t thread hthread => ih.live t thread (Pool.remove_threads hthread).2,
      ih.counter, ih.cell⟩
  | surroundings _ hchange => exact hchange.elim
  | @crash p _ ih =>
    have hnone : eventsOf (p.memory.process + 1) p.history = [] := by
      refine List.filter_eq_nil_iff.mpr fun e he => ?_
      have := ih.known e he
      simp only [decide_eq_true_eq]
      omega
    refine ⟨fun e he => Nat.le_succ_of_le (ih.known e he),
      fun t thread hthread => absurd hthread Pool.crash_threads, fun g => ?_, fun g => ?_⟩
    · change 0 = Refresh.bumps _ (eventsOf (p.memory.process + 1) p.history)
      rw [hnone]
      rfl
    · change 0 = Refresh.stored _ (eventsOf (p.memory.process + 1) p.history)
      rw [hnone]
      rfl

/-- The history of each venue is one of generation counters. -/
theorem recorded (h : self.Reaches s) (g : Generation) (process : Nat) :
    Refresh.Recorded (VenueEvent.act g) Event.thread (eventsOf process s.history) := by
  induction h with
  | start => trivial
  | @call p t task made c next r memory hp ht hanswer _ ih =>
    by_cases hprocess : p.memory.process = process
    · subst hprocess
      change Refresh.Recorded _ _ (eventsOf _ (⟨t, task, p.memory, ⟨c, r⟩⟩ :: p.history))
      rw [eventsOf_cons_self (e := ⟨t, task, p.memory, ⟨c, r⟩⟩)]
      have hsound : GenerationsSound p := generations hp
      refine ⟨ih, fun value hact => ?_, fun value hact => ?_, fun value hact => ?_⟩
      · obtain ⟨rfl, hr⟩ := Sigma.mk.inj (actOn_load.mp hact)
        obtain rfl := eq_of_heq hr
        exact hanswer.1.trans (hsound.counter g)
      · obtain ⟨rfl, -⟩ := Sigma.mk.inj (actOn_store.mp hact)
        -- what is stored was loaded by the same task
        obtain ⟨-, hloaded, -⟩ : PolymarketPromise self task made (.storeReconciled g value) :=
          (Machine.Reaches.promised (fun _ _ _ _ => polymarket_promised _) hp ht).1
        have hmade : ownCalls t p.history = made := hp.consistent.own _ _ ht
        rw [← hmade] at hloaded
        obtain ⟨l, hl, hthread, hentry⟩ := mem_ownCalls.mp hloaded
        exact ⟨l, mem_eventsOf.mpr ⟨hl, hsound.live _ _ ht l hl hthread⟩, hthread,
          actOn_load.mpr hentry⟩
      · obtain ⟨rfl, hr⟩ := Sigma.mk.inj (actOn_reread.mp hact)
        obtain rfl := eq_of_heq hr
        exact hanswer.1.trans (hsound.cell g)
    · have hskip : eventsOf process (p.perform t task made ⟨c, r⟩ (next r) memory).history =
          eventsOf process p.history :=
        List.filter_cons_of_neg (by simpa using hprocess)
      rw [hskip]
      exact ih
  | arrive _ _ ih => exact ih
  | drop _ _ _ ih => exact ih
  | surroundings _ _ ih => exact ih
  | crash _ ih => exact ih

end PolymarketVenue.Reaches

/-! ## Comparisons -/

/-- After an event a reconciliation read the whole account, and it was done within that past. -/
def ReconciledSince (self : PolymarketVenue) (g : Generation) (past : List VenueEvent)
    (e : VenueEvent) (older : List VenueEvent) : Prop :=
  ∃ later stored reading value answers, past = later ++ stored :: (reading ++ e :: older) ∧
    stored.task = .method .reconcile ∧ stored.entry = ⟨.storeReconciled g value, ()⟩ ∧
    AccountAnswers.Complete answers self ∧
    ∀ request ∈ answers.requests, request ∈ ownCalls stored.thread reading

theorem AccountAnswers.requests_client {answers : AccountAnswers}
    {entry : Sigma PolymarketCall.Answer} (h : entry ∈ answers.requests) :
    ∃ call value, entry = answered call value := by
  have hpositions : ∀ (pages : List (List SdkPosition)) (pageIndex : Nat),
      entry ∈ positionRequests answers.funder pageIndex pages →
        ∃ call value, entry = answered call value := by
    intro pages
    induction pages with
    | nil => simp [positionRequests]
    | cons page pages ih =>
      intro pageIndex h
      rcases List.mem_cons.mp h with rfl | h
      · exact ⟨_, _, rfl⟩
      · exact ih _ h
  simp only [requests, List.mem_append, List.mem_map, List.mem_singleton] at h
  rcases h with (((⟨page, -, rfl⟩ | ⟨page, -, rfl⟩) | rfl) | h) | ⟨balance, -, rfl⟩
  · exact ⟨_, _, rfl⟩
  · exact ⟨_, _, rfl⟩
  · exact ⟨_, _, rfl⟩
  · exact hpositions _ _ h
  · exact ⟨_, _, rfl⟩

namespace PolymarketVenue.Reaches

variable {self : PolymarketVenue} {s : PolymarketSystem}

theorem same_task (h : self.Reaches s) {after before : List VenueEvent} {e e' : VenueEvent}
    (heq : s.history = after ++ e :: before) (he' : e' ∈ before) (hthread : e'.thread = e.thread) :
    e'.task = e.task ∧ e'.found.process = e.found.process := by
  obtain ⟨p, next, memory, hp, hmemory, rfl, ht, -, -⟩ := h.moment heq
  have hprocess := (generations hp).live _ _ ht e' he' hthread
  rw [hmemory] at hprocess
  exact ⟨hp.consistent.task _ _ ht e' he' hthread, hprocess⟩

/-- The order in which a hash set is iterated has each of its elements once. -/
theorem hashOrder_answer (h : self.Reaches s) {e : VenueEvent} (he : e ∈ s.history)
    {tokens order : List Nat} (hentry : e.entry = ⟨.hashOrder tokens, order⟩) :
    order.Nodup ∧ ∀ token, token ∈ order ↔ token ∈ tokens := by
  obtain ⟨after, before, heq⟩ := List.append_of_mem he
  obtain ⟨p, next, memory, -, -, -, -, hanswer, -⟩ := h.moment heq
  rw [hentry] at hanswer
  exact ⟨hanswer.1, hanswer.2.1⟩

theorem complete_of_readAs (h : self.Reaches s) {after before : List VenueEvent} {t : Nat}
    (heq : s.history = after ++ before) {answers : AccountAnswers}
    (hread : ReadAs self answers (ownCalls t before)) : answers.Complete self := by
  obtain ⟨horders, htrades, hpositions, -, horder⟩ := hread
  obtain ⟨e, he, -, hentry⟩ := mem_ownCalls.mp horder
  have hmem : e ∈ s.history := heq ▸ List.mem_append_right after he
  obtain ⟨honce, htokens⟩ := h.hashOrder_answer hmem hentry
  exact ⟨horders, htrades, hpositions, honce, htokens⟩

/-- A reconciliation makes no request before it loads the generations. -/
theorem no_request_before_load (h : self.Reaches s) {after before : List VenueEvent}
    {l : VenueEvent} {g : Generation} {value : Nat} (heq : s.history = after ++ l :: before)
    (htask : l.task = .method .reconcile) (hl : l.entry = ⟨.load g, value⟩)
    {call : ClientCall} {r : Except SdkError call.Value} :
    ⟨.client call, r⟩ ∉ ownCalls l.thread before := by
  intro hrequest
  obtain ⟨q, hq, hthread, hentry⟩ := mem_ownCalls.mp hrequest
  obtain ⟨newer, older, rfl⟩ := List.append_of_mem hq
  have htaskq : q.task = .method .reconcile := (h.same_task heq hq hthread).1.trans htask
  have hsplit : s.history = (after ++ l :: newer) ++ q :: older := by simp [heq]
  have hpromiseq := h.kept hsplit
  rw [hentry, htaskq] at hpromiseq
  obtain ⟨value', hloaded⟩ := hpromiseq.1 rfl g
  have hpromisel := h.kept heq
  rw [hl] at hpromisel
  refine hpromisel htask value' ?_
  rw [hthread] at hloaded
  rw [ownCalls_append]
  refine List.mem_append_right _ ?_
  obtain ⟨e, he, hthreade, hentrye⟩ := mem_ownCalls.mp hloaded
  exact mem_ownCalls.mpr ⟨e, List.mem_cons_of_mem _ he, hthreade, hentrye⟩

/-- A comparison that finds no difference: everything seen before its load is behind a whole
reconciliation. -/
theorem covered (h : self.Reaches s) {g : Generation} {after between old : List VenueEvent}
    {check reread : VenueEvent} {value : Nat}
    (heq : s.history = after ++ reread :: (between ++ check :: old))
    (hcheck : check.entry = ⟨.load g, value⟩) (hreread : reread.entry = ⟨.loadReconciled g, value⟩)
    (hprocess : check.found.process = reread.found.process) {newer older : List VenueEvent}
    {e : VenueEvent} (hold : old = newer ++ e :: older) (he : e.entry = ⟨.bump g, ()⟩)
    (hsame : e.found.process = reread.found.process) :
    ReconciledSince self g (between ++ check :: old) e older := by
  subst hold
  let process := reread.found.process
  have hevents : eventsOf process s.history = eventsOf process after ++ reread ::
      (eventsOf process between ++ check :: eventsOf process (newer ++ e :: older)) := by
    rw [heq]
    simp [eventsOf, process, List.filter_append, hprocess]
  have hrecorded := h.recorded g process
  rw [hevents] at hrecorded
  obtain ⟨earlier, hlast, hiff⟩ :=
    hrecorded.check (actOn_load.mpr hcheck) (actOn_reread.mpr hreread)
  have hbump : VenueEvent.act g e = .bump := by
    rw [VenueEvent.act, he]
    exact actOn_bump
  -- the refresh that finished last saw the event
  have hsaw : e :: eventsOf process older <:+ earlier := by
    refine (hiff.mp rfl e _ hbump).mp ⟨eventsOf process newer, ?_⟩
    simp [eventsOf, process, List.filter_append, hsame]
  rcases hlast with ⟨-, rfl⟩ | ⟨later, st, reading, l, value', hsplit, -, hst, hl, howner⟩
  · cases List.suffix_nil.mp hsaw
  · have hpast : eventsOf process between ++ check :: eventsOf process (newer ++ e :: older) =
        eventsOf process (between ++ check :: (newer ++ e :: older)) := by
      simp [eventsOf, process, List.filter_append, hprocess]
    rw [hpast] at hsplit
    obtain ⟨rest, ⟨later', hlater⟩, hrest⟩ := suffix_of_eventsOf ⟨later, hsplit.symm⟩
    obtain ⟨rest', ⟨reading', hreading⟩, hrest'⟩ := suffix_of_eventsOf ⟨reading, hrest⟩
    -- in the history, the event comes before the load of the reconciliation
    have hwhole : rest' <:+ between ++ check :: (newer ++ e :: older) :=
      ⟨later' ++ st :: (reading' ++ [l]), by rw [← hlater, ← hreading]; simp⟩
    have hin : e :: older <:+ between ++ check :: (newer ++ e :: older) :=
      ⟨between ++ check :: newer, by simp⟩
    obtain ⟨skipped, hskipped⟩ :=
      suffix_of_suffix_eventsOf hin hwhole hsame (hrest' ▸ hsaw)
    have hst' : s.history = (after ++ reread :: later') ++ st :: rest := by
      rw [heq, ← hlater]
      simp
    have hpromise := h.kept hst'
    rw [actOn_store.mp hst] at hpromise
    obtain ⟨htask, -, answers, hread⟩ := hpromise
    have hbefore : s.history = (after ++ reread :: (later' ++ [st])) ++ rest := by
      rw [hst']
      simp
    refine ⟨later', st, reading' ++ l :: skipped, value', answers, ?_, htask,
      actOn_store.mp hst, h.complete_of_readAs hbefore hread, fun request hrequest => ?_⟩
    · rw [← hlater, ← hreading, ← hskipped]
      simp
    · have hmem := hread.2.2.2.1 request hrequest
      have hdecomposed : rest = (reading' ++ [l]) ++ rest' := by
        rw [← hreading]
        simp
      obtain ⟨call, r, rfl⟩ := AccountAnswers.requests_client hrequest
      rw [hdecomposed, ownCalls_append] at hmem
      rcases List.mem_append.mp hmem with hmem | hmem
      · have hmore : reading' ++ l :: skipped = (reading' ++ [l]) ++ skipped := by simp
        rw [hmore, ownCalls_append]
        exact List.mem_append_left _ hmem
      · -- no request precedes the load
        have hl' : s.history = (after ++ reread :: (later' ++ st :: reading')) ++ l :: rest' := by
          rw [hst', ← hreading]
          simp
        have hltask : l.task = .method .reconcile :=
          (h.same_task hst' (hreading ▸ by simp) howner).1.trans htask
        rw [← howner] at hmem
        exact absurd hmem (h.no_request_before_load hl' hltask (actOn_load.mp hl))

/-- Everything one comparison of a task has covered. -/
theorem checked_covered (h : self.Reaches s) {g : Generation} {after before : List VenueEvent}
    {e : VenueEvent} (heq : s.history = after ++ e :: before)
    (hchecked : Checked g (ownCalls e.thread before)) :
    ∃ between check old value, before = between ++ check :: old ∧ check.thread = e.thread ∧
      check.entry = ⟨.load g, value⟩ ∧ ∀ newer gap older, old = newer ++ gap :: older →
        gap.entry = ⟨.bump g, ()⟩ → gap.found.process = e.found.process →
        ReconciledSince self g before gap older := by
  obtain ⟨value, later, earlier, hcalls⟩ := hchecked
  obtain ⟨last, reread, rest, rfl, hrereadThread, hreread, -, hrest⟩ := ownCalls_split hcalls
  obtain ⟨between, check, old, rfl, hcheckThread, hcheck, -, -⟩ :=
    ownCalls_split (a := []) hrest
  refine ⟨last ++ reread :: between, check, old, value, by simp, hcheckThread, hcheck, ?_⟩
  intro newer gap older hold hgap hsame
  have hrereadProcess := (h.same_task heq (by simp) hrereadThread).2
  have hcheckProcess := (h.same_task heq (by simp) hcheckThread).2
  have hsplit : s.history = (after ++ e :: last) ++ reread :: (between ++ check :: old) := by
    rw [heq]
    simp
  obtain ⟨later', stored, reading, value', answers, hpast, hrest'⟩ :=
    h.covered hsplit hcheck hreread (hcheckProcess.trans hrereadProcess.symm) hold hgap
      (hsame.trans hrereadProcess.symm)
  exact ⟨last ++ reread :: later', stored, reading, value', answers, by rw [hpast]; simp, hrest'⟩

/-- When a heartbeat is posted, every gap its check could see is behind a reconciliation that read
the whole account after the gap, whatever else ran. -/
theorem heartbeat_covered (h : self.Reaches s) {after before : List VenueEvent} {e : VenueEvent}
    {heartbeatId : Option Uuid} {r : Except SdkError HeartbeatResponse}
    (heq : s.history = after ++ e :: before)
    (he : e.entry = ⟨.client (.postHeartbeat heartbeatId), r⟩) :
    ∃ between check old value, before = between ++ check :: old ∧ check.thread = e.thread ∧
      check.entry = ⟨.load .streamGaps, value⟩ ∧ ∀ newer gap older, old = newer ++ gap :: older →
        gap.entry = ⟨.bump .streamGaps, ()⟩ → gap.found.process = e.found.process →
        ReconciledSince self .streamGaps before gap older := by
  have hpromise := h.kept heq
  rw [he] at hpromise
  exact h.checked_covered heq (hpromise.2 heartbeatId rfl)

/-- When `reconciliation_required` says no, every event of the user stream it could see is behind a
reconciliation that read the whole account after the event. -/
theorem not_required_covered (h : self.Reaches s) {after before : List VenueEvent}
    {e : VenueEvent} (heq : s.history = after ++ e :: before)
    (he : e.entry = ⟨.reply (.reconciliationRequired false), ()⟩) :
    ∃ between check old value, before = between ++ check :: old ∧ check.thread = e.thread ∧
      check.entry = ⟨.load .userEvents, value⟩ ∧ ∀ newer event older,
        old = newer ++ event :: older → event.entry = ⟨.bump .userEvents, ()⟩ →
        event.found.process = e.found.process →
        ReconciledSince self .userEvents before event older := by
  have hpromise := h.kept heq
  rw [he] at hpromise
  obtain ⟨value, value', hcalls, hequal⟩ := hpromise
  obtain rfl : value = value' := by simpa using hequal
  exact h.checked_covered heq ⟨value, [], [], hcalls⟩

/-- A comparison finds no difference exactly when the reconciliation that finished last began with
the same events seen as the comparison. -/
theorem comparison_exact (h : self.Reaches s) {g : Generation}
    {after between old : List VenueEvent} {check reread : VenueEvent} {value value' : Nat}
    (heq : s.history = after ++ reread :: (between ++ check :: old))
    (hthread : check.thread = reread.thread) (hcheck : check.entry = ⟨.load g, value⟩)
    (hreread : reread.entry = ⟨.loadReconciled g, value'⟩) :
    ∃ earlier, Refresh.LastRefresh (VenueEvent.act g) Event.thread
        (eventsOf reread.found.process (between ++ check :: old)) earlier ∧
      (value = value' ↔ Refresh.SameBumps (VenueEvent.act g)
        (eventsOf reread.found.process old) earlier) := by
  have hprocess := (h.same_task heq (by simp) hthread).2
  have hrecorded := h.recorded g reread.found.process
  have hpast : eventsOf reread.found.process (between ++ check :: old) =
      eventsOf reread.found.process between ++ check :: eventsOf reread.found.process old := by
    simp [eventsOf, List.filter_append, hprocess]
  have hevents : eventsOf reread.found.process s.history = eventsOf reread.found.process after ++
      reread :: (eventsOf reread.found.process between ++
        check :: eventsOf reread.found.process old) := by
    rw [heq, ← hpast]
    simp [eventsOf, List.filter_append]
  rw [hevents] at hrecorded
  rw [hpast]
  exact hrecorded.check (actOn_load.mpr hcheck) (actOn_reread.mpr hreread)

end PolymarketVenue.Reaches

/-! ## A gap, a reconciliation and a heartbeat -/

/-- The user stream fails, then the account is reconciled, then a heartbeat is posted. -/
def heartbeatSchedule : VenueSchedule :=
  [.arrive (.userMessage .error), .calls 0 1 sampleClients, .arrive (.method .reconcile),
    .calls 1 17 sampleClients, .arrive (.method .heartbeat), .calls 2 9 sampleClients]

def postsHeartbeat : Sigma PolymarketCall.Answer → Bool
  | ⟨.client (.postHeartbeat _), _⟩ => true
  | _ => false

theorem postsHeartbeat_spec {entry : Sigma PolymarketCall.Answer}
    (h : postsHeartbeat entry = true) :
    ∃ heartbeatId r, entry = ⟨.client (.postHeartbeat heartbeatId), r⟩ := by
  unfold postsHeartbeat at h
  split at h
  · exact ⟨_, _, rfl⟩
  · cases h

theorem heartbeat_covered_run : ∃ s e before, sampleVenueAdapter.Reaches s ∧
    s.history = [] ++ e :: before ∧ postsHeartbeat e.entry = true ∧
    ∃ between check old value, before = between ++ check :: old ∧ check.thread = e.thread ∧
      check.entry = ⟨.load .streamGaps, value⟩ ∧ ∀ newer gap older, old = newer ++ gap :: older →
        gap.entry = ⟨.bump .streamGaps, ()⟩ → gap.found.process = e.found.process →
        ReconciledSince sampleVenueAdapter .streamGaps before gap older := by
  obtain ⟨s, e, before, hs, heq, hpost⟩ :=
    exists_latest heartbeatSchedule postsHeartbeat (by decide +kernel)
  obtain ⟨heartbeatId, r, he⟩ := postsHeartbeat_spec hpost
  exact ⟨s, e, before, hs, heq, hpost, hs.heartbeat_covered heq he⟩

/-- An event of the user stream, a reconciliation, and the question whether one is required. -/
def requiredSchedule : VenueSchedule :=
  [.arrive (.userMessage (.ok ())), .calls 0 1 sampleClients, .arrive (.method .reconcile),
    .calls 1 17 sampleClients, .arrive .reconciliationRequired, .calls 2 3 sampleClients]

def repliesNotRequired : Sigma PolymarketCall.Answer → Bool
  | ⟨.reply (.reconciliationRequired required), _⟩ => !required
  | _ => false

theorem repliesNotRequired_spec {entry : Sigma PolymarketCall.Answer}
    (h : repliesNotRequired entry = true) :
    entry = ⟨.reply (.reconciliationRequired false), ()⟩ := by
  unfold repliesNotRequired at h
  split at h
  · rename_i required _
    cases required
    · rfl
    · cases h
  · cases h

theorem not_required_covered_run : ∃ s e before, sampleVenueAdapter.Reaches s ∧
    s.history = [] ++ e :: before ∧ e.entry = ⟨.reply (.reconciliationRequired false), ()⟩ ∧
    ∃ between check old value, before = between ++ check :: old ∧ check.thread = e.thread ∧
      check.entry = ⟨.load .userEvents, value⟩ ∧ ∀ newer event older,
        old = newer ++ event :: older → event.entry = ⟨.bump .userEvents, ()⟩ →
        event.found.process = e.found.process →
        ReconciledSince sampleVenueAdapter .userEvents before event older := by
  obtain ⟨s, e, before, hs, heq, hreply⟩ :=
    exists_latest requiredSchedule repliesNotRequired (by decide +kernel)
  have he := repliesNotRequired_spec hreply
  exact ⟨s, e, before, hs, heq, he, hs.not_required_covered heq he⟩

def comparesGaps (s : PolymarketSystem) : Bool :=
  match s.history with
  | reread :: check :: _ => decide (check.thread = reread.thread) &&
      ((List.range 2).any fun value => actOn .streamGaps check.entry = .load value) &&
      (List.range 2).any fun value => actOn .streamGaps reread.entry = .reread value
  | _ => false

/-- The check of a heartbeat whose gap no reconciliation has seen. -/
theorem comparison_exact_run : ∃ s reread check old value value',
    sampleVenueAdapter.Reaches s ∧ s.history = reread :: check :: old ∧
    check.entry = ⟨.load .streamGaps, value⟩ ∧
    reread.entry = ⟨.loadReconciled .streamGaps, value'⟩ ∧
    ∃ earlier, Refresh.LastRefresh (VenueEvent.act .streamGaps) Event.thread
        (eventsOf reread.found.process (check :: old)) earlier ∧
      (value = value' ↔ Refresh.SameBumps (VenueEvent.act .streamGaps)
        (eventsOf reread.found.process old) earlier) := by
  obtain ⟨s, hs, htest⟩ := exists_scheduled
    [.arrive (.userMessage .error), .calls 0 1 sampleClients, .arrive (.method .heartbeat),
      .calls 1 6 sampleClients] comparesGaps (by decide +kernel)
  unfold comparesGaps at htest
  split at htest
  · rename_i reread check old heq
    simp only [Bool.and_eq_true, decide_eq_true_eq, List.any_eq_true] at htest
    obtain ⟨⟨hthread, value, -, hcheck⟩, value', -, hreread⟩ := htest
    have hcheck := actOn_load.mp hcheck
    have hreread := actOn_reread.mp hreread
    have hsplit : s.history = [] ++ reread :: ([] ++ check :: old) := heq
    exact ⟨s, reread, check, old, value, value', hs, heq, hcheck, hreread,
      hs.comparison_exact hsplit hthread hcheck hreread⟩
  · cases htest

end OddsfoxExecution
