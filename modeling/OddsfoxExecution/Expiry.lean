import OddsfoxExecution.Coordinator.Clock
import OddsfoxExecution.Coordinator.Control
import OddsfoxExecution.AtMostOnce
import OddsfoxExecution.Store.IdempotencyKeys
import OddsfoxExecution.Store.Ledger
import OddsfoxExecution.Store.Stages
import OddsfoxExecution.PaperVenue

/-!
# Expiry of GTD intents

The worker looks at the expiry of an intent once, as it validates a RECEIVED
one.  A submission comes in time if its turn is short and, where the turn found
the intent PREPARED, if it began early enough; a resting paper order stays
unfilled after its expiry only if no later trade reaches it.
-/

namespace OddsfoxExecution

def OrderIntentRequest.expiry (request : OrderIntentRequest) : Option Time :=
  if request.timeInForce = .gtd then request.expiresAt else none

/-- `validate` takes a GTD request only three minutes before it expires. -/
theorem OrderIntentRequest.expiry_of_validate {request : OrderIntentRequest} {expiry now : Time}
    (hexpiry : request.expiry = some expiry) (hvalid : request.validate now = .ok ()) :
    now + 3 * 60000 ≤ expiry := by
  have hcombination : request.validateCombination now = .ok () := by
    unfold validate at hvalid
    split at hvalid
    · cases hvalid
    · split at hvalid
      · cases hvalid
      · split at hvalid
        · cases hvalid
        · cases hvalid
        · split at hvalid
          · cases hvalid
          · assumption
  unfold OrderIntentRequest.expiry at hexpiry
  split at hexpiry
  · rename_i hgtd
    unfold validateCombination at hcombination
    rw [hgtd, hexpiry] at hcombination
    dsimp only at hcombination
    split at hcombination
    · cases hcombination
    · split at hcombination
      · cases hcombination
      · exact Int.not_lt.mp ‹_›
  · cases hexpiry

/-! ## What the worker has looked at before it submits -/

/-- The task has read the intent and found it PREPARED, or its request valid at that time. -/
def Vetted (intentId : Uuid) (request : OrderIntentRequest) (made : Calls) : Prop :=
  ∃ after intent earlier, made = after ++ done (.getIntent intentId) intent :: earlier ∧
    intent.request = request ∧
      (intent.state = .prepared ∨
        ∃ now, (⟨.now, now⟩ : Sigma Call.Answer) ∈ after ∧ request.validate now = .ok ())

theorem Vetted.cons {intentId : Uuid} {request : OrderIntentRequest} {made : Calls}
    (h : Vetted intentId request made) (e : Sigma Call.Answer) :
    Vetted intentId request (e :: made) := by
  obtain ⟨after, intent, earlier, rfl, hrequest, hclear⟩ := h
  refine ⟨e :: after, intent, earlier, rfl, hrequest, hclear.imp_right ?_⟩
  rintro ⟨now, hmem, hvalid⟩
  exact ⟨now, List.mem_cons_of_mem _ hmem, hvalid⟩

def Sends (request : OrderIntentRequest) (c : Call) : Prop :=
  ∀ prepared request', c = .venue (.submit prepared request') → request' = request

theorem sends_of_quiet {request : OrderIntentRequest} {c : Call} (h : c.quiet = true) :
    Sends request c := by
  rintro prepared request' rfl
  cases h

def VetsPromise (task : Task) (made : Calls) (c : Call) : Prop :=
  ∀ intentId prepared request, task = .worker intentId → c = .venue (.submit prepared request) →
    Vetted intentId request made

/-- A quiet function makes quiet calls only, whatever came before it. -/
theorem makes_quiet {α : Type} {x : Action α} (h : Quietly .main [] x) :
    Makes (fun c => c.quiet = true) x := by
  have hcalm : Calm [] := ⟨fun _ he => (nomatch he), fun h => h, fun h => h⟩
  have hends := @Prog.wp_of_end _ _ _ _ _ _ (fun c : Call => c.quiet = true) [] [] _
    (h [] hcalm fun _ he => he)
  exact Prog.wp_regardless (Prog.wp_mono (Prog.wp_promise hends fun _ _ hc => hc.2)
    fun _ _ _ => trivial)

theorem sends_of_quietly {α : Type} {x : Action α} {request : OrderIntentRequest}
    (h : Quietly .main [] x) : Makes (Sends request) x :=
  (makes_quiet h).mono fun _ => sends_of_quiet

theorem vets_of_ne {task : Task} {made : Calls} {c : Call}
    (h : ∀ prepared request, c ≠ .venue (.submit prepared request)) : VetsPromise task made c :=
  fun _ prepared request _ hsubmit => absurd hsubmit (h prepared request)

theorem vets_quietlyBind {α β : Type} {task : Task} {made : Calls} {x : Action α}
    {f : α → Action β} (hx : Quietly .main [] x)
    (hf : ∀ a made, (f a).run.wp (VetsPromise task) (fun _ _ => True) made) :
    (x >>= f).run.wp (VetsPromise task) (fun _ _ => True) made := by
  rw [Prog.wp_run_bind]
  refine Prog.wp_mono (Prog.wp_promise (makes_quiet hx made) fun made c hquiet =>
    vets_of_ne fun prepared request hsubmit => ?_) fun made result _ => ?_
  · rw [hsubmit] at hquiet
    cases hquiet
  · cases result with
    | ok a => exact hf a made
    | error e => trivial

namespace Coordinator

variable {self : Coordinator} {intentId : Uuid} {request : OrderIntentRequest}

theorem recordSubmission_sends {orderId : Uuid} {prepared : PreparedVenueOrder}
    {submission : Except VenueError VenueSubmission} :
    Makes (Sends request) (self.recordSubmission intentId orderId prepared submission) := by
  have hstore : ∀ call : StoreCall, Sends request (.store call) := fun call _ _ h => nomatch h
  have hhalt : ∀ reason trigger, Makes (Sends request) (do
      self.haltInner "system" reason
      let _ ← Action.attempt (self.reconcileInner trigger)) := fun reason trigger =>
    .bind (sends_of_quietly quietly_haltInner) fun _ =>
      .bind (.attempt (sends_of_quietly does_reconcileInner.quietly)) fun _ => .pure
  unfold recordSubmission
  split
  · exact .store (hstore _)
  · split
    · exact .bind (.store (hstore _)) fun _ => hhalt _ _
    · refine .bind (.store (hstore _)) fun _ => ?_
      split
      · exact hhalt _ _
      · exact .pure

theorem submitPrepared_sends {orderId : Uuid} {prepared : PreparedVenueOrder} :
    Makes (Sends request) (self.submitPrepared intentId orderId prepared request) := by
  have hstore : ∀ call : StoreCall, Sends request (.store call) := fun call _ _ h => nomatch h
  have hdefer : Sends request (.deferRecovery intentId) := fun _ _ h => nomatch h
  refine .bind (.store (hstore _)) fun control => ?_
  split
  · refine .bind (.store (hstore _)) fun intent => ?_
    split
    · exact .perform hdefer
    · exact .pure
  · refine .bind (.perform (hstore _)) fun begun => ?_
    split
    · refine .bind (.perform fun _ _ h => ?_) fun _ => recordSubmission_sends
      cases h
      rfl
    · exact .perform hdefer
    · exact .throw

theorem prepareAndSubmit_sends {market : MarketRules} :
    Makes (Sends request) (self.prepareAndSubmit intentId request market) := by
  have hstore : ∀ call : StoreCall, Sends request (.store call) := fun call _ _ h => nomatch h
  refine .bind (.store (hstore _)) fun _ => .bind (.perform fun _ _ h => nomatch h) fun answer => ?_
  cases answer with
  | error e =>
    refine .bind (.store (hstore _)) fun _ => ?_
    exact sends_of_quietly quietly_haltForVenueError
  | timeout => exact .store (hstore _)
  | ok prepared => exact .bind (.store (hstore _)) fun _ => submitPrepared_sends

/-- The worker reads the intent before it submits; on the way of a RECEIVED intent it also
validates it. -/
theorem processReady_vets {made : Calls} :
    (self.processReady intentId).run.wp (VetsPromise (.worker intentId))
    (fun _ _ => True) made := by
  have hstore : ∀ (call : StoreCall) (made : Calls),
      VetsPromise (.worker intentId) made (.store call) := fun call made =>
      vets_of_ne fun _ _ h => (nomatch h)
  -- once the intent is vetted, whatever is sent of its request keeps the promise
  have hvetted : ∀ {request : OrderIntentRequest} {x : Action Unit} {made : Calls},
      Makes (Sends request) x → Vetted intentId request made →
      x.run.wp (VetsPromise (.worker intentId)) (fun _ _ => True) made := by
    intro request x made hx hmade
    refine Prog.wp_mono (Prog.wp_carries (hx made) hmade (fun made c r h _ => h.cons _) ?_)
      fun _ _ _ => trivial
    rintro made c hmade hc id prepared request' htask hsubmit
    cases htask
    rw [hc prepared request' hsubmit]
    exact hmade
  refine Action.wp_storeBind.mpr ⟨hstore _ _, fun intent => ?_, fun _ => trivial⟩
  split
  · refine Action.wp_storeBind.mpr ⟨hstore _ _, fun persisted => ?_, fun _ => trivial⟩
    exact hvetted submitPrepared_sends ⟨[_], intent, made, rfl, rfl, Or.inl ‹_›⟩
  · split
    · refine Action.wp_storeBind.mpr ⟨hstore _ _, fun _ => ?_, fun _ => trivial⟩
      refine Action.wp_performBind.mpr ⟨vets_of_ne fun _ _ h => (nomatch h), fun now => ?_⟩
      split
      · refine Action.wp_storeBind.mpr ⟨hstore _ _, fun _ => ?_, fun _ => trivial⟩
        exact Action.wp_storeBind.mpr ⟨hstore _ _, fun _ => trivial, fun _ => trivial⟩
      · rename_i hvalid
        refine hvetted ?_ ⟨[_, _], intent, made, rfl, rfl, Or.inr ⟨now, by simp, hvalid⟩⟩
        refine .bind (sends_of_quietly quietly_marketData)
          fun data => ?_
        cases data with
        | none => exact .pure
        | some data =>
          refine .bind (.perform fun _ _ h => nomatch h) fun _ => ?_
          split
          · exact sends_of_quietly quietly_rejectValidating
          · refine .bind (.store fun _ _ h => nomatch h) fun decision => ?_
            split
            · exact prepareAndSubmit_sends
            · exact .pure
    · exact trivial

theorem processReconciled_vets {made : Calls} :
    (self.processReconciled intentId).run.wp (VetsPromise (.worker intentId))
      (fun _ _ => True) made := by
  have hrejected : ∀ {made : Calls} {code message : String},
      (rejectReceived intentId code message).run.wp (VetsPromise (.worker intentId))
        (fun _ _ => True) made := fun {made code message} =>
    vets_quietlyBind (quietly_transitionIntent rfl) fun _ _ => trivial
  refine vets_quietlyBind quietly_executionHealthFailure fun failure made => ?_
  cases failure with
  | some reason => exact vets_quietlyBind quietly_haltInner fun _ _ => hrejected
  | none =>
    refine vets_quietlyBind (.store rfl fun _ _ => trivial) fun control made => ?_
    split
    · exact processReady_vets
    · exact hrejected

theorem processIntentInner_vets {made : Calls} :
    (self.processIntentInner intentId).run.wp (VetsPromise (.worker intentId))
      (fun _ _ => True) made := by
  refine Action.wp_performBind.mpr ⟨vets_of_ne fun _ _ h => (nomatch h), fun required => ?_⟩
  split
  · exact vets_quietlyBind does_reconcileInner.quietly.attempt fun _ _ => processReconciled_vets
  · exact processReconciled_vets

/-- A gate around a function changes nothing about what it submits. -/
theorem vets_withGate {α : Type} {task : Task} {gate : Gate} {x : Action α} {made : Calls}
    (hx : ∀ made, x.run.wp (VetsPromise task) (fun _ _ => True) made) :
    (Action.withGate gate x).run.wp (VetsPromise task) (fun _ _ => True) made := by
  refine Action.wp_performBind.mpr ⟨vets_of_ne fun _ _ h => (nomatch h), fun _ => ?_⟩
  refine Action.wp_attemptBind.mpr (Prog.wp_mono (hx _) fun made result _ => ?_)
  refine Action.wp_performBind.mpr ⟨vets_of_ne fun _ _ h => (nomatch h), fun _ => ?_⟩
  cases result <;> trivial

/-- Every task submits only what it has vetted; none but a worker's turn has anything to vet. -/
theorem program_vets (task : Task) :
    (self.program task).wp (VetsPromise task) (fun _ _ => True) [] := by
  cases task with
  | worker intentId =>
    refine Action.wp_attemptBind.mpr (Prog.wp_mono (vets_withGate fun _ => vets_withGate fun _ =>
      processIntentInner_vets) fun made result _ => ?_)
    exact Action.wp_perform.mpr ⟨vets_of_ne fun _ _ h => (nomatch h), fun _ => trivial⟩
  | _ => exact Prog.wp_trivial fun made c id prepared request htask => nomatch htask

end Coordinator

/-! ## What an intent asks for -/

theorem StoreCall.terms_stay {config : StoreConfig} {now : Time} {db : Db} (call : StoreCall) :
    ∀ terms ∈ db.terms, terms ∈ (call.after config now db).terms := by
  intro terms hterms
  unfold StoreCall.after
  cases hrun : call.run config now db with
  | error e => exact hterms
  | ok r =>
    by_cases hadmit : ∃ actorId key request, call = .admitIntent actorId key request
    · obtain ⟨actorId, key, request, rfl⟩ := hadmit
      rcases admitIntent_ok hrun with ⟨record, -, -, -, -, hintents, -⟩ | ⟨record, -, hsame, -⟩
      · change terms ∈ r.db.intents.map IntentRecord.terms
        rw [hintents, List.map_append]
        exact List.mem_append_left _ hterms
      · exact hsame ▸ hterms
    · rw [StoreCall.run_terms hrun fun actorId key request heq =>
        hadmit ⟨actorId, key, request, heq⟩]
      exact hterms

/-- Every intent of the past is still there, for what it was admitted for. -/
theorem StoreRun.terms_stay {config : StoreConfig} {guard : StoreCall → Db → Prop} {db : Db}
    {past : List Db} (h : StoreRun config guard db past) :
    ∀ earlier ∈ past, ∀ terms ∈ earlier.terms, terms ∈ db.terms := by
  induction h with
  | initial => exact fun _ hearlier => absurd hearlier List.not_mem_nil
  | call call now _ _ _ ih =>
    intro earlier hearlier terms hterms
    rcases List.mem_cons.mp hearlier with rfl | hpast
    · exact call.terms_stay terms hterms
    · exact call.terms_stay terms (ih earlier hpast terms hterms)
  | venue _ hframe ih =>
    intro earlier hearlier terms hterms
    rw [hframe.terms_eq]
    rcases List.mem_cons.mp hearlier with rfl | hpast
    · exact hterms
    · exact ih earlier hpast terms hterms

theorem StoreRun.request_eq {config : StoreConfig} {guard : StoreCall → Db → Prop} {db : Db}
    {past : List Db} (h : StoreRun config guard db past) {earlier : Db} (hearlier : earlier ∈ past)
    {i₀ i : IntentRecord} (hi₀ : i₀ ∈ earlier.intents) (hi : i ∈ db.intents)
    (hid : i.id = i₀.id) : i.request = i₀.request := by
  obtain ⟨i', hi', hterms⟩ := List.mem_map.mp
    (h.terms_stay earlier hearlier i₀.terms (List.mem_map_of_mem hi₀))
  simp only [IntentRecord.terms, Prod.mk.injEq] at hterms
  have hsame : i = i' :=
    Table.eq_of_key_eq h.coherent.intentIds hi hi' (hid.trans hterms.1.symm)
  rw [hsame, hterms.2.2.2.2]

namespace Coordinator.ReachesFrom

variable {self : Coordinator} {config : StoreConfig} {start : Time} {s : ClockedSystem}

/-- The turn that submits an intent has read it, and vetted what it read. -/
theorem vetted (h : self.ReachesFrom config start s) {after before : List ClockedEvent}
    {e : ClockedEvent} (heq : s.history = after ++ e :: before) {intentId : Uuid}
    (hsubmits : submits intentId (e.view Clocked.memory) = true) :
    ∃ e₀ ∈ before, e₀.thread = e.thread ∧ ∃ intent,
      e₀.entry = done (.getIntent intentId) intent ∧
        (intent.state = .prepared ∨ ∃ now, e₀.found.clock ≤ now ∧
          intent.request.validate now = .ok ()) := by
  obtain ⟨htask, prepared, request, answer, hentry⟩ := submits_iff.mp hsubmits
  have hvetted := Machine.Reaches.kept (fun _ task _ _ => program_vets task) h heq intentId
    prepared request htask (congrArg Sigma.fst hentry)
  obtain ⟨own, intent, earlier, hown, rfl, hclear⟩ := hvetted
  obtain ⟨between, e₀, first, rfl, hthread, hread, hbetween, -⟩ := ownCalls_split hown
  refine ⟨e₀, by simp, hthread, intent, hread, hclear.imp_right ?_⟩
  rintro ⟨now, hnow, hvalid⟩
  rw [← hbetween] at hnow
  obtain ⟨e₁, he₁, -, hentry₁⟩ := mem_ownCalls.mp hnow
  obtain ⟨a, b, rfl⟩ := List.append_of_mem he₁
  have heq₁ : s.history = (after ++ e :: a) ++ e₁ :: (b ++ e₀ :: first) := by simp [heq]
  rw [h.now_eq (heq₁ ▸ by simp) hentry₁] at hvalid
  exact ⟨_, h.clock_le heq₁ (by simp), hvalid⟩

/-- What a turn read of an intent is what the intent still asks for when the turn goes on. -/
theorem request_read (h : self.ReachesFrom config start s) {after before : List ClockedEvent}
    {e e₀ : ClockedEvent} (heq : s.history = after ++ e :: before) (he₀ : e₀ ∈ before)
    {intentId : Uuid} {intent : IntentRecord}
    (hread : e₀.entry = done (.getIntent intentId) intent) {i : IntentRecord}
    (hi : i ∈ e.found.memory.db.intents) (hid : i.id = intentId) :
    i.request = intent.request := by
  have heq' : (s.view Clocked.memory).history = after.map (Event.view Clocked.memory) ++
      e.view Clocked.memory :: before.map (Event.view Clocked.memory) := by
    simp [Pool.view, heq]
  obtain ⟨p, next, memory, hp, hmemory, hhistory, -⟩ := h.unclocked.moment heq'
  have hp : self.Reaches config (fun _ _ _ => True) p := hp
  obtain ⟨hpast, now, r, hrun, hvalue, -⟩ := hp.committed (e := e₀.view Clocked.memory)
    (hhistory ▸ List.mem_map_of_mem he₀) hread
  obtain ⟨hfound, -⟩ := StoreCall.query_ok hrun
  split at hfound
  · cases hfound
  · rename_i i₀ hi₀
    obtain ⟨hmem, hid₀⟩ := find?_mem hi₀
    have hsame : i₀ = intent := (Except.ok.inj hfound).trans hvalue
    subst hsame
    have hi' : i ∈ p.memory.db.intents := hmemory ▸ hi
    exact hp.storeRun.request_eq hpast hmem hi' (hid.trans hid₀.symm)

end Coordinator.ReachesFrom

/-! ## Paper fills -/

/-- The resting orders the loop of `apply_paper_trade_through` fills. -/
def PaperTrade.fills (trade : PaperTrade) : List PaperVenueOrder → Decimal → List PaperVenueOrder
  | [], _ => []
  | row :: rows, sizeRemaining =>
    let fill := min row.remainingQuantity sizeRemaining
    if sizeRemaining ≤ 0 then []
    else if ¬ row.crossedBy trade ∨ fill ≤ 0 then trade.fills rows sizeRemaining
    else row :: trade.fills rows (sizeRemaining - fill)

/-- The resting orders a trade reaches: it crosses them, and has size left for them. -/
def PaperTrade.reaches (trade : PaperTrade) (db : Db) : List PaperVenueOrder :=
  trade.fills (db.restingPaperOrders trade.tokenId trade.observedAt) trade.size

/-- The paper order has a fill that names the trade's market event. -/
def Db.Attributes (db : Db) (trade : PaperTrade) (venueOrderId : String) : Prop :=
  ∃ row ∈ db.paperVenueOrders, row.venueOrderId = venueOrderId ∧
    "paper:" ++ trade.eventId ++ ":" ++ venueOrderId ∈ row.venueTradeIds

instance (db : Db) (trade : PaperTrade) (venueOrderId : String) :
    Decidable (db.Attributes trade venueOrderId) := by
  unfold Db.Attributes
  infer_instance

theorem fillRestingOrder_attributes {trade : PaperTrade} {now : Time} {row : PaperVenueOrder}
    {fill : Decimal} {b b' : PaperBalances} {db db' : Db} {events : List ExecutionEvent}
    (h : fillRestingOrder trade now row fill b db = .ok (b', db', events)) {venueOrderId : String}
    (hattributes : db'.Attributes trade venueOrderId) :
    db.Attributes trade venueOrderId ∨ row.venueOrderId = venueOrderId := by
  have horders : db'.paperVenueOrders = Table.updateWhere
      (fun p : PaperVenueOrder => p.venueOrderId = row.venueOrderId)
      (fun _ => row.fill trade.price fill (paperFillState (row.remainingQuantity - fill))
        ("paper:" ++ trade.eventId ++ ":" ++ row.venueOrderId) (trade.evidence fill))
      db.paperVenueOrders := by
    unfold fillRestingOrder at h
    dsimp only at h
    split at h
    · cases h
    · cases h
      exact fillCoreOrder_paper.orders
  obtain ⟨filled, hfilled, hid, hnamed⟩ := hattributes
  rw [horders] at hfilled
  obtain ⟨old, hold, rfl⟩ := Table.mem_updateWhere.mp hfilled
  split at hid
  · exact Or.inr hid
  · rename_i hother
    rw [if_neg hother] at hnamed
    exact Or.inl ⟨old, hold, hid, hnamed⟩

/-- The loop names the trade's event in the fills of the orders it reaches, and in no others. -/
theorem applyTradeThrough_attributes {trade : PaperTrade} {now : Time}
    {rows : List PaperVenueOrder} {size : Decimal} {count count' : Nat} {b b' : PaperBalances}
    {db db' : Db} {events events' : List ExecutionEvent}
    (h : applyTradeThrough trade now rows size count b db events =
      .ok (count', b', db', events')) {venueOrderId : String}
    (hattributes : db'.Attributes trade venueOrderId) :
    db.Attributes trade venueOrderId ∨
      ∃ row ∈ trade.fills rows size, row.venueOrderId = venueOrderId := by
  induction rows generalizing size count b db events with
  | nil =>
    cases h
    exact Or.inl hattributes
  | cons row rows ih =>
    simp only [applyTradeThrough] at h
    simp only [PaperTrade.fills]
    split at h
    · cases h
      exact Or.inl hattributes
    · rename_i hsize
      rw [if_neg hsize]
      split at h
      · rename_i hskip
        rw [if_pos hskip]
        exact ih h
      · rename_i hfills
        rw [if_neg hfills]
        split at h
        · cases h
        · rename_i hfill
          rcases ih h with hbefore | ⟨other, hother, hid⟩
          · rcases fillRestingOrder_attributes hfill hbefore with hbefore | hid
            · exact Or.inl hbefore
            · exact Or.inr ⟨row, List.mem_cons_self, hid⟩
          · exact Or.inr ⟨other, List.mem_cons_of_mem _ hother, hid⟩

/-- A trade names its event in the fills of the orders it reaches, and in no others. -/
theorem applyPaperTradeThrough_attributes {mode : Mode} {trade : PaperTrade} {now : Time} {db : Db}
    {r : Committed Nat} (h : applyPaperTradeThrough mode trade now db = .ok r)
    {venueOrderId : String} (hattributes : r.db.Attributes trade venueOrderId) :
    db.Attributes trade venueOrderId ∨
      ∃ row ∈ trade.reaches db, row.venueOrderId = venueOrderId := by
  unfold applyPaperTradeThrough at h
  split at h
  · cases h
  · split at h
    · cases h
    · dsimp only at h
      split at h
      · cases h
        exact Or.inl hattributes
      · split at h
        · cases h
        · split at h
          · cases h
          · rename_i hrun
            cases h
            exact applyTradeThrough_attributes hrun hattributes

/-- The venue knows an order of the intent under this identifier. -/
def Db.Placed (db : Db) (intentId : Uuid) (venueOrderId : String) : Prop :=
  (∃ p ∈ db.preparedOrders, p.intentId = intentId ∧ p.deterministicOrderId = venueOrderId) ∨
    ∃ o ∈ db.orders, o.intentId = intentId ∧ o.venueOrderId = some venueOrderId

instance (db : Db) (intentId : Uuid) (venueOrderId : String) :
    Decidable (db.Placed intentId venueOrderId) := by
  unfold Db.Placed
  infer_instance

/-! ## Runs under the clock -/

def intentRead (e : ClockedEvent) : Option (Uuid × IntentRecord) :=
  match e.task, e.entry with
  | .worker _, ⟨.store (.getIntent id), r⟩ =>
    match (r : Except StoreError IntentRecord) with
    | .ok intent => some (id, intent)
    | .error _ => none
  | _, _ => none

def tradeApplied (e : ClockedEvent) : Option PaperTrade :=
  match e.entry.1 with
  | .store (.applyPaperTradeThrough trade) => some trade
  | _ => none

def submitsAt (intentId : Uuid) (e : ClockedEvent) : Bool :=
  submits intentId (e.view Clocked.memory)

/-- A turn that submits a GTD intent does so within its time limit from its read of the intent.
Where it found the intent PREPARED that much time was left before the intent expires; where it
validates the intent itself, three minutes are left in any case. -/
def InTime (limit : Nat → Time) (e e₀ : ClockedEvent) : Prop :=
  e₀.thread = e.thread → ∀ read ∈ intentRead e₀, submitsAt read.1 e = true →
    ∀ expiry ∈ read.2.request.expiry, e.found.clock < e₀.found.clock + limit e.thread ∧
      (e₀.found.clock + limit e.thread ≤ expiry ∨
        read.2.state ≠ .prepared ∧ limit e.thread ≤ 3 * 60000)

instance (limit : Nat → Time) : DecidableRel (InTime limit) := fun e e₀ => by
  unfold InTime
  infer_instance

/-- No order the trade reaches is one of a GTD intent that had expired when it was observed. -/
def FindsNoneExpired (e : ClockedEvent) : Prop :=
  ∀ trade ∈ tradeApplied e, ∀ row ∈ trade.reaches e.found.memory.db,
    ∀ i ∈ e.found.memory.db.intents, e.found.memory.db.Placed i.id row.venueOrderId →
      ∀ expiry ∈ i.request.expiry, trade.observedAt ≤ expiry

instance : DecidablePred FindsNoneExpired := fun e => by
  unfold FindsNoneExpired
  infer_instance

/-- The turns of the worker end within the time they have, and no trade reaches an expired
order. -/
structure Timely (limit : Nat → Time) (history : List ClockedEvent) : Prop where
  turns : history.Pairwise (InTime limit)
  trades : ∀ e ∈ history, FindsNoneExpired e

/-- The call submits no expired intent, and fills no order of one. -/
structure KeepsExpiry (config : StoreConfig) (e : ClockedEvent) : Prop where
  submission : ∀ intentId, submitsAt intentId e = true → ∀ i ∈ e.found.memory.db.intents,
    i.id = intentId → ∀ expiry ∈ i.request.expiry, e.found.clock < expiry
  fill : ∀ trade ∈ tradeApplied e, ∀ venueOrderId,
    ((StoreCall.applyPaperTradeThrough trade).after config e.found.clock
      e.found.memory.db).Attributes trade venueOrderId →
    ¬ e.found.memory.db.Attributes trade venueOrderId →
    ∀ i ∈ e.found.memory.db.intents, e.found.memory.db.Placed i.id venueOrderId →
      ∀ expiry ∈ i.request.expiry, trade.observedAt ≤ expiry

theorem Coordinator.ReachesFrom.submits_unexpired {self : Coordinator} {config : StoreConfig}
    {start : Time} {s : ClockedSystem} (h : self.ReachesFrom config start s)
    {limit : Nat → Time} (hturns : s.history.Pairwise (InTime limit))
    {after before : List ClockedEvent} {e : ClockedEvent} (heq : s.history = after ++ e :: before)
    {intentId : Uuid} (hsubmits : submitsAt intentId e = true) {i : IntentRecord}
    (hi : i ∈ e.found.memory.db.intents) (hid : i.id = intentId) {expiry : Time}
    (hexpiry : i.request.expiry = some expiry) : e.found.clock < expiry := by
  obtain ⟨e₀, he₀, hthread, intent, hread, hclear⟩ := h.vetted heq hsubmits
  rw [h.request_read heq he₀ hread hi hid] at hexpiry
  have hworker : e₀.task = .worker intentId := by
    obtain ⟨p, next, memory, hp, -, hhistory, ht, -⟩ := h.moment heq
    have htask := hp.consistent.task _ _ ht e₀ (hhistory ▸ he₀) hthread
    exact htask.trans (submits_iff.mp hsubmits).1
  have hread' : (intentId, intent) ∈ intentRead e₀ := by
    obtain ⟨t, task, found, c, r⟩ := e₀
    cases hworker
    cases hread
    rfl
  have hpair : InTime limit e e₀ := by
    rw [heq] at hturns
    exact (List.pairwise_cons.mp (List.pairwise_append.mp hturns).2.1).1 e₀ he₀
  obtain ⟨hprompt, hleft⟩ := hpair hthread _ hread' hsubmits expiry hexpiry
  have hmargin : e₀.found.clock + limit e.thread ≤ expiry := by
    rcases hleft with hleft | ⟨hnot, hshort⟩
    · exact hleft
    · obtain ⟨now, hnow, hvalid⟩ := hclear.resolve_left hnot
      calc e₀.found.clock + limit e.thread ≤ now + 3 * 60000 := Int.add_le_add hnow hshort
        _ ≤ expiry := OrderIntentRequest.expiry_of_validate hexpiry hvalid
  exact lt_of_lt_of_le hprompt hmargin

theorem StoreCall.newly_attributed {config : StoreConfig} {now : Time} {db : Db}
    {trade : PaperTrade} {venueOrderId : String}
    (hafter : ((StoreCall.applyPaperTradeThrough trade).after config now db).Attributes trade
      venueOrderId) (hbefore : ¬ db.Attributes trade venueOrderId) :
    ∃ row ∈ trade.reaches db, row.venueOrderId = venueOrderId := by
  unfold StoreCall.after at hafter
  cases hrun : (StoreCall.applyPaperTradeThrough trade).run config now db with
  | error e =>
    rw [hrun] at hafter
    exact absurd hafter hbefore
  | ok r =>
    rw [hrun] at hafter
    exact (applyPaperTradeThrough_attributes hrun hafter).resolve_left hbefore

/-- In a run in which every turn that submits ends within a limit of its own, with as much time
left at its read of the intent where it found it PREPARED, and no trade reaches an order of an
intent that had expired when it was observed, no GTD intent is submitted at or after its expiry
and none is filled by a market event observed after it. -/
theorem expired_never_trades {self : Coordinator} {config : StoreConfig} {start : Time}
    {s : ClockedSystem} (h : self.ReachesFrom config start s) (limit : Nat → Time)
    (htimely : Timely limit s.history) : ∀ e ∈ s.history, KeepsExpiry config e := by
  intro e he
  obtain ⟨after, before, heq⟩ := List.append_of_mem he
  constructor
  · intro intentId hsubmits i hi hid expiry hexpiry
    exact h.submits_unexpired htimely.turns heq hsubmits hi hid hexpiry
  · intro trade htrade venueOrderId hafter hbefore i hi hplaced expiry hexpiry
    obtain ⟨row, hrow, rfl⟩ := StoreCall.newly_attributed hafter hbefore
    exact htimely.trades e he trade htrade row hrow i hi hplaced expiry hexpiry

/-- A resting buy that expires five minutes after the epoch. -/
def sampleGtdRequest : OrderIntentRequest :=
  { sampleRequest with timeInForce := .gtd, expiresAt := some 300000 }

def gtdAdmission : List Move :=
  [.arrive .main, .calls 0 22 0 sampleVenue,
    .arrive (.submitIntent "operator" "first" sampleGtdRequest), .calls 1 4 0 sampleVenue]

def gtdSubmission : List Move :=
  gtdAdmission ++ [.arrive (.worker 6), .calls 2 20 60000 sampleVenue]

def ClockedSystem.gtdResting (s : ClockedSystem) : ClockedSystem :=
  let db := s.memory.memory.db
  let order := PaperVenue.commitOf "first" sampleGtdRequest sampleMarket 10 (1 / 2) .none
  { s with memory := { s.memory with memory := { s.memory.memory with
    db := { db with
      paperAccount := some ⟨samplePaperConfig, 100, 5⟩
      paperVenueOrders := [order.row s.memory.clock] }
    past := db :: s.memory.memory.past } } }

theorem Coordinator.ReachesFrom.gtdResting {s : ClockedSystem}
    (h : sampleCoordinator.ReachesFrom samplePaperStore 0 s) :
    sampleCoordinator.ReachesFrom samplePaperStore 0 s.gtdResting :=
  .surroundings h ⟨le_rfl, Or.inr ⟨_, ⟨_, _, _, _, _, _, rfl⟩, rfl⟩⟩

/-- The worker reads the GTD intent at once and submits it four minutes later. -/
def slowGtdSubmission : List Move :=
  gtdAdmission ++ [.arrive (.worker 6), .calls 2 17 0 sampleVenue, .calls 2 3 240000 sampleVenue]

/-- A trade through the order's limit, observed before the order expires. -/
def earlyTrade : PaperTrade := ⟨"event", "7", 2 / 5, 4, 280000⟩

/-- A slow turn submits the intent before it expires, and a trade the store learns of later fills
the order it became. -/
theorem expired_never_trades_in_time : ∃ s, sampleCoordinator.ReachesFrom samplePaperStore 0 s ∧
    (∃ e ∈ s.history, submitsAt 6 e = true ∧ e.found.clock = 240000) ∧
    (∃ e ∈ s.history, tradeApplied e = some earlyTrade ∧
      ¬ e.found.memory.db.Attributes earlyTrade "first") ∧
    s.memory.memory.db.Attributes earlyTrade "first" ∧
    ∀ e ∈ s.history, KeepsExpiry samplePaperStore e := by
  have hsample : ((sampleCoordinator.executeAt samplePaperStore slowGtdSubmission
      ⟨⟨Memory.ofDb Db.initial [], 0⟩, fun _ => none, 0, []⟩).bind fun s =>
        sampleCoordinator.executeAt samplePaperStore [.arrive (.operation
          (.applyPaperTradeThrough earlyTrade)), .calls 3 1 3900000 sampleVenue] s.gtdResting).any
        (fun s => decide (s.memory.memory.db.Attributes earlyTrade "first") &&
          (s.history.any fun e => submitsAt 6 e && decide (e.found.clock = 240000)) &&
            (s.history.any fun e => decide (tradeApplied e = some earlyTrade) &&
              decide (¬ e.found.memory.db.Attributes earlyTrade "first")) &&
                decide (s.history.Pairwise (InTime fun _ => 300000)) &&
                  s.history.all fun e => decide (FindsNoneExpired e)) = true := by
    decide +kernel
  obtain ⟨s, hrun, hcheck⟩ := (Option.any_eq_true _ _).mp hsample
  obtain ⟨s₁, hfirst, hsecond⟩ := Option.bind_eq_some_iff.mp hrun
  have h : sampleCoordinator.ReachesFrom samplePaperStore 0 s :=
    Coordinator.executeAt_reaches (Coordinator.executeAt_reaches .start hfirst).gtdResting hsecond
  simp only [List.any_eq_true, List.all_eq_true, Bool.and_eq_true, decide_eq_true_eq] at hcheck
  obtain ⟨⟨⟨⟨hafter, hsubmits⟩, htrade⟩, hturns⟩, htrades⟩ := hcheck
  exact ⟨s, h, hsubmits, htrade, hafter,
    expired_never_trades h (fun _ => 300000) ⟨hturns, htrades⟩⟩

/-- The process dies once the order is prepared; another one, started an hour later, recovers the
intent and submits it. -/
def gtdRecovery : List Move :=
  gtdAdmission ++ [.arrive (.worker 6), .calls 2 17 60000 sampleVenue, .crash,
    .arrive .main, .calls 3 24 3600000 sampleVenue, .arrive (.worker 6),
    .calls 4 12 3600000 sampleVenue]

def lateTrade : PaperTrade := ⟨"event", "7", 2 / 5, 4, 3900000⟩

/-- The recovered intent is submitted after its expiry, and the resting order of the other one is
filled by a trade observed after it. -/
theorem expired_trades :
    (∃ s, sampleCoordinator.ReachesFrom samplePaperStore 0 s ∧
      ∃ e ∈ s.history, submitsAt 6 e = true ∧ ∃ i ∈ e.found.memory.db.intents, i.id = 6 ∧
        i.request.expiry = some 300000 ∧ 300000 ≤ e.found.clock) ∧
    ∃ s, sampleCoordinator.ReachesFrom samplePaperStore 0 s ∧ ∃ e ∈ s.history,
      tradeApplied e = some lateTrade ∧ (∃ i ∈ e.found.memory.db.intents,
        i.request.expiry = some 300000 ∧ e.found.memory.db.Placed i.id "first") ∧
      300000 < lateTrade.observedAt ∧ ¬ e.found.memory.db.Attributes lateTrade "first" ∧
      s.memory.memory.db.Attributes lateTrade "first" := by
  constructor
  · have hsample : (sampleCoordinator.executeAt samplePaperStore gtdRecovery
        ⟨⟨Memory.ofDb Db.initial [], 0⟩, fun _ => none, 0, []⟩).any (fun s =>
          s.history.any fun e => submitsAt 6 e && decide (300000 ≤ e.found.clock) &&
            e.found.memory.db.intents.any fun i => i.id = 6 ∧ i.request.expiry = some 300000) =
              true := by
      decide +kernel
    obtain ⟨s, h, hcheck⟩ := Coordinator.exists_of_executeAt hsample
    simp only [List.any_eq_true, Bool.and_eq_true, decide_eq_true_eq] at hcheck
    obtain ⟨e, he, ⟨hsubmits, hlate⟩, i, hi, hid, hexpiry⟩ := hcheck
    exact ⟨s, h, e, he, hsubmits, i, hi, hid, hexpiry, hlate⟩
  · have hsample : ((sampleCoordinator.executeAt samplePaperStore gtdSubmission
        ⟨⟨Memory.ofDb Db.initial [], 0⟩, fun _ => none, 0, []⟩).bind fun s =>
          sampleCoordinator.executeAt samplePaperStore [.arrive (.operation
            (.applyPaperTradeThrough lateTrade)), .calls 3 1 3900000 sampleVenue] s.gtdResting).any
          (fun s => decide (s.memory.memory.db.Attributes lateTrade "first") &&
            s.history.any fun e => decide (tradeApplied e = some lateTrade) &&
              decide (¬ e.found.memory.db.Attributes lateTrade "first") &&
                e.found.memory.db.intents.any fun i => i.request.expiry = some 300000 ∧
                  e.found.memory.db.Placed i.id "first") = true := by
      decide +kernel
    obtain ⟨s, hrun, hcheck⟩ := (Option.any_eq_true _ _).mp hsample
    obtain ⟨s₁, hfirst, hsecond⟩ := Option.bind_eq_some_iff.mp hrun
    have h₁ := (Coordinator.executeAt_reaches .start hfirst).gtdResting
    simp only [List.any_eq_true, Bool.and_eq_true, decide_eq_true_eq] at hcheck
    obtain ⟨hafter, e, he, ⟨htrade, hbefore⟩, i, hi, hexpiry, hplaced⟩ := hcheck
    exact ⟨s, Coordinator.executeAt_reaches h₁ hsecond, e, he, htrade, ⟨i, hi, hexpiry, hplaced⟩,
      by decide, hbefore, hafter⟩

end OddsfoxExecution
