import OddsfoxExecution.Store.Journal
import OddsfoxExecution.Store.Stages

/-!
# The registry of orders

Where every order stands with its intent and its submission attempt, together
with the log of order transitions.  Whatever transaction runs, the registry only
changes by the steps of `RegistryStep`: an order is opened PREPARED together
with its intent and its attempt, or one order moves and one row that says so is
appended to the log.
-/

namespace OddsfoxExecution

/-- Where an order stands, with its intent and its submission attempt. -/
structure OrderFile where
  id : Uuid
  intentId : Uuid
  intent : Option IntentState
  order : OrderState
  attempt : Option AttemptState

/-- The states of the three records. -/
def OrderFile.states (f : OrderFile) : Option IntentState × OrderState × Option AttemptState :=
  (f.intent, f.order, f.attempt)

structure Registry where
  files : List OrderFile
  log : List OrderTransition

/-- The state of the attempt made for the prepared order of an intent. -/
def Db.attemptState (db : Db) (intentId : Uuid) : Option AttemptState :=
  (db.preparedOrderId intentId).bind fun id =>
    (db.submissionAttempts.find? fun a => a.preparedOrderId = id).map SubmissionAttempt.state

def Db.file (db : Db) (o : OrderRecord) : OrderFile where
  id := o.id
  intentId := o.intentId
  intent := db.intentState o.intentId
  order := o.state
  attempt := db.attemptState o.intentId

def Db.registry (db : Db) : Registry := ⟨db.orders.map db.file, db.orderTransitions⟩

@[simp] theorem Db.appendEvent_registry (db : Db) (eventType resourceType : String)
    (resourceId : ResourceId) :
    (db.appendEvent eventType resourceType resourceId).1.registry = db.registry := rfl

/-! ## Steps -/

/-- One change of the registry; `M` are the moves of a file it may make. -/
inductive RegistryStep (M : OrderFile → OrderFile → Prop) (r : Registry) : Registry → Prop
  | opened {f : OrderFile} (hfresh : ∀ g ∈ r.files, g.id ≠ f.id)
      (hstates : f.states = (some .prepared, .prepared, some .prepared)) :
      RegistryStep M r { r with files := r.files ++ [f] }
  | moved {f f' : OrderFile} (hf : f ∈ r.files) (hid : f'.id = f.id) (hmove : M f f') :
      RegistryStep M r
        ⟨Table.replace OrderFile.id f' r.files, r.log ++ [⟨f.id, f.order, f'.order⟩]⟩

/-- What a transaction does to the registry. -/
abbrev RegistrySteps (M : OrderFile → OrderFile → Prop) : Registry → Registry → Prop :=
  Relation.ReflTransGen (RegistryStep M)

/-- What holds of an order that is opened and is kept by its moves holds of every order. -/
theorem RegistrySteps.forall_files {M : OrderFile → OrderFile → Prop} {P : OrderFile → Prop}
    {r r' : Registry} (hsteps : RegistrySteps M r r')
    (hopened : ∀ f, f.states = (some .prepared, .prepared, some .prepared) → P f)
    (hmoved : ∀ f f', P f → M f f' → P f') (h : ∀ f ∈ r.files, P f) : ∀ f ∈ r'.files, P f := by
  induction hsteps with
  | refl => exact h
  | tail _ hstep ih =>
    cases hstep with
    | @opened f _ hstates =>
      intro g hg
      rcases List.mem_append.mp hg with hg | hg
      · exact ih g hg
      · rw [List.mem_singleton.mp hg]
        exact hopened f hstates
    | @moved f f' hf _ hmove =>
      intro g hg
      rcases Table.mem_replace.mp hg with ⟨hg, -⟩ | ⟨rfl, -⟩
      · exact ih g hg
      · exact hmoved f _ (ih f hf) hmove

/-- What a guarded update makes of a state. -/
def turned {σ : Type} [DecidableEq σ] (guard next : σ) (state : σ) : σ :=
  if state = guard then next else state

@[simp] theorem turned_self {σ : Type} [DecidableEq σ] {guard next : σ} :
    turned guard next guard = next := if_pos rfl

/-- The moves of a file an operation may make on the database it finds. -/
def StoreCall.FileMoves (db : Db) : StoreCall → OrderFile → OrderFile → Prop
  | beginSubmission .., f, f' =>
    f.states = (some .prepared, .prepared, some .prepared) ∧
      f'.states = (some .submitting, .submitting, some .submitting)
  | finishSubmission _ _ intentState orderState .., f, f' =>
    f.intent = some .submitting ∧ f.order = .submitting ∧ orderState.reportable = true ∧
      f'.states = (some intentState, orderState,
        f.attempt.map (turned .submitting (submissionAttemptState intentState orderState)))
  | recoverInterruptedSubmissions, f, f' =>
    f.intent = some .submitting ∧ f.order = .submitting ∧
      f'.states = (some .unknown, .unknown, f.attempt.map (turned .submitting .unknown))
  | resolveUnknownSubmission _ _ state .., f, f' =>
    f.order = .unknown ∧ state.reportable = true ∧
      f'.states = (f.intent.map (turned .unknown .submitted), state,
        f.attempt.map (turned .unknown .resolved))
  | transitionOrder id next _, f, f' =>
    (∃ o, db.order? id = some o ∧ f = db.file o) ∧ validOrderTransition f.order next = true ∧
      f'.order = next ∧ f'.attempt = f.attempt ∧
      f'.intent = if f.order = .unknown ∧ (next = .filled ∨ next = .cancelled ∨ next = .expired)
        then f.intent.map (turned .unknown .submitted) else f.intent
  | cancelPreparedOrder _, f, f' =>
    f.intent = some .prepared ∧ f.order = .prepared ∧
      f'.states = (some .rejected, .cancelled, f.attempt.map (turned .prepared .cancelled))
  | reconcileOrderProjection _ observedState .., f, f' =>
    f.intent = some .submitted ∧ paired .submitted f.order = true ∧
      observedState.reportable = true ∧
      f'.states = (some .submitted, projectedState f.order observedState, f.attempt)
  | applyPaperTradeThrough _, f, f' =>
    f.order.active = true ∧ (f'.order = .filled ∨ f'.order = .partiallyFilled ∨
      f'.order = .cancelPending) ∧ f'.intent = f.intent ∧ f'.attempt = f.attempt
  | _, _, _ => False

/-! ## Reading the states back -/

section States

variable {db db' : Db} {k k' : Uuid}

theorem intentState_of_mem (hs : Coherent db.lifecycle) {i : IntentRecord} (hi : i ∈ db.intents) :
    db.intentState i.id = some i.state := by
  have hids : (db.intents.map IntentRecord.id).Nodup := hs.intentIds
  rw [Db.intentState, Db.intent?, Table.find?_eq_some_of_mem hids hi]
  rfl

theorem preparedOrderId_of_mem (hs : Coherent db.lifecycle) {p : PreparedOrder}
    (hp : p ∈ db.preparedOrders) : db.preparedOrderId p.intentId = some p.id := by
  have hsame : db.preparedOrders.map PreparedOrder.intentId = db.orders.map OrderRecord.intentId :=
    hs.preparedIntents
  have hnodup : (db.preparedOrders.map PreparedOrder.intentId).Nodup := hsame ▸ hs.orderIntents
  rw [Db.preparedOrderId, Table.find?_eq_some_of_mem hnodup hp]
  rfl

theorem attemptState_of_mem (hs : Coherent db.lifecycle) {p : PreparedOrder}
    (hp : p ∈ db.preparedOrders) {a : SubmissionAttempt} (ha : a ∈ db.submissionAttempts)
    (hattempt : a.preparedOrderId = p.id) : db.attemptState p.intentId = some a.state := by
  have hsame : db.submissionAttempts.map SubmissionAttempt.preparedOrderId =
    db.preparedOrders.map PreparedOrder.id := hs.attempts
  have hnodup : (db.submissionAttempts.map SubmissionAttempt.preparedOrderId).Nodup :=
    hsame ▸ hs.preparedIds
  rw [Db.attemptState, preparedOrderId_of_mem hs hp, ← hattempt, Option.bind_some,
    Table.find?_eq_some_of_mem hnodup ha]
  rfl

theorem attemptState_of_at (hs : Coherent db.lifecycle) {state : AttemptState}
    {a : SubmissionAttempt} (ha : a ∈ db.submissionAttempts)
    (hat : SubmissionAttempt.At (db.preparedOrderId k) state a) :
    db.attemptState k = some state := by
  obtain ⟨p, hp, hpid⟩ := Option.map_eq_some_iff.mp hat.1.symm
  obtain ⟨hmem, rfl⟩ := find?_mem hp
  rw [attemptState_of_mem hs hmem ha hpid.symm, hat.2]

theorem attemptState_eq (hprepared : db'.preparedOrders = db.preparedOrders)
    (hattempts : db'.submissionAttempts = db.submissionAttempts) :
    db'.attemptState k = db.attemptState k := by
  rw [Db.attemptState, Db.attemptState, Db.preparedOrderId, hprepared, hattempts]
  rfl

/-- The intent an update is guarded on turns, if it is in the guarding state. -/
theorem intentState_turned {guard next : IntentState} {f : IntentRecord → IntentRecord}
    (hintents : db'.intents = Table.updateWhere (IntentRecord.At k guard) f db.intents)
    (hset : ∀ i, (f i).id = i.id ∧ (f i).state = next) :
    db'.intentState k = (db.intentState k).map (turned guard next) := by
  rw [intentState_updated hintents fun i => (hset i).1, Db.intentState, Option.map_map]
  refine Option.map_congr fun i hi => ?_
  have hid : i.id = k := by simpa using List.find?_some hi
  by_cases hguard : i.state = guard
  · rw [if_pos ⟨hid, hguard⟩, (hset i).2, Function.comp_apply, hguard, turned_self]
  · rw [if_neg fun hat => hguard hat.2, Function.comp_apply, turned, if_neg hguard]

/-- The attempt an update is guarded on turns, if it is in the guarding state. -/
theorem attemptState_turned {guard next : AttemptState} {f : SubmissionAttempt → SubmissionAttempt}
    (hprepared : db'.preparedOrders = db.preparedOrders)
    (hattempts : db'.submissionAttempts =
      Table.updateWhere (SubmissionAttempt.At (db.preparedOrderId k) guard) f
        db.submissionAttempts)
    (hset : ∀ a, (f a).preparedOrderId = a.preparedOrderId ∧ (f a).state = next) :
    db'.attemptState k = (db.attemptState k).map (turned guard next) := by
  have hid : db'.preparedOrderId k = db.preparedOrderId k := by
    rw [Db.preparedOrderId, hprepared]
    rfl
  rw [Db.attemptState, Db.attemptState, hid, hattempts]
  cases hlookup : db.preparedOrderId k with
  | none => rfl
  | some id =>
    rw [Option.bind_some, Option.bind_some, Table.find?_updateWhere fun a => (hset a).1,
      Option.map_map, Option.map_map]
    refine Option.map_congr fun a ha => ?_
    have hkey : a.preparedOrderId = id := by simpa using List.find?_some ha
    by_cases hguard : a.state = guard
    · rw [Function.comp_apply, if_pos ⟨congrArg some hkey, hguard⟩, (hset a).2,
        Function.comp_apply, hguard, turned_self]
    · rw [Function.comp_apply, if_neg fun hat => hguard hat.2, Function.comp_apply, turned,
        if_neg hguard]

theorem intentState_of_ne {p : IntentRecord → Prop} [DecidablePred p]
    {f : IntentRecord → IntentRecord} (hintents : db'.intents = Table.updateWhere p f db.intents)
    (hid : ∀ i, (f i).id = i.id) (hp : ∀ i, p i → i.id = k) (hne : k' ≠ k) :
    db'.intentState k' = db.intentState k' := by
  by_contra hchanged
  exact hne (intent_of_updated hintents hid hp hchanged)

theorem attemptState_of_ne (hs : Coherent db.lifecycle) {guard : AttemptState}
    {f : SubmissionAttempt → SubmissionAttempt}
    (hprepared : db'.preparedOrders = db.preparedOrders)
    (hattempts : db'.submissionAttempts =
      Table.updateWhere (SubmissionAttempt.At (db.preparedOrderId k) guard) f
        db.submissionAttempts)
    (hkey : ∀ a, (f a).preparedOrderId = a.preparedOrderId) (hne : k' ≠ k) :
    db'.attemptState k' = db.attemptState k' := by
  have hid : db'.preparedOrderId k' = db.preparedOrderId k' := by
    rw [Db.preparedOrderId, hprepared]
    rfl
  rw [Db.attemptState, Db.attemptState, hid, hattempts]
  cases hlookup : db.preparedOrderId k' with
  | none => rfl
  | some id =>
    rw [Option.bind_some, Option.bind_some, Table.find?_updateWhere hkey, Option.map_map]
    refine Option.map_congr fun a ha => ?_
    have hattempt : a.preparedOrderId = id := by simpa using List.find?_some ha
    -- two intents with one prepared order would be the same
    have hother : ¬ SubmissionAttempt.At (db.preparedOrderId k) guard a := fun hat => by
      have hsame := hat.1.symm
      rw [hattempt, Db.preparedOrderId] at hsame
      rw [Db.preparedOrderId] at hlookup
      obtain ⟨p, hp, hpid⟩ := Option.map_eq_some_iff.mp hsame
      obtain ⟨p', hp', hpid'⟩ := Option.map_eq_some_iff.mp hlookup
      obtain ⟨hmem, hintent⟩ := find?_mem hp
      obtain ⟨hmem', hintent'⟩ := find?_mem hp'
      have heq : p' = p := Table.eq_of_key_eq hs.preparedIds hmem' hmem (hpid'.trans hpid.symm)
      exact hne (hintent'.symm.trans (heq ▸ hintent))
    rw [Function.comp_apply, if_neg hother]

end States

/-! ## Steps of a transaction -/

section Steps

variable {M : OrderFile → OrderFile → Prop} {db db' : Db}

theorem registry_eq (horders : db'.orders = db.orders)
    (hintents : ∀ o ∈ db.orders, db'.intentState o.intentId = db.intentState o.intentId)
    (hprepared : db'.preparedOrders = db.preparedOrders)
    (hattempts : db'.submissionAttempts = db.submissionAttempts)
    (hlog : db'.orderTransitions = db.orderTransitions) : db'.registry = db.registry := by
  rw [Db.registry, Db.registry, horders, hlog]
  congr 1
  refine List.map_congr_left fun o ho => ?_
  rw [Db.file, Db.file, hintents o ho, attemptState_eq hprepared hattempts]

/-- One order moves, with its intent and its attempt at most. -/
theorem RegistryStep.ofUpdate (hs : Coherent db.lifecycle) {o : OrderRecord} (ho : o ∈ db.orders)
    {po : OrderRecord → Prop} [DecidablePred po] {fo : OrderRecord → OrderRecord}
    (horders : db'.orders = Table.updateWhere po fo db.orders) (hpo : po o)
    (hpo' : ∀ row, po row → row.id = o.id) (hid : (fo o).id = o.id)
    (hintents : ∀ k, k ≠ o.intentId → db'.intentState k = db.intentState k)
    (hattempts : ∀ k, k ≠ o.intentId → db'.attemptState k = db.attemptState k)
    (hlog : db'.orderTransitions = db.orderTransitions ++ [⟨o.id, o.state, (fo o).state⟩])
    (hmove : M (db.file o) (db'.file (fo o))) : RegistryStep M db.registry db'.registry := by
  have hfiles : db'.orders.map db'.file =
      Table.replace OrderFile.id (db'.file (fo o)) (db.orders.map db.file) := by
    have hids : (db.orders.map OrderRecord.id).Nodup := hs.orderIds
    rw [horders, Table.updateWhere_eq_replace hids ho hpo (fun row _ => hpo' row) hid,
      Table.replace, Table.replace, Table.updateWhere, Table.updateWhere, List.map_map,
      List.map_map]
    refine List.map_congr_left fun row hrow => ?_
    simp only [Function.comp_apply]
    by_cases hsame : row.id = (fo o).id
    · rw [if_pos hsame, if_pos (show (db.file row).id = (db'.file (fo o)).id from hsame)]
    · rw [if_neg hsame, if_neg (show ¬ (db.file row).id = (db'.file (fo o)).id from hsame)]
      have hne : row.intentId ≠ o.intentId := fun heq =>
        hsame (by rw [Table.eq_of_key_eq hs.orderIntents hrow ho heq, hid])
      rw [Db.file, Db.file, hintents _ hne, hattempts _ hne]
  have hstep := RegistryStep.moved (M := M) (r := db.registry)
    (List.mem_map_of_mem (f := db.file) ho) (show (db'.file (fo o)).id = (db.file o).id from hid)
    hmove
  have hafter : db'.registry = ⟨Table.replace OrderFile.id (db'.file (fo o)) db.registry.files,
      db.registry.log ++ [⟨o.id, o.state, (fo o).state⟩]⟩ := by
    rw [Db.registry, hfiles, hlog]
    rfl
  rw [hafter]
  exact hstep

/-- An order moves, its intent and its attempt turn. -/
theorem RegistryStep.ofTurn (hs : Coherent db.lifecycle) {o : OrderRecord} (ho : o ∈ db.orders)
    {po : OrderRecord → Prop} [DecidablePred po] {fo : OrderRecord → OrderRecord}
    {guard next : IntentState} {fi : IntentRecord → IntentRecord} {guard' next' : AttemptState}
    {fa : SubmissionAttempt → SubmissionAttempt}
    (horders : db'.orders = Table.updateWhere po fo db.orders)
    (hintents : db'.intents = Table.updateWhere (IntentRecord.At o.intentId guard) fi db.intents)
    (hprepared : db'.preparedOrders = db.preparedOrders)
    (hattempts : db'.submissionAttempts =
      Table.updateWhere (SubmissionAttempt.At (db.preparedOrderId o.intentId) guard') fa
        db.submissionAttempts)
    (hfi : ∀ i, (fi i).id = i.id ∧ (fi i).state = next)
    (hfa : ∀ a, (fa a).preparedOrderId = a.preparedOrderId ∧ (fa a).state = next')
    (hpo' : ∀ row, po row → row.id = o.id) (hpo : po o)
    (hid : (fo o).id = o.id ∧ (fo o).intentId = o.intentId)
    (hlog : db'.orderTransitions = db.orderTransitions ++ [⟨o.id, o.state, (fo o).state⟩])
    (hmove : M (db.file o)
      { db.file o with
        intent := (db.intentState o.intentId).map (turned guard next)
        order := (fo o).state
        attempt := (db.attemptState o.intentId).map (turned guard' next') }) :
    RegistryStep M db.registry db'.registry := by
  refine .ofUpdate hs ho horders hpo hpo' hid.1 (fun k hne => ?_) (fun k hne => ?_) hlog ?_
  · exact intentState_of_ne hintents (fun i => (hfi i).1) (fun _ hp => hp.1) hne
  · exact attemptState_of_ne hs hprepared hattempts (fun a => (hfa a).1) hne
  · have hfile : db'.file (fo o) =
        { db.file o with
          intent := (db.intentState o.intentId).map (turned guard next)
          order := (fo o).state
          attempt := (db.attemptState o.intentId).map (turned guard' next') } := by
      rw [Db.file, Db.file, hid.1, hid.2, intentState_turned hintents hfi,
        attemptState_turned hprepared hattempts hfa]
    rw [hfile]
    exact hmove

/-- A lone move of an order, next to whatever does not concern the registry. -/
theorem RegistryStep.ofOrderUpdate (hs : Coherent db.lifecycle) {o : OrderRecord}
    (ho : o ∈ db.orders) {po : OrderRecord → Prop} [DecidablePred po]
    {fo : OrderRecord → OrderRecord} (horders : db'.orders = Table.updateWhere po fo db.orders)
    (hpo : po o) (hpo' : ∀ row, po row → row.id = o.id)
    (hid : (fo o).id = o.id ∧ (fo o).intentId = o.intentId) (hintents : db'.intents = db.intents)
    (hprepared : db'.preparedOrders = db.preparedOrders)
    (hattempts : db'.submissionAttempts = db.submissionAttempts)
    (hlog : db'.orderTransitions = db.orderTransitions ++ [⟨o.id, o.state, (fo o).state⟩])
    (hmove : M (db.file o) { db.file o with order := (fo o).state }) :
    RegistryStep M db.registry db'.registry := by
  refine .ofUpdate hs ho horders hpo hpo' hid.1 (fun k _ => intentState_eq hintents k)
    (fun k _ => attemptState_eq hprepared hattempts) hlog ?_
  have hfile : db'.file (fo o) = { db.file o with order := (fo o).state } := by
    rw [Db.file, Db.file, hid.1, hid.2, intentState_eq hintents,
      attemptState_eq hprepared hattempts]
  rw [hfile]
  exact hmove

/-- An update of intents that have no order yet reaches no order's intent. -/
theorem registry_of_unordered (hs : Coherent db.lifecycle) {p : IntentRecord → Prop}
    [DecidablePred p] {f : IntentRecord → IntentRecord}
    (hintents : db'.intents = Table.updateWhere p f db.intents) (hid : ∀ i, (f i).id = i.id)
    (hp : ∀ i, p i → i.state.unordered = true) (horders : db'.orders = db.orders)
    (hprepared : db'.preparedOrders = db.preparedOrders)
    (hattempts : db'.submissionAttempts = db.submissionAttempts)
    (hlog : db'.orderTransitions = db.orderTransitions) : db'.registry = db.registry := by
  refine registry_eq horders (fun o ho => ?_) hprepared hattempts hlog
  obtain ⟨i, hi, howner, hpaired⟩ := hs.owner ho
  have hids : (db.intents.map IntentRecord.id).Nodup := hs.intentIds
  have hnot : ¬ p i := fun hat => by
    have hordered := paired_ordered hpaired
    rw [hp i hat] at hordered
    cases hordered
  rw [intentState_updated hintents hid, Db.intentState, Db.intent?, howner,
    Table.find?_eq_some_of_mem hids hi, Option.map_some, if_neg hnot]
  rfl

end Steps

/-! ## Before submission -/

section Intents

variable {db : Db}

theorem admitIntent_registry (hs : Coherent db.lifecycle) {actorId key : String}
    {request : OrderIntentRequest} {now : Time} {r : Committed Admission}
    (h : admitIntent actorId key request now db = .ok r) : r.db.registry = db.registry := by
  unfold admitIntent at h
  split at h
  · split at h
    · cases h
    · split at h
      · cases h
      · split at h
        · cases h
          rfl
        · cases h
  · split at h
    · cases h
    · dsimp only at h
      split at h
      · cases h
      · cases h
        refine registry_eq rfl (fun o ho => ?_) rfl rfl rfl
        obtain ⟨i, hi, howner, -⟩ := hs.owner ho
        by_contra hne
        have heq : o.intentId = db.nextUuid := intent_of_appended rfl hne
        exact absurd (hs.intentsDrawn i hi) (howner ▸ heq ▸ lt_irrefl _)

theorem transitionIntent_registry (hs : Coherent db.lifecycle) {id : Uuid}
    {expected next : IntentState} {rejection : Option (String × String)}
    {r : Committed IntentRecord} (hadvances : expected.advances next = true)
    (h : transitionIntent id expected next rejection db = .ok r) :
    r.db.registry = db.registry := by
  have hfrom : expected.unordered = true := by
    cases expected <;> cases next <;> simp_all [IntentState.advances, IntentState.unordered]
  unfold transitionIntent at h
  dsimp only at h
  split at h
  · cases h
  · split at h
    · cases h
    · cases h
      exact registry_of_unordered hs rfl (fun _ => rfl)
        (fun i hi => hi.2.symm ▸ hfrom) rfl rfl rfl rfl

theorem concludeRisk_registry (hs : Coherent db.lifecycle) {intentId : Uuid}
    {decision : RiskDecision} {events : List ExecutionEvent} {r : Committed RiskDecision}
    (h : concludeRisk intentId decision events db = .ok r) : r.db.registry = db.registry := by
  unfold concludeRisk at h
  dsimp only at h
  split at h
  · cases h
  · cases h
    exact registry_of_unordered hs rfl (fun _ => rfl)
      (fun i hi => hi.2.symm ▸ rfl) rfl rfl rfl rfl

theorem reserveRisk_registry {intentId : Uuid} {request : OrderIntentRequest}
    {market : MarketRules} {db' : Db} {event : ExecutionEvent}
    (h : reserveRisk intentId request market db = .ok (db', event)) :
    db'.registry = db.registry := by
  unfold reserveRisk at h
  split at h
  · cases h
  · split at h
    · cases h
    · split at h
      · cases h
      · split at h
        · cases h
        · cases h
          rfl

theorem evaluateAndReserveRisk_registry (hs : Coherent db.lifecycle) {intentId : Uuid}
    {request : OrderIntentRequest} {market : MarketRules} {book : OrderBook} {policy : RiskPolicy}
    {now : Time} {r : Committed RiskDecision}
    (h : evaluateAndReserveRisk intentId request market book policy now db = .ok r) :
    r.db.registry = db.registry := by
  have hdraw := hs.draw (Nat.le_succ _)
  unfold evaluateAndReserveRisk at h
  split at h
  · cases h
  · dsimp only at h
    split at h
    · cases h
    · split at h
      · split at h
        · cases h
        · rename_i hreserve
          have hs' := hdraw.steps (reserveRisk_steps (M := fun _ => False) hreserve)
          exact (concludeRisk_registry hs' h).trans ((reserveRisk_registry hreserve).trans rfl)
      · exact (concludeRisk_registry (by exact hdraw) h).trans rfl

/-- The states of other orders do not change when an order is prepared. -/
theorem file_of_prepared (hs : Coherent db.lifecycle) {db' : Db} {i : IntentRecord}
    {p : PreparedOrder} {a : SubmissionAttempt} {q : IntentRecord → Prop} [DecidablePred q]
    {f : IntentRecord → IntentRecord} (hintents : db'.intents = Table.updateWhere q f db.intents)
    (hprepared : db'.preparedOrders = db.preparedOrders ++ [p])
    (hattempts : db'.submissionAttempts = db.submissionAttempts ++ [a])
    (hid : ∀ i, (f i).id = i.id) (hq : ∀ i, q i → i.id = p.intentId) (hi : i ∈ db.intents)
    (hat : IntentRecord.At p.intentId .preparing i) (hpid : p.id = db.nextUuid)
    (hattempt : a.preparedOrderId = p.id) {o : OrderRecord} (ho : o ∈ db.orders) :
    db'.file o = db.file o := by
  have hne : o.intentId ≠ p.intentId := fun heq => by
    have hordered := paired_ordered (hs.paired_of_mem hi ho (heq.trans hat.1.symm))
    rw [hat.2] at hordered
    cases hordered
  have hintent : db'.intentState o.intentId = db.intentState o.intentId := by
    by_contra hchanged
    exact hne (intent_of_updated hintents hid hq hchanged)
  have hpreparedId : db'.preparedOrderId o.intentId = db.preparedOrderId o.intentId := by
    rw [Db.preparedOrderId, Db.preparedOrderId, hprepared]
    exact congrArg _ (Table.find?_append_row_of_ne hne)
  have hattemptState : db'.attemptState o.intentId = db.attemptState o.intentId := by
    rw [Db.attemptState, Db.attemptState, hpreparedId, hattempts]
    cases hlookup : db.preparedOrderId o.intentId with
    | none => rfl
    | some id =>
      obtain ⟨q, hq, hqid⟩ := Option.map_eq_some_iff.mp hlookup
      have hdrawn : q.id < db.nextUuid := hs.preparedDrawn q (find?_mem hq).1
      have hother : id ≠ a.preparedOrderId := by
        rw [hattempt, hpid, ← hqid]
        exact hdrawn.ne
      rw [Option.bind_some, Option.bind_some, Table.find?_append_row_of_ne hother]
  rw [Db.file, Db.file, hintent, hattemptState]

/-- An order is opened with its intent and its attempt. -/
theorem RegistryStep.ofPrepared (hs : Coherent db.lifecycle) {db' : Db}
    (hs' : Coherent db'.lifecycle) {M : OrderFile → OrderFile → Prop} {i : IntentRecord}
    {p : PreparedOrder} {a : SubmissionAttempt} {order : OrderRecord}
    (hprepared : db'.preparedOrders = db.preparedOrders ++ [p])
    (hattempts : db'.submissionAttempts = db.submissionAttempts ++ [a])
    (horders : db'.orders = db.orders ++ [order])
    (hlog : db'.orderTransitions = db.orderTransitions) (hi : i ∈ db'.intents)
    (hat : IntentRecord.At p.intentId .prepared i)
    (hattempt : a.preparedOrderId = p.id ∧ a.state = .prepared)
    (horder : order.id = db.nextUuid + 2 ∧ order.intentId = p.intentId ∧ order.state = .prepared)
    (hfiles : ∀ o ∈ db.orders, db'.file o = db.file o) :
    RegistryStep M db.registry db'.registry := by
  have hafter : db'.registry =
      ⟨db.registry.files ++ [db'.file order], db.registry.log⟩ := by
    rw [Db.registry, horders, hlog, List.map_append, List.map_congr_left hfiles]
    rfl
  have hintent := intentState_of_mem hs' hi
  have hattemptState := attemptState_of_mem hs' (p := p) (a := a)
    (hprepared ▸ List.mem_append_right _ (List.mem_singleton_self p))
    (hattempts ▸ List.mem_append_right _ (List.mem_singleton_self a)) hattempt.1
  rw [hafter]
  refine .opened (fun g hg => ?_) ?_
  · obtain ⟨o, ho, rfl⟩ := List.mem_map.mp hg
    have hdrawn : o.id < db.nextUuid := hs.ordersDrawn o ho
    rw [Db.file, Db.file, horder.1]
    exact (Nat.lt_add_right 2 hdrawn).ne
  · rw [OrderFile.states, Db.file, horder.2.1, horder.2.2, hattemptState, hattempt.2, ← hat.1,
      hintent, hat.2]

theorem createPreparedOrder_registry (hs : Coherent db.lifecycle) {M : OrderFile → OrderFile → Prop}
    {intentId : Uuid} {request : OrderIntentRequest} {prepared : PreparedVenueOrder}
    {version : String} {feeRate : Decimal} {now : Time} {r : Committed OrderRecord}
    (h : createPreparedOrder intentId request prepared version feeRate now db = .ok r) :
    RegistrySteps M db.registry r.db.registry := by
  have hs' : Coherent r.db.lifecycle :=
    hs.steps (createPreparedOrder_steps (M := fun _ => False) hs h)
  unfold createPreparedOrder at h
  split at h
  · cases h
  · split at h
    · cases h
    · dsimp only at h
      split at h
      · cases h
      · split at h
        · cases h
        · split at h
          · cases h
          · split at h
            · cases h
            · rename_i hone
              cases h
              obtain ⟨i, hi, hat⟩ := Table.exists_of_rowsAffected_eq_one (not_not.mp hone)
              refine .single (.ofPrepared hs hs' rfl rfl rfl rfl
                (Table.mem_updateWhere_of_mem hi hat) ⟨hat.1, rfl⟩ ⟨rfl, rfl⟩ ⟨rfl, rfl, rfl⟩
                fun o ho => ?_)
              exact file_of_prepared hs (q := IntentRecord.At intentId .preparing)
                (f := fun i => { i with state := .prepared }) rfl rfl rfl (fun _ => rfl)
                (fun _ hp => hp.1) hi hat rfl rfl ho

theorem rejectPreparation_registry (hs : Coherent db.lifecycle) {intentId : Uuid}
    {code message : String} {r : Committed Unit}
    (h : rejectPreparation intentId code message db = .ok r) : r.db.registry = db.registry := by
  unfold rejectPreparation at h
  split at h
  · cases h
  · split at h
    · cases h
    · cases h
      exact registry_of_unordered hs rfl (fun _ => rfl)
        (fun i hi => hi.2.symm ▸ rfl) rfl rfl rfl rfl

theorem recoverIntent_registry (hs : Coherent db.lifecycle) {row : IntentRecord} {db' : Db}
    {events events' : List ExecutionEvent} (hrow : row.state.preSubmission = true)
    (h : recoverIntent row db events = .ok (db', events')) : db'.registry = db.registry := by
  unfold recoverIntent at h
  split at h
  · split at h
    · cases h
    · cases h
      rfl
  · split at h
    · cases h
      rfl
    · rename_i hprepared _
      have hfrom : row.state.unordered = true := by
        revert hrow hprepared
        cases row.state <;> simp [IntentState.preSubmission, IntentState.unordered]
      dsimp only at h
      split at h <;> cases h <;>
        exact registry_of_unordered hs rfl (fun _ => rfl) (fun i hi => hi.2.symm ▸ hfrom) rfl rfl
          rfl rfl

theorem recoverIntents_registry (hs : Coherent db.lifecycle) {rows : List IntentRecord} {db' : Db}
    {events events' : List ExecutionEvent} (hrows : ∀ row ∈ rows, row.state.preSubmission = true)
    (h : recoverIntents rows db events = .ok (db', events')) : db'.registry = db.registry := by
  induction rows generalizing db events with
  | nil =>
    cases h
    rfl
  | cons row rows ih =>
    simp only [recoverIntents] at h
    split at h
    · cases h
    · rename_i hrow
      have hstate := hrows row List.mem_cons_self
      have hs' := hs.steps (recoverIntent_steps (M := fun _ => False) hstate hrow)
      exact (ih hs' (fun other hother => hrows other (List.mem_cons_of_mem _ hother)) h).trans
        (recoverIntent_registry hs hstate hrow)

theorem recoverPreSubmissionWork_registry (hs : Coherent db.lifecycle) {r : Committed (List Uuid)}
    (h : recoverPreSubmissionWork db = .ok r) : r.db.registry = db.registry := by
  unfold recoverPreSubmissionWork at h
  dsimp only at h
  split at h
  · cases h
  · rename_i hrows
    cases h
    refine recoverIntents_registry hs (fun row hrow => ?_) hrows
    rw [List.mem_insertionSort] at hrow
    simpa using (List.mem_filter.mp hrow).2

end Intents

/-! ## Submission -/

section Submission

variable {db : Db}

theorem beginSubmission_registry (hs : Coherent db.lifecycle) {intentId orderId : Uuid}
    {r : Committed Unit} (h : beginSubmission intentId orderId db = .ok r) :
    RegistrySteps ((StoreCall.beginSubmission intentId orderId).FileMoves db) db.registry
      r.db.registry := by
  unfold beginSubmission at h
  split at h
  · cases h
  · split at h
    · cases h
    · rename_i hpair
      split at h
      · cases h
      · rename_i hone
        cases h
        obtain ⟨hintent, horder⟩ := not_or.mp hpair
        obtain ⟨i, hi, hid, hi'⟩ := Table.exists_of_rowsAffected_eq_one (not_not.mp hintent)
        obtain ⟨o, ho, rfl, rfl, hstate⟩ :=
          Table.exists_of_rowsAffected_eq_one (not_not.mp horder)
        obtain ⟨a, ha, hat⟩ := Table.exists_of_rowsAffected_eq_one (not_not.mp hone)
        have hattempt := attemptState_of_at hs ha hat
        have hintent := intentState_of_mem hs hi
        rw [hid, hi'] at hintent
        refine .single (.ofTurn hs ho rfl rfl rfl rfl (fun _ => ⟨rfl, rfl⟩) (fun _ => ⟨rfl, rfl⟩)
          (fun row hrow => hrow.1) ⟨rfl, rfl, hstate⟩ ⟨rfl, rfl⟩ ?_ ⟨?_, ?_⟩)
        · rw [hstate]
        · rw [OrderFile.states, Db.file, hintent, hstate, hattempt]
        · rw [OrderFile.states, hintent, hattempt]
          rfl

theorem finishSubmission_registry (hs : Coherent db.lifecycle) {intentId orderId : Uuid}
    {intentState : IntentState} {orderState : OrderState} {venueOrderId : Option String}
    {responseClass : String} {filled : Decimal} {price : Option Decimal} {ids : List String}
    {now : Time} {r : Committed Unit}
    (h : finishSubmission intentId orderId intentState orderState venueOrderId responseClass
      filled price ids now db = .ok r) :
    RegistrySteps ((StoreCall.finishSubmission intentId orderId intentState orderState
      venueOrderId responseClass filled price ids).FileMoves db) db.registry r.db.registry := by
  have hreportable := finishSubmission_reportable h
  unfold finishSubmission at h
  split at h
  · cases h
  · split at h
    · cases h
    · rename_i prior hprior
      obtain ⟨hmem, rfl, rfl, hstate⟩ := find?_mem hprior
      dsimp only at h
      split at h
      · cases h
      · split at h
        · cases h
        · rename_i hpair
          obtain ⟨i, hi, hid, hi'⟩ :=
            Table.exists_of_rowsAffected_eq_one (not_not.mp (not_or.mp hpair).1)
          have hintent := intentState_of_mem hs hi
          rw [hid, hi'] at hintent
          have hmove : (StoreCall.finishSubmission prior.intentId prior.id intentState orderState
              venueOrderId responseClass filled price ids).FileMoves db (db.file prior)
              { db.file prior with
                intent := (db.intentState prior.intentId).map (turned .submitting intentState)
                order := orderState
                attempt := (db.attemptState prior.intentId).map
                  (turned .submitting (submissionAttemptState intentState orderState)) } := by
            refine ⟨hintent, hstate, hreportable, ?_⟩
            rw [OrderFile.states, hintent]
            rfl
          split at h
          · generalize hfill :
              applyMatchedFill _ prior venueOrderId filled price ids now = result at h
            obtain ⟨_, _, _, _, n, -, hframe⟩ :=
              applyMatchedFill_frame _ prior venueOrderId filled price ids now
            rw [hfill] at hframe
            obtain ⟨db', event⟩ := result
            subst hframe
            cases h
            refine .single (.ofTurn hs hmem rfl rfl rfl rfl (fun _ => ⟨rfl, rfl⟩)
              (fun _ => ⟨rfl, rfl⟩) (fun row hrow => hrow.1) ⟨rfl, rfl, hstate⟩ ⟨rfl, rfl⟩ ?_ hmove)
            rw [hstate]
            rfl
          · cases h
            refine .single (.ofTurn hs hmem rfl rfl rfl rfl (fun _ => ⟨rfl, rfl⟩)
              (fun _ => ⟨rfl, rfl⟩) (fun row hrow => hrow.1) ⟨rfl, rfl, hstate⟩ ⟨rfl, rfl⟩ ?_ hmove)
            rw [hstate]
            rfl

theorem recoverInterrupted_registry (hs : Coherent db.lifecycle) {row : UnknownSubmission}
    {i : IntentRecord} {o : OrderRecord} (hi : i ∈ db.intents) (ho : o ∈ db.orders)
    (hrow : row.orderId = o.id ∧ row.intentId = i.id) (howner : o.intentId = i.id)
    (hstates : i.state = .submitting ∧ o.state = .submitting) {db₀ : Db} :
    RegistryStep (StoreCall.recoverInterruptedSubmissions.FileMoves db₀) db.registry
      (recoverInterrupted row db).1.registry := by
  have hids : (db.intents.map IntentRecord.id).Nodup := hs.intentIds
  have hintent := intentState_of_mem hs hi
  obtain ⟨orderId, intentId, deterministicOrderId⟩ := row
  obtain ⟨rfl, hrow⟩ : orderId = o.id ∧ intentId = i.id := hrow
  obtain rfl : intentId = o.intentId := hrow.trans howner.symm
  rw [← howner, hstates.1] at hintent
  -- only a SUBMITTING intent is found, so the update might as well be guarded
  have hguarded : Table.updateWhere (fun other : IntentRecord => other.id = o.intentId)
      (fun i => { i with state := .unknown }) db.intents =
      Table.updateWhere (IntentRecord.At o.intentId .submitting)
        (fun i => { i with state := .unknown }) db.intents := by
    refine Table.updateWhere_congr (fun other hother => ⟨fun heq => ⟨heq, ?_⟩, And.left⟩)
      fun _ _ _ => rfl
    rw [Table.eq_of_key_eq hids hother hi (heq.trans howner), hstates.1]
  refine .ofTurn hs ho rfl hguarded rfl rfl (fun _ => ⟨rfl, rfl⟩) (fun _ => ⟨rfl, rfl⟩)
    (fun other hother => hother) rfl ⟨rfl, rfl⟩ ?_ ⟨hintent, hstates.2, ?_⟩
  · rw [hstates.2]
    rfl
  · rw [OrderFile.states, hintent]
    rfl

theorem recoverInterruptedRows_registry {rows : List UnknownSubmission}
    (hs : Coherent db.lifecycle) (hrows : RecoverableRows rows db.lifecycle) {db₀ : Db} :
    RegistrySteps (StoreCall.recoverInterruptedSubmissions.FileMoves db₀) db.registry
      (recoverInterruptedRows rows db).1.registry := by
  induction rows generalizing db with
  | nil => exact .refl
  | cons row rows ih =>
    obtain ⟨i, hi, o, ho, hrowO, hrowI, howner, hstates⟩ :=
      hrows.submitting row List.mem_cons_self
    have hsteps := recoverInterrupted_steps hs hi ho ⟨hrowO, hrowI⟩ howner hstates
    exact .head (recoverInterrupted_registry hs hi ho ⟨hrowO, hrowI⟩ howner hstates)
      (ih (hs.moves hsteps) (hrows.next hs))

theorem resolveUnknownSubmission_registry (hs : Coherent db.lifecycle)
    {unknown : UnknownSubmission} {venueOrderId : String} {state : OrderState}
    {remaining filled : Decimal} {price : Option Decimal} {ids : List String} {now : Time}
    {r : Committed Unit}
    (hunknown : ∀ o ∈ db.orders, o.id = unknown.orderId → o.intentId = unknown.intentId)
    (h : resolveUnknownSubmission unknown venueOrderId state remaining filled price ids now db =
      .ok r) :
    RegistrySteps ((StoreCall.resolveUnknownSubmission unknown venueOrderId state remaining filled
      price ids).FileMoves db) db.registry r.db.registry := by
  have hreportable := resolveUnknownSubmission_reportable h
  unfold resolveUnknownSubmission at h
  split at h
  · cases h
    exact .refl
  · rename_i hresolved
    split at h
    · cases h
    · rename_i prior hprior
      obtain ⟨hmem, hid, hstate⟩ := find?_mem hprior
      have howner := hunknown prior hmem hid
      obtain ⟨orderId, intentId, deterministicOrderId⟩ := unknown
      obtain rfl : prior.id = orderId := hid
      obtain rfl : prior.intentId = intentId := howner
      dsimp only at h
      split at h
      · cases h
      · split at h
        · cases h
        · generalize hfill : applyMatchedFill _ prior (some venueOrderId) filled price ids now =
            result at h
          obtain ⟨_, _, _, _, n, -, hframe⟩ :=
            applyMatchedFill_frame _ prior (some venueOrderId) filled price ids now
          rw [hfill] at hframe
          obtain ⟨db', event⟩ := result
          subst hframe
          cases h
          have hmove : (StoreCall.resolveUnknownSubmission
              ⟨prior.id, prior.intentId, deterministicOrderId⟩ venueOrderId state remaining filled
              price ids).FileMoves db (db.file prior)
              { db.file prior with
                intent := (db.intentState prior.intentId).map (turned .unknown .submitted)
                order := state
                attempt := (db.attemptState prior.intentId).map (turned .unknown .resolved) } :=
            ⟨hstate, hreportable, rfl⟩
          refine .single (.ofTurn hs hmem rfl rfl rfl rfl (fun _ => ⟨rfl, rfl⟩)
            (fun _ => ⟨rfl, rfl⟩) (fun row hrow => hrow.1) ⟨rfl, hstate⟩ ⟨rfl, rfl⟩ ?_ hmove)
          rw [hstate]
          rfl

end Submission

/-! ## Orders the venue knows -/

section Orders

variable {db : Db}

theorem transitionOrder_registry (hs : Coherent db.lifecycle) {id : Uuid} {next : OrderState}
    {venueOrderId : Option String} {r : Committed OrderRecord}
    (h : transitionOrder id next venueOrderId db = .ok r) :
    RegistrySteps ((StoreCall.transitionOrder id next venueOrderId).FileMoves db) db.registry
      r.db.registry := by
  unfold transitionOrder at h
  split at h
  · cases h
  · rename_i prior hprior
    obtain ⟨hmem, rfl⟩ := find?_mem hprior
    split at h
    · cases h
      exact .refl
    · split at h
      · cases h
      · rename_i hvalid
        have hvalid : validOrderTransition prior.state next = true := not_not.mp hvalid
        dsimp only at h
        split at h
        · rename_i hsettled
          cases h
          refine .single (.ofUpdate hs hmem rfl rfl (fun row hrow => hrow) rfl (fun k hne => ?_)
            (fun k _ => rfl) rfl ⟨⟨prior, hprior, rfl⟩, hvalid, rfl, rfl, ?_⟩)
          · exact intentState_of_ne (k := prior.intentId) rfl (fun _ => rfl) (fun _ hp => hp.1) hne
          · exact Eq.trans (intentState_turned rfl fun _ => ⟨rfl, rfl⟩) (if_pos hsettled).symm
        · rename_i hsettled
          cases h
          exact .single (.ofOrderUpdate hs hmem rfl rfl (fun row hrow => hrow) ⟨rfl, rfl⟩ rfl rfl
            rfl rfl ⟨⟨prior, hprior, rfl⟩, hvalid, rfl, rfl, (if_neg hsettled).symm⟩)

theorem cancelPreparedOrder_registry (hs : Coherent db.lifecycle) {orderId : Uuid}
    {r : Committed OrderRecord} (h : cancelPreparedOrder orderId db = .ok r) :
    RegistrySteps ((StoreCall.cancelPreparedOrder orderId).FileMoves db) db.registry
      r.db.registry := by
  unfold cancelPreparedOrder at h
  split at h
  · cases h
  · rename_i order horder
    obtain ⟨hmem, rfl, hstate⟩ := find?_mem horder
    obtain ⟨i, hi, howner, hpaired⟩ := hs.owner hmem
    rw [hstate] at hpaired
    have hintent := intentState_of_mem hs hi
    rw [← howner, paired_prepared.mp hpaired] at hintent
    cases h
    refine .single (.ofTurn hs hmem rfl rfl rfl rfl (fun _ => ⟨rfl, rfl⟩) (fun _ => ⟨rfl, rfl⟩)
      (fun row hrow => hrow) rfl ⟨rfl, rfl⟩ ?_ ⟨hintent, hstate, ?_⟩)
    · rw [hstate]
    · rw [OrderFile.states, hintent]
      rfl

theorem reconcileOrderProjection_registry (hs : Coherent db.lifecycle) {orderId : Uuid}
    {state : OrderState} {remaining total : Decimal} {price : Option Decimal} {ids : List String}
    {now : Time} {r : Committed Unit}
    (hsubmitted : ∀ o ∈ db.orders, o.id = orderId →
      ∀ i ∈ db.intents, i.id = o.intentId → i.state = .submitted)
    (h : reconcileOrderProjection orderId state remaining total price ids now db = .ok r) :
    RegistrySteps ((StoreCall.reconcileOrderProjection orderId state remaining total price
      ids).FileMoves db) db.registry r.db.registry := by
  have hreportable := reconcileOrderProjection_reportable h
  unfold reconcileOrderProjection at h
  split at h
  · cases h
  · rename_i order horder
    obtain ⟨hmem, rfl⟩ := find?_mem horder
    obtain ⟨i, hi, howner, hpaired⟩ := hs.owner hmem
    have hintent := intentState_of_mem hs hi
    rw [hsubmitted order hmem rfl i hi howner.symm] at hintent hpaired
    rw [← howner] at hintent
    split at h
    · cases h
    · split at h
      · cases h
      · dsimp only at h
        split at h
        · cases h
          exact .refl
        · generalize hfill : applyMatchedFill _ order order.venueOrderId
            (total - order.localFilled) price ids now = result at h
          obtain ⟨_, _, _, _, n, -, hframe⟩ := applyMatchedFill_frame _ order
            order.venueOrderId (total - order.localFilled) price ids now
          rw [hfill] at hframe
          obtain ⟨db', event⟩ := result
          subst hframe
          cases h
          refine .single (.ofOrderUpdate hs hmem rfl rfl (fun row hrow => hrow) ⟨rfl, rfl⟩ rfl rfl
            rfl rfl ⟨hintent, hpaired, hreportable, ?_⟩)
          rw [OrderFile.states, Db.file, hintent]

theorem recordVenueTradeFinality_registry {orderId : Uuid} {venueTradeId : String}
    {status : TradeState} {r : Committed Bool}
    (h : recordVenueTradeFinality orderId venueTradeId status db = .ok r) :
    r.db.registry = db.registry := by
  unfold recordVenueTradeFinality at h
  dsimp only at h
  split at h
  · cases h
    rfl
  · split at h <;> cases h <;> rfl

theorem upsertVenuePositions_registry {current : List PositionRecord}
    {observed : List ObservedVenuePosition} {tokens tokens' : List String} {db' : Db}
    {events events' : List ExecutionEvent}
    (h : upsertVenuePositions current observed tokens db events = .ok (tokens', db', events')) :
    db'.registry = db.registry := by
  induction observed generalizing tokens db events with
  | nil =>
    cases h
    rfl
  | cons observed rest ih =>
    simp only [upsertVenuePositions] at h
    split at h
    · cases h
    · split at h
      · cases h
      · split at h
        · exact ih h
        · exact (ih h).trans rfl

theorem zeroMissingPositions_registry {tokens : List String} {current : List PositionRecord}
    {events : List ExecutionEvent} :
    (zeroMissingPositions tokens current db events).1.registry = db.registry := by
  induction current generalizing db events with
  | nil => rfl
  | cons prior rest ih =>
    simp only [zeroMissingPositions]
    split
    · exact ih
    · exact ih.trans rfl

theorem reconcileVenuePositions_registry {observed : List ObservedVenuePosition}
    {r : Committed Unit} (h : reconcileVenuePositions observed db = .ok r) :
    r.db.registry = db.registry := by
  unfold reconcileVenuePositions at h
  dsimp only at h
  split at h
  · cases h
  · rename_i hupsert
    cases h
    exact zeroMissingPositions_registry.trans (upsertVenuePositions_registry hupsert)

end Orders

/-! ## Paper fills -/

section Paper

variable {db db₀ : Db} {trade : PaperTrade}

theorem fillCoreOrder_registry {r : Registry} (hs : Coherent db.lifecycle)
    (hdb : db.registry = r) {venueOrderId venueTradeId : String}
    {fill nextRemaining : Decimal} {state : OrderState} {now : Time}
    (hstate : state = .filled ∨ state = .partiallyFilled) :
    RegistrySteps ((StoreCall.applyPaperTradeThrough trade).FileMoves db₀) r
      (fillCoreOrder trade venueOrderId venueTradeId fill nextRemaining state now
        db).1.registry := by
  subst hdb
  unfold fillCoreOrder
  split
  · exact .refl
  · rename_i core hcore
    obtain ⟨hmem, -⟩ := find?_mem hcore
    split
    · rename_i hactive
      have hnext : paperFilledState core.state state = .filled ∨
          paperFilledState core.state state = .partiallyFilled ∨
          paperFilledState core.state state = .cancelPending := by
        unfold paperFilledState
        split
        · exact Or.inr (Or.inr rfl)
        · exact hstate.imp id Or.inl
      dsimp only
      generalize hfill : applyMatchedFill _ core (some venueOrderId) fill (some trade.price)
        [venueTradeId] now = result
      obtain ⟨_, _, _, _, n, -, hframe⟩ := applyMatchedFill_frame _ core (some venueOrderId)
        fill (some trade.price) [venueTradeId] now
      rw [hfill] at hframe
      obtain ⟨db', event⟩ := result
      subst hframe
      exact .single (.ofOrderUpdate hs hmem rfl rfl (fun row hrow => hrow) ⟨rfl, rfl⟩ rfl rfl
        rfl rfl ⟨hactive, hnext, rfl, rfl⟩)
    · exact .refl

theorem fillRestingOrder_registry (hs : Coherent db.lifecycle) {now : Time}
    {row : PaperVenueOrder} {fill : Decimal} {balances balances' : PaperBalances} {db' : Db}
    {events : List ExecutionEvent}
    (h : fillRestingOrder trade now row fill balances db = .ok (balances', db', events)) :
    RegistrySteps ((StoreCall.applyPaperTradeThrough trade).FileMoves db₀) db.registry
      db'.registry := by
  have hstate : ∀ remaining, paperFillState remaining = .filled ∨
      paperFillState remaining = .partiallyFilled := by
    intro remaining
    unfold paperFillState
    split
    · exact Or.inl rfl
    · exact Or.inr rfl
  unfold fillRestingOrder at h
  dsimp only at h
  split at h
  · cases h
  · cases h
    simp only [Db.appendEvent_registry]
    refine fillCoreOrder_registry ?_ ?_ (hstate _)
    · exact hs
    · rfl

theorem applyTradeThrough_registry {r : Registry} (hs : Coherent db.lifecycle)
    (hdb : db.registry = r) {now : Time}
    {rows : List PaperVenueOrder} {size : Decimal} {count count' : Nat}
    {balances balances' : PaperBalances} {db' : Db} {events events' : List ExecutionEvent}
    (h : applyTradeThrough trade now rows size count balances db events =
      .ok (count', balances', db', events')) :
    RegistrySteps ((StoreCall.applyPaperTradeThrough trade).FileMoves db₀) r db'.registry := by
  subst hdb
  induction rows generalizing db size count balances events with
  | nil =>
    cases h
    exact .refl
  | cons row rows ih =>
    simp only [applyTradeThrough] at h
    split at h
    · cases h
      exact .refl
    · split at h
      · exact ih hs h
      · split at h
        · cases h
        · rename_i hfill
          exact (fillRestingOrder_registry hs hfill).trans
            (ih (hs.moves (fillRestingOrder_steps hs hfill)) h)

theorem applyPaperTradeThrough_registry (hs : Coherent db.lifecycle) {mode : Mode} {now : Time}
    {r : Committed Nat} (h : applyPaperTradeThrough mode trade now db = .ok r) :
    RegistrySteps ((StoreCall.applyPaperTradeThrough trade).FileMoves db₀) db.registry
      r.db.registry := by
  unfold applyPaperTradeThrough at h
  split at h
  · cases h
  · split at h
    · cases h
    · dsimp only at h
      split at h
      · cases h
        exact .refl
      · split at h
        · cases h
        · split at h
          · cases h
          · rename_i db' events hloop
            have hsteps : RegistrySteps ((StoreCall.applyPaperTradeThrough trade).FileMoves db₀)
                db.registry db'.registry := by
              refine applyTradeThrough_registry ?_ ?_ hloop
              · exact hs
              · rfl
            cases h
            exact hsteps

end Paper

/-! ## All operations -/

theorem Db.KeepsHouse.registry_eq {db db' : Db} (h : db.KeepsHouse db') :
    db'.registry = db.registry := by
  obtain ⟨_, _, _, _, _, _, _, _, _, _, -, rfl⟩ := h
  rfl

theorem Db.PaperFrame.registry_eq {db db' : Db} (h : db.PaperFrame db') :
    db'.registry = db.registry := by
  obtain ⟨_, _, _, _, _, _, rfl⟩ := h
  rfl

/-- What any operation the coordinator issues does to the registry. -/
theorem StoreCall.after_registry {db : Db} {past : List Db} (hleads : Leads db past)
    (config : StoreConfig) (now : Time) (call : StoreCall) (hallowed : call.Allowed (db :: past)) :
    RegistrySteps (call.FileMoves db) db.registry (call.after config now db).registry := by
  have hs := hleads.coherent
  have hquiet : ∀ {M : OrderFile → OrderFile → Prop} {r r' : Registry}, r' = r →
      RegistrySteps M r r' := fun heq => heq ▸ .refl
  unfold StoreCall.after
  cases hrun : call.run config now db with
  | error e => exact .refl
  | ok r =>
    cases call with
    | admitIntent => exact hquiet (admitIntent_registry hs hrun)
    | transitionIntent => exact hquiet (transitionIntent_registry hs hallowed hrun)
    | evaluateAndReserveRisk => exact hquiet (evaluateAndReserveRisk_registry hs hrun)
    | createPreparedOrder => exact createPreparedOrder_registry hs hrun
    | rejectPreparation => exact hquiet (rejectPreparation_registry hs hrun)
    | recoverPreSubmissionWork => exact hquiet (recoverPreSubmissionWork_registry hs hrun)
    | beginSubmission => exact beginSubmission_registry hs hrun
    | finishSubmission => exact finishSubmission_registry hs hrun
    | recoverInterruptedSubmissions =>
      cases hrun
      exact recoverInterruptedRows_registry hs (interruptedSubmissions_recoverable hs)
    | resolveUnknownSubmission unknown =>
      exact resolveUnknownSubmission_registry hs (hleads.unknown_owner hallowed) hrun
    | transitionOrder => exact transitionOrder_registry hs hrun
    | cancelPreparedOrder => exact cancelPreparedOrder_registry hs hrun
    | reconcileOrderProjection =>
      exact reconcileOrderProjection_registry hs (hleads.projected_submitted hallowed) hrun
    | recordVenueTradeFinality => exact hquiet (recordVenueTradeFinality_registry hrun)
    | reconcileVenuePositions => exact hquiet (reconcileVenuePositions_registry hrun)
    | applyPaperTradeThrough => exact applyPaperTradeThrough_registry hs hrun
    | _ => exact hquiet (StoreCall.run_keepsHouse hrun rfl).registry_eq

end OddsfoxExecution
