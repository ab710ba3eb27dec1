import OddsfoxExecution.Api.Mutations
import OddsfoxExecution.Coordinator.Runs
import OddsfoxExecution.Store.IdempotencyKeys

/-!
# Requests in a run

The keys along the runs of the executor, and the requests among their calls: a
request is a handler with the calls it made, wherever in the history they were
answered.  A key has at most one creating call, whose row every later database
keeps.
-/

namespace OddsfoxExecution

/-- The call commits a mutation and records it in this row. -/
def Records (config : StoreConfig) (row : IdempotencyKey) (e : Sigma Call.Answer) : Prop :=
  ∃ call value, e = done call value ∧ call.row? config value = some row

def recordsSuch (config : StoreConfig) (test : IdempotencyKey → Bool) (e : CallEvent) : Bool :=
  match e.entry with
  | ⟨.store call, r⟩ =>
    match (r : call.Response) with
    | .ok value => (call.row? config value).any test
    | .error _ => false
  | _ => false

theorem recordsSuch_iff {config : StoreConfig} {test : IdempotencyKey → Bool} {e : CallEvent} :
    recordsSuch config test e = true ↔ ∃ row, Records config row e.entry ∧ test row = true := by
  obtain ⟨t, task, found, c, r⟩ := e
  constructor
  · intro h
    unfold recordsSuch at h
    split at h
    · rename_i call r' heq
      split at h
      · rename_i value
        obtain ⟨row, hrow, htest⟩ := (Option.any_eq_true _ _).mp h
        exact ⟨row, ⟨call, value, heq, hrow⟩, htest⟩
      · cases h
    · cases h
  · rintro ⟨row, ⟨call, value, heq, hrow⟩, htest⟩
    cases heq
    simp [recordsSuch, hrow, htest]

def creates (config : StoreConfig) (key : String × String) : CallEvent → Bool :=
  recordsSuch config fun row => row.key = key

theorem creates_iff {config : StoreConfig} {key : String × String} {e : CallEvent} :
    creates config key e = true ↔ ∃ row, Records config row e.entry ∧ row.key = key := by
  simp [creates, recordsSuch_iff]

theorem Call.answers_keys {config : StoreConfig} {m m' : Memory} {t : Nat} {c : Call}
    {r : c.Answer} (h : c.answers config m t r m') :
    (m'.db.idempotencyKeys = m.db.idempotencyKeys ∧ ∀ row, ¬ Records config row ⟨c, r⟩) ∨
      ∃ row, Records config row ⟨c, r⟩ ∧ RowAdded m.db m'.db row := by
  by_cases hstore : ∃ call, c = .store call
  · obtain ⟨call, rfl⟩ := hstore
    obtain ⟨now, rfl, rfl⟩ := h
    simp only [StoreCall.answer, StoreCall.after]
    cases hrun : call.run config now m.db with
    | error e =>
      refine Or.inl ⟨rfl, ?_⟩
      rintro row ⟨call', value, heq, -⟩
      cases heq
    | ok r =>
      have hafter := StoreCall.run_keys hrun
      cases hrow : call.row? config r.value with
      | none =>
        rw [hrow] at hafter
        refine Or.inl ⟨hafter, ?_⟩
        rintro row ⟨call', value, heq, hsome⟩
        cases heq
        cases hrow.symm.trans hsome
      | some row =>
        rw [hrow] at hafter
        exact Or.inr ⟨row, ⟨call, r.value, rfl, hrow⟩, ⟨hafter.free, hafter.keys⟩⟩
  · have hdb := (Call.answers_db h fun call heq => hstore ⟨call, heq⟩).1
    refine Or.inl ⟨congrArg Db.idempotencyKeys hdb, ?_⟩
    rintro row ⟨call, value, heq, -⟩
    exact hstore ⟨call, congrArg Sigma.fst heq⟩

/-- The tasks record every mutation under its own operation. -/
theorem StorePromise.keyed {task : Task} {made : Calls} {call : StoreCall}
    (h : StorePromise task made call) : call.Keyed := by
  have hone : ∀ {operations : List String} {idempotency : Option Idempotency},
      RecordsAs operations idempotency → "intent" ∉ operations →
      ∀ i ∈ idempotency, i.operation ≠ "intent" := by
    rintro operations _ hrecords hnot i rfl heq
    exact hnot (heq ▸ hrecords)
  cases call with
  | setServiceState => exact hone h.2 (by decide)
  | createCancellation | startReconciliation | startBackup => exact hone h (by decide)
  | _ => exact fun i hi => nomatch hi

namespace Coordinator.Reaches

variable {self : Coordinator} {config : StoreConfig} {guard : CallGuard} {s : System}

/-- In every state reached a key has one row, and the intents fit the keys. -/
theorem keysKept (h : self.Reaches config guard s) : s.memory.db.KeysKept := by
  induction h with
  | start => exact .initial
  | @call p t task made c next r memory hp ht hanswer hguard ih =>
    by_cases hstore : ∃ call, c = .store call
    · obtain ⟨call, rfl⟩ := hstore
      obtain ⟨now, -, rfl⟩ := hanswer
      exact ih.after (StorePromise.keyed (promised hp ht).1.call)
    · change memory.db.KeysKept
      rwa [(Call.answers_db hanswer fun call heq => hstore ⟨call, heq⟩).1]
  | @arrive p task memory hp harrives ih =>
    change memory.db.KeysKept
    rwa [(Task.arrives_frame harrives).1]
  | drop _ _ _ ih => exact ih
  | surroundings _ hchange ih =>
    obtain ⟨db, hframe, rfl⟩ := hchange
    exact ih.congr (congrArg Office.idempotencyKeys hframe.office_eq) hframe.terms_eq
  | crash _ ih => exact ih

/-- A row stays: those of the database a call found, and the row the call recorded. -/
theorem rows_stay (h : self.Reaches config guard s) {e : CallEvent} (he : e ∈ s.history) :
    (∀ row ∈ e.found.db.idempotencyKeys, row ∈ s.memory.db.idempotencyKeys) ∧
      ∀ row, Records config row e.entry → row ∈ s.memory.db.idempotencyKeys := by
  induction h with
  | start => cases he
  | @call p t task made c next r memory hp ht hanswer hguard ih =>
    have hstep : ∀ row ∈ p.memory.db.idempotencyKeys, row ∈ memory.db.idempotencyKeys := by
      intro row hrow
      rcases Call.answers_keys hanswer with ⟨hsame, -⟩ | ⟨_, -, hadded⟩
      · rwa [hsame]
      · rw [hadded.keys]
        exact List.mem_append_left _ hrow
    rcases List.mem_cons.mp he with rfl | he
    · refine ⟨hstep, fun row hrecords => ?_⟩
      rcases Call.answers_keys hanswer with ⟨-, hnone⟩ | ⟨row', ⟨call, value, heq, hrow⟩, hadded⟩
      · exact absurd hrecords (hnone row)
      · obtain ⟨call', value', heq', hrow'⟩ := hrecords
        cases heq.symm.trans heq'
        obtain rfl := Option.some.inj (hrow.symm.trans hrow')
        change _ ∈ memory.db.idempotencyKeys
        rw [hadded.keys]
        exact List.mem_append_right _ (List.mem_singleton_self _)
    · obtain ⟨hfound, hrecorded⟩ := ih he
      exact ⟨fun row hrow => hstep row (hfound row hrow),
        fun row hrecords => hstep row (hrecorded row hrecords)⟩
  | @arrive p task memory hp harrives ih =>
    change (∀ row ∈ _, row ∈ memory.db.idempotencyKeys) ∧ ∀ row, _ → row ∈ memory.db.idempotencyKeys
    rw [(Task.arrives_frame harrives).1]
    exact ih he
  | drop _ _ _ ih => exact ih he
  | surroundings _ hchange ih =>
    obtain ⟨db, hframe, rfl⟩ := hchange
    have hkeys : db.idempotencyKeys = _ := congrArg Office.idempotencyKeys hframe.office_eq
    change (∀ row ∈ _, row ∈ db.idempotencyKeys) ∧ ∀ row, _ → row ∈ db.idempotencyKeys
    rw [hkeys]
    exact ih he
  | crash _ ih => exact ih he

theorem rows_recorded (h : self.Reaches config guard s) {row : IdempotencyKey}
    (hrow : row ∈ s.memory.db.idempotencyKeys) : ∃ e ∈ s.history, Records config row e.entry := by
  induction h with
  | start => cases hrow
  | @call p t task made c next r memory hp ht hanswer hguard ih =>
    rcases Call.answers_keys hanswer with ⟨hsame, -⟩ | ⟨row', hrecords, hadded⟩
    · obtain ⟨e, he, hrecords⟩ := ih (hsame ▸ hrow)
      exact ⟨e, List.mem_cons_of_mem _ he, hrecords⟩
    · change row ∈ memory.db.idempotencyKeys at hrow
      rw [hadded.keys] at hrow
      rcases List.mem_append.mp hrow with hrow | hrow
      · obtain ⟨e, he, hrecords⟩ := ih hrow
        exact ⟨e, List.mem_cons_of_mem _ he, hrecords⟩
      · rw [List.mem_singleton.mp hrow]
        exact ⟨_, List.mem_cons_self, hrecords⟩
  | @arrive p task memory hp harrives ih =>
    change row ∈ memory.db.idempotencyKeys at hrow
    rw [(Task.arrives_frame harrives).1] at hrow
    exact ih hrow
  | drop _ _ _ ih => exact ih hrow
  | surroundings _ hchange ih =>
    obtain ⟨db, hframe, rfl⟩ := hchange
    have hkeys : db.idempotencyKeys = _ := congrArg Office.idempotencyKeys hframe.office_eq
    change row ∈ db.idempotencyKeys at hrow
    rw [hkeys] at hrow
    exact ih hrow
  | crash _ ih => exact ih hrow

/-- The rows an earlier call found or recorded are there for a later one. -/
theorem rows_found (h : self.Reaches config guard s) {e e' : CallEvent}
    (hbefore : [e, e'].Sublist s.history) :
    (∀ row ∈ e'.found.db.idempotencyKeys, row ∈ e.found.db.idempotencyKeys) ∧
      ∀ row, Records config row e'.entry → row ∈ e.found.db.idempotencyKeys := by
  obtain ⟨before, rest, heq, he, hrest⟩ := List.cons_sublist_iff.mp hbefore
  obtain ⟨after, mid, rfl⟩ := List.append_of_mem he
  have he' : e' ∈ rest := hrest.subset (List.mem_singleton_self _)
  have heq : s.history = after ++ e :: (mid ++ rest) := by simpa using heq
  obtain ⟨p, next, memory, hp, hmemory, hhistory, -⟩ := h.moment heq
  have hp : self.Reaches config guard p := hp
  rw [← hmemory]
  exact hp.rows_stay (hhistory ▸ List.mem_append_right _ he')

theorem records_free (h : self.Reaches config guard s) {e : CallEvent} (he : e ∈ s.history)
    {row : IdempotencyKey} (hrecords : Records config row e.entry) :
    ¬ e.found.db.KeyTaken row.key := by
  obtain ⟨after, before, heq⟩ := List.append_of_mem he
  obtain ⟨p, next, memory, -, -, -, -, hanswer, -⟩ := h.moment heq
  rcases Call.answers_keys (c := e.entry.1) (r := e.entry.2) hanswer with
    ⟨-, hnone⟩ | ⟨row', ⟨call, value, hentry, hrow⟩, hadded⟩
  · exact absurd hrecords (hnone row)
  · obtain ⟨call', value', hentry', hrow'⟩ := hrecords
    cases hentry.symm.trans hentry'
    obtain rfl := Option.some.inj (hrow.symm.trans hrow')
    exact hadded.free

theorem keysKept_found (h : self.Reaches config guard s) {e : CallEvent} (he : e ∈ s.history) :
    e.found.db.KeysKept := by
  obtain ⟨after, before, heq⟩ := List.append_of_mem he
  obtain ⟨p, next, memory, hp, hmemory, -⟩ := h.moment heq
  have hp : self.Reaches config guard p := hp
  exact hmemory ▸ hp.keysKept

end Coordinator.Reaches

/-! ## Requests -/

/-- The calls of a handler, latest first, as it saw them. -/
def logOf (events : List CallEvent) : List (Memory × Sigma Call.Answer) :=
  events.reverse.map fun e => (e.found, e.entry)

theorem mem_logOf {events : List CallEvent} {e : CallEvent} (he : e ∈ events) :
    (e.found, e.entry) ∈ logOf events :=
  List.mem_map.mpr ⟨e, List.mem_reverse.mpr he, rfl⟩

/-- A request: the handler of the mutation makes these calls, latest first, and answers. -/
def Request (self : Coordinator) (config : StoreConfig) (actorId key : String) (m : Mutation)
    (events : List CallEvent) (answer : Except ApiError ApiResponse) : Prop :=
  ∃ limits, (m.handle self config limits actorId (some key)).run.Told (logOf events) answer

end OddsfoxExecution
