import OddsfoxExecution.Coordinator.Conduct

/-!
# What holds in every state the executor reaches

The promises of the tasks, carried to whole runs: the store calls of a run form
a run of the store, every gate is held by the one task that locked it, and the
revision of the control row grows with every control write.
-/

namespace OddsfoxExecution

abbrev CallEvent : Type := Event Call Call.Answer Task Memory

/-- How one step changes the databases of a memory: not at all, or by adding one. -/
def Memory.Extends (m m' : Memory) : Prop :=
  (m'.db = m.db ∧ m'.past = m.past) ∨ m'.past = m.db :: m.past

theorem Call.answers_extends {config : StoreConfig} {m m' : Memory} {t : Nat} {c : Call}
    {r : c.Answer} (h : c.answers config m t r m') : m.Extends m' := by
  cases c with
  | store call =>
    obtain ⟨now, -, rfl⟩ := h
    exact Or.inr rfl
  | lock | takeDeferred | enqueue | reserveQueue =>
    obtain ⟨-, rfl⟩ := h
    exact Or.inl ⟨rfl, rfl⟩
  | _ =>
    cases h
    exact Or.inl ⟨rfl, rfl⟩

theorem Call.answers_db {config : StoreConfig} {m m' : Memory} {t : Nat} {c : Call}
    {r : c.Answer} (h : c.answers config m t r m') (hc : ∀ call, c ≠ .store call) :
    m'.db = m.db ∧ m'.past = m.past := by
  cases c with
  | store call => exact absurd rfl (hc call)
  | lock | takeDeferred | enqueue | reserveQueue =>
    obtain ⟨-, rfl⟩ := h
    exact ⟨rfl, rfl⟩
  | _ =>
    cases h
    exact ⟨rfl, rfl⟩

theorem Call.answers_done {config : StoreConfig} {m m' : Memory} {t : Nat} (call : StoreCall)
    {value : call.Value} (h : Call.answers config m t (.store call) (Except.ok value) m') :
    ∃ now r, call.run config now m.db = .ok r ∧ r.value = value ∧ m'.db = r.db := by
  obtain ⟨now, hanswer, rfl⟩ := h
  have hanswer : (Except.ok value : call.Response) = call.answer config now m.db := hanswer
  obtain ⟨r, hrun, hvalue, hdb⟩ := StoreCall.answer_ok hanswer
  exact ⟨now, r, hrun, hvalue, hdb⟩

/-- An arriving task leaves the databases, the gates and the deferred list alone. -/
theorem Task.arrives_frame {requiresHeartbeat : Bool} {m m' : Memory} {task : Task}
    (h : task.arrives requiresHeartbeat m m') :
    m'.db = m.db ∧ m'.past = m.past ∧ m'.gates = m.gates := by
  cases task with
  | worker =>
    obtain ⟨-, _, -, rfl⟩ := h
    exact ⟨rfl, rfl, rfl⟩
  | cancellation | reconciliation | protectiveCancellation =>
    obtain ⟨_, _, -, rfl⟩ := h
    exact ⟨rfl, rfl, rfl⟩
  | scheduledReconciliation =>
    cases h
    exact ⟨rfl, rfl, rfl⟩
  | _ =>
    obtain ⟨-, rfl⟩ := h
    exact ⟨rfl, rfl, rfl⟩

theorem Memory.Extends.past_subset {m m' : Memory} (h : m.Extends m') {db : Db}
    (hdb : db ∈ m.past) : db ∈ m'.past := by
  rcases h with ⟨-, hpast⟩ | hpast
  · rwa [hpast]
  · rw [hpast]
    exact List.mem_cons_of_mem _ hdb

theorem Memory.Extends.mem {m m' : Memory} (h : m.Extends m') {db : Db}
    (hdb : db ∈ m.db :: m.past) : db ∈ m'.db :: m'.past := by
  rcases h with ⟨hsame, hpast⟩ | hpast
  · rwa [hsame, hpast]
  · rw [hpast]
    exact List.mem_cons_of_mem _ hdb

def RecordedIn (config : StoreConfig) (m : Memory) (e : CallEvent) : Prop :=
  ∀ call r, e.entry = ⟨.store call, r⟩ → e.found.db ∈ m.past ∧
    ∃ now, r = call.answer config now e.found.db ∧
      call.after config now e.found.db ∈ m.db :: m.past

theorem RecordedIn.extend {config : StoreConfig} {m m' : Memory} {e : CallEvent}
    (h : RecordedIn config m e) (hextends : m.Extends m') : RecordedIn config m' e :=
  fun call r heq =>
    have ⟨hfound, now, hanswer, hafter⟩ := h call r heq
    ⟨hextends.past_subset hfound, now, hanswer, hextends.mem hafter⟩

/-- The venue never acknowledges a submission with the state UNKNOWN. -/
def VenueDecides : CallGuard := fun _ _ e =>
  ∀ prepared request submission, e = asked (.submit prepared request) (.ok submission) →
    submission.state ≠ .unknown

def decides : Sigma Call.Answer → Bool
  | ⟨.venue (.submit ..), r⟩ =>
    match (r : VenueAnswer VenueSubmission) with
    | .ok submission => submission.state ≠ .unknown
    | _ => true
  | _ => true

theorem decides_guards {m : Memory} {task : Task} {e : Sigma Call.Answer}
    (h : decides e = true) : VenueDecides m task e := by
  rintro prepared request submission rfl
  exact of_decide_eq_true h

namespace Coordinator.Reaches

variable {self : Coordinator} {config : StoreConfig} {guard : CallGuard} {s : System}

/-- A live task keeps its promise from here on. -/
theorem promised (h : self.Reaches config guard s) {t : Nat}
    {thread : Thread Call Call.Answer Task (Except CoordinatorError Unit)}
    (ht : s.threads t = some thread) :
    thread.rest.wp (Promise thread.task) (fun _ _ => True) thread.made :=
  Machine.Reaches.promised (fun _ _ _ => program_promised) h ht

/-- Every call of a run kept its promise. -/
theorem kept (h : self.Reaches config guard s) {after before : List CallEvent} {e : CallEvent}
    (heq : s.history = after ++ e :: before) :
    Promise e.task (ownCalls e.thread before) e.entry.1 :=
  Machine.Reaches.kept (fun _ _ _ => program_promised) h heq

theorem recorded (h : self.Reaches config guard s) :
    ∀ e ∈ s.history, RecordedIn config s.memory e := by
  induction h with
  | start => exact fun _ he => nomatch he
  | @call p t task made c next r memory hp ht hanswer hguard ih =>
    intro e he
    rcases List.mem_cons.mp he with rfl | he
    · rintro call r' heq
      cases heq
      obtain ⟨now, rfl, rfl⟩ := hanswer
      exact ⟨List.mem_cons_self, now, rfl, List.mem_cons_self⟩
    · exact (ih e he).extend (Call.answers_extends hanswer)
  | arrive _ harrives ih =>
    obtain ⟨hdb, hpast, -⟩ := Task.arrives_frame harrives
    exact fun e he => (ih e he).extend (Or.inl ⟨hdb, hpast⟩)
  | drop _ _ _ ih => exact fun e he => (ih e he).extend (Or.inl ⟨rfl, rfl⟩)
  | surroundings _ hchange ih =>
    obtain ⟨_, -, rfl⟩ := hchange
    exact fun e he => (ih e he).extend (Or.inr rfl)
  | crash _ ih => exact fun e he => (ih e he).extend (Or.inl ⟨rfl, rfl⟩)

/-- A store call that succeeded was a committed transaction of the run. -/
theorem committed (h : self.Reaches config guard s) {e : CallEvent} (he : e ∈ s.history)
    {call : StoreCall} {value : call.Value} (hentry : e.entry = done call value) :
    e.found.db ∈ s.memory.past ∧ ∃ now r, call.run config now e.found.db = .ok r ∧
      r.value = value ∧ r.db ∈ s.memory.db :: s.memory.past := by
  obtain ⟨hfound, now, hanswer, hafter⟩ := h.recorded e he _ _ hentry
  have hanswer : (Except.ok value : call.Response) = call.answer config now e.found.db := hanswer
  obtain ⟨r, hrun, hvalue, hdb⟩ := StoreCall.answer_ok hanswer
  exact ⟨hfound, now, r, hrun, hvalue, hdb ▸ hafter⟩

/-- The value of a successful store call comes from a database of the past. -/
theorem read (h : self.Reaches config guard s) {t : Nat}
    {thread : Thread Call Call.Answer Task (Except CoordinatorError Unit)}
    (ht : s.threads t = some thread) {call : StoreCall} {r : call.Response}
    (hmade : (⟨.store call, r⟩ : Sigma Call.Answer) ∈ thread.made) :
    ∃ earlier ∈ s.memory.past, ∃ now, r = call.answer config now earlier := by
  rw [← h.consistent.own t thread ht] at hmade
  obtain ⟨e, he, -, hentry⟩ := mem_ownCalls.mp hmade
  obtain ⟨hpast, now, hanswer, -⟩ := h.recorded e he call r hentry
  exact ⟨_, hpast, now, hanswer⟩

/-- The store calls of a run are among those a run of the store allows. -/
theorem allowed (h : self.Reaches config guard s) {t : Nat} {task : Task} {made : Calls}
    {call : StoreCall} {next : (Call.store call).Answer → Prog Call Call.Answer _}
    (ht : s.threads t = some ⟨task, made, .call (.store call) next⟩) :
    call.Allowed (s.memory.db :: s.memory.past) := by
  have hpromise : StorePromise task made call := (h.promised ht).1.call
  cases call with
  | transitionIntent => exact hpromise
  | finishSubmission intentId orderId intentState orderState venueOrderId cls filled price ids =>
    obtain ⟨-, -, prepared, request, answer, earlier, -, hcall⟩ := hpromise
    unfold recordedCall at hcall
    split at hcall
    · cases hcall
      exact Or.inl rfl
    · split at hcall
      · cases hcall
        exact Or.inr ⟨rfl, rfl⟩
      · cases hcall
        exact Or.inl rfl
  | resolveUnknownSubmission =>
    obtain ⟨-, ⟨rows, hread, hmem⟩, -⟩ := hpromise
    obtain ⟨earlier, hpast, now, hanswer⟩ := h.read ht hread
    cases hanswer
    exact ⟨earlier, List.mem_cons_of_mem _ hpast, hmem⟩
  | reconcileOrderProjection =>
    obtain ⟨-, known, order, observedId, hread, hmem, hid, hactive, -⟩ := hpromise
    obtain ⟨earlier, hpast, now, hanswer⟩ := h.read ht hread
    cases hanswer
    exact ⟨earlier, List.mem_cons_of_mem _ hpast, order, hmem, hid, hactive⟩
  | _ => trivial

theorem guarded (h : self.Reaches config guard s) {e : CallEvent} (he : e ∈ s.history) :
    guard e.found e.task e.entry := by
  obtain ⟨after, before, heq⟩ := List.append_of_mem he
  obtain ⟨_, _, _, -, -, -, -, -, hguard⟩ := h.moment heq
  exact hguard

/-- Where the venue decides, no task tells the store that it reported an order as UNKNOWN. -/
theorem truthful (h : self.Reaches config VenueDecides s) {t : Nat} {task : Task} {made : Calls}
    {call : StoreCall} {next : (Call.store call).Answer → Prog Call Call.Answer _}
    (ht : s.threads t = some ⟨task, made, .call (.store call) next⟩) : call.Truthful := by
  have hpromise : StorePromise task made call := (h.promised ht).1.call
  cases call with
  | finishSubmission intentId orderId intentState orderState venueOrderId cls filled price ids =>
    rintro rfl rfl
    obtain ⟨-, -, prepared, request, answer, earlier, rfl, hcall⟩ := hpromise
    unfold recordedCall submissionResult at hcall
    split at hcall
    · rename_i submission hok
      cases answer with
      | ok value =>
        cases hok
        obtain ⟨e, he, -, hentry⟩ : ∃ e ∈ s.history, e.thread = t ∧
            e.entry = asked (.submit prepared request) (.ok submission) := by
          rw [← mem_ownCalls, h.consistent.own t _ ht]
          exact List.mem_cons_self
        have hdecided := h.guarded he prepared request submission hentry
        injection hcall with _ _ _ hunknown
        exact hdecided hunknown.symm
      | error => cases hok
      | timeout => cases hok
    · split at hcall <;> cases hcall
  | resolveUnknownSubmission => exact hpromise.1
  | reconcileOrderProjection => exact hpromise.1
  | _ => trivial

/-- The databases of a run are those of a run of the store whose operations meet what every task
asks of them. -/
theorem storeRun_of {asks : StoreCall → Db → Prop} (h : self.Reaches config guard s)
    (hasks : ∀ {s : System} {t : Nat} {task : Task} {made : Calls} {call : StoreCall}
      {next : (Call.store call).Answer → Prog Call Call.Answer _}, self.Reaches config guard s →
      s.threads t = some ⟨task, made, .call (.store call) next⟩ → asks call s.memory.db) :
    StoreRun config asks s.memory.db s.memory.past := by
  induction h with
  | start => exact .initial
  | @call p t task made c next r memory hp ht hanswer hguard ih =>
    by_cases hstore : ∃ call, c = .store call
    · obtain ⟨call, rfl⟩ := hstore
      obtain ⟨now, rfl, rfl⟩ := hanswer
      exact .call call now ih (allowed hp ht) (hasks hp ht)
    · obtain ⟨hdb, hpast⟩ := Call.answers_db hanswer fun call heq => hstore ⟨call, heq⟩
      change StoreRun config _ memory.db memory.past
      rw [hdb, hpast]
      exact ih
  | @arrive p task memory hp harrives ih =>
    obtain ⟨hdb, hpast, -⟩ := Task.arrives_frame harrives
    change StoreRun config _ memory.db memory.past
    rw [hdb, hpast]
    exact ih
  | drop _ _ _ ih => exact ih
  | surroundings _ hchange ih =>
    obtain ⟨_, hframe, rfl⟩ := hchange
    exact .venue ih hframe
  | crash _ ih => exact ih

theorem storeRun (h : self.Reaches config guard s) :
    StoreRun config (fun _ _ => True) s.memory.db s.memory.past :=
  h.storeRun_of fun _ _ => trivial

theorem leads (h : self.Reaches config guard s) : Leads s.memory.db s.memory.past :=
  h.storeRun.leads

theorem coherent (h : self.Reaches config guard s) : Coherent s.memory.db.lifecycle :=
  h.leads.coherent

/-! ## Gates -/

def Holder (s : System) (gate : Gate) (t : Nat) : Prop :=
  ∃ thread, s.threads t = some thread ∧ Holds gate thread.made

theorem holder_perform {t t' : Nat} {task : Task} {made : Calls} {entry : Sigma Call.Answer}
    {rest : Prog Call Call.Answer (Except CoordinatorError Unit)} {memory : Memory} {gate : Gate} :
    Holder (s.perform t task made entry rest memory) gate t' ↔
      if t' = t then Holds gate (entry :: made) else Holder s gate t' := by
  unfold Holder Pool.perform
  by_cases ht : t' = t
  · subst ht
    simp
  · simp [ht]

theorem holder_of_thread {t : Nat} {task : Task} {made : Calls}
    {rest : Prog Call Call.Answer (Except CoordinatorError Unit)} {gate : Gate}
    (ht : s.threads t = some ⟨task, made, rest⟩) : Holder s gate t ↔ Holds gate made := by
  simp [Holder, ht]

/-- What a call does to a gate: it takes it, frees it, or leaves it as it is. -/
theorem gate_answers {m m' : Memory} {t : Nat} {c : Call} {r : c.Answer}
    (h : c.answers config m t r m') (gate : Gate) (made : Calls) :
    (c = .lock gate ∧ m.gates gate = none ∧ m'.gates gate = some t ∧
        Holds gate (⟨c, r⟩ :: made)) ∨
      (c = .unlock gate ∧ m'.gates gate = none ∧ ¬ Holds gate (⟨c, r⟩ :: made)) ∨
      (m'.gates gate = m.gates gate ∧ (Holds gate (⟨c, r⟩ :: made) ↔ Holds gate made)) := by
  cases c with
  | lock g =>
    obtain ⟨hfree, rfl⟩ := h
    by_cases hg : g = gate
    · subst hg
      exact Or.inl ⟨rfl, hfree, Function.update_self .., Or.inl rfl⟩
    · exact Or.inr (Or.inr ⟨Function.update_of_ne (Ne.symm hg) .., or_iff_right hg⟩)
  | unlock g =>
    cases h
    by_cases hg : g = gate
    · subst hg
      exact Or.inr (Or.inl ⟨rfl, Function.update_self .., fun hholds => hholds.1 rfl⟩)
    · exact Or.inr (Or.inr ⟨Function.update_of_ne (Ne.symm hg) .., and_iff_right hg⟩)
  | store call =>
    obtain ⟨now, -, rfl⟩ := h
    exact Or.inr (Or.inr ⟨rfl, Iff.rfl⟩)
  | takeDeferred | enqueue | reserveQueue =>
    obtain ⟨-, rfl⟩ := h
    exact Or.inr (Or.inr ⟨rfl, Iff.rfl⟩)
  | _ =>
    cases h
    exact Or.inr (Or.inr ⟨rfl, Iff.rfl⟩)

section GateHeld

variable {p : System} {gate : Gate}
  (hheld : ∀ t, p.memory.gates gate = some t ↔ Holder p gate t)

include hheld

theorem gate_held_answered {t₀ : Nat} {task : Task} {made : Calls} {c : Call} {r : c.Answer}
    {before rest : Prog Call Call.Answer (Except CoordinatorError Unit)} {memory : Memory}
    (ht : p.threads t₀ = some ⟨task, made, before⟩) (hpromise : Promise task made c)
    (hanswer : c.answers config p.memory t₀ r memory) (t : Nat) :
    memory.gates gate = some t ↔ Holder (p.perform t₀ task made ⟨c, r⟩ rest memory) gate t := by
  rw [holder_perform]
  rcases gate_answers hanswer gate made with ⟨-, hfree, htaken, hholds⟩ |
    ⟨rfl, hfreed, hholds⟩ | ⟨hsame, hholds⟩
  · rw [htaken, Option.some.injEq]
    by_cases hsame : t = t₀
    · simp [hsame, hholds]
    · have hnone : ¬ Holder p gate t := fun hholder => by
        rw [(hheld t).mpr hholder] at hfree
        cases hfree
      simp [hsame, hnone, Ne.symm hsame]
  · rw [hfreed]
    by_cases hsame : t = t₀
    · simp [hsame, hholds]
    · -- the task that frees the gate held it, so no other did
      have hnone : ¬ Holder p gate t := fun hholder => by
        have hother := (hheld t).mpr hholder
        rw [(hheld t₀).mpr ((holder_of_thread ht).mpr hpromise.call)] at hother
        exact hsame (Option.some.inj hother).symm
      simp [hsame, hnone]
  · rw [hsame, hheld t, hholds]
    by_cases hsame : t = t₀
    · subst hsame
      simp [holder_of_thread ht]
    · simp [hsame]

theorem gate_held_dropped (t₀ t : Nat) :
    ((self.machine config).dropped p.memory t₀).gates gate = some t ↔
      Holder (p.remove t₀ ((self.machine config).dropped p.memory t₀)) gate t := by
  have hdropped : ((self.machine config).dropped p.memory t₀).gates gate =
      if p.memory.gates gate = some t₀ then none else p.memory.gates gate := rfl
  simp only [Pool.remove, hdropped, Holder]
  by_cases hsame : t = t₀
  · subst hsame
    simp only [Function.update_self, reduceCtorEq, false_and, exists_false, iff_false]
    split
    · exact fun h => by cases h
    · assumption
  · rw [Function.update_of_ne hsame]
    split
    · rename_i hown
      have hnone : ¬ Holder p gate t := fun hholder => by
        rw [(hheld t).mpr hholder] at hown
        exact hsame (Option.some.inj hown)
      exact iff_of_false (fun h => by cases h) hnone
    · exact hheld t

end GateHeld

/-- A gate is held by the task that the memory names, and by no other. -/
theorem gate_held (h : self.Reaches config guard s) (gate : Gate) (t : Nat) :
    s.memory.gates gate = some t ↔ Holder s gate t := by
  induction h generalizing t with
  | start => simp [Holder, Memory.ofDb]
  | call hp ht hanswer hguard ih =>
    exact gate_held_answered ih ht (promised hp ht).1 hanswer t
  | @arrive p task memory hp harrives ih =>
    obtain ⟨-, -, hgates⟩ := Task.arrives_frame harrives
    simp only [Pool.add, hgates, ih, Holder]
    by_cases ht : t = p.fresh
    · subst ht
      simp [hp.consistent.fresh_free, Holds]
    · simp [Function.update_of_ne ht]
  | drop _ _ _ ih => exact gate_held_dropped ih _ t
  | surroundings _ hchange ih =>
    obtain ⟨_, -, rfl⟩ := hchange
    exact ih t
  | crash _ _ =>
    refine iff_of_false (fun h => by cases h) ?_
    rintro ⟨_, h, _⟩
    cases h

theorem holder_unique (h : self.Reaches config guard s) {gate : Gate} {t t' : Nat}
    (ht : Holder s gate t) (ht' : Holder s gate t') : t = t' :=
  Option.some.inj (((h.gate_held gate t).mpr ht).symm.trans ((h.gate_held gate t').mpr ht'))

/-! ## Phases of a process -/

/-- The tasks that begin only once the process serves. -/
def Served : Task → Prop
  | .submitIntent .. | .cancel .. | .halt .. | .resume .. | .reconcile .. | .shutdown => True
  | _ => False

/-- How the tasks of a process fit its phase: one startup, over before anything is served. -/
structure Phased (s : System) : Prop where
  main : ∀ t thread, s.threads t = some thread → thread.task = .main → s.memory.phase ≠ .cold ∧
    ((∀ e ∈ thread.made, e.1 ≠ .serve) → s.memory.phase = .starting)
  unique : ∀ t t' thread thread', s.threads t = some thread → s.threads t' = some thread' →
    thread.task = .main → thread'.task = .main → t = t'
  served : ∀ t thread, s.threads t = some thread → Served thread.task →
    s.memory.phase = .serving ∨ s.memory.phase = .stopping

theorem phase_of_other {m m' : Memory} {t : Nat} {c : Call} {r : c.Answer}
    (h : c.answers config m t r m') (hserve : c ≠ .serve) : m'.phase = m.phase := by
  cases c with
  | serve => exact absurd rfl hserve
  | store =>
    obtain ⟨now, -, rfl⟩ := h
    rfl
  | lock | takeDeferred | enqueue | reserveQueue =>
    obtain ⟨-, rfl⟩ := h
    rfl
  | _ =>
    cases h
    rfl

/-- What an arrival does to the phase. -/
theorem arrives_phase {requiresHeartbeat : Bool} {m m' : Memory} {task : Task}
    (h : task.arrives requiresHeartbeat m m') :
    (task = .main ∧ m.phase = .cold ∧ m'.phase = .starting) ∨
      (task = .shutdown ∧ m.phase = .serving ∧ m'.phase = .stopping) ∨
      (task ≠ .main ∧ m'.phase = m.phase ∧ (Served task → m.phase = .serving)) := by
  cases task with
  | main =>
    obtain ⟨hcold, rfl⟩ := h
    exact Or.inl ⟨rfl, hcold, rfl⟩
  | shutdown =>
    obtain ⟨hserving, rfl⟩ := h
    exact Or.inr (Or.inl ⟨rfl, hserving, rfl⟩)
  | worker =>
    obtain ⟨-, _, -, rfl⟩ := h
    exact Or.inr (Or.inr ⟨fun h => (nomatch h), rfl, False.elim⟩)
  | cancellation | reconciliation | protectiveCancellation =>
    obtain ⟨_, _, -, rfl⟩ := h
    exact Or.inr (Or.inr ⟨fun h => (nomatch h), rfl, False.elim⟩)
  | scheduledReconciliation =>
    cases h
    exact Or.inr (Or.inr ⟨fun h => (nomatch h), rfl, False.elim⟩)
  | heartbeat | operation =>
    obtain ⟨-, rfl⟩ := h
    exact Or.inr (Or.inr ⟨fun h => (nomatch h), rfl, False.elim⟩)
  | submitIntent | cancel | halt | resume | reconcile =>
    obtain ⟨hserving, rfl⟩ := h
    exact Or.inr (Or.inr ⟨fun h => (nomatch h), rfl, fun _ => hserving⟩)

namespace Phased

variable {p : System} (h : Phased p)

include h

theorem answered {t : Nat} {task : Task} {made : Calls} {c : Call} {r : c.Answer}
    {before rest : Prog Call Call.Answer (Except CoordinatorError Unit)} {memory : Memory}
    (ht : p.threads t = some ⟨task, made, before⟩) (hpromise : Promise task made c)
    (hanswer : c.answers config p.memory t r memory) :
    Phased (p.perform t task made ⟨c, r⟩ rest memory) := by
  have hthreads : ∀ {t' thread}, (p.perform t task made ⟨c, r⟩ rest memory).threads t' =
      some thread → ∃ thread', p.threads t' = some thread' ∧ thread'.task = thread.task ∧
        ∀ e ∈ thread'.made, e ∈ thread.made := by
    intro t' thread hthread
    rcases Pool.perform_threads hthread with ⟨rfl, rfl⟩ | ⟨-, hthread⟩
    · exact ⟨_, ht, rfl, fun e he => List.mem_cons_of_mem _ he⟩
    · exact ⟨thread, hthread, rfl, fun _ he => he⟩
  have hunique : ∀ t₁ t₂ thread₁ thread₂,
      (p.perform t task made ⟨c, r⟩ rest memory).threads t₁ = some thread₁ →
      (p.perform t task made ⟨c, r⟩ rest memory).threads t₂ = some thread₂ →
      thread₁.task = .main → thread₂.task = .main → t₁ = t₂ := by
    intro t₁ t₂ thread₁ thread₂ h₁ h₂ htask₁ htask₂
    obtain ⟨_, hbefore₁, hmain₁, -⟩ := hthreads h₁
    obtain ⟨_, hbefore₂, hmain₂, -⟩ := hthreads h₂
    exact h.unique t₁ t₂ _ _ hbefore₁ hbefore₂ (hmain₁.trans htask₁) (hmain₂.trans htask₂)
  by_cases hserve : c = .serve
  · subst hserve
    cases hanswer
    obtain ⟨rfl, -⟩ : task = .main ∧ _ := hpromise.call
    refine ⟨fun t' thread hthread htask => ⟨fun hcold => (nomatch hcold), fun hunserved => ?_⟩,
      hunique, fun _ _ _ _ => Or.inl rfl⟩
    -- the one startup has just begun to serve
    rcases Pool.perform_threads hthread with ⟨-, rfl⟩ | ⟨hne, hthread⟩
    · exact absurd rfl (hunserved _ List.mem_cons_self)
    · exact absurd (h.unique t' t thread _ hthread ht htask rfl) hne
  · have hphase : memory.phase = p.memory.phase := phase_of_other hanswer hserve
    refine ⟨fun t' thread hthread htask => ?_, hunique, fun t' thread hthread htask => ?_⟩
    · obtain ⟨thread', hthread', htask', hmade⟩ := hthreads hthread
      obtain ⟨hcold, hstarting⟩ := h.main t' thread' hthread' (htask'.trans htask)
      change memory.phase ≠ .cold ∧ (_ → memory.phase = .starting)
      rw [hphase]
      exact ⟨hcold, fun hunserved => hstarting fun e he => hunserved e (hmade e he)⟩
    · obtain ⟨thread', hthread', htask', -⟩ := hthreads hthread
      change memory.phase = .serving ∨ memory.phase = .stopping
      rw [hphase]
      exact h.served t' thread' hthread' (htask' ▸ htask)

theorem started {memory : Memory} (hcold : p.memory.phase = .cold)
    (hstarting : memory.phase = .starting) :
    Phased (Pool.add (self.machine config) p .main memory) := by
  -- no startup runs in a process that has not begun
  have hnone : ∀ t thread, p.threads t = some thread → thread.task ≠ .main :=
    fun t thread ht htask => (h.main t thread ht htask).1 hcold
  refine ⟨fun t thread _ _ => ⟨fun hsame => (nomatch hstarting.symm.trans hsame),
    fun _ => hstarting⟩, fun t t' thread thread' ht ht' htask htask' => ?_,
    fun t thread ht htask => ?_⟩
  · rcases Pool.add_threads ht with ⟨rfl, -⟩ | hold
    · rcases Pool.add_threads ht' with ⟨rfl, -⟩ | hold'
      · rfl
      · exact absurd htask' (hnone _ _ hold')
    · exact absurd htask (hnone _ _ hold)
  · rcases Pool.add_threads ht with ⟨-, rfl⟩ | hold
    · exact htask.elim
    · rcases h.served t thread hold htask with hphase | hphase <;> cases hcold.symm.trans hphase

theorem joined {task : Task} {memory : Memory} (hmain : task ≠ .main)
    (hphase : memory.phase = p.memory.phase ∨
      p.memory.phase = .serving ∧ memory.phase = .stopping)
    (hserving : Served task → p.memory.phase = .serving) :
    Phased (Pool.add (self.machine config) p task memory) := by
  refine ⟨fun t thread ht htask => ?_, fun t t' thread thread' ht ht' htask htask' => ?_,
    fun t thread ht htask => ?_⟩
  · rcases Pool.add_threads ht with ⟨-, rfl⟩ | hold
    · exact absurd htask hmain
    · obtain ⟨hcold, hstarting⟩ := h.main t thread hold htask
      change memory.phase ≠ .cold ∧ (_ → memory.phase = .starting)
      rcases hphase with hsame | ⟨hserves, hstops⟩
      · rw [hsame]
        exact ⟨hcold, hstarting⟩
      · refine ⟨fun hsame => (nomatch hstops.symm.trans hsame), fun hunserved => ?_⟩
        exact nomatch hserves.symm.trans (hstarting hunserved)
  · rcases Pool.add_threads ht with ⟨-, rfl⟩ | hold
    · exact absurd htask hmain
    · rcases Pool.add_threads ht' with ⟨-, rfl⟩ | hold'
      · exact absurd htask' hmain
      · exact h.unique t t' thread thread' hold hold' htask htask'
  · change memory.phase = .serving ∨ memory.phase = .stopping
    rcases hphase with hsame | ⟨-, hstops⟩
    · rw [hsame]
      rcases Pool.add_threads ht with ⟨-, rfl⟩ | hold
      · exact Or.inl (hserving htask)
      · exact h.served t thread hold htask
    · exact Or.inr hstops

end Phased

theorem phased (h : self.Reaches config guard s) : Phased s := by
  induction h with
  | start => constructor <;> simp
  | call hp ht hanswer hguard ih => exact ih.answered ht (promised hp ht).1 hanswer
  | arrive hp harrives ih =>
    rcases arrives_phase harrives with ⟨rfl, hcold, hstarting⟩ |
      ⟨rfl, hserving, hstopping⟩ | ⟨hmain, hphase, hserving⟩
    · exact ih.started hcold hstarting
    · exact ih.joined (fun h => (nomatch h)) (Or.inr ⟨hserving, hstopping⟩) fun _ => hserving
    · exact ih.joined hmain (Or.inl hphase) hserving
  | drop _ _ _ ih =>
    exact ⟨fun t thread ht => ih.main t thread (Pool.remove_threads ht).2,
      fun t t' thread thread' ht ht' => ih.unique t t' thread thread' (Pool.remove_threads ht).2
        (Pool.remove_threads ht').2,
      fun t thread ht => ih.served t thread (Pool.remove_threads ht).2⟩
  | surroundings _ hchange ih =>
    obtain ⟨_, -, rfl⟩ := hchange
    exact ⟨ih.main, ih.unique, ih.served⟩
  | crash _ _ =>
    exact ⟨fun _ _ ht => absurd ht Pool.crash_threads, fun _ _ _ _ ht => absurd ht
      Pool.crash_threads, fun _ _ ht => absurd ht Pool.crash_threads⟩

end Coordinator.Reaches

end OddsfoxExecution
