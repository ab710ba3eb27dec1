import OddsfoxExecution.Coordinator.Runs
import OddsfoxExecution.Store.Frames

/-!
# The control row along a run

Every control write moves the revision up by one, so a revision names one
commit.  While a process starts up, no task but the startup itself writes a
state other than HALTED; `StartupControl` is what the startup may therefore
conclude from its own calls.
-/

namespace OddsfoxExecution

def Writes (next : ServiceState) (entry : Sigma Call.Answer) : Prop :=
  ∃ actor reason idempotency expected,
    entry = done (.setServiceState actor next reason idempotency expected) ()

theorem Call.answers_control {config : StoreConfig} {m m' : Memory} {t : Nat} {c : Call}
    {r : c.Answer} (h : c.answers config m t r m') :
    (m'.db.controlState = m.db.controlState ∧ ∀ next, ¬ Writes next ⟨c, r⟩) ∨
      ∃ actor next reason idempotency expected,
        (⟨c, r⟩ : Sigma Call.Answer) =
          done (.setServiceState actor next reason idempotency expected) () ∧
        ControlWritten m.db m'.db next reason expected := by
  by_cases hwrite : ∃ actor next reason idempotency expected,
      c = .store (.setServiceState actor next reason idempotency expected)
  · obtain ⟨actor, next, reason, idempotency, expected, rfl⟩ := hwrite
    obtain ⟨now, rfl, rfl⟩ := h
    cases hrun : StoreCall.run config now m.db
        (.setServiceState actor next reason idempotency expected) with
    | error e =>
      refine Or.inl ⟨by simp [StoreCall.after, hrun], ?_⟩
      rintro _ ⟨_, _, _, _, heq⟩
      simp only [done, Sigma.mk.injEq, Call.store.injEq, StoreCall.setServiceState.injEq] at heq
      obtain ⟨⟨rfl, rfl, rfl, rfl, rfl⟩, hanswer⟩ := heq
      have hanswer := eq_of_heq hanswer
      simp only [StoreCall.answer, hrun] at hanswer
      cases hanswer
    | ok r =>
      refine Or.inr ⟨actor, next, reason, idempotency, expected, ?_, ?_⟩
      · simp [StoreCall.answer, hrun, Except.map]
      · simpa [StoreCall.after, hrun] using setServiceState_ok hrun
  · have hnone : ∀ next, ¬ Writes next ⟨c, r⟩ := by
      rintro next ⟨actor, reason, idempotency, expected, heq⟩
      exact hwrite ⟨actor, next, reason, idempotency, expected, congrArg Sigma.fst heq⟩
    refine Or.inl ⟨?_, hnone⟩
    by_cases hstore : ∃ call, c = .store call
    · obtain ⟨call, rfl⟩ := hstore
      obtain ⟨now, -, rfl⟩ := h
      exact call.after_control fun actor next reason idempotency expected heq =>
        hwrite ⟨actor, next, reason, idempotency, expected, congrArg Call.store heq⟩
    · rw [(Call.answers_db h fun call heq => hstore ⟨call, heq⟩).1]

/-- A call moves the revision up, strictly when it is a control write that committed. -/
theorem Call.answers_revision {config : StoreConfig} {m m' : Memory} {t : Nat} {c : Call}
    {r : c.Answer} (h : c.answers config m t r m') :
    m.db.controlState.revision ≤ m'.db.controlState.revision ∧
      ∀ next, Writes next ⟨c, r⟩ →
        m.db.controlState.revision < m'.db.controlState.revision := by
  rcases Call.answers_control h with ⟨hsame, hnone⟩ | ⟨_, _, _, _, _, -, hwritten⟩
  · exact ⟨hsame ▸ Nat.le_refl _, fun next hwrites => absurd hwrites (hnone next)⟩
  · rw [hwritten.control]
    exact ⟨Nat.le_succ _, fun _ _ => Nat.lt_succ_self _⟩

/-! ## What a startup knows of the control row -/

/-- The startup has read a state other than SHUTTING_DOWN, or written one. -/
def Cleared (made : Calls) : Prop :=
  (∃ control, done .serviceState control ∈ made ∧ control.state ≠ .shuttingDown) ∨
    ∃ next, ∃ e ∈ made, Writes next e

/-- The last control write of the task is HALTED, with quiet calls after it. -/
def HaltStands : Calls → Prop
  | [] => False
  | e :: made => Writes .halted e ∨ e.1.quiet = true ∧ HaltStands made

/-- What holds of the control row while a startup has these calls behind it. -/
structure StartupControl (control : ControlState) (made : Calls) : Prop where
  cleared : Cleared made → control.state ≠ .shuttingDown
  halted : HaltStands made → control.state = .halted
  unready : Controlled made → ¬ ReadyWritten made → control.state ≠ .ready

theorem Controlled.cleared {made : Calls} (h : Controlled made) : Cleared made := by
  rcases h with ⟨control, hmem, hhalted⟩ | ⟨actor, next, reason, hmem⟩
  · exact Or.inl ⟨control, hmem, fun h => nomatch hhalted.symm.trans h⟩
  · exact Or.inr ⟨next, _, hmem, actor, reason, none, none, rfl⟩

theorem HaltStands.append {a b : Calls} (ha : AllQuiet a) (h : HaltStands b) :
    HaltStands (a ++ b) := by
  induction a with
  | nil => exact h
  | cons e a ih =>
    exact Or.inr ⟨ha e List.mem_cons_self, ih fun e' he' => ha e' (List.mem_cons_of_mem _ he')⟩

theorem HaltWritten.stands {a b : Calls} (h : HaltWritten a) (ha : AllQuiet a) :
    HaltStands (a ++ b) := by
  obtain ⟨actor, reason, hmem⟩ := h
  obtain ⟨x, y, rfl⟩ := List.append_of_mem hmem
  rw [List.append_assoc]
  exact HaltStands.append (fun e he => ha e (List.mem_append_left _ he))
    (Or.inl ⟨actor, reason, none, none, rfl⟩)

theorem startupControl_nil {control : ControlState} : StartupControl control [] where
  cleared := by simp [Cleared]
  halted := False.elim
  unready := by simp [Controlled]

theorem StartupControl.step {config : StoreConfig} {m m' : Memory} {t : Nat} {made : Calls}
    {c : Call} {r : c.Answer} (h : StartupControl m.db.controlState made)
    (hanswer : c.answers config m t r m') (hpromise : CallPromise .main made c) :
    StartupControl m'.db.controlState (⟨c, r⟩ :: made) := by
  rcases Call.answers_control hanswer with ⟨hsame, hnone⟩ |
    ⟨actor, next, reason, idempotency, expected, hentry, hwritten⟩
  · rw [hsame]
    have hread : ∀ control, done .serviceState control = ⟨c, r⟩ → control = m.db.controlState := by
      rintro control heq
      cases heq
      obtain ⟨now, hr, -⟩ := hanswer
      cases hr
      rfl
    refine ⟨fun hcleared => ?_, fun hstands => ?_, fun hcontrolled hunready => ?_⟩
    · rcases hcleared with ⟨control, hmem, hstate⟩ | ⟨next, e, he, hwrites⟩
      · rcases List.mem_cons.mp hmem with heq | hmem
        · exact hread control heq ▸ hstate
        · exact h.cleared (Or.inl ⟨control, hmem, hstate⟩)
      · rcases List.mem_cons.mp he with rfl | he
        · exact absurd hwrites (hnone next)
        · exact h.cleared (Or.inr ⟨next, e, he, hwrites⟩)
    · rcases hstands with hwrites | ⟨-, hstands⟩
      · exact absurd hwrites (hnone _)
      · exact h.halted hstands
    · have hunready' : ¬ ReadyWritten made := fun ⟨actor, reason, idempotency, expected, hmem⟩ =>
        hunready ⟨actor, reason, idempotency, expected, List.mem_cons_of_mem _ hmem⟩
      rcases hcontrolled with ⟨control, hmem, hstate⟩ | ⟨actor, next, reason, hmem⟩
      · rcases List.mem_cons.mp hmem with heq | hmem
        · exact fun hready => nomatch ((hread control heq ▸ hstate).symm.trans hready)
        · exact h.unready (Or.inl ⟨control, hmem, hstate⟩) hunready'
      · rcases List.mem_cons.mp hmem with heq | hmem
        · exact absurd ⟨actor, reason, none, none, heq.symm⟩ (hnone next)
        · exact h.unready (Or.inr ⟨actor, next, reason, hmem⟩) hunready'
  · cases hentry
    have hstate : m'.db.controlState.state = next := by rw [hwritten.control]
    have hcontrol : ControlPromise .main made next expected := hpromise.1
    refine ⟨fun _ hnext => ?_, fun hstands => ?_, fun _ hunready hnext => ?_⟩
    · obtain rfl := hstate.symm.trans hnext
      cases hcontrol.1
    · refine hstate.trans ?_
      rcases hstands with ⟨_, _, _, _, heq⟩ | ⟨hquiet, -⟩
      · cases heq
        rfl
      · exact (of_decide_eq_true hquiet).1
    · obtain rfl := hstate.symm.trans hnext
      exact hunready ⟨actor, reason, idempotency, expected, List.mem_cons_self⟩

theorem StartupControl.of_halted {control : ControlState} {made : Calls}
    (h : control.state = .halted) : StartupControl control made where
  cleared := fun _ hstate => nomatch h.symm.trans hstate
  halted := fun _ => h
  unready := fun _ _ hstate => nomatch h.symm.trans hstate

namespace Coordinator.Reaches

variable {self : Coordinator} {config : StoreConfig} {guard : CallGuard} {s : System}

/-- No revision goes back, and no control write is without its revision. -/
theorem revision_le (h : self.Reaches config guard s) {e : CallEvent} (he : e ∈ s.history) :
    e.found.db.controlState.revision ≤ s.memory.db.controlState.revision ∧
      ∀ next, Writes next e.entry →
        e.found.db.controlState.revision < s.memory.db.controlState.revision := by
  induction h with
  | start => cases he
  | @call p t task made c next r memory hp ht hanswer hguard ih =>
    have hstep := Call.answers_revision hanswer
    rcases List.mem_cons.mp he with rfl | he
    · exact hstep
    · obtain ⟨hle, hlt⟩ := ih he
      exact ⟨hle.trans hstep.1, fun next hwrites => (hlt next hwrites).trans_le hstep.1⟩
  | @arrive p task memory hp harrives ih =>
    change _ ≤ memory.db.controlState.revision ∧ ∀ _, _ → _ < memory.db.controlState.revision
    rw [(Task.arrives_frame harrives).1]
    exact ih he
  | drop _ _ _ ih => exact ih he
  | surroundings _ hchange ih =>
    obtain ⟨db, hframe, rfl⟩ := hchange
    change _ ≤ db.controlState.revision ∧ ∀ _, _ → _ < db.controlState.revision
    rw [show db.controlState = _ from congrArg Prod.fst hframe.desk_eq]
    exact ih he
  | crash _ ih => exact ih he

theorem revision_mono (h : self.Reaches config guard s) {after mid before : List CallEvent}
    {e e' : CallEvent} (heq : s.history = after ++ e :: (mid ++ e' :: before)) :
    e'.found.db.controlState.revision ≤ e.found.db.controlState.revision ∧
      ∀ next, Writes next e'.entry →
        e'.found.db.controlState.revision < e.found.db.controlState.revision := by
  obtain ⟨p, next, memory, hp, hmemory, hhistory, -⟩ := h.moment heq
  have hp : self.Reaches config guard p := hp
  rw [← hmemory]
  exact hp.revision_le (hhistory ▸ List.mem_append_right _ List.mem_cons_self)

theorem serviceState_read (h : self.Reaches config guard s) {e : CallEvent} (he : e ∈ s.history)
    {control : ControlState} (hentry : e.entry = done .serviceState control) :
    control = e.found.db.controlState := by
  obtain ⟨-, now, r, hrun, rfl, -⟩ := h.committed he hentry
  exact (Except.ok.inj (StoreCall.query_ok hrun).1).symm

/-- A task that finds the revision it read has not written HALTED since. -/
theorem unhalted_since_read (h : self.Reaches config guard s) {t : Nat} {a b : Calls}
    {control : ControlState} (hmade : ownCalls t s.history = a ++ done .serviceState control :: b)
    (hrevision : s.memory.db.controlState.revision = control.revision) : ¬ HaltWritten a := by
  obtain ⟨after, e, earlier, hsplit, -, hentry, rfl, rfl⟩ := ownCalls_split hmade
  have hread := h.serviceState_read (hsplit ▸ List.mem_append_right _ List.mem_cons_self) hentry
  rw [hread] at hrevision
  rintro ⟨actor, reason, hmem⟩
  obtain ⟨e', he', -, hentry'⟩ := mem_ownCalls.mp hmem
  obtain ⟨x, y, rfl⟩ := List.append_of_mem he'
  have heq : s.history = x ++ e' :: (y ++ e :: earlier) := by simp [hsplit]
  have hmono := (h.revision_mono heq).1
  have hlt := (h.revision_le (hsplit ▸ List.mem_append_left _ he')).2 .halted
    ⟨actor, reason, none, none, hentry'⟩
  omega

/-- While a process starts up, its other tasks write HALTED only. -/
theorem others_halt (h : self.Reaches config guard s) {t t' : Nat}
    {thread : Thread Call Call.Answer Task (Except CoordinatorError Unit)}
    (ht : s.threads t = some thread) (htask : thread.task = .main)
    (hunserved : ∀ e ∈ thread.made, e.1 ≠ .serve) (hne : t' ≠ t) {task : Task} {made : Calls}
    {actor : String} {next : ServiceState} {reason : String} {idempotency : Option Idempotency}
    {expected : Option Nat} {rest : (Call.store (.setServiceState actor next reason idempotency
      expected)).Answer → Prog Call Call.Answer (Except CoordinatorError Unit)}
    (ht' : s.threads t' = some ⟨task, made, .call _ rest⟩) : next = .halted := by
  have hphased := h.phased
  have hstarting : s.memory.phase = .starting := (hphased.main t thread ht htask).2 hunserved
  have hmain : task ≠ .main := fun hmain => hne (hphased.unique _ _ _ _ ht' ht hmain htask)
  have hserved : ¬ Served task := fun hserved => by
    rcases hphased.served _ _ ht' hserved with hphase | hphase <;>
      cases hstarting.symm.trans hphase
  have hcontrol : ControlPromise task made next expected := (h.promised ht').1.call.1
  cases next with
  | halted => rfl
  | reconciling => exact absurd hcontrol.1 hmain
  | shuttingDown => exact absurd (hcontrol.1 ▸ trivial) hserved
  | ready =>
    cases expected with
    | none => exact absurd hcontrol.1 hmain
    | some revision =>
      obtain ⟨⟨_, _, _, rfl⟩, -⟩ := hcontrol
      exact absurd trivial hserved
  | _ => exact hcontrol.elim

theorem startupControl (h : self.Reaches config guard s) {t : Nat}
    {thread : Thread Call Call.Answer Task (Except CoordinatorError Unit)}
    (ht : s.threads t = some thread) (htask : thread.task = .main)
    (hunserved : ∀ e ∈ thread.made, e.1 ≠ .serve) :
    StartupControl s.memory.db.controlState thread.made := by
  induction h generalizing thread with
  | start => cases ht
  | @call p t₀ task made c next r memory hp ht₀ hanswer hguard ih =>
    rcases Pool.perform_threads ht with ⟨rfl, rfl⟩ | ⟨hne, hold⟩
    · obtain rfl : task = .main := htask
      exact (ih ht₀ rfl fun e he => hunserved e (List.mem_cons_of_mem _ he)).step hanswer
        (promised hp ht₀).1.call
    · rcases Call.answers_control hanswer with ⟨hsame, -⟩ |
        ⟨actor, next, reason, idempotency, expected, hentry, hwritten⟩
      · change StartupControl memory.db.controlState _
        rw [hsame]
        exact ih hold htask hunserved
      · cases hentry
        obtain rfl := others_halt hp hold htask hunserved (Ne.symm hne) ht₀
        exact .of_halted (congrArg ControlState.state hwritten.control)
  | @arrive p task memory hp harrives ih =>
    change StartupControl memory.db.controlState _
    rw [(Task.arrives_frame harrives).1]
    rcases Pool.add_threads ht with ⟨-, rfl⟩ | ht
    · exact startupControl_nil
    · exact ih ht htask hunserved
  | drop _ _ _ ih => exact ih (Pool.remove_threads ht).2 htask hunserved
  | surroundings _ hchange ih =>
    obtain ⟨db, hframe, rfl⟩ := hchange
    change StartupControl db.controlState _
    rw [show db.controlState = _ from congrArg Prod.fst hframe.desk_eq]
    exact ih ht htask hunserved
  | crash => exact absurd ht Pool.crash_threads

end Coordinator.Reaches

end OddsfoxExecution
