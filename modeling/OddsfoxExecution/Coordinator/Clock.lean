import OddsfoxExecution.Coordinator.Schedule

/-!
# The executor under a clock

The executor with the time of day: time passes between calls, a store operation
and `Utc::now()` see the time at which they are called, and a restart leaves
the clock alone.  Seen without its clock it is the executor of `machine`.
-/

namespace OddsfoxExecution

structure Clocked where
  memory : Memory
  clock : Time

/-- What a call does at the time of day; no time passes while it does. -/
def Call.answersAt (config : StoreConfig) (m : Clocked) (t : Nat) :
    (c : Call) → c.Answer → Clocked → Prop
  | .store call, r, m' => r = call.answer config m.clock m.memory.db ∧
      m' = { m with memory := { m.memory with
        db := call.after config m.clock m.memory.db, past := m.memory.db :: m.memory.past } }
  | .now, r, m' => r = m.clock ∧ m' = m
  | c, r, m' => c.answers config m.memory t r m'.memory ∧ m'.clock = m.clock

/-- Time passes, and the paper venue may have written its tables. -/
def Clocked.passes (m m' : Clocked) : Prop :=
  m.clock ≤ m'.clock ∧ (m'.memory = m.memory ∨ m.memory.venueWrites m'.memory)

namespace Coordinator

def clocked (self : Coordinator) (config : StoreConfig) :
    Machine Call Call.Answer Task (Except CoordinatorError Unit) Clocked where
  program := self.program
  answer := fun m t c r m' => c.answersAt config m t r m'
  arrives := fun m task m' =>
    task.arrives self.requiresHeartbeat m.memory m'.memory ∧ m'.clock = m.clock
  droppable := fun task => task.droppable = true
  dropped := fun m t => { m with memory := m.memory.dropped t }
  surroundings := Clocked.passes
  crashed := fun m => { m with memory := Memory.ofDb m.memory.db m.memory.past }

end Coordinator

abbrev ClockedSystem : Type := Pool Call Call.Answer Task (Except CoordinatorError Unit) Clocked

/-- A call of a run and the time it was made at. -/
abbrev ClockedEvent : Type := Event Call Call.Answer Task Clocked

/-- The states the executor reaches from the database the migrations create, over any number of
processes, when the first one begins at `start`. -/
def Coordinator.ReachesFrom (self : Coordinator) (config : StoreConfig) (start : Time)
    (s : ClockedSystem) : Prop :=
  (self.clocked config).Reaches (fun _ _ _ => True) ⟨Memory.ofDb Db.initial [], start⟩ s

theorem Call.answersAt_answers {config : StoreConfig} {m m' : Clocked} {t : Nat} {c : Call}
    {r : c.Answer} (h : c.answersAt config m t r m') :
    c.answers config m.memory t r m'.memory ∧ m'.clock = m.clock := by
  cases c with
  | store call =>
    obtain ⟨rfl, rfl⟩ := h
    exact ⟨⟨m.clock, rfl, rfl⟩, rfl⟩
  | now =>
    obtain ⟨-, rfl⟩ := h
    exact ⟨rfl, rfl⟩
  | _ => exact h

/-- Without its clock the executor is the executor. -/
theorem Coordinator.clocked_refines (self : Coordinator) (config : StoreConfig) :
    (self.clocked config).Refines (self.machine config) Clocked.memory where
  program := rfl
  answer := fun h => (Call.answersAt_answers h).1
  arrives := fun h => h.1
  droppable := fun h => h
  dropped := fun _ _ => rfl
  surroundings := fun h => h.2
  crashed := fun _ => rfl

namespace Coordinator.ReachesFrom

variable {self : Coordinator} {config : StoreConfig} {start : Time} {s : ClockedSystem}

theorem unclocked (h : self.ReachesFrom config start s) :
    self.Reaches config (fun _ _ _ => True) (s.view Clocked.memory) :=
  Machine.Reaches.view (self.clocked_refines config) (fun _ _ _ _ => trivial) h

theorem ordered (h : self.ReachesFrom config start s) :
    (s.history.Pairwise fun later earlier => earlier.found.clock ≤ later.found.clock) ∧
      ∀ e ∈ s.history, e.found.clock ≤ s.memory.clock := by
  induction h with
  | start => exact ⟨.nil, fun e he => nomatch he⟩
  | @call p t task made c next r memory hp ht hanswer hguard ih =>
    have hclock : memory.clock = p.memory.clock := (Call.answersAt_answers hanswer).2
    refine ⟨List.pairwise_cons.mpr ⟨ih.2, ih.1⟩, fun e he => ?_⟩
    change e.found.clock ≤ memory.clock
    rw [hclock]
    rcases List.mem_cons.mp he with rfl | he
    · exact le_rfl
    · exact ih.2 e he
  | arrive _ harrives ih => exact ⟨ih.1, fun e he => harrives.2 ▸ ih.2 e he⟩
  | drop _ _ _ ih => exact ih
  | surroundings _ hchange ih => exact ⟨ih.1, fun e he => (ih.2 e he).trans hchange.1⟩
  | crash _ ih => exact ih

theorem clock_le (h : self.ReachesFrom config start s) {after before : List ClockedEvent}
    {e e₀ : ClockedEvent} (heq : s.history = after ++ e :: before) (he₀ : e₀ ∈ before) :
    e₀.found.clock ≤ e.found.clock := by
  have hpairwise := heq ▸ h.ordered.1
  exact (List.pairwise_cons.mp (List.pairwise_append.mp hpairwise).2.1).1 e₀ he₀

theorem now_eq (h : self.ReachesFrom config start s) {e : ClockedEvent} (he : e ∈ s.history)
    {now : Time} (hentry : e.entry = ⟨.now, now⟩) : now = e.found.clock := by
  obtain ⟨after, before, heq⟩ := List.append_of_mem he
  obtain ⟨_, _, _, -, -, -, -, hanswer, -⟩ := h.moment heq
  rw [hentry] at hanswer
  exact hanswer.1

end Coordinator.ReachesFrom

/-! ## Schedules -/

/-- A call at the time of day, when it can be made; the venue answers as the script says. -/
def Call.respondAt (config : StoreConfig) (venue : VenueScript) (m : Clocked) (t : Nat) (c : Call) :
    Option (c.Answer × Clocked) :=
  (c.respond config m.clock venue m.memory t).map fun (r, memory) => (r, { m with memory })

theorem Call.respondAt_answers {config : StoreConfig} {venue : VenueScript} {m m' : Clocked}
    {t : Nat} {c : Call} {r : c.Answer} (h : c.respondAt config venue m t = some (r, m')) :
    c.answersAt config m t r m' := by
  obtain ⟨⟨r, memory⟩, hrespond, heq⟩ := Option.map_eq_some_iff.mp h
  cases heq
  cases c with
  | store | now =>
    cases hrespond
    exact ⟨rfl, rfl⟩
  | _ => exact ⟨Call.respond_answers hrespond, rfl⟩

def ClockedSystem.waitUntil (s : ClockedSystem) (now : Time) : ClockedSystem :=
  { s with memory := { s.memory with clock := now } }

namespace Coordinator

variable (self : Coordinator) (config : StoreConfig)

def makeCallsAt (t : Nat) (venue : VenueScript) : Nat → ClockedSystem → Option ClockedSystem
  | 0, s => some s
  | count + 1, s =>
    match s.threads t with
    | some ⟨task, made, .call c next⟩ =>
      match c.respondAt config venue s.memory t with
      | some (r, memory) =>
        makeCallsAt t venue count (s.perform t task made ⟨c, r⟩ (next r) memory)
      | none => none
    | _ => none

def moveAt (s : ClockedSystem) : Move → Option ClockedSystem
  | .arrive task => (task.start self.requiresHeartbeat s.memory.memory).map fun memory =>
      s.add (self.clocked config) task { s.memory with memory }
  | .calls t count now venue =>
    if s.memory.clock ≤ now then makeCallsAt config t venue count (s.waitUntil now) else none
  | .crash =>
    some (s.crash { s.memory with memory := Memory.ofDb s.memory.memory.db s.memory.memory.past })

def executeAt : List Move → ClockedSystem → Option ClockedSystem
  | [], s => some s
  | m :: moves, s => (self.moveAt config s m).bind (executeAt moves)

variable {self config} {start : Time} {s s' : ClockedSystem}

theorem makeCallsAt_reaches {t : Nat} {venue : VenueScript} {count : Nat}
    (h : self.ReachesFrom config start s) (hcalls : makeCallsAt config t venue count s = some s') :
    self.ReachesFrom config start s' := by
  induction count generalizing s with
  | zero =>
    cases hcalls
    exact h
  | succ count ih =>
    simp only [makeCallsAt] at hcalls
    split at hcalls
    · rename_i ht
      split at hcalls
      · rename_i hrespond
        exact ih (.call h ht (Call.respondAt_answers hrespond) trivial) hcalls
      · cases hcalls
    · cases hcalls

theorem executeAt_reaches {moves : List Move} (h : self.ReachesFrom config start s)
    (hmoves : self.executeAt config moves s = some s') : self.ReachesFrom config start s' := by
  induction moves generalizing s with
  | nil =>
    cases hmoves
    exact h
  | cons move moves ih =>
    obtain ⟨s₁, hmove, hrest⟩ := Option.bind_eq_some_iff.mp hmoves
    refine ih ?_ hrest
    cases move with
    | arrive task =>
      obtain ⟨memory, hstart, rfl⟩ := Option.map_eq_some_iff.mp hmove
      exact .arrive h ⟨Task.start_arrives hstart, rfl⟩
    | calls t count now venue =>
      simp only [moveAt] at hmove
      split at hmove
      · rename_i hclock
        have hwaits : self.ReachesFrom config start (s.waitUntil now) :=
          .surroundings h ⟨hclock, Or.inl rfl⟩
        exact makeCallsAt_reaches hwaits hmove
      · cases hmove
    | crash =>
      cases hmove
      exact .crash h

theorem exists_of_executeAt {moves : List Move} {test : ClockedSystem → Bool}
    (h : (self.executeAt config moves
      ⟨⟨Memory.ofDb Db.initial [], start⟩, fun _ => none, 0, []⟩).any test = true) :
    ∃ s, self.ReachesFrom config start s ∧ test s = true := by
  obtain ⟨s, hmoves, htest⟩ := (Option.any_eq_true _ _).mp h
  exact ⟨s, executeAt_reaches .start hmoves, htest⟩

end Coordinator

end OddsfoxExecution
