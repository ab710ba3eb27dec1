import OddsfoxExecution.Library.Pool

/-!
# Schedules of a machine

A machine as a function: a player says how calls are answered under a script
and when a task may begin, and a schedule, which task begins and which one makes
its next calls.  What a schedule leads to is a state the machine reaches.
-/

variable {C : Type} {R : C → Type} {T α σ : Type}

/-- One way to answer the calls of a machine and to start its tasks. -/
structure Player (M : Machine C R T α σ) (Script : Type) where
  respond : Script → σ → Nat → (c : C) → Option (R c × σ)
  start : σ → T → Option σ
  answers : ∀ {script m t c r m'}, respond script m t c = some (r, m') → M.answer m t c r m'
  arrives : ∀ {m task m'}, start m task = some m' → M.arrives m task m'

namespace Player

inductive Turn (T Script : Type) where
  | arrive (task : T)
  | calls (thread count : Nat) (script : Script)
  | crash

variable {M : Machine C R T α σ} {Script : Type} (player : Player M Script)

def makeCalls (script : Script) (t : Nat) : Nat → Pool C R T α σ → Option (Pool C R T α σ)
  | 0, p => some p
  | count + 1, p =>
    match p.threads t with
    | some ⟨task, made, .call c next⟩ =>
      match player.respond script p.memory t c with
      | some (r, memory) =>
        makeCalls script t count (p.perform t task made ⟨c, r⟩ (next r) memory)
      | none => none
    | _ => none

def move (p : Pool C R T α σ) : Turn T Script → Option (Pool C R T α σ)
  | .arrive task => (player.start p.memory task).map fun memory => p.add M task memory
  | .calls t count script => player.makeCalls script t count p
  | .crash => some (p.crash (M.crashed p.memory))

def play : List (Turn T Script) → Pool C R T α σ → Option (Pool C R T α σ)
  | [], p => some p
  | turn :: turns, p => (player.move p turn).bind (play turns)

variable {player} {initial : σ} {p p' : Pool C R T α σ}

theorem makeCalls_reaches {script : Script} {t count : Nat}
    (h : M.Reaches (fun _ _ _ => True) initial p)
    (hcalls : player.makeCalls script t count p = some p') :
    M.Reaches (fun _ _ _ => True) initial p' := by
  induction count generalizing p with
  | zero =>
    cases hcalls
    exact h
  | succ count ih =>
    simp only [makeCalls] at hcalls
    split at hcalls
    · rename_i ht
      split at hcalls
      · rename_i hrespond
        exact ih (.call h ht (player.answers hrespond) trivial) hcalls
      · cases hcalls
    · cases hcalls

theorem play_reaches {turns : List (Turn T Script)}
    (h : M.Reaches (fun _ _ _ => True) initial p) (hturns : player.play turns p = some p') :
    M.Reaches (fun _ _ _ => True) initial p' := by
  induction turns generalizing p with
  | nil =>
    cases hturns
    exact h
  | cons turn turns ih =>
    obtain ⟨p₁, hmove, hrest⟩ := Option.bind_eq_some_iff.mp hturns
    refine ih ?_ hrest
    cases turn with
    | arrive task =>
      obtain ⟨memory, hstart, rfl⟩ := Option.map_eq_some_iff.mp hmove
      exact .arrive h (player.arrives hstart)
    | calls t count script => exact makeCalls_reaches h hmove
    | crash =>
      cases hmove
      exact .crash h

/-- What a test of the state a schedule leads to shows. -/
theorem exists_of_play {turns : List (Turn T Script)} {test : Pool C R T α σ → Bool}
    (h : (player.play turns ⟨initial, fun _ => none, 0, []⟩).any test = true) :
    ∃ p, M.Reaches (fun _ _ _ => True) initial p ∧ test p = true := by
  obtain ⟨p, hturns, htest⟩ := (Option.any_eq_true _ _).mp h
  exact ⟨p, play_reaches .start hturns, htest⟩

end Player
