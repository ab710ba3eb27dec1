import OddsfoxExecution.Library.Program
import Mathlib.Logic.Function.Basic

/-!
# Pools of interleaved programs

Tasks run side by side over one memory.  A step answers one call of one task,
starts a task, drops one, lets the surroundings change the memory, or crashes:
a crash takes every task and whatever of the memory is volatile.  The history
records every call ever answered, latest first, and survives both.
-/

/-- A task that runs: the calls it has made and the program still before it. -/
structure Thread (C : Type) (R : C → Type) (T α : Type) where
  task : T
  made : Trace R
  rest : Prog C R α

/-- A call a task made: the memory it found and its answer. -/
structure Event (C : Type) (R : C → Type) (T σ : Type) where
  thread : Nat
  task : T
  found : σ
  entry : Sigma R

/-- What a pool runs: the program of each task, and how the memory answers calls and changes
otherwise. -/
structure Machine (C : Type) (R : C → Type) (T α σ : Type) where
  program : T → Prog C R α
  answer : σ → Nat → (c : C) → R c → σ → Prop
  arrives : σ → T → σ → Prop
  droppable : T → Prop
  dropped : σ → Nat → σ
  surroundings : σ → σ → Prop
  crashed : σ → σ

structure Pool (C : Type) (R : C → Type) (T α σ : Type) where
  memory : σ
  threads : Nat → Option (Thread C R T α)
  fresh : Nat
  history : List (Event C R T σ)

variable {C : Type} {R : C → Type} {T α σ : Type}

def ownCalls (t : Nat) (history : List (Event C R T σ)) : Trace R :=
  (history.filter fun e => e.thread = t).map Event.entry

theorem ownCalls_cons_self {e : Event C R T σ} {history : List (Event C R T σ)} :
    ownCalls e.thread (e :: history) = e.entry :: ownCalls e.thread history := by
  simp [ownCalls]

theorem ownCalls_cons_of_ne {t : Nat} {e : Event C R T σ} {history : List (Event C R T σ)}
    (hne : e.thread ≠ t) : ownCalls t (e :: history) = ownCalls t history := by
  simp [ownCalls, hne]

theorem ownCalls_append {t : Nat} {later earlier : List (Event C R T σ)} :
    ownCalls t (later ++ earlier) = ownCalls t later ++ ownCalls t earlier := by
  simp [ownCalls]

theorem mem_ownCalls {t : Nat} {entry : Sigma R} {history : List (Event C R T σ)} :
    entry ∈ ownCalls t history ↔ ∃ e ∈ history, e.thread = t ∧ e.entry = entry := by
  simp [ownCalls, and_assoc]

/-- A predicate that holds of no event before one it holds of picks out at most one event. -/
theorem length_filter_le_one {α : Type} {p : α → Bool} {history : List α}
    (h : ∀ after e before, history = after ++ e :: before → p e = true → ∀ e' ∈ before,
      ¬ p e' = true) : (history.filter p).length ≤ 1 := by
  induction history with
  | nil => exact Nat.zero_le 1
  | cons e history ih =>
    by_cases he : p e = true
    · have hnone : history.filter p = [] :=
        List.filter_eq_nil_iff.mpr (h [] e history rfl he)
      rw [List.filter_cons_of_pos he, hnone]
      exact Nat.le_refl 1
    · rw [List.filter_cons_of_neg he]
      exact ih fun after e' before heq => h (e :: after) e' before (by rw [heq]; rfl)

/-- The first element that differs in kind from those before it splits a list in one way. -/
theorem split_unique {α : Type} {p : α → Prop} {a a' b b' : List α} {x x' : α}
    (h : a ++ x :: b = a' ++ x' :: b') (ha : ∀ y ∈ a, ¬ p y) (ha' : ∀ y ∈ a', ¬ p y) (hx : p x)
    (hx' : p x') : a = a' ∧ x = x' ∧ b = b' := by
  induction a generalizing a' with
  | nil =>
    cases a' with
    | nil => exact ⟨rfl, List.cons.inj h⟩
    | cons y a' => exact absurd ((List.cons.inj h).1 ▸ hx) (ha' y List.mem_cons_self)
  | cons y a ih =>
    cases a' with
    | nil => exact absurd ((List.cons.inj h).1 ▸ hx') (ha y List.mem_cons_self)
    | cons y' a' =>
      obtain ⟨hhead, htail⟩ := List.cons.inj h
      obtain ⟨rfl, hsplit⟩ := ih htail (fun z hz => ha z (List.mem_cons_of_mem _ hz))
        fun z hz => ha' z (List.mem_cons_of_mem _ hz)
      exact ⟨by rw [hhead], hsplit⟩

/-- A part of a thread's calls is found in the history, among the calls of other threads. -/
theorem ownCalls_split {t : Nat} {history : List (Event C R T σ)} {a b : Trace R}
    {entry : Sigma R} (h : ownCalls t history = a ++ entry :: b) :
    ∃ after e before, history = after ++ e :: before ∧ e.thread = t ∧ e.entry = entry ∧
      ownCalls t after = a ∧ ownCalls t before = b := by
  obtain ⟨first, second, hhistory, hafter, hrest⟩ := List.map_eq_append_iff.mp h
  obtain ⟨after, rest, rfl, rfl, hsecond⟩ := List.filter_eq_append_iff.mp hhistory
  obtain ⟨e, before, rfl, rfl, rfl⟩ := List.map_eq_cons_iff.mp hrest
  obtain ⟨skipped, before', rfl, hskipped, hthread, rfl⟩ := List.filter_eq_cons_iff.mp hsecond
  refine ⟨after ++ skipped, e, before', by simp, of_decide_eq_true hthread, rfl, ?_, rfl⟩
  have hnone : skipped.filter (fun e => decide (e.thread = t)) = [] :=
    List.filter_eq_nil_iff.mpr hskipped
  rw [ownCalls, List.filter_append, hnone, List.append_nil, hafter]

namespace Pool

/-- A pool with one more task, which finds or leaves the given memory. -/
def add (M : Machine C R T α σ) (p : Pool C R T α σ) (task : T) (memory : σ) : Pool C R T α σ :=
  { p with
    memory
    threads := Function.update p.threads p.fresh (some ⟨task, [], M.program task⟩)
    fresh := p.fresh + 1 }

/-- A pool in which a thread has had a call answered. -/
def perform (p : Pool C R T α σ) (t : Nat) (task : T) (made : Trace R) (entry : Sigma R)
    (rest : Prog C R α) (memory : σ) : Pool C R T α σ :=
  { p with
    memory
    threads := Function.update p.threads t (some ⟨task, entry :: made, rest⟩)
    history := ⟨t, task, p.memory, entry⟩ :: p.history }

def remove (p : Pool C R T α σ) (t : Nat) (memory : σ) : Pool C R T α σ :=
  { p with memory, threads := Function.update p.threads t none }

def crash (p : Pool C R T α σ) (memory : σ) : Pool C R T α σ :=
  { p with memory, threads := fun _ => none }

end Pool

/-- The pools a machine reaches.  `guard` is a condition every answered call meets, in the memory
it finds. -/
inductive Machine.Reaches (M : Machine C R T α σ) (guard : σ → T → Sigma R → Prop) (initial : σ) :
    Pool C R T α σ → Prop
  | start : Machine.Reaches M guard initial ⟨initial, fun _ => none, 0, []⟩
  | call {p : Pool C R T α σ} {t : Nat} {task : T} {made : Trace R} {c : C}
      {next : R c → Prog C R α} {r : R c} {memory : σ} (hp : Machine.Reaches M guard initial p)
      (ht : p.threads t = some ⟨task, made, .call c next⟩)
      (hanswer : M.answer p.memory t c r memory) (hguard : guard p.memory task ⟨c, r⟩) :
      Machine.Reaches M guard initial (p.perform t task made ⟨c, r⟩ (next r) memory)
  | arrive {p : Pool C R T α σ} {task : T} {memory : σ} (hp : Machine.Reaches M guard initial p)
      (harrives : M.arrives p.memory task memory) :
      Machine.Reaches M guard initial (p.add M task memory)
  | drop {p : Pool C R T α σ} {t : Nat} {thread : Thread C R T α}
      (hp : Machine.Reaches M guard initial p) (ht : p.threads t = some thread)
      (hdroppable : M.droppable thread.task) :
      Machine.Reaches M guard initial (p.remove t (M.dropped p.memory t))
  | surroundings {p : Pool C R T α σ} {memory : σ} (hp : Machine.Reaches M guard initial p)
      (hchange : M.surroundings p.memory memory) : Machine.Reaches M guard initial { p with memory }
  | crash {p : Pool C R T α σ} (hp : Machine.Reaches M guard initial p) :
      Machine.Reaches M guard initial (p.crash (M.crashed p.memory))

/-- The pools a machine goes on to from `p` while it does not crash. -/
inductive Machine.Continues (M : Machine C R T α σ) (guard : σ → T → Sigma R → Prop)
    (p : Pool C R T α σ) : Pool C R T α σ → Prop
  | refl : Machine.Continues M guard p p
  | call {q : Pool C R T α σ} {t : Nat} {task : T} {made : Trace R} {c : C}
      {next : R c → Prog C R α} {r : R c} {memory : σ} (hq : Machine.Continues M guard p q)
      (ht : q.threads t = some ⟨task, made, .call c next⟩)
      (hanswer : M.answer q.memory t c r memory) (hguard : guard q.memory task ⟨c, r⟩) :
      Machine.Continues M guard p (q.perform t task made ⟨c, r⟩ (next r) memory)
  | arrive {q : Pool C R T α σ} {task : T} {memory : σ} (hq : Machine.Continues M guard p q)
      (harrives : M.arrives q.memory task memory) :
      Machine.Continues M guard p (q.add M task memory)
  | drop {q : Pool C R T α σ} {t : Nat} {thread : Thread C R T α}
      (hq : Machine.Continues M guard p q) (ht : q.threads t = some thread)
      (hdroppable : M.droppable thread.task) :
      Machine.Continues M guard p (q.remove t (M.dropped q.memory t))
  | surroundings {q : Pool C R T α σ} {memory : σ} (hq : Machine.Continues M guard p q)
      (hchange : M.surroundings q.memory memory) :
      Machine.Continues M guard p { q with memory }

theorem Machine.Reaches.continues {M : Machine C R T α σ} {guard : σ → T → Sigma R → Prop}
    {initial : σ} {p q : Pool C R T α σ} (h : M.Reaches guard initial p)
    (hq : M.Continues guard p q) : M.Reaches guard initial q := by
  induction hq with
  | refl => exact h
  | call _ ht hanswer hguard ih => exact .call ih ht hanswer hguard
  | arrive _ harrives ih => exact .arrive ih harrives
  | drop _ ht hdroppable ih => exact .drop ih ht hdroppable
  | surroundings _ hchange ih => exact .surroundings ih hchange

theorem Machine.Continues.history {M : Machine C R T α σ} {guard : σ → T → Sigma R → Prop}
    {p q : Pool C R T α σ} (h : M.Continues guard p q) : p.history <:+ q.history := by
  induction h with
  | refl => exact List.suffix_refl _
  | call _ _ _ _ ih => exact ih.trans (List.suffix_cons _ _)
  | arrive _ _ ih | drop _ _ _ ih | surroundings _ _ ih => exact ih

namespace Pool

variable {M : Machine C R T α σ} {p : Pool C R T α σ}

/-- The thread found after a task was added: the new one or one of before. -/
theorem add_threads {task : T} {memory : σ} {t : Nat} {thread : Thread C R T α}
    (h : (p.add M task memory).threads t = some thread) :
    (t = p.fresh ∧ thread = ⟨task, [], M.program task⟩) ∨ p.threads t = some thread := by
  simp only [add, Function.update_apply] at h
  split at h
  · exact Or.inl ⟨‹_›, (Option.some.inj h).symm⟩
  · exact Or.inr h

/-- The thread found after a call was answered: the one that made it or another. -/
theorem perform_threads {t t' : Nat} {task : T} {made : Trace R} {entry : Sigma R}
    {rest : Prog C R α} {memory : σ} {thread : Thread C R T α}
    (h : (p.perform t task made entry rest memory).threads t' = some thread) :
    (t' = t ∧ thread = ⟨task, entry :: made, rest⟩) ∨ (t' ≠ t ∧ p.threads t' = some thread) := by
  simp only [perform, Function.update_apply] at h
  split at h
  · exact Or.inl ⟨‹_›, (Option.some.inj h).symm⟩
  · exact Or.inr ⟨‹_›, h⟩

theorem remove_threads {t t' : Nat} {memory : σ} {thread : Thread C R T α}
    (h : (p.remove t memory).threads t' = some thread) : t' ≠ t ∧ p.threads t' = some thread := by
  simp only [remove, Function.update_apply] at h
  split at h
  · cases h
  · exact ⟨‹_›, h⟩

theorem crash_threads {t : Nat} {memory : σ} {thread : Thread C R T α} :
    (p.crash memory).threads t ≠ some thread := by
  simp [crash]

/-- How the threads of a pool fit its history. -/
structure Consistent (p : Pool C R T α σ) : Prop where
  drawn : ∀ t thread, p.threads t = some thread → t < p.fresh
  past : ∀ e ∈ p.history, e.thread < p.fresh
  own : ∀ t thread, p.threads t = some thread → ownCalls t p.history = thread.made
  task : ∀ t thread, p.threads t = some thread → ∀ e ∈ p.history, e.thread = t →
    e.task = thread.task

namespace Consistent

theorem fresh_free (hp : p.Consistent) : p.threads p.fresh = none :=
  Option.eq_none_iff_forall_ne_some.mpr fun _ hthread =>
    absurd (hp.drawn _ _ hthread) (Nat.lt_irrefl _)

theorem call (hp : p.Consistent) {t : Nat} {task : T} {made : Trace R} {entry : Sigma R}
    {before rest : Prog C R α} {memory : σ} (ht : p.threads t = some ⟨task, made, before⟩) :
    (p.perform t task made entry rest memory).Consistent where
  drawn := fun t' thread h => by
    rcases perform_threads h with ⟨rfl, -⟩ | ⟨-, h⟩
    · exact hp.drawn _ _ ht
    · exact hp.drawn _ _ h
  past := fun e he => by
    rcases List.mem_cons.mp he with rfl | he
    · exact hp.drawn _ _ ht
    · exact hp.past e he
  own := fun t' thread h => by
    rcases perform_threads h with ⟨rfl, rfl⟩ | ⟨hne, h⟩
    · exact ownCalls_cons_self.trans (congrArg (entry :: ·) (hp.own _ _ ht))
    · exact (ownCalls_cons_of_ne hne.symm).trans (hp.own _ _ h)
  task := fun t' thread h e he het => by
    rcases perform_threads h with ⟨rfl, rfl⟩ | ⟨hne, h⟩
    · rcases List.mem_cons.mp he with rfl | he
      · rfl
      · exact hp.task _ _ ht e he het
    · rcases List.mem_cons.mp he with rfl | he
      · exact absurd het.symm hne
      · exact hp.task _ _ h e he het

theorem add (hp : p.Consistent) (M : Machine C R T α σ) (task : T) (memory : σ) :
    (p.add M task memory).Consistent where
  drawn := fun t thread h => by
    rcases add_threads h with ⟨rfl, -⟩ | h
    · exact Nat.lt_succ_self _
    · exact Nat.lt_succ_of_lt (hp.drawn _ _ h)
  past := fun e he => Nat.lt_succ_of_lt (hp.past e he)
  own := fun t thread h => by
    rcases add_threads h with ⟨rfl, rfl⟩ | h
    · refine List.eq_nil_iff_forall_not_mem.mpr fun entry hentry => ?_
      obtain ⟨e, he, het, -⟩ := mem_ownCalls.mp hentry
      exact absurd het (Nat.ne_of_lt (hp.past e he))
    · exact hp.own _ _ h
  task := fun t thread h e he het => by
    rcases add_threads h with ⟨rfl, -⟩ | h
    · exact absurd het (Nat.ne_of_lt (hp.past e he))
    · exact hp.task _ _ h e he het

theorem remove (hp : p.Consistent) (t : Nat) (memory : σ) : (p.remove t memory).Consistent where
  drawn := fun _ _ h => hp.drawn _ _ (remove_threads h).2
  past := hp.past
  own := fun _ _ h => hp.own _ _ (remove_threads h).2
  task := fun _ _ h => hp.task _ _ (remove_threads h).2

theorem crash (hp : p.Consistent) (memory : σ) : (p.crash memory).Consistent where
  drawn := fun _ _ h => absurd h crash_threads
  past := hp.past
  own := fun _ _ h => absurd h crash_threads
  task := fun _ _ h => absurd h crash_threads

end Consistent

end Pool

namespace Machine.Reaches

variable {M : Machine C R T α σ} {guard : σ → T → Sigma R → Prop} {initial : σ}
  {p : Pool C R T α σ}

theorem consistent (h : M.Reaches guard initial p) : p.Consistent := by
  induction h with
  | start => constructor <;> simp
  | call _ ht _ _ ih => exact ih.call ht
  | arrive _ _ ih => exact ih.add _ _ _
  | drop _ _ _ ih => exact ih.remove _ _
  | surroundings _ _ ih => exact ⟨ih.drawn, ih.past, ih.own, ih.task⟩
  | crash _ ih => exact ih.crash _

variable {G : T → Trace R → C → Prop} {Q : T → Trace R → α → Prop}

/-- A thread of a pool whose programs keep a promise will keep it. -/
theorem promised (hpromise : ∀ m task m', M.arrives m task m' →
      (M.program task).wp (G task) (Q task) []) (h : M.Reaches guard initial p) {t : Nat}
      {thread : Thread C R T α}
    (ht : p.threads t = some thread) :
    thread.rest.wp (G thread.task) (Q thread.task) thread.made := by
  induction h generalizing t thread with
  | start => cases ht
  | call _ hcalls _ _ ih =>
    rcases Pool.perform_threads ht with ⟨rfl, rfl⟩ | ⟨-, ht⟩
    · exact (ih hcalls).2 _
    · exact ih ht
  | arrive _ harrives ih =>
    rcases Pool.add_threads ht with ⟨-, rfl⟩ | ht
    · exact hpromise _ _ _ harrives
    · exact ih ht
  | drop _ _ _ ih => exact ih (Pool.remove_threads ht).2
  | surroundings _ _ ih => exact ih ht
  | crash => exact absurd ht Pool.crash_threads

/-- The state in which the call of an event was about to be answered. -/
theorem moment (h : M.Reaches guard initial p) {after before : List (Event C R T σ)}
    {e : Event C R T σ} (heq : p.history = after ++ e :: before) :
    ∃ p₀ next memory, M.Reaches guard initial p₀ ∧ p₀.memory = e.found ∧ p₀.history = before ∧
      p₀.threads e.thread = some ⟨e.task, ownCalls e.thread before, .call e.entry.1 next⟩ ∧
      M.answer e.found e.thread e.entry.1 e.entry.2 memory ∧ guard e.found e.task e.entry := by
  induction h generalizing after with
  | start => cases after <;> cases heq
  | @call p t task made c next r memory hp ht hanswer hguard ih =>
    cases after with
    | nil =>
      obtain ⟨rfl, rfl⟩ := List.cons.inj heq
      refine ⟨p, next, memory, hp, rfl, rfl, ?_, hanswer, hguard⟩
      rw [hp.consistent.own _ _ ht]
      exact ht
    | cons _ after => exact ih (List.cons.inj heq).2
  | arrive _ _ ih => exact ih heq
  | drop _ _ _ ih => exact ih heq
  | surroundings _ _ ih => exact ih heq
  | crash _ ih => exact ih heq

/-- A thread that made calls before an event and is there after it was there at the event, with
just those calls behind it. -/
theorem present (h : M.Reaches guard initial p) {after before : List (Event C R T σ)}
    {k : Event C R T σ} (heq : p.history = after ++ k :: before) {t : Nat}
    {thread : Thread C R T α} (ht : p.threads t = some thread)
    (hcalled : ∃ e ∈ before, e.thread = t) :
    ∃ p₀ thread₀ next memory, M.Reaches guard initial p₀ ∧ p₀.memory = k.found ∧
      p₀.threads k.thread = some ⟨k.task, ownCalls k.thread before, .call k.entry.1 next⟩ ∧
      M.answer k.found k.thread k.entry.1 k.entry.2 memory ∧
      p₀.threads t = some thread₀ ∧ thread₀.made = ownCalls t before := by
  induction h generalizing after thread with
  | start => cases after <;> cases heq
  | @call p t₁ task made c next r memory hp ht₁ hanswer hguard ih =>
    cases after with
    | nil =>
      obtain ⟨rfl, rfl⟩ := List.cons.inj heq
      have hown := hp.consistent.own
      rcases Pool.perform_threads ht with ⟨rfl, -⟩ | ⟨-, hold⟩
      · exact ⟨p, _, next, memory, hp, rfl, hown _ _ ht₁ ▸ ht₁, hanswer, ht₁, (hown _ _ ht₁).symm⟩
      · exact ⟨p, _, next, memory, hp, rfl, hown _ _ ht₁ ▸ ht₁, hanswer, hold,
          (hown _ _ hold).symm⟩
    | cons _ after =>
      have hrest := (List.cons.inj heq).2
      rcases Pool.perform_threads ht with ⟨rfl, -⟩ | ⟨-, hold⟩
      · exact ih hrest ht₁
      · exact ih hrest hold
  | arrive hp _ ih =>
    rcases Pool.add_threads ht with ⟨rfl, -⟩ | hold
    · -- nobody has called yet under the number of a new thread
      obtain ⟨e, he, hthread⟩ := hcalled
      have hmem := heq ▸ List.mem_append_right after (List.mem_cons_of_mem k he)
      exact absurd hthread (Nat.ne_of_lt (hp.consistent.past e hmem))
    · exact ih heq hold
  | drop _ _ _ ih => exact ih heq (Pool.remove_threads ht).2
  | surroundings _ _ ih => exact ih heq ht
  | crash => exact absurd ht Pool.crash_threads

/-- Every call of the history of such a pool was made under the promise. -/
theorem kept (hpromise : ∀ m task m', M.arrives m task m' →
      (M.program task).wp (G task) (Q task) []) (h : M.Reaches guard initial p)
    {after before : List (Event C R T σ)} {e : Event C R T σ}
    (heq : p.history = after ++ e :: before) :
    G e.task (ownCalls e.thread before) e.entry.1 := by
  obtain ⟨p₀, next, memory, hp₀, -, rfl, ht, -⟩ := h.moment heq
  exact (hp₀.promised hpromise ht).1

end Machine.Reaches

/-! ## Views -/

section View

variable {σ' : Type}

def Event.view (f : σ → σ') (e : Event C R T σ) : Event C R T σ' :=
  ⟨e.thread, e.task, f e.found, e.entry⟩

/-- The pool as one sees it who sees only a part of its memory. -/
def Pool.view (f : σ → σ') (p : Pool C R T α σ) : Pool C R T α σ' :=
  ⟨f p.memory, p.threads, p.fresh, p.history.map (Event.view f)⟩

/-- The steps of one machine look like steps of another, or like none. -/
structure Machine.Refines (M : Machine C R T α σ) (M' : Machine C R T α σ')
    (f : σ → σ') : Prop where
  program : M.program = M'.program
  answer : ∀ {m t c r m₁}, M.answer m t c r m₁ → M'.answer (f m) t c r (f m₁)
  arrives : ∀ {m task m₁}, M.arrives m task m₁ → M'.arrives (f m) task (f m₁)
  droppable : ∀ {task}, M.droppable task → M'.droppable task
  dropped : ∀ m t, f (M.dropped m t) = M'.dropped (f m) t
  surroundings : ∀ {m m₁}, M.surroundings m m₁ → f m₁ = f m ∨ M'.surroundings (f m) (f m₁)
  crashed : ∀ m, f (M.crashed m) = M'.crashed (f m)

/-- A pool of the finer machine is, seen through the view, a pool of the other. -/
theorem Machine.Reaches.view {M : Machine C R T α σ} {M' : Machine C R T α σ'} {f : σ → σ'}
    (hrefines : M.Refines M' f) {guard : σ → T → Sigma R → Prop}
    {guard' : σ' → T → Sigma R → Prop} (hguard : ∀ m task e, guard m task e → guard' (f m) task e)
    {initial : σ} {p : Pool C R T α σ} (h : M.Reaches guard initial p) :
    M'.Reaches guard' (f initial) (p.view f) := by
  induction h with
  | start => exact .start
  | call _ ht hanswer hcall ih =>
    exact .call ih ht (hrefines.answer hanswer) (hguard _ _ _ hcall)
  | @arrive p task memory _ harrives ih =>
    have hadd : (p.add M task memory).view f = (p.view f).add M' task (f memory) := by
      simp only [Pool.view, Pool.add, hrefines.program]
    rw [hadd]
    exact .arrive ih (hrefines.arrives harrives)
  | @drop p t thread _ ht hdroppable ih =>
    have hremove : (p.remove t (M.dropped p.memory t)).view f =
        (p.view f).remove t (M'.dropped (p.view f).memory t) := by
      simp only [Pool.view, Pool.remove, hrefines.dropped]
    rw [hremove]
    exact .drop ih ht (hrefines.droppable hdroppable)
  | @surroundings p memory _ hchange ih =>
    rcases hrefines.surroundings hchange with hsame | hchange
    · have hview : Pool.view f { p with memory } = p.view f := by
        simp only [Pool.view, hsame]
      rw [hview]
      exact ih
    · exact .surroundings ih hchange
  | @crash p _ ih =>
    have hcrash : (p.crash (M.crashed p.memory)).view f =
        (p.view f).crash (M'.crashed (p.view f).memory) := by
      simp only [Pool.view, Pool.crash, hrefines.crashed]
    rw [hcrash]
    exact .crash ih

end View
