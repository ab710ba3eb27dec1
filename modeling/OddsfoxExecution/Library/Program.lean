import Mathlib.Data.List.Basic

/-!
# Programs as trees of calls

A program is a tree: it ends with a value, or it makes a call and goes on with
whatever answer comes back.  The calls are left uninterpreted.  `wp` says what
a program promises about each call it makes, given the calls it has made
before, and what holds when it ends; `Runs` is the execution of one program
over a state that others may change between its calls.
-/

variable {C : Type} {R : C → Type} {α β ε : Type}

/-- A program over the calls `C`, each with its answers `R`. -/
inductive Prog (C : Type) (R : C → Type) (α : Type) : Type where
  | pure (value : α)
  | call (c : C) (next : R c → Prog C R α)

/-- The calls a program has made with the answers it got, latest first. -/
abbrev Trace (R : C → Type) : Type := List (Sigma R)

namespace Prog

def bind : Prog C R α → (α → Prog C R β) → Prog C R β
  | .pure value, f => f value
  | .call c next, f => .call c fun r => (next r).bind f

instance : Monad (Prog C R) where
  pure := .pure
  bind := bind

def perform (c : C) : Prog C R (R c) := .call c .pure

/-! ## Promises -/

/-- With `made` behind it, the program makes each further call under the promise `G` and ends in
`Q`, whatever it is answered. -/
def wp (G : Trace R → C → Prop) (Q : Trace R → α → Prop) : Prog C R α → Trace R → Prop
  | .pure value, made => Q made value
  | .call c next, made => G made c ∧ ∀ r, wp G Q (next r) (⟨c, r⟩ :: made)

section Wp

variable {G : Trace R → C → Prop} {Q : Trace R → α → Prop} {made : Trace R}

@[simp] theorem wp_pure {value : α} :
    (Pure.pure value : Prog C R α).wp G Q made ↔ Q made value := Iff.rfl

@[simp] theorem wp_perform {c : C} {Q : Trace R → R c → Prop} :
    (perform c : Prog C R (R c)).wp G Q made ↔ G made c ∧ ∀ r, Q (⟨c, r⟩ :: made) r := Iff.rfl

@[simp] theorem wp_bind {x : Prog C R α} {f : α → Prog C R β} {Q : Trace R → β → Prop} :
    (x >>= f).wp G Q made ↔ x.wp G (fun made value => (f value).wp G Q made) made := by
  change (x.bind f).wp G Q made ↔ _
  induction x generalizing made with
  | pure value => exact Iff.rfl
  | call c next ih => exact and_congr_right' (forall_congr' fun r => ih r)

theorem wp_mono {x : Prog C R α} {Q' : Trace R → α → Prop} (h : x.wp G Q made)
    (hpost : ∀ made value, Q made value → Q' made value) : x.wp G Q' made := by
  induction x generalizing made with
  | pure value => exact hpost _ _ h
  | call c next ih => exact ⟨h.1, fun r => ih r (h.2 r)⟩

theorem wp_promise {G' : Trace R → C → Prop} {x : Prog C R α} (h : x.wp G Q made)
    (hcall : ∀ made c, G made c → G' made c) : x.wp G' Q made := by
  induction x generalizing made with
  | pure value => exact h
  | call c next ih => exact ⟨hcall _ _ h.1, fun r => ih r (h.2 r)⟩

/-- What holds of a trace and survives every promised call may be used at the end. -/
theorem wp_invariant {x : Prog C R α} {I : Trace R → Prop} (h : x.wp G Q made) (hnow : I made)
    (hkeep : ∀ made c r, I made → G made c → I (⟨c, r⟩ :: made)) :
    x.wp G (fun made value => I made ∧ Q made value) made := by
  induction x generalizing made with
  | pure value => exact ⟨hnow, h⟩
  | call c next ih => exact ⟨h.1, fun r => ih r (h.2 r) (hkeep _ _ _ hnow h.1)⟩

/-- What holds now and survives every promised call may be used for each of them. -/
theorem wp_carries {x : Prog C R α} {I : Trace R → Prop} {G' : Trace R → C → Prop}
    (h : x.wp G Q made) (hnow : I made)
    (hkeep : ∀ made c r, I made → G made c → I (⟨c, r⟩ :: made))
    (hcall : ∀ made c, I made → G made c → G' made c) :
    x.wp G' (fun made value => I made ∧ Q made value) made := by
  induction x generalizing made with
  | pure value => exact ⟨hnow, h⟩
  | call c next ih =>
    exact ⟨hcall _ _ hnow h.1, fun r => ih r (h.2 r) (hkeep _ _ _ hnow h.1)⟩

/-- A promise that does not look at the calls made before is kept whatever they were. -/
theorem wp_regardless {K : C → Prop} {x : Prog C R α}
    (h : x.wp (fun _ c => K c) (fun _ _ => True) made) (made' : Trace R) :
    x.wp (fun _ c => K c) (fun _ _ => True) made' := by
  induction x generalizing made made' with
  | pure value => trivial
  | call c next ih => exact ⟨h.1, fun r => ih r (h.2 r) _⟩

theorem wp_trivial {x : Prog C R α} (h : ∀ made c, G made c) :
    x.wp G (fun _ _ => True) made := by
  induction x generalizing made with
  | pure value => trivial
  | call c next ih => exact ⟨h _ _, fun r => ih r⟩

/-! Programs that may fail. -/

@[simp] theorem wp_run_pure {value : α} {Q : Trace R → Except ε α → Prop} :
    (Pure.pure value : ExceptT ε (Prog C R) α).run.wp G Q made ↔ Q made (.ok value) := Iff.rfl

@[simp] theorem wp_run_throw {e : ε} {Q : Trace R → Except ε α → Prop} :
    (throw e : ExceptT ε (Prog C R) α).run.wp G Q made ↔ Q made (.error e) := Iff.rfl

/-- An error skips the rest; a value goes on. -/
@[simp] theorem wp_run_bind {x : ExceptT ε (Prog C R) α} {f : α → ExceptT ε (Prog C R) β}
    {Q : Trace R → Except ε β → Prop} :
    (x >>= f).run.wp G Q made ↔
      x.run.wp G (fun made result =>
        match result with
        | .ok value => (f value).run.wp G Q made
        | .error e => Q made (.error e)) made := by
  refine wp_bind.trans (Iff.of_eq (congrArg (fun post => wp G post x.run made) ?_))
  funext made result
  cases result <;> rfl

@[simp] theorem wp_run_lift {x : Prog C R α} {Q : Trace R → Except ε α → Prop} :
    (ExceptT.lift x : ExceptT ε (Prog C R) α).run.wp G Q made ↔
      x.wp G (fun made value => Q made (.ok value)) made := by
  change (x >>= fun value => Pure.pure (Except.ok value)).wp G Q made ↔ _
  rw [wp_bind]
  exact Iff.rfl

end Wp

/-! ## What every answer leads to -/

/-- A program that keeps a promise has an end it promises. -/
theorem exists_end [∀ c, Nonempty (R c)] {x : Prog C R α} {P : Trace R → C → Prop}
    {Q : Trace R → α → Prop} (h : x.wp P Q made) :
    ∃ added value, Q (added ++ made) value := by
  induction x generalizing made with
  | pure value => exact ⟨[], value, h⟩
  | call c next ih =>
    obtain ⟨r⟩ : Nonempty (R c) := inferInstance
    obtain ⟨added, value, hend⟩ := ih r (h.2 r)
    exact ⟨added ++ [⟨c, r⟩], value, by rwa [List.append_assoc]⟩

/-- Where every end shows calls of one kind only, every call is of that kind. -/
theorem wp_of_end [∀ c, Nonempty (R c)] {x : Prog C R α} {P : Trace R → C → Prop}
    {K : C → Prop} {known sofar : Trace R} {Q : Trace R → α → Prop}
    (h : x.wp P (fun made value => ∃ added, made = added ++ known ∧ (∀ e ∈ added, K e.1) ∧
      Q added value) (sofar ++ known)) :
    x.wp (fun made c => P made c ∧ K c) (fun made value => ∃ added, made = added ++ known ∧
      (∀ e ∈ added, K e.1) ∧ Q added value) (sofar ++ known) := by
  induction x generalizing sofar with
  | pure value => exact h
  | call c next ih =>
    have hkind : K c := by
      obtain ⟨r⟩ : Nonempty (R c) := inferInstance
      obtain ⟨later, value, added, hend, hadded, -⟩ := exists_end (h.2 r)
      rw [← List.cons_append, ← List.append_assoc] at hend
      rw [← List.append_cancel_right hend] at hadded
      exact hadded ⟨c, r⟩ (by simp)
    exact ⟨⟨h.1, hkind⟩, fun r => @ih r (⟨c, r⟩ :: sofar) (h.2 r)⟩

/-! ## Calls alone -/

/-- The calls of a program, whatever it ends with. -/
def erase : Prog C R α → Prog C R Unit
  | .pure _ => .pure ()
  | .call c next => .call c fun r => (next r).erase

theorem erase_bind {x : Prog C R α} {f : α → Prog C R β} :
    (x >>= f).erase = x >>= fun a => (f a).erase := by
  change (x.bind f).erase = x.bind _
  induction x with
  | pure value => rfl
  | call c next ih => exact congrArg (Prog.call c) (funext ih)

theorem bind_assoc {γ : Type} {x : Prog C R α} {f : α → Prog C R β} {g : β → Prog C R γ} :
    (x.bind f).bind g = x.bind fun a => (f a).bind g := by
  induction x with
  | pure value => rfl
  | call c next ih => exact congrArg (Prog.call c) (funext ih)

/-- What comes after a program and makes no call leaves its calls alone. -/
theorem erase_bind_silent {x : Prog C R α} {f : α → Prog C R β}
    (h : ∀ a, (f a).erase = .pure ()) : (x >>= f).erase = x.erase := by
  rw [erase_bind, funext h]
  change x.bind _ = x.erase
  induction x with
  | pure value => rfl
  | call c next ih => exact congrArg (Prog.call c) (funext ih)

/-! ## Runs -/

/-- A run of one program over states `S`: before each call the others change the state as `rely`
allows, then `step` answers the call and moves the state.  The log lists the calls in order, each
with the state that answered it. -/
inductive Runs {S : Type} (rely : S → S → Prop) (step : S → (c : C) → R c → S → Prop) :
    Prog C R α → S → List (S × Sigma R) → α → S → Prop
  | pure {value : α} {s : S} : Runs rely step (.pure value) s [] value s
  | call {c : C} {next : R c → Prog C R α} {s s₁ s₂ s' : S} {r : R c}
      {log : List (S × Sigma R)} {value : α} (hothers : rely s s₁) (hstep : step s₁ c r s₂)
      (hrest : Runs rely step (next r) s₂ log value s') :
      Runs rely step (.call c next) s ((s₁, ⟨c, r⟩) :: log) value s'

section Runs

variable {S : Type} {rely : S → S → Prop} {step : S → (c : C) → R c → S → Prop} {s s' : S}

theorem runs_pure {value result : α} {log : List (S × Sigma R)} :
    Runs rely step (Pure.pure value : Prog C R α) s log result s' ↔
      log = [] ∧ result = value ∧ s' = s := by
  constructor
  · rintro ⟨⟩
    exact ⟨rfl, rfl, rfl⟩
  · rintro ⟨rfl, rfl, rfl⟩
    exact .pure

theorem runs_call {c : C} {next : R c → Prog C R α} {value : α} {log : List (S × Sigma R)} :
    Runs rely step (.call c next) s log value s' ↔
      ∃ s₁ r s₂ rest, rely s s₁ ∧ step s₁ c r s₂ ∧ Runs rely step (next r) s₂ rest value s' ∧
        log = (s₁, ⟨c, r⟩) :: rest := by
  constructor
  · rintro ⟨⟩
    exact ⟨_, _, _, _, ‹_›, ‹_›, ‹_›, rfl⟩
  · rintro ⟨s₁, r, s₂, rest, hothers, hstep, hrest, rfl⟩
    exact .call hothers hstep hrest

theorem runs_bind {x : Prog C R α} {f : α → Prog C R β} {value : β} {log : List (S × Sigma R)} :
    Runs rely step (x >>= f) s log value s' ↔
      ∃ first a s₁ second, Runs rely step x s first a s₁ ∧
        Runs rely step (f a) s₁ second value s' ∧ log = first ++ second := by
  change Runs rely step (x.bind f) s log value s' ↔ _
  induction x generalizing s log with
  | pure a =>
    constructor
    · intro h
      exact ⟨[], a, s, log, .pure, h, rfl⟩
    · rintro ⟨_, _, _, second, ⟨⟩, h, rfl⟩
      exact h
  | call c next ih =>
    constructor
    · intro h
      obtain ⟨s₁, r, s₂, rest, hothers, hstep, hrest, rfl⟩ := runs_call.mp h
      obtain ⟨first, a, s₃, second, hfirst, hsecond, rfl⟩ := (ih r).mp hrest
      exact ⟨_, a, s₃, second, .call hothers hstep hfirst, hsecond, rfl⟩
    · rintro ⟨first, a, s₃, second, hfirst, hsecond, rfl⟩
      obtain ⟨s₁, r, s₂, rest, hothers, hstep, hrest, rfl⟩ := runs_call.mp hfirst
      exact .call hothers hstep ((ih r).mpr ⟨rest, a, s₃, second, hrest, hsecond, rfl⟩)

/-- A run makes each call under the promise of its program and ends in what the program
promises. -/
theorem Runs.promised {x : Prog C R α} {log : List (S × Sigma R)} {value : α}
    (hrun : Runs rely step x s log value s') {G : Trace R → C → Prop} {Q : Trace R → α → Prop}
    {made : Trace R} (h : x.wp G Q made) : Q ((log.map Prod.snd).reverse ++ made) value := by
  induction hrun generalizing made with
  | pure => exact h
  | call _ _ _ ih =>
    have hrest := ih (h.2 _)
    simpa using hrest

theorem Runs.calls {x : Prog C R α} {log : List (S × Sigma R)} {value : α}
    (hrun : Runs rely step x s log value s') {K : C → Prop} {Q : Trace R → α → Prop}
    {made : Trace R} (h : x.wp (fun _ c => K c) Q made) : ∀ e ∈ log, K e.2.1 := by
  induction hrun generalizing made with
  | pure => simp
  | call _ _ _ ih => exact List.forall_mem_cons.mpr ⟨h.1, ih (h.2 _)⟩

/-! Runs of programs that may fail. -/

theorem runs_run_pure {value : α} {result : Except ε α} {log : List (S × Sigma R)} :
    Runs rely step (Pure.pure value : ExceptT ε (Prog C R) α).run s log result s' ↔
      log = [] ∧ result = .ok value ∧ s' = s := runs_pure

theorem runs_run_throw {e : ε} {result : Except ε α} {log : List (S × Sigma R)} :
    Runs rely step (throw e : ExceptT ε (Prog C R) α).run s log result s' ↔
      log = [] ∧ result = .error e ∧ s' = s := runs_pure

theorem runs_run_bind {x : ExceptT ε (Prog C R) α} {f : α → ExceptT ε (Prog C R) β}
    {result : Except ε β} {log : List (S × Sigma R)} :
    Runs rely step (x >>= f).run s log result s' ↔
      (∃ e, Runs rely step x.run s log (.error e) s' ∧ result = .error e) ∨
        ∃ first a s₁ second, Runs rely step x.run s first (.ok a) s₁ ∧
          Runs rely step (f a).run s₁ second result s' ∧ log = first ++ second := by
  refine runs_bind.trans ⟨?_, ?_⟩
  · rintro ⟨first, first_result, s₁, second, hfirst, hsecond, rfl⟩
    cases first_result with
    | error e =>
      obtain ⟨rfl, rfl, rfl⟩ := runs_pure.mp hsecond
      rw [List.append_nil]
      exact Or.inl ⟨e, hfirst, rfl⟩
    | ok a => exact Or.inr ⟨first, a, s₁, second, hfirst, hsecond, rfl⟩
  · rintro (⟨e, hfirst, rfl⟩ | ⟨first, a, s₁, second, hfirst, hsecond, rfl⟩)
    · exact ⟨log, .error e, s', [], hfirst, .pure, (List.append_nil log).symm⟩
    · exact ⟨first, .ok a, s₁, second, hfirst, hsecond, rfl⟩

theorem runs_run_lift {x : Prog C R α} {result : Except ε α} {log : List (S × Sigma R)} :
    Runs rely step (ExceptT.lift x : ExceptT ε (Prog C R) α).run s log result s' ↔
      ∃ value, Runs rely step x s log value s' ∧ result = .ok value := by
  refine runs_bind.trans ⟨?_, ?_⟩
  · rintro ⟨first, value, s₁, second, hfirst, hsecond, rfl⟩
    obtain ⟨rfl, rfl, rfl⟩ := runs_pure.mp hsecond
    rw [List.append_nil]
    exact ⟨value, hfirst, rfl⟩
  · rintro ⟨value, hfirst, rfl⟩
    exact ⟨log, value, s', [], hfirst, .pure, (List.append_nil log).symm⟩

/-! Runs told by their calls alone: `Told` says that a program, answered as the log says, ends with
the value. -/

/-- The program makes the calls of the log, answered as it says, and ends with the value; each call
is tagged with an `S`. -/
def Told (x : Prog C R α) (log : List (S × Sigma R)) (value : α) : Prop :=
  ∃ s s', Runs (fun _ _ => True) (fun _ _ _ _ => True) x s log value s'

theorem Told.promised {x : Prog C R α} {log : List (S × Sigma R)} {value : α}
    (h : x.Told log value) {G : Trace R → C → Prop} {Q : Trace R → α → Prop}
    (hx : x.wp G Q []) : Q (log.map Prod.snd).reverse value := by
  obtain ⟨s, s', hrun⟩ := h
  simpa using hrun.promised hx

theorem Told.pure {value a : α} {log : List (S × Sigma R)}
    (h : (Pure.pure a : Prog C R α).Told log value) : log = [] ∧ value = a := by
  obtain ⟨s, s', hrun⟩ := h
  obtain ⟨hlog, hvalue, -⟩ := runs_pure.mp hrun
  exact ⟨hlog, hvalue⟩

theorem Told.call {c : C} {next : R c → Prog C R α} {value : α} {log : List (S × Sigma R)}
    (h : (Prog.call c next).Told log value) :
    ∃ s r rest, log = (s, ⟨c, r⟩) :: rest ∧ (next r).Told rest value := by
  obtain ⟨s, s', hrun⟩ := h
  obtain ⟨s₁, r, s₂, rest, -, -, hrest, rfl⟩ := runs_call.mp hrun
  exact ⟨s₁, r, rest, rfl, s₂, s', hrest⟩

theorem Told.run_bind {x : ExceptT ε (Prog C R) α} {f : α → ExceptT ε (Prog C R) β}
    {result : Except ε β} {log : List (S × Sigma R)} (h : (x >>= f).run.Told log result) :
    (∃ e, x.run.Told log (.error e) ∧ result = .error e) ∨
      ∃ first a second, x.run.Told first (.ok a) ∧ (f a).run.Told second result ∧
        log = first ++ second := by
  obtain ⟨s, s', hrun⟩ := h
  rcases runs_run_bind.mp hrun with ⟨e, hx, rfl⟩ | ⟨first, a, s₁, second, hx, hf, rfl⟩
  · exact Or.inl ⟨e, ⟨s, s', hx⟩, rfl⟩
  · exact Or.inr ⟨first, a, second, ⟨s, s₁, hx⟩, ⟨s₁, s', hf⟩, rfl⟩

theorem Told.run_lift {x : Prog C R α} {result : Except ε α} {log : List (S × Sigma R)}
    (h : (ExceptT.lift x : ExceptT ε (Prog C R) α).run.Told log result) :
    ∃ value, x.Told log value ∧ result = .ok value := by
  obtain ⟨s, s', hrun⟩ := h
  obtain ⟨value, hx, hresult⟩ := runs_run_lift.mp hrun
  exact ⟨value, ⟨s, s', hx⟩, hresult⟩

/-- The end of a program that is answered as the log says. -/
def follow [DecidableEq C] : Prog C R α → List (S × Sigma R) → Option α
  | .pure value, [] => some value
  | .call c next, (_, ⟨c', r⟩) :: rest =>
    if h : c' = c then (next (h ▸ r)).follow rest else none
  | _, _ => none

theorem told_of_follow [DecidableEq C] [Nonempty S] {x : Prog C R α} {log : List (S × Sigma R)}
    {value : α} (h : x.follow log = some value) : x.Told log value := by
  obtain ⟨s⟩ := ‹Nonempty S›
  refine ⟨s, s, ?_⟩
  induction x generalizing log with
  | pure a =>
    cases log with
    | nil =>
      cases h
      exact .pure
    | cons e rest => cases h
  | call c next ih =>
    match log, h with
    | (s₁, ⟨c', r⟩) :: rest, h =>
      simp only [follow] at h
      split at h
      · rename_i hc
        subst hc
        exact .call trivial trivial (ih r h)
      · cases h

end Runs

end Prog
