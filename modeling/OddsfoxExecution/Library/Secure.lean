import OddsfoxExecution.Library.Pool

/-!
# Programs over a state they share

A contract says what the others may do to the state between two calls of a
program, what each call of its own may do, and which invariant both keep.
`Secure` says that a program keeps its part from a state on, whatever the
others do within theirs, and ends in `Q`.  A pool whose tasks are secure, where
what one task may do is what the others rely on, has the invariant in every
state it reaches.
-/

variable {C : Type} {R : C → Type} {α β ε σ T : Type}

/-- What a program keeps, what it relies on, and what it guarantees of its own calls. -/
structure Contract (σ : Type) where
  inv : σ → Prop
  rely : σ → σ → Prop
  guar : σ → σ → Prop

namespace Prog

/-- Whatever the others make of the state, each call keeps the contract; the program ends
in `Q`. -/
def Secure (K : Contract σ) (step : σ → (c : C) → R c → σ → Prop) (Q : α → σ → Prop) :
    Prog C R α → σ → Prop
  | .pure value, s => Q value s
  | .call c next, s => ∀ s₁, K.rely s s₁ → K.inv s₁ → ∀ r s₂, step s₁ c r s₂ →
      K.inv s₂ ∧ K.guar s₁ s₂ ∧ (next r).Secure K step Q s₂

section Secure

variable {K : Contract σ} {step : σ → (c : C) → R c → σ → Prop} {Q : α → σ → Prop} {s : σ}

@[simp] theorem secure_pure {value : α} :
    (Pure.pure value : Prog C R α).Secure K step Q s ↔ Q value s := Iff.rfl

@[simp] theorem secure_bind {x : Prog C R α} {f : α → Prog C R β} {Q : β → σ → Prop} :
    (x >>= f).Secure K step Q s ↔
      x.Secure K step (fun value s => (f value).Secure K step Q s) s := by
  change (x.bind f).Secure K step Q s ↔ _
  induction x generalizing s with
  | pure value => exact Iff.rfl
  | call c next ih =>
    refine forall₂_congr fun s₁ _ => forall₃_congr fun _ r s₂ => forall_congr' fun _ => ?_
    exact and_congr_right' (and_congr_right' (ih r))

theorem Secure.mono {x : Prog C R α} {Q' : α → σ → Prop} (h : x.Secure K step Q s)
    (hpost : ∀ value s, Q value s → Q' value s) : x.Secure K step Q' s := by
  induction x generalizing s with
  | pure value => exact hpost _ _ h
  | call c next ih =>
    intro s₁ hrely hinv r s₂ hstep
    obtain ⟨hkeep, hguar, hrest⟩ := h s₁ hrely hinv r s₂ hstep
    exact ⟨hkeep, hguar, ih r hrest⟩

/-- What the others do leaves a program secure. -/
theorem Secure.of_rely {x : Prog C R α} (h : x.Secure K step Q s) {s' : σ}
    (hrely : K.rely s s') (htrans : ∀ {a b c}, K.rely a b → K.rely b c → K.rely a c)
    (hstable : ∀ value, Q value s → Q value s') : x.Secure K step Q s' := by
  cases x with
  | pure value => exact hstable value h
  | call c next => exact fun s₁ hrely' => h s₁ (htrans hrely hrely')

/-! Programs that may fail. -/

@[simp] theorem secure_run_pure {value : α} {Q : Except ε α → σ → Prop} :
    (Pure.pure value : ExceptT ε (Prog C R) α).run.Secure K step Q s ↔ Q (.ok value) s :=
  Iff.rfl

@[simp] theorem secure_run_throw {e : ε} {Q : Except ε α → σ → Prop} :
    (throw e : ExceptT ε (Prog C R) α).run.Secure K step Q s ↔ Q (.error e) s := Iff.rfl

@[simp] theorem secure_run_bind {x : ExceptT ε (Prog C R) α} {f : α → ExceptT ε (Prog C R) β}
    {Q : Except ε β → σ → Prop} :
    (x >>= f).run.Secure K step Q s ↔
      x.run.Secure K step (fun result s =>
        match result with
        | .ok value => (f value).run.Secure K step Q s
        | .error e => Q (.error e) s) s := by
  refine secure_bind.trans (Iff.of_eq (congrArg (fun post => Secure K step post x.run s) ?_))
  funext result s
  cases result <;> rfl

@[simp] theorem secure_run_lift {x : Prog C R α} {Q : Except ε α → σ → Prop} :
    (ExceptT.lift x : ExceptT ε (Prog C R) α).run.Secure K step Q s ↔
      x.Secure K step (fun value s => Q (.ok value) s) s := by
  change (x >>= fun value => Pure.pure (Except.ok value)).Secure K step Q s ↔ _
  rw [secure_bind]
  exact Iff.rfl

end Secure

end Prog

/-! ## Pools of secure tasks -/

/-- The contracts of the tasks of a machine fit together: they share the invariant `I`, every task
is secure when it arrives, what a task guarantees is what the others rely on, and so is what else
happens. -/
structure Machine.Disciplined (M : Machine C R T α σ) (guard : σ → T → Sigma R → Prop)
    (initial : σ) (I : σ → Prop) (K : Nat → T → Contract σ) : Prop where
  start : I initial
  inv : ∀ t task, (K t task).inv = I
  refl : ∀ t task a, (K t task).rely a a
  trans : ∀ t task {a b c}, (K t task).rely a b → (K t task).rely b c → (K t task).rely a c
  others : ∀ {p : Pool C R T α σ}, M.Reaches guard initial p → I p.memory →
    ∀ {t task made c next}, p.threads t = some ⟨task, made, .call c next⟩ → ∀ {r memory},
      M.answer p.memory t c r memory → (K t task).guar p.memory memory →
        ∀ {t' thread}, t' ≠ t → p.threads t' = some thread →
          (K t' thread.task).rely p.memory memory
  arrive : ∀ {p : Pool C R T α σ}, M.Reaches guard initial p → I p.memory → ∀ {task memory},
    M.arrives p.memory task memory → I memory ∧
      (M.program task).Secure (K p.fresh task) (fun m c r m' => M.answer m p.fresh c r m')
        (fun _ _ => True) memory ∧
      ∀ {t thread}, p.threads t = some thread → (K t thread.task).rely p.memory memory
  drop : ∀ {p : Pool C R T α σ}, M.Reaches guard initial p → I p.memory → ∀ {t thread},
    p.threads t = some thread → M.droppable thread.task → I (M.dropped p.memory t) ∧
      ∀ {t' thread'}, t' ≠ t → p.threads t' = some thread' →
        (K t' thread'.task).rely p.memory (M.dropped p.memory t)
  surroundings : ∀ {p : Pool C R T α σ}, M.Reaches guard initial p → I p.memory → ∀ {memory},
    M.surroundings p.memory memory → I memory ∧
      ∀ {t thread}, p.threads t = some thread → (K t thread.task).rely p.memory memory
  crash : ∀ {p : Pool C R T α σ}, M.Reaches guard initial p → I p.memory → I (M.crashed p.memory)

namespace Machine.Reaches

variable {M : Machine C R T α σ} {guard : σ → T → Sigma R → Prop} {initial : σ}
  {I : σ → Prop} {K : Nat → T → Contract σ} {p : Pool C R T α σ}

/-- The invariant holds in every state of such a pool, and what is left of each task is secure. -/
theorem secured (hM : M.Disciplined guard initial I K) (h : M.Reaches guard initial p) :
    I p.memory ∧ ∀ {t thread}, p.threads t = some thread →
      thread.rest.Secure (K t thread.task) (fun m c r m' => M.answer m t c r m')
        (fun _ _ => True) p.memory := by
  induction h with
  | start => exact ⟨hM.start, fun ht => nomatch ht⟩
  | @call p t task made c next r memory hp ht hanswer hguard ih =>
    obtain ⟨hI, hsecure⟩ := ih
    obtain ⟨hkeep, hguar, hrest⟩ := hsecure ht p.memory (hM.refl t task _)
      ((hM.inv t task).symm ▸ hI) r memory hanswer
    refine ⟨hM.inv t task ▸ hkeep, fun {t' thread} ht' => ?_⟩
    rcases Pool.perform_threads ht' with ⟨rfl, rfl⟩ | ⟨hne, hold⟩
    · exact hrest
    · exact (hsecure hold).of_rely (hM.others hp hI ht hanswer hguar hne hold) (hM.trans _ _)
        fun _ h => h
  | @arrive p task memory hp harrives ih =>
    obtain ⟨hI, hsecure⟩ := ih
    obtain ⟨hkeep, hnew, hrely⟩ := hM.arrive hp hI harrives
    refine ⟨hkeep, fun {t thread} ht => ?_⟩
    rcases Pool.add_threads ht with ⟨rfl, rfl⟩ | hold
    · exact hnew
    · exact (hsecure hold).of_rely (hrely hold) (hM.trans _ _) fun _ h => h
  | drop hp ht hdroppable ih =>
    obtain ⟨hI, hsecure⟩ := ih
    obtain ⟨hkeep, hrely⟩ := hM.drop hp hI ht hdroppable
    refine ⟨hkeep, fun {t' thread'} ht' => ?_⟩
    obtain ⟨hne, hold⟩ := Pool.remove_threads ht'
    exact (hsecure hold).of_rely (hrely hne hold) (hM.trans _ _) fun _ h => h
  | surroundings hp hchange ih =>
    obtain ⟨hI, hsecure⟩ := ih
    obtain ⟨hkeep, hrely⟩ := hM.surroundings hp hI hchange
    exact ⟨hkeep, fun ht => (hsecure ht).of_rely (hrely ht) (hM.trans _ _) fun _ h => h⟩
  | crash hp ih => exact ⟨hM.crash hp ih.1, fun ht => absurd ht Pool.crash_threads⟩

end Machine.Reaches
