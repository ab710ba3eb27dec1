import OddsfoxExecution.Library.Program

/-!
# What a program adds to its trace

`Gives` says of a program that may fail what kind of calls it makes and, where
it succeeds, how its value is related to the calls it made and their answers,
whatever was called before.  The rules put the traces of the parts of a program
one after the other; `Gives.wp` turns the result into a promise.
-/

namespace Prog

variable {C : Type} {R : C → Type} {α β ε : Type}

/-- The program makes only calls of the kind `K`; a value it ends with is related by `Q` to the
calls it made, latest first. -/
def Gives (K : C → Prop) (x : ExceptT ε (Prog C R) α) (Q : Trace R → α → Prop) : Prop :=
  ∀ made, x.run.wp (fun _ c => K c) (fun made' result => ∃ added, made' = added ++ made ∧
    ∀ value, result = .ok value → Q added value) made

variable {K : C → Prop} {x : ExceptT ε (Prog C R) α} {Q : Trace R → α → Prop}

namespace Gives

theorem pure {value : α} (h : Q [] value) :
    Gives K (Pure.pure value : ExceptT ε (Prog C R) α) Q :=
  fun _ => wp_run_pure.mpr ⟨[], rfl, fun _ hvalue => Except.ok.inj hvalue ▸ h⟩

theorem throw {e : ε} : Gives K (MonadExcept.throw e : ExceptT ε (Prog C R) α) Q :=
  fun _ => wp_run_throw.mpr ⟨[], rfl, fun _ hvalue => nomatch hvalue⟩

theorem perform {c : C} {Q : Trace R → R c → Prop} (hc : K c) (h : ∀ r, Q [⟨c, r⟩] r) :
    Gives K (ExceptT.lift (Prog.perform c) : ExceptT ε (Prog C R) (R c)) Q :=
  fun _ => wp_run_lift.mpr ⟨hc, fun r => ⟨[⟨c, r⟩], rfl, fun _ hvalue =>
    Except.ok.inj hvalue ▸ h r⟩⟩

theorem mono {Q' : Trace R → α → Prop} (h : Gives K x Q)
    (hpost : ∀ added value, Q added value → Q' added value) : Gives K x Q' :=
  fun made => wp_mono (h made) fun _ _ ⟨added, hmade, hvalue⟩ =>
    ⟨added, hmade, fun value heq => hpost _ _ (hvalue value heq)⟩

theorem kind {K' : C → Prop} (h : Gives K x Q) (hkind : ∀ c, K c → K' c) : Gives K' x Q :=
  fun made => wp_promise (h made) fun _ c hc => hkind c hc

theorem bind {f : α → ExceptT ε (Prog C R) β} {Q' : Trace R → β → Prop} (h : Gives K x Q)
    (hrest : ∀ value before, Q before value →
      Gives K (f value) fun added result => Q' (added ++ before) result) :
    Gives K (x >>= f) Q' := by
  intro made
  rw [wp_run_bind]
  refine wp_mono (h made) ?_
  rintro made' result ⟨before, rfl, hvalue⟩
  cases result with
  | error e => exact ⟨before, rfl, fun _ heq => nomatch heq⟩
  | ok value =>
    refine wp_mono (hrest value before (hvalue value rfl) _) ?_
    rintro made'' result ⟨added, rfl, hresult⟩
    exact ⟨added ++ before, (List.append_assoc _ _ _).symm, hresult⟩

theorem performBind {c : C} {f : R c → ExceptT ε (Prog C R) β} {Q' : Trace R → β → Prop} (hc : K c)
    (hrest : ∀ r, Gives K (f r) fun added result => Q' (added ++ [⟨c, r⟩]) result) :
    Gives K (ExceptT.lift (Prog.perform c) >>= f) Q' := by
  refine bind (perform (Q := fun before r => before = [⟨c, r⟩]) hc fun _ => rfl) ?_
  rintro r _ rfl
  exact hrest r

theorem attempt (h : Gives K x Q) :
    Gives K (ExceptT.lift x.run : ExceptT ε (Prog C R) (Except ε α)) fun added result =>
      ∀ value, result = .ok value → Q added value := by
  intro made
  rw [wp_run_lift]
  refine wp_mono (h made) ?_
  rintro made' result ⟨added, hmade, hvalue⟩
  exact ⟨added, hmade, fun _ heq => Except.ok.inj heq ▸ hvalue⟩

/-- Nothing is said of the value of a program of which only the calls are known. -/
theorem of_calls (h : ∀ made, x.run.wp (fun _ c => K c) (fun _ _ => True) made) :
    Gives K x fun _ _ => True := by
  intro made
  have hgrows := wp_carries (I := fun made' => ∃ added, made' = added ++ made) (h made) ⟨[], rfl⟩
    (fun _ c r ⟨added, hmade⟩ _ => ⟨⟨c, r⟩ :: added, hmade ▸ rfl⟩) fun _ _ _ hc => hc
  exact wp_mono hgrows fun _ _ ⟨⟨added, hmade⟩, _⟩ => ⟨added, hmade, fun _ _ => trivial⟩

/-- A kind of calls alone. -/
theorem calls (h : Gives K x Q) : Gives K x fun _ _ => True := h.mono fun _ _ _ => trivial

/-- What holds of the trace, and survives every call of the kind, holds at each of them and at the
end. -/
theorem wp {made : Trace R} {G : Trace R → C → Prop} {P : Trace R → Except ε α → Prop}
    (h : Gives K x Q) {I : Trace R → Prop} (hnow : I made)
    (hkeep : ∀ made c r, I made → K c → I (⟨c, r⟩ :: made))
    (hcall : ∀ made c, I made → K c → G made c)
    (hpost : ∀ added result, I (added ++ made) → (∀ value, result = .ok value → Q added value) →
      P (added ++ made) result) : x.run.wp G P made := by
  refine wp_mono (wp_carries (h made) hnow hkeep hcall) ?_
  rintro made' result ⟨hI, added, rfl, hvalue⟩
  exact hpost added result hI hvalue

theorem wpBind {f : α → ExceptT ε (Prog C R) β} {made : Trace R} {G : Trace R → C → Prop}
    {P : Trace R → Except ε β → Prop} (h : Gives K x Q) {I : Trace R → Prop} (hnow : I made)
    (hkeep : ∀ made c r, I made → K c → I (⟨c, r⟩ :: made))
    (hcall : ∀ made c, I made → K c → G made c)
    (hok : ∀ added value, I (added ++ made) → Q added value →
      (f value).run.wp G P (added ++ made))
    (herror : ∀ added e, I (added ++ made) → P (added ++ made) (.error e)) :
    (x >>= f).run.wp G P made := by
  rw [wp_run_bind]
  refine h.wp hnow hkeep hcall fun added result hI hvalue => ?_
  cases result with
  | ok value => exact hok added value hI (hvalue value rfl)
  | error e => exact herror added e hI

end Gives

end Prog
