import Mathlib.Data.List.Nodup
import Mathlib.Logic.Function.Basic

/-!
# Overlays and checked runs

Updates of single keys of a map, one after the other, and a run of steps that
stops at the first state that fails a check.  Updates of distinct keys commute,
so that their order makes no difference; a checked run goes through when every
state on the way passes, so that there it may.
-/

namespace Overlay

section Updates

variable {κ ν : Type} [DecidableEq κ]

/-- What a key holds from the update on. -/
structure Update (κ ν : Type) where
  key : κ
  value : Option ν

/-- The map after the updates. -/
def overlay (m : κ → Option ν) (updates : List (Update κ ν)) : κ → Option ν :=
  updates.foldl (fun m u => Function.update m u.key u.value) m

/-- The order of updates of distinct keys makes no difference. -/
theorem overlay_perm {m : κ → Option ν} {updates updates' : List (Update κ ν)}
    (hnodup : (updates.map Update.key).Nodup) (hperm : updates.Perm updates') :
    overlay m updates = overlay m updates' := by
  apply hperm.foldl_eq'
  intro u hu u' hu' z
  by_cases hsame : u = u'
  · rw [hsame]
  · have hkey : u.key ≠ u'.key := fun heq => hsame (List.inj_on_of_nodup_map hnodup hu hu' heq)
    exact Function.update_comm hkey.symm _ _ z |>.symm

end Updates

section Checked

variable {σ α : Type} (step : σ → α → σ) (ok : σ → Bool)

/-- The steps one after the other, as long as each state they lead to passes. -/
def checkedRun (s : σ) : List α → Option σ
  | [] => some s
  | a :: rest => if ok (step s a) then checkedRun (step s a) rest else none

def PassesThroughout (s : σ) (steps : List α) : Prop :=
  ∀ first, first <+: steps → ok (first.foldl step s) = true

variable {step ok}

theorem passesThroughout_cons {s : σ} {a : α} {rest : List α} (hs : ok s = true) :
    PassesThroughout step ok s (a :: rest) ↔ PassesThroughout step ok (step s a) rest := by
  constructor
  · intro h first hfirst
    exact h (a :: first) (List.cons_prefix_cons.mpr ⟨rfl, hfirst⟩)
  · intro h first hfirst
    cases first with
    | nil => exact hs
    | cons b first =>
      obtain ⟨rfl, hrest⟩ := List.cons_prefix_cons.mp hfirst
      exact h first hrest

/-- A run that starts in a state that passes goes through when every state on the way passes. -/
theorem checkedRun_eq_some {s s' : σ} {steps : List α} (hs : ok s = true) :
    checkedRun step ok s steps = some s' ↔
      PassesThroughout step ok s steps ∧ steps.foldl step s = s' := by
  induction steps generalizing s with
  | nil =>
    simp only [checkedRun, Option.some.injEq, List.foldl_nil, PassesThroughout, List.prefix_nil]
    constructor
    · intro h
      exact ⟨fun first hfirst => by rwa [hfirst], h⟩
    · intro h
      exact h.2
  | cons a rest ih =>
    rw [checkedRun, passesThroughout_cons hs, List.foldl_cons]
    by_cases hnext : ok (step s a) = true
    · rw [if_pos hnext, ih hnext]
    · rw [if_neg hnext]
      constructor
      · intro h
        cases h
      · intro h
        exact absurd (h.1 [] List.nil_prefix) hnext

end Checked

end Overlay
