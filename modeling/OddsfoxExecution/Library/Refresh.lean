import Mathlib.Data.List.Infix

/-!
# Generation counters

One counter grows with every event that outdates a derived state.  A refresh
loads the counter before it begins and stores what it loaded in a second cell
when it is done; a check loads the counter, then the cell, and passes when they
agree.  Any number of refreshes and checks may be under way at once.  A history
lists what was done, latest first.
-/

namespace Refresh

/-- What an event does to the counter and to the cell. -/
inductive Act where
  | bump
  | load (value : Nat)
  | store (value : Nat)
  | reread (value : Nat)
  | other
deriving DecidableEq

def Act.storedOr (value : Nat) : Act → Nat
  | .store stored => stored
  | _ => value

variable {E : Type} (act : E → Act) (owner : E → Nat)

def bumps (history : List E) : Nat := history.countP fun e => act e = .bump

def stored : List E → Nat
  | [] => 0
  | e :: before => (act e).storedOr (stored before)

/-- Every value is the one the history tells, and what is stored was loaded by the same owner. -/
def Recorded : List E → Prop
  | [] => True
  | e :: before => Recorded before ∧
    (∀ value, act e = .load value → value = bumps act before) ∧
    (∀ value, act e = .store value → ∃ l ∈ before, owner l = owner e ∧ act l = .load value) ∧
    ∀ value, act e = .reread value → value = stored act before

/-- Two moments of one history have seen the same bumps. -/
def SameBumps (a b : List E) : Prop :=
  ∀ e before, act e = .bump → (e :: before <:+ a ↔ e :: before <:+ b)

/-- The refresh that was the last to finish loaded the counter after `earlier`; before any has, it
is as if one had begun with the history. -/
def LastRefresh (history earlier : List E) : Prop :=
  ((∀ e ∈ history, ∀ value, act e ≠ .store value) ∧ earlier = []) ∨
    ∃ later e between l value, history = later ++ e :: (between ++ l :: earlier) ∧
      (∀ x ∈ later, ∀ value, act x ≠ .store value) ∧ act e = .store value ∧
      act l = .load value ∧ owner l = owner e

variable {act owner}

theorem bumps_append (a b : List E) : bumps act (a ++ b) = bumps act a + bumps act b :=
  List.countP_append

theorem bumps_cons {e : E} {history : List E} :
    bumps act (e :: history) = bumps act history + if act e = .bump then 1 else 0 := by
  simp [bumps, List.countP_cons]

theorem bumps_eq_zero {history : List E} :
    bumps act history = 0 ↔ ∀ e ∈ history, act e ≠ .bump := by
  simp [bumps, List.countP_eq_zero]

theorem Recorded.of_append {a b : List E} (h : Recorded act owner (a ++ b)) :
    Recorded act owner b := by
  induction a with
  | nil => exact h
  | cons e a ih => exact ih h.1

theorem Recorded.load {a b : List E} {e : E} {value : Nat}
    (h : Recorded act owner (a ++ e :: b)) (he : act e = .load value) : value = bumps act b :=
  h.of_append.2.1 value he

theorem Recorded.reread {a b : List E} {e : E} {value : Nat}
    (h : Recorded act owner (a ++ e :: b)) (he : act e = .reread value) :
    value = stored act b := h.of_append.2.2.2 value he

theorem stored_append {a b : List E} (ha : ∀ e ∈ a, ∀ value, act e ≠ .store value) :
    stored act (a ++ b) = stored act b := by
  induction a with
  | nil => rfl
  | cons e a ih =>
    have hrest := ih fun x hx => ha x (List.mem_cons_of_mem _ hx)
    have hhead := ha e List.mem_cons_self
    rw [List.cons_append, stored]
    cases hact : act e with
    | store value => exact absurd hact (hhead value)
    | _ => exact hrest

/-- The cell holds what the refresh that was the last to finish saw of the counter. -/
theorem Recorded.lastRefresh {history : List E} (h : Recorded act owner history) :
    ∃ earlier, LastRefresh act owner history earlier ∧ earlier <:+ history ∧
      stored act history = bumps act earlier := by
  induction history with
  | nil => exact ⟨[], Or.inl ⟨by simp, rfl⟩, List.suffix_refl _, rfl⟩
  | cons e before ih =>
    by_cases hstore : ∃ value, act e = .store value
    · obtain ⟨value, he⟩ := hstore
      obtain ⟨l, hl, howner, hvalue⟩ := h.2.2.1 value he
      obtain ⟨between, earlier, rfl⟩ := List.append_of_mem hl
      refine ⟨earlier, Or.inr ⟨[], e, between, l, value, rfl, by simp, he, hvalue, howner⟩, ?_, ?_⟩
      · exact ⟨e :: (between ++ [l]), by simp⟩
      · rw [stored, he]
        exact h.1.load hvalue
    · have hnone : ∀ value, act e ≠ .store value := fun value he => hstore ⟨value, he⟩
      obtain ⟨earlier, hlast, hsuffix, hvalue⟩ := ih h.1
      have hsame : stored act (e :: before) = stored act before :=
        @stored_append E act [e] before (by simpa using hnone)
      refine ⟨earlier, ?_, hsuffix.trans (List.suffix_cons e before), hsame.trans hvalue⟩
      rcases hlast with ⟨hstores, rfl⟩ | ⟨later, e', between, l, value, rfl, hlater, hrest⟩
      · exact Or.inl ⟨List.forall_mem_cons.mpr ⟨hnone, hstores⟩, rfl⟩
      · exact Or.inr ⟨e :: later, e', between, l, value, rfl,
          List.forall_mem_cons.mpr ⟨hnone, hlater⟩, hrest⟩

/-- Of two moments the later one has seen more, unless nothing was bumped in between. -/
theorem bumps_eq_iff_of_suffix {a b : List E} (h : a <:+ b) :
    bumps act a = bumps act b ↔ SameBumps act a b := by
  obtain ⟨x, rfl⟩ := h
  rw [bumps_append]
  constructor
  · intro heq e before he
    have hnone : ∀ y ∈ x, act y ≠ .bump := bumps_eq_zero.mp (by omega)
    refine ⟨fun hsuffix => hsuffix.trans (List.suffix_append x a), fun hsuffix => ?_⟩
    rcases List.suffix_or_suffix_of_suffix hsuffix (List.suffix_append x a) with hin | ⟨y, hy⟩
    · exact hin
    · -- a bump from before `a` would be in `x`
      cases y with
      | nil => exact ⟨[], hy.symm⟩
      | cons e' y =>
        obtain ⟨rfl, rfl⟩ := List.cons.inj hy
        obtain ⟨z, hz⟩ := hsuffix
        have hx : x = z ++ e' :: y :=
          List.append_cancel_right (show x ++ a = (z ++ e' :: y) ++ a by simpa using hz.symm)
        exact absurd he (hnone e' (by simp [hx]))
  · intro hsame
    have hnone : ∀ y ∈ x, act y ≠ .bump := by
      intro y hy hbump
      obtain ⟨z, w, rfl⟩ := List.append_of_mem hy
      have hsuffix : y :: (w ++ a) <:+ (z ++ y :: w) ++ a := ⟨z, by simp⟩
      have hlength := ((hsame y (w ++ a) hbump).mpr hsuffix).length_le
      simp only [List.length_cons, List.length_append] at hlength
      omega
    rw [bumps_eq_zero.mpr hnone, Nat.zero_add]

theorem SameBumps.symm {a b : List E} (h : SameBumps act a b) : SameBumps act b a :=
  fun e before he => (h e before he).symm

/-- The counter tells two moments of a history apart exactly by what was bumped between them. -/
theorem bumps_eq_iff {history a b : List E} (ha : a <:+ history) (hb : b <:+ history) :
    bumps act a = bumps act b ↔ SameBumps act a b := by
  rcases List.suffix_or_suffix_of_suffix ha hb with h | h
  · exact bumps_eq_iff_of_suffix h
  · rw [eq_comm, bumps_eq_iff_of_suffix h]
    exact ⟨SameBumps.symm, SameBumps.symm⟩

/-- A check passes exactly when the refresh that was the last to finish saw the same bumps as its
first load. -/
theorem Recorded.check {later between before : List E} {reread load : E} {value value' : Nat}
    (h : Recorded act owner (later ++ reread :: (between ++ load :: before)))
    (hload : act load = .load value) (hreread : act reread = .reread value') :
    ∃ earlier, LastRefresh act owner (between ++ load :: before) earlier ∧
      (value = value' ↔ SameBumps act before earlier) := by
  have hhistory : Recorded act owner (between ++ load :: before) := h.of_append.1
  obtain ⟨earlier, hlast, hsuffix, hstored⟩ := hhistory.lastRefresh
  refine ⟨earlier, hlast, ?_⟩
  rw [hhistory.load hload, h.reread hreread, hstored]
  exact bumps_eq_iff ⟨between ++ [load], by simp⟩ hsuffix

end Refresh
