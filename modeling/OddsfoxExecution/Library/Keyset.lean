import Mathlib.Data.List.Sort
import Mathlib.Data.List.Nodup
import Mathlib.Tactic.Linarith

/-!
# Keyset pagination

Rows in the order of a key, read page by page: a page starts past the key of the
last row of the page before it, and one row more than fits is looked for to
tell whether another page follows.  A reader that follows the cursors sees every
row once.  Cursors travel encoded; all that is asked of the code is that the
server reads back what it wrote.
-/

namespace Keyset

variable {α κ γ : Type}

/-- The pages a reader gets by following the cursors, from one on; `none` when a page fails or
the requests run out first. -/
def follow (fetch : Option γ → Option (List α × Option γ)) : Nat → Option γ →
    Option (List (List α))
  | 0, _ => none
  | requests + 1, cursor =>
    match fetch cursor with
    | none => none
    | some (items, none) => some [items]
    | some (items, some next) => (follow fetch requests (some next)).map (items :: ·)

section Order

variable [LinearOrder κ] (key : α → κ)

/-- Each row once, in the order of the key. -/
def Ascending (rows : List α) : Prop := rows.Pairwise fun a b => key a < key b

/-- The rows past a cursor; without a cursor, all of them. -/
def past (cursor : Option κ) (rows : List α) : List α :=
  rows.filter fun row => cursor.all fun c => decide (c < key row)

/-- `ORDER BY key`. -/
def ordered (rows : List α) : List α := rows.insertionSort fun a b => key a ≤ key b

variable {key}

@[simp] theorem past_none (rows : List α) : past key none rows = rows := by
  simp [past]

theorem ordered_perm (rows : List α) : (ordered key rows).Perm rows :=
  List.perm_insertionSort _ _

theorem ascending_ordered {rows : List α} (hnodup : (rows.map key).Nodup) :
    Ascending key (ordered key rows) := by
  have hle : (ordered key rows).Pairwise fun a b => key a ≤ key b := by
    have hmap : ((ordered key rows).map key).Pairwise (· ≤ ·) := by
      rw [ordered, List.map_insertionSort _ (· ≤ ·) key rows fun _ _ _ _ => Iff.rfl]
      exact List.pairwise_insertionSort _ _
    exact List.pairwise_map.mp hmap
  have hne : (ordered key rows).Pairwise fun a b => key a ≠ key b := by
    have hmap : ((ordered key rows).map key).Nodup :=
      ((ordered_perm rows).map key).nodup_iff.mpr hnodup
    exact List.pairwise_map.mp hmap
  exact (hle.and hne).imp fun h => lt_of_le_of_ne h.1 h.2

theorem Ascending.eq_of_perm {rows rows' : List α} (h : Ascending key rows)
    (h' : Ascending key rows') (hperm : rows.Perm rows') : rows = rows' := by
  apply hperm.eq_of_pairwise _ h h'
  intro a b _ _ hab hba
  exact absurd hba hab.asymm

theorem Ascending.filter {rows : List α} (h : Ascending key rows) (p : α → Bool) :
    Ascending key (rows.filter p) := List.Pairwise.filter p h

theorem ordered_filter {rows : List α} (hnodup : (rows.map key).Nodup) (p : α → Bool) :
    ordered key (rows.filter p) = (ordered key rows).filter p := by
  have hsub : ((rows.filter p).map key).Nodup := hnodup.sublist (List.filter_sublist.map key)
  refine (ascending_ordered hsub).eq_of_perm ((ascending_ordered hnodup).filter p) ?_
  exact (ordered_perm _).trans ((ordered_perm rows).filter p).symm

/-- The rows past one of them are those that follow it. -/
theorem Ascending.past_mid {before after : List α} {row : α}
    (h : Ascending key (before ++ row :: after)) :
    past key (some (key row)) (before ++ row :: after) = after := by
  obtain ⟨-, htail, hacross⟩ := List.pairwise_append.mp h
  have hbefore : before.filter (fun r => decide (key row < key r)) = [] := by
    rw [List.filter_eq_nil_iff]
    intro r hr
    simpa using (hacross r hr row List.mem_cons_self).le
  have hafter : after.filter (fun r => decide (key row < key r)) = after := by
    rw [List.filter_eq_self]
    intro r hr
    simpa using (List.pairwise_cons.mp htail).1 r hr
  simp [past, List.filter_append, hbefore, hafter]

theorem past_past {cursor : Option κ} {c : κ} (hle : ∀ c' ∈ cursor, c' ≤ c) (rows : List α) :
    past key (some c) (past key cursor rows) = past key (some c) rows := by
  cases cursor with
  | none => rw [past_none]
  | some c' =>
    have hearlier := hle c' rfl
    rw [past, past, List.filter_filter]
    apply List.filter_congr
    intro row _
    simp only [Option.all_some, Bool.and_eq_left_iff_imp, decide_eq_true_eq]
    exact fun h => lt_of_le_of_lt hearlier h

variable (key) in
/-- A server of the rows by pages: what it answers to each cursor it may have handed out. -/
def Serves (fetch : Option γ → Option (List α × Option γ)) (encode : κ → γ) (limit : Nat)
    (rows : List α) : Prop :=
  ∀ cursor : Option κ, fetch (cursor.map encode) =
    some ((past key cursor rows).take limit,
      if limit < (past key cursor rows).length then
        ((past key cursor rows).take limit).getLast?.map fun row => encode (key row)
      else none)

/-- The pages hold these rows one after the other, and only the last one may be short. -/
structure Paginates (limit : Nat) (rows : List α) (pages : List (List α)) : Prop where
  flatten : pages.flatten = rows
  full : ∀ page ∈ pages.dropLast, page.length = limit
  ne_nil : pages ≠ []

variable {fetch : Option γ → Option (List α × Option γ)} {encode : κ → γ} {limit : Nat}
  {rows : List α}

/-- From any cursor on, the pages hold the rows past it. -/
theorem Serves.follow_from (hserves : Serves key fetch encode limit rows)
    (hrows : Ascending key rows) (hlimit : 1 ≤ limit) :
    ∀ (requests : Nat) (cursor : Option κ), (past key cursor rows).length < requests →
      ∃ pages, follow fetch requests (cursor.map encode) = some pages ∧
        Paginates limit (past key cursor rows) pages := by
  intro requests
  induction requests with
  | zero =>
    intro cursor h
    omega
  | succ requests ih =>
    intro cursor hlength
    set rest := past key cursor rows with hrest
    have hanswer := hserves cursor
    rw [← hrest] at hanswer
    by_cases hmore : limit < rest.length
    · have hne : rest.take limit ≠ [] := by
        intro hnil
        have hzero := congrArg List.length hnil
        rw [List.length_take, List.length_nil] at hzero
        omega
      set last := (rest.take limit).getLast hne with hlast
      have hsplit : rest = (rest.take limit).dropLast ++ last :: rest.drop limit := by
        conv_lhs => rw [← List.take_append_drop limit rest,
          ← List.dropLast_append_getLast hne]
        simp [hlast]
      have hascending : Ascending key rest := hrows.filter _
      -- the next page starts where this one ends
      have hnext : past key (some (key last)) rows = rest.drop limit := by
        have hin : last ∈ rest := by
          rw [hsplit]
          simp
        have hlater : ∀ c ∈ cursor, c ≤ key last := by
          intro c hc
          rw [hrest, past, List.mem_filter] at hin
          have hlt := hin.2
          rw [Option.mem_def.mp hc, Option.all_some, decide_eq_true_eq] at hlt
          exact hlt.le
        rw [← past_past hlater, ← hrest]
        rw [hsplit] at hascending
        have hmid := hascending.past_mid
        rwa [← hsplit] at hmid
      have hshorter : (past key (some (key last)) rows).length < requests := by
        rw [hnext, List.length_drop]
        omega
      obtain ⟨pages, hpages, hpaginates⟩ := ih (some (key last)) hshorter
      refine ⟨rest.take limit :: pages, ?_, ?_, ?_, List.cons_ne_nil _ _⟩
      · rw [follow, hanswer, if_pos hmore, List.getLast?_eq_getLast_of_ne_nil hne]
        change (follow fetch requests (Option.map encode (some (key last)))).map _ = _
        rw [hpages]
        rfl
      · rw [List.flatten_cons, hpaginates.flatten, hnext, List.take_append_drop]
      · rw [List.dropLast_cons_of_ne_nil hpaginates.ne_nil]
        intro page hpage
        rcases List.mem_cons.mp hpage with rfl | hpage
        · rw [List.length_take]
          omega
        · exact hpaginates.full page hpage
    · rw [if_neg hmore] at hanswer
      have hall : rest.take limit = rest := List.take_of_length_le (by omega)
      refine ⟨[rest], ?_, ?_, ?_, List.cons_ne_nil _ _⟩
      · rw [follow, hanswer, hall]
      · simp
      · intro page hpage
        cases hpage

/-- From the start the pages hold all rows, within one request more than there are rows. -/
theorem Serves.follow_all (hserves : Serves key fetch encode limit rows)
    (hrows : Ascending key rows) (hlimit : 1 ≤ limit) :
    ∃ pages, follow fetch (rows.length + 1) none = some pages ∧ Paginates limit rows pages := by
  have h := hserves.follow_from hrows hlimit (rows.length + 1) none
  rw [past_none] at h
  exact h (Nat.lt_succ_self _)

end Order

end Keyset
