import Mathlib.Data.List.Nodup
import Mathlib.Data.List.Count

/-!
# Tables as lists of rows

The statements of a relational store that a transaction is made of: an update
of the rows that satisfy a predicate, the number of rows it affects, an insert
guarded by a key, an insert that ignores a conflict, and an upsert.  Rows keep
their insertion order.  Nothing here knows what a row is.
-/

namespace Table

variable {α κ : Type}

/-- `UPDATE t SET f WHERE p`. -/
def updateWhere (p : α → Prop) [DecidablePred p] (f : α → α) (t : List α) : List α :=
  t.map fun row => if p row then f row else row

/-- The row count an `UPDATE … WHERE p` reports. -/
def rowsAffected (p : α → Prop) [DecidablePred p] (t : List α) : Nat :=
  t.countP fun row => decide (p row)

/-- `INSERT` into a table whose primary key is `key`: refused when the key is taken. -/
def insertNew [DecidableEq κ] (key : α → κ) (row : α) (t : List α) : Option (List α) :=
  if t.any fun other => key other = key row then none else some (t ++ [row])

/-- `INSERT … ON CONFLICT(key) DO UPDATE`, where `merge` sets the conflicting row. -/
def upsert [DecidableEq κ] (key : α → κ) (row : α) (merge : α → α) (t : List α) : List α :=
  if t.any fun other => key other = key row then
    updateWhere (fun other => key other = key row) merge t
  else t ++ [row]

section Update

variable {p : α → Prop} [DecidablePred p] {f : α → α} {t : List α}

theorem mem_updateWhere {row : α} :
    row ∈ updateWhere p f t ↔ ∃ old ∈ t, row = if p old then f old else old := by
  simp only [updateWhere, List.mem_map]
  constructor
  · rintro ⟨old, hold, rfl⟩; exact ⟨old, hold, rfl⟩
  · rintro ⟨old, hold, rfl⟩; exact ⟨old, hold, rfl⟩

theorem mem_updateWhere_of_mem {row : α} (hrow : row ∈ t) (hp : p row) :
    f row ∈ updateWhere p f t :=
  mem_updateWhere.mpr ⟨row, hrow, (if_pos hp).symm⟩

/-- A column that the update leaves alone reads the same afterwards. -/
theorem map_updateWhere {β : Type} {column : α → β} (hkeep : ∀ row, column (f row) = column row) :
    (updateWhere p f t).map column = t.map column := by
  simp only [updateWhere, List.map_map]
  refine List.map_congr_left fun row _ => ?_
  simp only [Function.comp]
  split
  · exact hkeep row
  · rfl

theorem updateWhere_congr {q : α → Prop} [DecidablePred q] {g : α → α}
    (hpq : ∀ row ∈ t, p row ↔ q row) (hfg : ∀ row ∈ t, p row → f row = g row) :
    updateWhere p f t = updateWhere q g t := by
  refine List.map_congr_left fun row hrow => ?_
  by_cases hp : p row
  · rw [if_pos hp, if_pos ((hpq row hrow).mp hp), hfg row hrow hp]
  · rw [if_neg hp, if_neg fun hq => hp ((hpq row hrow).mpr hq)]

theorem updateWhere_eq_self (hnone : ∀ row ∈ t, ¬ p row) : updateWhere p f t = t := by
  simp only [updateWhere]
  conv_rhs => rw [← List.map_id t]
  refine List.map_congr_left fun row hrow => ?_
  simp [hnone row hrow]

/-- A property of every row survives an update that keeps it on the rows it sets. -/
theorem forall_updateWhere {q : α → Prop} (hall : ∀ row ∈ t, q row)
    (hset : ∀ row ∈ t, p row → q (f row)) : ∀ row ∈ updateWhere p f t, q row := by
  intro row hrow
  obtain ⟨old, hold, rfl⟩ := mem_updateWhere.mp hrow
  split
  · exact hset old hold ‹_›
  · exact hall old hold

theorem exists_of_rowsAffected_ne_zero (h : rowsAffected p t ≠ 0) : ∃ row ∈ t, p row := by
  have hpos : 0 < t.countP fun row => decide (p row) := Nat.pos_of_ne_zero h
  simpa using List.countP_pos_iff.mp hpos

theorem exists_of_rowsAffected_eq_one (h : rowsAffected p t = 1) : ∃ row ∈ t, p row :=
  exists_of_rowsAffected_ne_zero (by rw [h]; exact Nat.one_ne_zero)

theorem rowsAffected_eq_zero : rowsAffected p t = 0 ↔ ∀ row ∈ t, ¬ p row := by
  simp [rowsAffected]

/-- A new row is the only one affected when none was before. -/
theorem rowsAffected_append_eq_one {row : α} (hnone : ∀ other ∈ t, ¬ p other) (hp : p row) :
    rowsAffected p (t ++ [row]) = 1 := by
  have hzero : t.countP (fun other => decide (p other)) = 0 := rowsAffected_eq_zero.mpr hnone
  simp [rowsAffected, List.countP_append, hzero, hp]

/-- Under a key without duplicates an update that fixes the key affects at most one row. -/
theorem rowsAffected_eq_one_of_mem {key : α → κ} (hnodup : (t.map key).Nodup) {row : α}
    (hrow : row ∈ t) (hp : p row) (hkey : ∀ other, p other → key other = key row) :
    rowsAffected p t = 1 := by
  induction t with
  | nil => cases hrow
  | cons head tail ih =>
    simp only [List.map_cons, List.nodup_cons] at hnodup
    rcases List.mem_cons.mp hrow with rfl | htail
    · have hrest : tail.countP (fun other => decide (p other)) = 0 := by
        simp only [List.countP_eq_zero, decide_eq_true_eq]
        intro other hother hpo
        exact hnodup.1 (List.mem_map.mpr ⟨other, hother, hkey other hpo⟩)
      simp [rowsAffected, hp, hrest]
    · have hhead : ¬ p head := fun hph =>
        hnodup.1 (List.mem_map.mpr ⟨row, htail, (hkey head hph).symm⟩)
      have := ih hnodup.2 htail
      simpa [rowsAffected, hhead] using this

end Update

section Insert

variable [DecidableEq κ] {key : α → κ} {row : α} {t t' : List α}

theorem insertNew_eq_some :
    insertNew key row t = some t' ↔ (∀ other ∈ t, key other ≠ key row) ∧ t' = t ++ [row] := by
  unfold insertNew
  split <;> rename_i h
  · simp only [List.any_eq_true, decide_eq_true_eq] at h
    obtain ⟨other, hmem, heq⟩ := h
    simp only [reduceCtorEq, false_iff, not_and]
    exact fun hall => absurd heq (hall other hmem)
  · simp only [List.any_eq_true, decide_eq_true_eq, not_exists, not_and] at h
    simp only [Option.some.injEq]
    exact ⟨fun heq => ⟨h, heq.symm⟩, fun heq => heq.2.symm⟩

theorem insertNew_eq_none :
    insertNew key row t = none ↔ ∃ other ∈ t, key other = key row := by
  unfold insertNew
  split <;> rename_i h <;> simpa using h

omit [DecidableEq κ] in
/-- An insert guarded by its key keeps the key free of duplicates. -/
theorem nodup_append_row (hnodup : (t.map key).Nodup)
    (hfresh : ∀ other ∈ t, key other ≠ key row) : ((t ++ [row]).map key).Nodup := by
  rw [List.map_append, List.nodup_append]
  refine ⟨hnodup, by simp, ?_⟩
  intro k hk k' hk'
  obtain ⟨other, hother, rfl⟩ := List.mem_map.mp hk
  simp only [List.map_cons, List.map_nil, List.mem_singleton] at hk'
  exact hk' ▸ hfresh other hother

end Insert

/-- Under a key without duplicates, two rows with one key are one row. -/
theorem eq_of_key_eq {key : α → κ} {t : List α} (hnodup : (t.map key).Nodup) {a b : α}
    (ha : a ∈ t) (hb : b ∈ t) (hkey : key a = key b) : a = b :=
  List.inj_on_of_nodup_map hnodup ha hb hkey

theorem find?_eq_some_of_mem [DecidableEq κ] {key : α → κ} {t : List α}
    (hnodup : (t.map key).Nodup) {row : α} (hrow : row ∈ t) :
    t.find? (fun other => key other = key row) = some row := by
  cases hfind : t.find? (fun other => decide (key other = key row)) with
  | none =>
    have := List.find?_eq_none.mp hfind row hrow
    simp at this
  | some found =>
    have hkey : key found = key row := by simpa using List.find?_some hfind
    rw [eq_of_key_eq hnodup (List.mem_of_find?_eq_some hfind) hrow hkey]

/-! ## Replacing the row of a key -/

section Replace

variable [DecidableEq κ] {key : α → κ} {t : List α}

/-- The table with the row of one key set. -/
def replace (key : α → κ) (row : α) (t : List α) : List α :=
  updateWhere (fun other => key other = key row) (fun _ => row) t

theorem mem_replace {new row : α} :
    row ∈ replace key new t ↔
      (row ∈ t ∧ key row ≠ key new) ∨ (row = new ∧ ∃ old ∈ t, key old = key new) := by
  rw [replace, mem_updateWhere]
  constructor
  · rintro ⟨old, hold, rfl⟩
    split
    · exact Or.inr ⟨rfl, old, hold, ‹_›⟩
    · exact Or.inl ⟨hold, ‹_›⟩
  · rintro (⟨hrow, hne⟩ | ⟨rfl, old, hold, heq⟩)
    · exact ⟨row, hrow, by rw [if_neg hne]⟩
    · exact ⟨old, hold, by rw [if_pos heq]⟩

/-- A column on which the new row agrees with the one it replaces keeps its values. -/
theorem map_replace {β : Type} {column : α → β} {new : α}
    (hkeep : ∀ old ∈ t, key old = key new → column new = column old) :
    (replace key new t).map column = t.map column := by
  simp only [replace, updateWhere, List.map_map]
  refine List.map_congr_left fun row hrow => ?_
  simp only [Function.comp]
  split
  · exact hkeep row hrow ‹_›
  · rfl

theorem map_key_replace {new : α} : (replace key new t).map key = t.map key :=
  map_replace fun _ _ heq => heq.symm

/-- An update that hits only the row of one key replaces that row. -/
theorem updateWhere_eq_replace (hnodup : (t.map key).Nodup) {p : α → Prop} [DecidablePred p]
    {f : α → α} {old : α} (hold : old ∈ t) (hp : p old)
    (honly : ∀ row ∈ t, p row → key row = key old) (hkey : key (f old) = key old) :
    updateWhere p f t = replace key (f old) t := by
  have hunique : ∀ row ∈ t, key row = key old → row = old :=
    fun row hrow heq => eq_of_key_eq hnodup hrow hold heq
  refine updateWhere_congr (fun row hrow => ⟨fun hprow => ?_, fun heq => ?_⟩)
    fun row hrow hprow => ?_
  · rw [hkey, honly row hrow hprow]
  · rwa [hunique row hrow (heq.trans hkey)]
  · rw [hunique row hrow (honly row hrow hprow)]

theorem replace_self (hnodup : (t.map key).Nodup) {row : α} (hrow : row ∈ t) :
    replace key row t = t := by
  conv_rhs => rw [← List.map_id t]
  refine List.map_congr_left fun other hother => ?_
  split
  · exact (eq_of_key_eq hnodup hother hrow ‹_›).symm
  · rfl

omit [DecidableEq κ] in
theorem rowsAffected_key_le_one (hnodup : (t.map key).Nodup) {p : α → Prop} [DecidablePred p]
    {k : κ} (hp : ∀ row, p row → key row = k) : rowsAffected p t ≤ 1 := by
  by_cases hnone : rowsAffected p t = 0
  · omega
  · obtain ⟨row, hrow, hprow⟩ := exists_of_rowsAffected_ne_zero hnone
    exact Nat.le_of_eq (rowsAffected_eq_one_of_mem hnodup hrow hprow
      fun other hpo => (hp other hpo).trans (hp row hprow).symm)

omit [DecidableEq κ] in
/-- What a key without duplicates selects: nothing or one row. -/
theorem filter_key (hnodup : (t.map key).Nodup) {p : α → Prop} [DecidablePred p] {k : κ}
    (hp : ∀ row, p row → key row = k) :
    t.filter (fun row => decide (p row)) = [] ∨
      ∃ row ∈ t, p row ∧ t.filter (fun row => decide (p row)) = [row] := by
  have hle : (t.filter fun row => decide (p row)).length ≤ 1 := by
    rw [← List.countP_eq_length_filter]
    exact rowsAffected_key_le_one hnodup hp
  match hfilter : t.filter fun row => decide (p row) with
  | [] => exact Or.inl rfl
  | [row] =>
    have hrow : row ∈ t.filter fun row => decide (p row) := hfilter ▸ List.mem_cons_self
    obtain ⟨hmem, hprow⟩ := List.mem_filter.mp hrow
    exact Or.inr ⟨row, hmem, by simpa using hprow, rfl⟩
  | _ :: _ :: _ =>
    rw [hfilter] at hle
    simp at hle

omit [DecidableEq κ] in
theorem filter_eq_singleton (hnodup : (t.map key).Nodup) {p : α → Prop} [DecidablePred p] {row : α}
    (hrow : row ∈ t) (hp : p row) (honly : ∀ other, p other → key other = key row) :
    t.filter (fun other => decide (p other)) = [row] := by
  rcases filter_key hnodup honly with hnone | ⟨other, hother, hpother, hone⟩
  · have hmem : row ∈ t.filter fun other => decide (p other) :=
      List.mem_filter.mpr ⟨hrow, by simpa using hp⟩
    rw [hnone] at hmem
    cases hmem
  · rw [hone, eq_of_key_eq hnodup hother hrow (honly other hpother)]

end Replace

/-- A join that gives each row at most one row keeps the rows' order. -/
theorem map_flatMap_sublist {β : Type} {f : α → List β} {g : β → κ} {key : α → κ} {t : List α}
    (hone : ∀ row ∈ t, List.Sublist ((f row).map g) [key row]) :
    List.Sublist ((t.flatMap f).map g) (t.map key) := by
  induction t with
  | nil => exact List.Sublist.refl _
  | cons row rows ih =>
    simp only [List.flatMap_cons, List.map_append, List.map_cons]
    exact (hone row List.mem_cons_self).append
      (ih fun other hother => hone other (List.mem_cons_of_mem _ hother))

/-- `JOIN … ON` a key without duplicates, filtered: the rows whose partner passes. -/
theorem filter_join {β : Type} [DecidableEq κ] {key : β → κ} {u : List β}
    (hnodup : (u.map key).Nodup) (reference : α → κ) (p : α → β → Bool) (t : List α) :
    ((t.flatMap fun a => (u.filter fun b => key b = reference a).map fun b => (a, b)).filter
      fun pair => p pair.1 pair.2).map Prod.fst =
        t.filter fun a => u.any fun b => key b = reference a && p a b := by
  induction t with
  | nil => rfl
  | cons a rest ih =>
    rw [List.flatMap_cons, List.filter_append, List.map_append, ih, List.filter_cons]
    have hany : (u.any fun b => decide (key b = reference a) && p a b) =
        (u.filter fun b => key b = reference a).any (p a) := by
      rw [List.any_filter]
    rw [hany]
    rcases filter_key hnodup (p := fun b => key b = reference a) fun _ h => h with
      hnone | ⟨b, -, -, hone⟩
    · rw [hnone]
      rfl
    · rw [hone]
      by_cases hp : p a b = true <;> simp [hp]

/-! ## Reading a row by its key -/

section Find

variable [DecidableEq κ] {key : α → κ} {t : List α}

theorem find?_updateWhere {p : α → Prop} [DecidablePred p] {f : α → α}
    (hkey : ∀ row, key (f row) = key row) (k : κ) :
    (updateWhere p f t).find? (fun row => key row = k) =
      (t.find? fun row => key row = k).map fun row => if p row then f row else row := by
  have hsame : ∀ row, key (if p row then f row else row) = key row := by
    intro row
    split
    · exact hkey row
    · rfl
  induction t with
  | nil => rfl
  | cons row rows ih =>
    simp only [updateWhere, List.map_cons, List.find?_cons, hsame] at ih ⊢
    split
    · rfl
    · exact ih

/-- An update of the rows under one key is not seen under another. -/
theorem find?_updateWhere_of_ne {p : α → Prop} [DecidablePred p] {f : α → α} {k k' : κ}
    (hkey : ∀ row, key (f row) = key row) (hp : ∀ row, p row → key row = k') (hne : k ≠ k') :
    (updateWhere p f t).find? (fun row => key row = k) = t.find? fun row => key row = k := by
  rw [find?_updateWhere hkey]
  cases hfind : t.find? fun row => decide (key row = k) with
  | none => rfl
  | some row =>
    have hrow : key row = k := by simpa using List.find?_some hfind
    have hnot : ¬ p row := fun h => hne (hrow.symm.trans (hp row h))
    simp [hnot]

/-- A row under one key appended to a table is not seen under another. -/
theorem find?_append_row_of_ne {row : α} {k : κ} (hne : k ≠ key row) :
    (t ++ [row]).find? (fun other => key other = k) = t.find? fun other => key other = k := by
  rw [List.find?_append]
  simp [hne.symm]

theorem find?_upsert_self {row : α} {merge : α → α}
    (hkey : ∀ other, key (merge other) = key other) :
    (upsert key row merge t).find? (fun other => key other = key row) =
      some (((t.find? fun other => key other = key row).map merge).getD row) := by
  unfold upsert
  split
  · rename_i htaken
    rw [find?_updateWhere hkey]
    cases hfind : t.find? fun other => decide (key other = key row) with
    | none =>
      simp only [List.any_eq_true, decide_eq_true_eq] at htaken
      obtain ⟨other, hother, heq⟩ := htaken
      exact absurd (List.find?_eq_none.mp hfind other hother) (by simp [heq])
    | some found =>
      have hfound : key found = key row := by simpa using List.find?_some hfind
      simp [hfound]
  · rename_i hfresh
    have hnone : t.find? (fun other => decide (key other = key row)) = none := by
      simpa [List.find?_eq_none] using hfresh
    rw [List.find?_append, hnone]
    simp

theorem find?_upsert_of_ne {row : α} {merge : α → α} (hkey : ∀ other, key (merge other) = key other)
    {k : κ} (hne : k ≠ key row) :
    (upsert key row merge t).find? (fun other => key other = k) =
      t.find? fun other => key other = k := by
  unfold upsert
  split
  · rw [find?_updateWhere hkey]
    cases hfind : t.find? fun other => decide (key other = k) with
    | none => rfl
    | some found =>
      have hfound : key found = k := by simpa using List.find?_some hfind
      simp [hfound, hne]
  · rw [List.find?_append]
    simp [hne.symm]

theorem nodup_upsert {row : α} {merge : α → α}
    (hmerge : ∀ other, key other = key row → key (merge other) = key row)
    (hnodup : (t.map key).Nodup) : ((upsert key row merge t).map key).Nodup := by
  unfold upsert
  split
  · have hkeys : (updateWhere (fun other => key other = key row) merge t).map key = t.map key := by
      rw [updateWhere, List.map_map]
      refine List.map_congr_left fun other _ => ?_
      simp only [Function.comp]
      split
      · rename_i htaken
        rw [hmerge other htaken, htaken]
      · rfl
    rwa [hkeys]
  · rename_i hfresh
    refine nodup_append_row hnodup fun other hother heq => hfresh ?_
    exact List.any_eq_true.mpr ⟨other, hother, decide_eq_true heq⟩

/-- An upsert that sets the whole row is found under its key, and nothing else changes. -/
theorem find?_upsert_row (row : α) (k : κ) :
    (upsert key row (fun _ => row) t).find? (fun other => key other = k) =
      if k = key row then some row else t.find? fun other => key other = k := by
  unfold upsert
  split
  · rename_i htaken
    induction t with
    | nil => cases htaken
    | cons head rest ih =>
      have hcons : updateWhere (fun other => key other = key row) (fun _ => row) (head :: rest) =
          (if key head = key row then row else head) ::
            updateWhere (fun other => key other = key row) (fun _ => row) rest := rfl
      have hrest : updateWhere (fun other => key other = key row) (fun _ => row) rest =
          rest ∨ (rest.any fun other => key other = key row) = true := by
        by_cases hany : (rest.any fun other => key other = key row) = true
        · exact Or.inr hany
        · exact Or.inl (updateWhere_eq_self (by simpa using hany))
      rw [hcons, List.find?_cons]
      by_cases hhead : key head = key row
      · by_cases hk : k = key row
        · simp [hhead, hk]
        · have hk' : ¬ key row = k := fun h => hk h.symm
          rcases hrest with hrest | hrest
          · simp [hhead, hk, hk', hrest]
          · simp [hhead, hk, hk', ih hrest]
      · have htaken : (rest.any fun other => key other = key row) = true := by
          simpa [hhead] using htaken
        by_cases hk : key head = k
        · have hk' : ¬ k = key row := fun h => hhead (hk.trans h)
          simp [hk, hk']
        · simp [hhead, hk, ih htaken]
  · rename_i hfresh
    have hnone : t.find? (fun other => decide (key other = key row)) = none := by
      simpa [List.find?_eq_none] using hfresh
    rw [List.find?_append]
    by_cases hk : k = key row
    · subst hk
      simp [hnone]
    · have hk' : ¬ key row = k := fun h => hk h.symm
      simp [hk, hk']

end Find

end Table
