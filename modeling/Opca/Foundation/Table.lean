/-
  Foundation/Table.lean --- database tables as lists of rows: the largest value of
  a column, updates of the rows that meet a condition, and tables whose integer
  key no two rows share.
-/
import Mathlib.Data.List.Nodup
import Mathlib.Order.Lattice
import Mathlib.Algebra.Order.Ring.Int

set_option autoImplicit false

namespace Opca.Foundation

variable {ρ : Type}

/-! ## Columns -/

/-- `MAX` of a column, which has none on no rows. -/
def columnMax (column : ρ → Int) (rows : List ρ) : Option Int := (rows.map column).max?

/-- `COALESCE(MAX(column), 0)`. -/
def columnMaxOr0 (column : ρ → Int) (rows : List ρ) : Int := (columnMax column rows).getD 0

theorem le_columnMaxOr0 {column : ρ → Int} {rows : List ρ} {row : ρ} (h : row ∈ rows) :
    column row ≤ columnMaxOr0 column rows := by
  unfold columnMaxOr0 columnMax
  cases hmax : (rows.map column).max? with
  | none =>
    rw [List.max?_eq_none_iff, List.map_eq_nil_iff] at hmax
    rw [hmax] at h
    cases h
  | some m =>
    exact (List.max?_eq_some_iff.mp hmax).2 _ (List.mem_map_of_mem h)

/-- On some rows the maximum is the value of one of them. -/
theorem exists_columnMaxOr0 {column : ρ → Int} {rows : List ρ} (h : rows ≠ []) :
    ∃ row ∈ rows, column row = columnMaxOr0 column rows := by
  unfold columnMaxOr0 columnMax
  cases hmax : (rows.map column).max? with
  | none =>
    rw [List.max?_eq_none_iff, List.map_eq_nil_iff] at hmax
    exact absurd hmax h
  | some m =>
    obtain ⟨row, hrow, heq⟩ := List.mem_map.mp (List.max?_eq_some_iff.mp hmax).1
    exact ⟨row, hrow, heq⟩

/-- The maximum is the value of any row that no row exceeds. -/
theorem columnMaxOr0_eq {column : ρ → Int} {rows : List ρ} {row : ρ} (h : row ∈ rows)
    (hmax : ∀ other ∈ rows, column other ≤ column row) :
    columnMaxOr0 column rows = column row := by
  obtain ⟨most, hmost, heq⟩ : ∃ most ∈ rows, column most = columnMaxOr0 column rows :=
    exists_columnMaxOr0 (List.ne_nil_of_mem h)
  have hle : column row ≤ columnMaxOr0 column rows := le_columnMaxOr0 h
  have hge := hmax most hmost
  omega

theorem columnMaxOr0_le {column : ρ → Int} {rows : List ρ} {bound : Int} (h : 0 ≤ bound)
    (hrows : ∀ row ∈ rows, column row ≤ bound) : columnMaxOr0 column rows ≤ bound := by
  by_cases hnil : rows = []
  · rw [hnil]
    exact h
  · obtain ⟨row, hrow, heq⟩ : ∃ row ∈ rows, column row = columnMaxOr0 column rows :=
      exists_columnMaxOr0 hnil
    rw [← heq]
    exact hrows row hrow

theorem columnMaxOr0_nonneg {column : ρ → Int} {rows : List ρ}
    (h : ∀ row ∈ rows, 0 ≤ column row) : 0 ≤ columnMaxOr0 column rows := by
  by_cases hnil : rows = []
  · rw [hnil]
    exact le_refl _
  · obtain ⟨row, hrow, heq⟩ : ∃ row ∈ rows, column row = columnMaxOr0 column rows :=
      exists_columnMaxOr0 hnil
    rw [← heq]
    exact h row hrow

@[simp] theorem columnMaxOr0_nil (column : ρ → Int) : columnMaxOr0 column [] = 0 := rfl

/-- A row is the one with its key, if no two share it. -/
theorem find?_key {κ : Type} [DecidableEq κ] {key : ρ → κ} {rows : List ρ} {row : ρ}
    (hnodup : (rows.map key).Nodup) (hrow : row ∈ rows) :
    rows.find? (fun other => key other = key row) = some row := by
  cases hfind : rows.find? fun other => key other = key row with
  | none =>
    have hnone := List.find?_eq_none.mp hfind row hrow
    exact absurd (decide_eq_true rfl) hnone
  | some found =>
    have hkey : key found = key row := by simpa using List.find?_some hfind
    rw [List.inj_on_of_nodup_map hnodup (List.mem_of_find?_eq_some hfind) hrow hkey]

/-- The key a row without one is given: one past the largest. -/
def nextKey (key : ρ → Int) (rows : List ρ) : Int := columnMaxOr0 key rows + 1

theorem lt_nextKey {key : ρ → Int} {rows : List ρ} {row : ρ} (h : row ∈ rows) :
    key row < nextKey key rows := by
  have hle : key row ≤ columnMaxOr0 key rows := le_columnMaxOr0 h
  unfold nextKey
  omega

/-! ## Updates -/

/-- `UPDATE … SET … WHERE …`. -/
def updateWhere (p : ρ → Bool) (f : ρ → ρ) (rows : List ρ) : List ρ :=
  rows.map fun row => if p row then f row else row

theorem mem_updateWhere {p : ρ → Bool} {f : ρ → ρ} {rows : List ρ} {row : ρ} :
    row ∈ updateWhere p f rows ↔ ∃ old ∈ rows, (if p old then f old else old) = row :=
  List.mem_map

/-- A column that the update does not set is as it was. -/
theorem map_updateWhere {β : Type} {column : ρ → β} {p : ρ → Bool} {f : ρ → ρ}
    (hf : ∀ row, column (f row) = column row) (rows : List ρ) :
    (updateWhere p f rows).map column = rows.map column := by
  unfold updateWhere
  rw [List.map_map]
  refine List.map_congr_left ?_
  intro row _
  simp only [Function.comp_apply]
  split
  · exact hf row
  · rfl

theorem mem_updateWhere_of_not {p : ρ → Bool} {f : ρ → ρ} {rows : List ρ} {row : ρ}
    (h : row ∈ rows) (hp : p row = false) : row ∈ updateWhere p f rows :=
  mem_updateWhere.mpr ⟨row, h, by rw [hp]; rfl⟩

theorem mem_updateWhere_of {p : ρ → Bool} {f : ρ → ρ} {rows : List ρ} {row : ρ}
    (h : row ∈ rows) (hp : p row = true) : f row ∈ updateWhere p f rows :=
  mem_updateWhere.mpr ⟨row, h, by rw [if_pos hp]⟩

/-- Two updates of the same rows are one. -/
theorem updateWhere_updateWhere {p : ρ → Bool} {f g : ρ → ρ}
    (hp : ∀ row, p row = true → p (f row) = true) (rows : List ρ) :
    updateWhere p g (updateWhere p f rows) = updateWhere p (g ∘ f) rows := by
  unfold updateWhere
  rw [List.map_map]
  refine List.map_congr_left ?_
  intro row _
  cases hrow : p row with
  | false => simp [hrow]
  | true => simp [hrow, hp row hrow]

/-! ## Turns of the rows -/

section

variable {κ : Type} [DecidableEq κ] {key : ρ → κ} {f : ρ → ρ} {c : ρ} {cs rows : List ρ}

/-- The turn of a row that stays as it is. -/
theorem map_turn_same (hkey : ∀ row ∈ rows, key row = key c → row = c) (hsame : f c = c) :
    rows.map (fun row => if key row ∈ [c].map key then f row else row) = rows := by
  refine (List.map_congr_left fun row hmem => ?_).trans (List.map_id' rows)
  by_cases hrow : key row = key c
  · rw [hkey row hmem hrow, hsame, ite_self]
  · simp [hrow]

/-- The turn of one row is not another's. -/
theorem map_turns (hf : ∀ row, key (f row) = key row) (hc : key c ∉ cs.map key)
    (rows : List ρ) :
    (rows.map fun row => if key row ∈ [c].map key then f row else row).map
        (fun row => if key row ∈ cs.map key then f row else row) =
      rows.map fun row => if key row ∈ (c :: cs).map key then f row else row := by
  rw [List.map_map]
  refine List.map_congr_left fun row _ => ?_
  by_cases hrow : key row = key c
  · simp only [Function.comp_apply, List.map_cons, List.map_nil, hrow,
      if_true, hf, hc, if_false, List.mem_cons, true_or]
  · simp [hrow]

end

/-! ## Tables with a key -/

/-- Rows no two of which share the key. -/
structure Table (ρ : Type) (key : ρ → Int) where
  rows : List ρ
  keys_nodup : (rows.map key).Nodup

namespace Table

variable {key : ρ → Int}

def empty : Table ρ key := ⟨[], List.nodup_nil⟩

@[simp] theorem rows_empty : (empty : Table ρ key).rows = [] := rfl

theorem eq_of_key {t : Table ρ key} {a b : ρ} (ha : a ∈ t.rows) (hb : b ∈ t.rows)
    (h : key a = key b) : a = b :=
  List.inj_on_of_nodup_map t.keys_nodup ha hb h

/-- The row with a key. -/
def get? (t : Table ρ key) (k : Int) : Option ρ := t.rows.find? (key · = k)

theorem get?_eq_some {t : Table ρ key} {k : Int} {row : ρ} :
    t.get? k = some row ↔ row ∈ t.rows ∧ key row = k := by
  unfold get?
  constructor
  · intro h
    exact ⟨List.mem_of_find?_eq_some h, by simpa using List.find?_some h⟩
  · rintro ⟨hmem, rfl⟩
    exact find?_key t.keys_nodup hmem

/-- `INSERT` of a row that takes the next key. -/
def insert (t : Table ρ key) (row : Int → ρ) (hrow : ∀ k, key (row k) = k) :
    Table ρ key where
  rows := t.rows ++ [row (nextKey key t.rows)]
  keys_nodup := by
    rw [List.map_append, List.nodup_append]
    refine ⟨t.keys_nodup, List.nodup_singleton _, ?_⟩
    intro a ha b hb heq
    obtain ⟨old, hold, rfl⟩ := List.mem_map.mp ha
    rw [List.map_singleton, List.mem_singleton, hrow] at hb
    have hlt : key old < nextKey key t.rows := lt_nextKey hold
    omega

@[simp] theorem rows_insert (t : Table ρ key) (row : Int → ρ)
    (hrow : ∀ k, key (row k) = k) :
    (t.insert row hrow).rows = t.rows ++ [row (nextKey key t.rows)] := rfl

/-- `UPDATE … WHERE …` of columns other than the key. -/
def update (t : Table ρ key) (p : ρ → Bool) (f : ρ → ρ)
    (hf : ∀ row, key (f row) = key row) : Table ρ key where
  rows := updateWhere p f t.rows
  keys_nodup := by
    rw [map_updateWhere hf]
    exact t.keys_nodup

@[simp] theorem rows_update (t : Table ρ key) (p : ρ → Bool) (f : ρ → ρ)
    (hf : ∀ row, key (f row) = key row) :
    (t.update p f hf).rows = updateWhere p f t.rows := rfl

end Table

end Opca.Foundation
