/-
  Foundation/Portion.lean --- changes of a table that stay within a part of it: no row is
  lost, what a row keeps for good it keeps, and rows outside the part are as they were.
-/
import Opca.Foundation.Table

set_option autoImplicit false

namespace Opca.Foundation

variable {ρ : Type}

/-- A row of an update came of one that is the same in the columns that this leaves. -/
theorem exists_of_mem_updateWhere {β : Type} (column : ρ → β) {p : ρ → Bool} {f : ρ → ρ}
    {rows : List ρ} {row : ρ} (h : row ∈ updateWhere p f rows)
    (hf : ∀ row, column (f row) = column row) : ∃ old ∈ rows, column old = column row := by
  have hmem : column row ∈ (updateWhere p f rows).map column := List.mem_map_of_mem h
  rw [map_updateWhere hf] at hmem
  exact List.mem_map.mp hmem

/-- `rows'` came of `rows` by changes to the rows that are `mine` and by new rows that
are, a row always keeping what `keeps` says. -/
structure Portion (key : ρ → Int) (keeps : ρ → ρ → Prop) (mine : ρ → Prop)
    (rows rows' : List ρ) : Prop where
  kept : ∀ row ∈ rows, ∃ row' ∈ rows', key row' = key row ∧ keeps row row' ∧
    (mine row' ∨ row' = row)
  fresh : ∀ row' ∈ rows', (∃ row ∈ rows, key row = key row') ∨ mine row'

namespace Portion

variable {key : ρ → Int} {keeps : ρ → ρ → Prop} {mine other : ρ → Prop}
  {rows rows' rows'' : List ρ}

theorem refl (hkeeps : ∀ row, keeps row row) (rows : List ρ) :
    Portion key keeps mine rows rows where
  kept row hrow := ⟨row, hrow, rfl, hkeeps row, .inr rfl⟩
  fresh row hrow := .inl ⟨row, hrow, rfl⟩

theorem mono (h : Portion key keeps mine rows rows') (hmine : ∀ row ∈ rows', mine row → other row) :
    Portion key keeps other rows rows' where
  kept row hrow := by
    obtain ⟨row', hrow', hkey, hkeep, hchanged⟩ := h.kept row hrow
    exact ⟨row', hrow', hkey, hkeep, hchanged.imp_left (hmine row' hrow')⟩
  fresh row' hrow' := (h.fresh row' hrow').imp_right (hmine row' hrow')

/-- A row of the first is found in the last through the one between. -/
theorem trans (hkeeps : ∀ a b c, keeps a b → keeps b c → keeps a c)
    (hnodup : (rows''.map key).Nodup) (h : Portion key keeps mine rows rows')
    (h' : Portion key keeps mine rows' rows'') : Portion key keeps mine rows rows'' where
  kept row hrow := by
    obtain ⟨row', hrow', hkey, hkeep, hchanged⟩ := h.kept row hrow
    obtain ⟨row'', hrow'', hkey', hkeep', hchanged'⟩ := h'.kept row' hrow'
    refine ⟨row'', hrow'', hkey'.trans hkey, hkeeps row row' row'' hkeep hkeep', ?_⟩
    rcases hchanged' with hmine | rfl
    · exact .inl hmine
    · exact hchanged
  fresh row'' hrow'' := by
    rcases h'.fresh row'' hrow'' with ⟨row', hrow', hkey⟩ | hmine
    · rcases h.fresh row' hrow' with ⟨row, hrow, hkey'⟩ | hmine
      · exact .inl ⟨row, hrow, hkey'.trans hkey⟩
      · obtain ⟨last, hlast, hkey', -, hchanged⟩ := h'.kept row' hrow'
        have hsame : last = row'' :=
          List.inj_on_of_nodup_map hnodup hlast hrow'' (hkey'.trans hkey)
        rw [hsame] at hchanged
        rcases hchanged with hmine' | rfl
        · exact .inr hmine'
        · exact .inr hmine
    · exact .inr hmine

theorem update {p : ρ → Bool} {f : ρ → ρ} (hkeeps : ∀ row, keeps row row)
    (hkey : ∀ row, key (f row) = key row) (hf : ∀ row, keeps row (f row))
    (hp : ∀ row ∈ rows, p row = true → mine (f row)) :
    Portion key keeps mine rows (updateWhere p f rows) where
  kept row hrow := by
    cases hpass : p row with
    | true =>
      exact ⟨f row, mem_updateWhere_of hrow hpass, hkey row, hf row, .inl (hp row hrow hpass)⟩
    | false => exact ⟨row, mem_updateWhere_of_not hrow hpass, rfl, hkeeps row, .inr rfl⟩
  fresh row' hrow' := by
    obtain ⟨row, hrow, rfl⟩ := mem_updateWhere.mp hrow'
    refine .inl ⟨row, hrow, ?_⟩
    split
    · exact (hkey row).symm
    · rfl

theorem append (hkeeps : ∀ row, keeps row row) {row : ρ} (hmine : mine row) :
    Portion key keeps mine rows (rows ++ [row]) where
  kept old hold := ⟨old, List.mem_append_left _ hold, rfl, hkeeps old, .inr rfl⟩
  fresh row' hrow' := by
    rcases List.mem_append.mp hrow' with hold | hnew
    · exact .inl ⟨row', hold, rfl⟩
    · rw [List.mem_singleton.mp hnew]
      exact .inr hmine

/-- A row that is no one's to change is still there. -/
theorem mem_of_mem {row : ρ} (h : Portion key keeps mine rows rows') (hrow : row ∈ rows)
    (hnot : ∀ row', keeps row row' → key row' = key row → ¬ mine row') : row ∈ rows' := by
  obtain ⟨row', hrow', hkey, hkeep, hmine | rfl⟩ := h.kept row hrow
  · exact absurd hmine (hnot row' hkeep hkey)
  · exact hrow'

/-- One that is there and not of the part was there. -/
theorem mem_of_mem_after {row : ρ} (h : Portion key keeps mine rows rows')
    (hnodup : (rows'.map key).Nodup) (hrow : row ∈ rows') (hnot : ¬ mine row) :
    row ∈ rows := by
  rcases h.fresh row hrow with ⟨old, hold, hkey⟩ | hmine
  · obtain ⟨last, hlast, hkey', -, hchanged⟩ := h.kept old hold
    have hsame : last = row :=
      List.inj_on_of_nodup_map hnodup hlast hrow (hkey'.trans hkey)
    rw [hsame] at hchanged
    rcases hchanged with hmine | rfl
    · exact absurd hmine hnot
    · exact hold
  · exact absurd hmine hnot

end Portion

end Opca.Foundation
