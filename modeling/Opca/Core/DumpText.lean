/-
  Core/DumpText.lean --- the rows of a dump as text: each is read as what was written, and
  its statement ends where it should, unless a NUL character cuts it short.
-/
import Opca.Core.Dump

set_option autoImplicit false

namespace Opca.Core.Dump

open Opca.Foundation SqlText

section

variable {v : Value} {row : List Value} {rest text : List Char} {name : String}

/-! ## Values and rows -/

theorem readValue_formatValue (hfits : ∀ n, v = .integer n → -2 ^ 63 ≤ n ∧ n < 2 ^ 63)
    (hrest : Ends rest) : readValue (formatValue v ++ rest) = some (v, rest) := by
  cases v with
  | null => exact readValue_null
  | integer n =>
    obtain ⟨hlow, hhigh⟩ := hfits n rfl
    exact readValue_integer hlow hhigh hrest
  | text s =>
    rw [formatValue, List.cons_append, List.append_assoc]
    exact readValue_text hrest
  | blob bytes =>
    rw [formatValue, List.cons_append, List.cons_append, List.append_assoc]
    exact readValue_blob bytes hrest

theorem formatValue_ne_nil : formatValue v ≠ [] := by
  cases v with
  | null => decide
  | integer n => exact fun h => toString_ne_empty n (String.toList_eq_nil_iff.mp h)
  | text s => exact List.cons_ne_nil _ _
  | blob bytes => exact List.cons_ne_nil _ _

theorem length_formatRow : row.length ≤ (formatRow row).length := by
  induction row using formatRow.induct with
  | case1 => exact Nat.le_refl 0
  | case2 value =>
    rw [formatRow]
    exact List.length_pos_of_ne_nil formatValue_ne_nil
  | case3 value next row ih =>
    simp only [formatRow, List.length_append, List.length_cons] at ih ⊢
    omega

/-- A row that is written is read as it was. -/
theorem readRow_formatRow {fuel : Nat} (hne : row ≠ []) (hfuel : row.length ≤ fuel)
    (hfits : ∀ n, Value.integer n ∈ row → -2 ^ 63 ≤ n ∧ n < 2 ^ 63) :
    readRow fuel (formatRow row ++ [')']) = some row := by
  induction row using formatRow.induct generalizing fuel with
  | case1 => exact absurd rfl hne
  | case2 value =>
    obtain ⟨fuel, rfl⟩ : ∃ k, fuel = k + 1 := ⟨fuel - 1, by simp at hfuel; omega⟩
    rw [formatRow, readRow, readValue_formatValue (fun n h => hfits n (by simp [h]))
      ⟨')', [], rfl, Or.inr rfl⟩]
    rfl
  | case3 value next row ih =>
    obtain ⟨fuel, rfl⟩ : ∃ k, fuel = k + 1 := ⟨fuel - 1, by simp at hfuel; omega⟩
    have ih := @ih fuel (List.cons_ne_nil _ _) (by simpa using hfuel)
      fun n h => hfits n (List.mem_cons_of_mem _ h)
    rw [formatRow, List.append_assoc, List.cons_append, readRow,
      readValue_formatValue (fun n h => hfits n (by simp [h])) ⟨',', _, rfl, Or.inl rfl⟩]
    simp only [Option.bind_eq_bind, Option.bind_some, if_true]
    rw [ih]
    rfl

theorem readInsert_insertText (hname : doubleQuote ∉ name.toList) (hne : row ≠ [])
    (hfits : ∀ n, Value.integer n ∈ row → -2 ^ 63 ≤ n ∧ n < 2 ^ 63) :
    readInsert (insertText name row) = some (name, row) := by
  have hlength := @length_formatRow row
  have hexpect := expect_append ("INSERT INTO ".toList ++ [doubleQuote])
    (name.toList ++ doubleQuote :: (" VALUES(".toList ++ (formatRow row ++ [')'])))
  rw [List.append_assoc, List.singleton_append] at hexpect
  have hquoted := @readQuoted_doubled doubleQuote name.toList
    (" VALUES(".toList ++ (formatRow row ++ [')'])) (by simp [doubleQuote])
  rw [doubled_of_not_mem hname] at hquoted
  unfold readInsert insertText
  simp only [hexpect, hquoted, expect_append, Option.bind_eq_bind, Option.bind_some]
  rw [readRow_formatRow hne (by rw [List.length_append]; omega) hfits]
  simp

/-! ## Where statements end -/

theorem scan_formatValue (h : v.Clean) : scan none (formatValue v ++ rest) = scan none rest := by
  cases v with
  | null => exact scan_plain (by decide)
  | integer n =>
    exact scan_plain (List.all_eq_true.mpr fun c hc => plain_of_numeric (numeric_toString n c hc))
  | text s =>
    rw [formatValue, List.cons_append, List.append_assoc]
    exact scan_quoted (by decide) (by decide) (by decide) (h s rfl)
  | blob bytes =>
    have hnot (c : Char) (hc : c.isAlphanum = false) : c ∉ writeHex bytes := by
      intro hmem
      rw [isAlphanum_writeHex bytes c hmem] at hc
      cases hc
    rw [formatValue, List.cons_append, List.cons_append, List.append_assoc,
      scan_cons (by decide) (by decide)]
    have hquoted := @scan_quoted quote (writeHex bytes) rest (by decide) (by decide) (by decide)
      (hnot _ (by decide))
    rw [doubled_of_not_mem (hnot _ (by decide))] at hquoted
    exact hquoted

theorem scan_formatRow (h : ∀ v ∈ row, v.Clean) :
    scan none (formatRow row ++ rest) = scan none rest := by
  induction row using formatRow.induct with
  | case1 => rfl
  | case2 value => exact scan_formatValue (h value List.mem_cons_self)
  | case3 value next row ih =>
    rw [formatRow, List.append_assoc, scan_formatValue (h value List.mem_cons_self),
      List.cons_append, scan_cons (by decide) (by decide)]
    exact ih fun v hv => h v (List.mem_cons_of_mem _ hv)

/-- What stands before the values of a row. -/
theorem scan_insertText (hdouble : doubleQuote ∉ name.toList) (hnul : nul ∉ name.toList) :
    scan none (insertText name row) = scan none (formatRow row ++ [')']) := by
  have hquoted := @scan_quoted doubleQuote name.toList
    (" VALUES(".toList ++ (formatRow row ++ [')'])) (by decide) (by decide) (by decide) hnul
  rw [doubled_of_not_mem hdouble] at hquoted
  unfold insertText
  rw [scan_plain (by decide), hquoted, scan_plain (by decide)]

theorem firstWord_insertText : firstWord (insertText name row) = "INSERT".toList := rfl

theorem whole_insertText (hdouble : doubleQuote ∉ name.toList) (hnul : nul ∉ name.toList)
    (h : ∀ v ∈ row, v.Clean) : Whole (insertText name row) where
  scan := by
    rw [scan_insertText hdouble hnul, scan_formatRow h]
    rfl
  starts := rfl

/-- A row with a NUL character in a text is cut short within quotes. -/
theorem exists_broken (h : ¬∀ v ∈ row, v.Clean) : ∃ cs more,
    formatRow row = cs ++ nul :: more ∧ scan none cs = some (some quote) := by
  have hfirst {s : String} {tail : List Char} (hs : nul ∈ s.toList) : ∃ cs more,
      formatValue (.text s) ++ tail = cs ++ nul :: more ∧
        scan none cs = some (some quote) := by
    obtain ⟨before, after, hsplit, hbefore⟩ := List.eq_append_cons_of_mem hs
    refine ⟨quote :: doubled quote before, doubled quote after ++ quote :: tail, ?_, ?_⟩
    · rw [formatValue, hsplit]
      simp [doubled, quote, nul]
    · rw [scan_cons (by decide) (by decide)]
      exact scan_doubled (by decide) (by decide) (by decide) hbefore
  induction row using formatRow.induct with
  | case1 => exact absurd (fun v hv => by cases hv) h
  | case2 value =>
    have hdirty : ¬value.Clean := fun hclean => h fun v hv => by
      rw [List.mem_singleton.mp hv]
      exact hclean
    unfold Value.Clean at hdirty
    simp only [not_forall, not_not] at hdirty
    obtain ⟨s, rfl, hs⟩ := hdirty
    obtain ⟨cs, more, hcs, hscan⟩ := @hfirst s [] hs
    rw [List.append_nil] at hcs
    exact ⟨cs, more, hcs, hscan⟩
  | case3 value next row ih =>
    by_cases hclean : value.Clean
    · obtain ⟨cs, more, hcs, hscan⟩ := ih fun hall => h (List.forall_mem_cons.mpr ⟨hclean, hall⟩)
      refine ⟨formatValue value ++ ',' :: cs, more, ?_, ?_⟩
      · rw [formatRow, hcs, List.append_assoc, List.cons_append]
      · rw [scan_formatValue hclean, scan_cons (by decide) (by decide)]
        exact hscan
    · unfold Value.Clean at hclean
      simp only [not_forall, not_not] at hclean
      obtain ⟨s, rfl, hs⟩ := hclean
      exact hfirst hs

theorem broken_insertText (hdouble : doubleQuote ∉ name.toList) (hnul : nul ∉ name.toList)
    (h : ¬∀ v ∈ row, v.Clean) : Broken (insertText name row) := by
  obtain ⟨cs, more, hrow, hscan⟩ := exists_broken h
  have hquoted := @scan_quoted doubleQuote name.toList (" VALUES(".toList ++ cs)
    (by decide) (by decide) (by decide) hnul
  rw [doubled_of_not_mem hdouble] at hquoted
  refine ⟨"INSERT INTO ".toList ++ doubleQuote :: (name.toList ++ doubleQuote ::
    (" VALUES(".toList ++ cs)), quote, more ++ [')'], ?_, ?_, rfl⟩
  · unfold insertText
    rw [hrow]
    simp
  · rw [scan_plain (by decide), hquoted, scan_plain (by decide), hscan]

end

end Opca.Core.Dump
