/-
  Foundation/Reread.lean --- things that are listed by their titles and then read again one
  by one: when what was read is what there is.
-/
import Mathlib.Data.List.Perm.Basic
import Mathlib.Data.List.Count

set_option autoImplicit false

namespace Opca.Foundation.Reread

variable {α β : Type} {title : α → String} {xs : List α} {asked : List String}
  {read : String → Option β} {image : α → β}

theorem count_map_title (t : String) :
    (xs.map title).count t = (xs.filter fun x => title x = t).length := by
  rw [List.count_eq_countP, List.countP_map, List.countP_eq_length_filter]
  congr 1

/-- What is left out bears other titles. -/
theorem filter_title_of_kept {kept : α → Bool} {t : String}
    (h : ∀ x ∈ xs, title x = t → kept x = true) :
    (xs.filter kept).filter (fun x => title x = t) = xs.filter fun x => title x = t := by
  rw [List.filter_filter]
  refine List.filter_congr fun x hx => ?_
  by_cases ht : title x = t
  · rw [h x hx ht, Bool.and_true]
  · rw [decide_eq_false ht, Bool.false_and]

/-- The titles that are asked for and are there, each asked for once. -/
theorem asked_perm
    (hcount : ∀ x ∈ xs, asked.count (title x) = 1 ∧ (xs.map title).count (title x) = 1) :
    (asked.filter fun t => decide (t ∈ xs.map title)).Perm (xs.map title) := by
  rw [List.perm_iff_count]
  intro t
  by_cases ht : t ∈ xs.map title
  · obtain ⟨x, hx, rfl⟩ := List.mem_map.mp ht
    obtain ⟨hone, hthere⟩ := hcount x hx
    have hkept : decide (title x ∈ xs.map title) = true := decide_eq_true ht
    rw [@List.count_filter _ _ _ (fun t => decide (t ∈ xs.map title)) _ _ hkept, hone, hthere]
  · rw [List.count_eq_zero_of_not_mem ht, List.count_eq_zero_of_not_mem]
    intro hmem
    exact ht (of_decide_eq_true (List.mem_filter.mp hmem).2)

/-- What is read, each thing read as itself, is what there is. -/
theorem perm_of_read (hasked : ∀ x ∈ xs, title x ∈ asked)
    (hthere : ∀ t ∈ asked, (read t).isSome = true → ∃ x, xs.filter (fun x => title x = t) = [x])
    (hcount : ∀ t x, xs.filter (fun x => title x = t) = [x] → asked.count t = 1)
    (hread : ∀ x ∈ xs, read (title x) = some (image x)) :
    (asked.filterMap read).Perm (xs.map image) := by
  have hone (x : α) (hx : x ∈ xs) : ∃ y, xs.filter (fun y => title y = title x) = [y] :=
    hthere _ (hasked x hx) (by rw [hread x hx]; rfl)
  have hperm := asked_perm fun x hx => by
    obtain ⟨y, hy⟩ := hone x hx
    refine ⟨hcount _ y hy, ?_⟩
    rw [count_map_title, hy]
    rfl
  have hfilter : asked.filterMap read =
      (asked.filter fun t => decide (t ∈ xs.map title)).filterMap read := by
    rw [List.filterMap_filter]
    refine List.filterMap_congr fun t ht => ?_
    split
    · rfl
    next hnot =>
      cases hsome : read t with
      | none => rfl
      | some b =>
        obtain ⟨x, hx⟩ := hthere t ht (by rw [hsome]; rfl)
        have hmem : x ∈ xs.filter (fun x => title x = t) := hx ▸ List.mem_singleton_self x
        obtain ⟨hxs, heq⟩ := List.mem_filter.mp hmem
        have ht' : t ∈ xs.map title := List.mem_map.mpr ⟨x, hxs, of_decide_eq_true heq⟩
        exact absurd (decide_eq_true ht') hnot
  have hmap : (xs.map title).filterMap read = xs.map image := by
    rw [List.filterMap_map]
    refine (List.filterMap_congr fun x hx => hread x hx).trans ?_
    exact congrFun List.filterMap_eq_map' xs
  rw [hfilter, ← hmap]
  exact hperm.filterMap read

/-- What is read is what there is just when each thing is read as itself, where what is read
of a title bears it. -/
theorem perm_iff_read {γ : Type} {read : String → Option (String × γ)} {content : α → γ}
    (hasked : ∀ x ∈ xs, title x ∈ asked)
    (hthere : ∀ t ∈ asked, (read t).isSome = true → ∃ x, xs.filter (fun x => title x = t) = [x])
    (hcount : ∀ t x, xs.filter (fun x => title x = t) = [x] → asked.count t = 1)
    (htitle : ∀ t b, read t = some b → b.1 = t) :
    (asked.filterMap read).Perm (xs.map fun x => (title x, content x)) ↔
      ∀ x ∈ xs, read (title x) = some (title x, content x) := by
  refine ⟨fun hperm x hx => ?_, perm_of_read hasked hthere hcount⟩
  have hmem : (title x, content x) ∈ asked.filterMap read :=
    hperm.symm.subset (List.mem_map_of_mem hx)
  obtain ⟨t, -, hread⟩ := List.mem_filterMap.mp hmem
  have ht := htitle t _ hread
  rwa [← ht] at hread

end Opca.Foundation.Reread
