/-
  Foundation/Titled.lean --- items that are looked up by titles which more than one of
  them may have: a title finds an item only if it names no other.
-/
import Opca.Foundation.Table

set_option autoImplicit false

namespace Opca.Foundation

variable {α : Type}

/-- An item, with the identity that it keeps when its title changes. -/
structure Item (α : Type) where
  id : Int
  title : String
  content : α
  deriving DecidableEq, Repr

/-- Items, no two of the same identity. -/
abbrev Items (α : Type) := Table (Item α) Item.id

namespace Items

/-- The items of a title. -/
def named (items : Items α) (title : String) : List (Item α) :=
  items.rows.filter (·.title = title)

/-- The item that a title names; none if it names several. -/
def find (items : Items α) (title : String) : Option (Item α) :=
  match items.named title with
  | [item] => some item
  | _ => none

/-- Makes an item, whatever others have its title. -/
def create (items : Items α) (title : String) (content : α) : Items α :=
  items.insert (fun id => ⟨id, title, content⟩) fun _ => rfl

/-- Takes an item away. -/
def remove (items : Items α) (id : Int) : Items α where
  rows := items.rows.filter (·.id ≠ id)
  keys_nodup := items.keys_nodup.sublist (List.filter_sublist.map _)

/-- Changes an item in place. -/
def edit (items : Items α) (id : Int) (title : String → String) (content : α → α) : Items α :=
  items.update (·.id = id) (fun item => ⟨item.id, title item.title, content item.content⟩)
    fun _ => rfl

variable {items : Items α} {title : String} {item : Item α} {content : α}

theorem mem_named : item ∈ items.named title ↔ item ∈ items.rows ∧ item.title = title := by
  unfold named
  rw [List.mem_filter, decide_eq_true_eq]

theorem find_eq_some : items.find title = some item ↔ items.named title = [item] := by
  unfold find
  split
  next found heq => simp [heq]
  next hother =>
    constructor
    · intro h
      cases h
    · intro h
      exact absurd h (hother item)

/-- A title that one item has. -/
theorem named_eq_singleton : items.named title = [item] ↔ item ∈ items.rows ∧
    item.title = title ∧ ∀ other ∈ items.rows, other.title = title → other = item := by
  constructor
  · intro h
    have hmem : item ∈ items.named title := by
      rw [h]
      exact List.mem_singleton_self item
    refine ⟨(mem_named.mp hmem).1, (mem_named.mp hmem).2, fun other hother htitle => ?_⟩
    have hother' := mem_named.mpr ⟨hother, htitle⟩
    rw [h] at hother'
    exact List.mem_singleton.mp hother'
  · rintro ⟨hmem, htitle, honly⟩
    have hnodup : (items.named title).Nodup := items.keys_nodup.of_map.filter _
    have hall : ∀ other ∈ items.named title, other = item := fun other hother =>
      honly other (mem_named.mp hother).1 (mem_named.mp hother).2
    have hitem := mem_named.mpr ⟨hmem, htitle⟩
    cases hlist : items.named title with
    | nil =>
      rw [hlist] at hitem
      cases hitem
    | cons first rest =>
      rw [hlist] at hnodup hall
      rw [hall first List.mem_cons_self] at hnodup ⊢
      cases rest with
      | nil => rfl
      | cons second rest =>
        have hsecond := hall second (List.mem_cons_of_mem _ List.mem_cons_self)
        rw [hsecond] at hnodup
        exact absurd List.mem_cons_self (List.nodup_cons.mp hnodup).1

theorem mem_of_find (h : items.find title = some item) :
    item ∈ items.rows ∧ item.title = title := by
  refine mem_named.mp ?_
  rw [find_eq_some.mp h]
  exact List.mem_singleton_self item

/-- A title that finds an item names no other. -/
theorem eq_of_find {other : Item α} (h : items.find title = some item)
    (hother : other ∈ items.rows) (htitle : other.title = title) : other = item := by
  have hmem := mem_named.mpr ⟨hother, htitle⟩
  rw [find_eq_some.mp h] at hmem
  exact List.mem_singleton.mp hmem

theorem mem_create {other : Item α} (h : other ∈ items.rows) :
    other ∈ (items.create title content).rows :=
  List.mem_append_left _ h

/-- A new item is of its own title alone. -/
theorem named_create_of_ne {other : String} (h : other ≠ title) :
    (items.create other content).named title = items.named title := by
  unfold named create
  rw [Table.rows_insert, List.filter_append]
  simp [h]

/-- A title that named nothing finds the new item. -/
theorem named_create (h : items.named title = []) :
    ∃ item, (items.create title content).named title = [item] ∧ item.content = content := by
  refine ⟨⟨nextKey Item.id items.rows, title, content⟩, ?_, rfl⟩
  unfold named create
  rw [Table.rows_insert, List.filter_append]
  rw [named] at h
  rw [h]
  simp

/-- A new item of a title that named nothing gives no title a second item. -/
theorem length_named_create {other : String} (hfree : items.named title = [])
    (h : (items.named other).length ≤ 1) :
    ((items.create title content).named other).length ≤ 1 := by
  by_cases heq : title = other
  · subst heq
    obtain ⟨item, hnamed, -⟩ := @named_create _ _ _ content hfree
    rw [hnamed]
    exact Nat.le_refl 1
  · rw [named_create_of_ne heq]
    exact h

/-- Taking the only item of a title away leaves none of the title. -/
theorem named_remove (h : items.named title = [item]) :
    (items.remove item.id).named title = [] := by
  unfold named remove
  rw [List.filter_filter, List.filter_eq_nil_iff]
  intro other hother
  have hcase : other.title = title → other = item := by
    intro htitle
    have hmem := mem_named.mpr ⟨hother, htitle⟩
    rw [h] at hmem
    exact List.mem_singleton.mp hmem
  simp only [Bool.and_eq_true, decide_eq_true_eq, not_and]
  intro htitle hid
  exact hid (congrArg Item.id (hcase htitle))

/-- Taking an item away is nothing to a title that it does not have. -/
theorem named_remove_of_ne (h : item ∈ items.rows) (hne : item.title ≠ title) :
    (items.remove item.id).named title = items.named title := by
  unfold named remove
  rw [List.filter_filter]
  refine List.filter_congr fun other hother => ?_
  by_cases htitle : other.title = title
  · have hid : other.id ≠ item.id := by
      intro hid
      rw [Table.eq_of_key hother h hid] at htitle
      exact hne htitle
    simp [htitle, hid]
  · simp [htitle]

/-- Nor is changing it, if it does not come to have the title. -/
theorem named_edit_of_ne {retitle : String → String} {change : α → α} (h : item ∈ items.rows)
    (hne : item.title ≠ title) (hnew : retitle item.title ≠ title) :
    (items.edit item.id retitle change).named title = items.named title := by
  unfold named edit
  rw [Table.rows_update, updateWhere, List.filter_map]
  have hcond (other : Item α) (hother : other ∈ items.rows) :
      (decide ((if other.id = item.id then
          (⟨other.id, retitle other.title, change other.content⟩ : Item α)
        else other).title = title)) = decide (other.title = title) := by
    by_cases hid : other.id = item.id
    · rw [if_pos hid, Table.eq_of_key hother h hid]
      simp [hne, hnew]
    · rw [if_neg hid]
  have hfilter := List.filter_congr hcond
  simp only [Function.comp_def, decide_eq_true_eq]
  rw [hfilter]
  refine List.map_congr_left (fun other hother => ?_) |>.trans (List.map_id _)
  obtain ⟨hother, htitle⟩ := List.mem_filter.mp hother
  have hid : other.id ≠ item.id := by
    intro hid
    rw [Table.eq_of_key hother h hid] at htitle
    exact hne (of_decide_eq_true htitle)
  rw [if_neg hid]
  rfl

/-- The only item that comes to have a title is found by it. -/
theorem named_edit {retitle : String → String} {change : α → α} (h : item ∈ items.rows)
    (hnew : retitle item.title = title)
    (hothers : ∀ other ∈ items.rows, other.title = title → other = item) :
    (items.edit item.id retitle change).named title =
      [⟨item.id, title, change item.content⟩] := by
  refine named_eq_singleton.mpr ⟨?_, rfl, ?_⟩
  · refine mem_updateWhere.mpr ⟨item, h, ?_⟩
    rw [if_pos (decide_eq_true rfl), hnew]
  · intro other hother htitle
    obtain ⟨old, hold, rfl⟩ := mem_updateWhere.mp hother
    by_cases hid : old.id = item.id
    · rw [if_pos (decide_eq_true hid), Table.eq_of_key hold h hid, hnew]
    · have hkept : ¬ decide (old.id = item.id) = true := by simpa using hid
      rw [if_neg hkept] at htitle
      exact absurd (congrArg Item.id (hothers old hold htitle)) hid

theorem find_eq_none_of_named (h : items.named title = []) : items.find title = none := by
  unfold find
  rw [h]

/-- The item that is made. -/
theorem exists_create :
    ∃ item ∈ (items.create title content).rows, item.title = title ∧ item.content = content :=
  ⟨_, List.mem_append_right _ (List.mem_singleton_self _), rfl, rfl⟩

end Items

end Opca.Foundation
