/-
  Foundation/Feed.lean --- change feeds: rows that take rising change numbers, pages
  of what changed since a cursor, and the copies kept up to date with them.

  Rows are sets and copies are functions here; a table and its statements are
  instances of them.
-/
import Opca.Foundation.Fallible
import Mathlib.Data.Set.Function
import Mathlib.Order.MinMax

set_option autoImplicit false

namespace Opca.Foundation

/-! ## The last of a kind -/

section Latest

variable {ρ κ : Type} [DecidableEq κ] {key : ρ → κ}

/-- The last of some rows with a key. -/
def latest (key : ρ → κ) (k : κ) (rows : List ρ) : Option ρ :=
  (rows.filter (key · = k)).getLast?

@[simp] theorem latest_nil (k : κ) : latest key k [] = none := rfl

theorem latest_append (k : κ) (xs ys : List ρ) :
    latest key k (xs ++ ys) = (latest key k ys).or (latest key k xs) := by
  unfold latest
  rw [List.filter_append, List.getLast?_append]

theorem latest_eq_some {k : κ} {rows : List ρ} {row : ρ} (h : latest key k rows = some row) :
    row ∈ rows ∧ key row = k := by
  have hmem := List.mem_of_getLast? h
  simpa using List.mem_filter.mp hmem

theorem latest_eq_none {k : κ} {rows : List ρ} (h : ∀ row ∈ rows, key row ≠ k) :
    latest key k rows = none := by
  unfold latest
  rw [List.getLast?_eq_none_iff, List.filter_eq_nil_iff]
  intro row hrow
  simpa using h row hrow

theorem latest_cons (k : κ) (row : ρ) (rows : List ρ) :
    latest key k (row :: rows) =
      (latest key k rows).or (if key row = k then some row else none) := by
  have happend : latest key k ([row] ++ rows) =
      (latest key k rows).or (latest key k [row]) := latest_append k [row] rows
  rw [List.singleton_append] at happend
  rw [happend]
  congr 1
  unfold latest
  by_cases hrow : key row = k
  · simp [hrow]
  · simp [hrow]

theorem latest_map {β : Type} {key' : β → κ} {f : ρ → β} (hkey : ∀ row, key' (f row) = key row)
    (k : κ) (rows : List ρ) : latest key' k (rows.map f) = (latest key k rows).map f := by
  unfold latest
  rw [List.filter_map, List.getLast?_map]
  congr 2
  refine List.filter_congr ?_
  intro row _
  simp [hkey]

/-- The last of what some rows are turned into comes of the last of them. -/
theorem latest_mapM {ε β κ' : Type} [DecidableEq κ'] {key' : β → κ'} {k : κ} {k' : κ'}
    {f : ρ → Except ε β} (hkey : ∀ row y, f row = .ok y → (key' y = k' ↔ key row = k)) :
    ∀ {rows : List ρ} {ys : List β}, rows.mapM f = .ok ys →
      (latest key' k' ys).map Except.ok = (latest key k rows).map f
  | [], ys, h => by
      rw [List.mapM_nil] at h
      cases h
      rfl
  | row :: rows, ys, h => by
      rw [List.mapM_cons] at h
      obtain ⟨y, hy, h⟩ := bind_eq_ok.mp h
      obtain ⟨ys, hys, h⟩ := bind_eq_ok.mp h
      cases h
      have ih := latest_mapM hkey hys
      rw [latest_cons, latest_cons, Option.map_or, Option.map_or, ih]
      congr 1
      by_cases hrow : key row = k
      · rw [if_pos hrow, if_pos ((hkey row y hy).mpr hrow), Option.map_some, Option.map_some, hy]
      · rw [if_neg hrow, if_neg fun hy' => hrow ((hkey row y hy).mp hy')]
        rfl

/-- The only row with its key is the last. -/
theorem latest_eq_self {rows : List ρ} {row : ρ} (hrow : row ∈ rows)
    (honly : ∀ other ∈ rows, key other = key row → other = row) :
    latest key (key row) rows = some row := by
  cases hlast : latest key (key row) rows with
  | none =>
    have hnil := List.filter_eq_nil_iff.mp (List.getLast?_eq_none_iff.mp hlast)
    exact absurd (hnil row hrow) (by simp)
  | some other =>
    obtain ⟨hmem, hkey⟩ := latest_eq_some hlast
    rw [honly other hmem hkey]

end Latest

/-! ## Feeds -/

variable {ρ κ γ : Type} [LinearOrder γ]

/-- Some rows, and the last change number taken, for one of them or for another. -/
structure Feed (ρ γ : Type) where
  rows : Set ρ
  top : γ

namespace Feed

/-- Every row has a key of its own and a change that was taken. -/
structure Sound (key : ρ → κ) (change : ρ → γ) (f : Feed ρ γ) : Prop where
  keys : Set.InjOn key f.rows
  taken : ∀ row ∈ f.rows, change row ≤ f.top

/-- What a commit does: a row takes the next change and the place of any other with
its key that may become it, or the change is one of rows outside the feed. -/
inductive Advance (key : ρ → κ) (change : ρ → γ) (becomes : ρ → ρ → Prop) (f : Feed ρ γ) :
    Feed ρ γ → Prop
  | put (new : ρ) (hnew : f.top < change new)
      (hbecomes : ∀ row ∈ f.rows, key row = key new → becomes row new) :
      Advance key change becomes f
        ⟨{row | row = new ∨ row ∈ f.rows ∧ key row ≠ key new}, change new⟩
  | outside {top : γ} (htop : f.top ≤ top) : Advance key change becomes f ⟨f.rows, top⟩

variable {key : ρ → κ} {change : ρ → γ} {becomes : ρ → ρ → Prop} {f g : Feed ρ γ}

theorem Advance.le_top (h : Advance key change becomes f g) : f.top ≤ g.top := by
  cases h with
  | put new hnew hbecomes => exact hnew.le
  | outside htop => exact htop

/-- A row that a commit leaves or makes: it was there, or its change is new. -/
theorem Advance.mem (h : Advance key change becomes f g) {row : ρ} (hrow : row ∈ g.rows) :
    row ∈ f.rows ∨ f.top < change row := by
  cases h with
  | put new hnew hbecomes =>
    rcases hrow with rfl | ⟨hold, -⟩
    · exact Or.inr hnew
    · exact Or.inl hold
  | outside htop => exact Or.inl hrow

theorem Sound.advance (hf : f.Sound key change) (h : Advance key change becomes f g) :
    g.Sound key change := by
  cases h with
  | put new hnew hbecomes =>
    refine ⟨?_, ?_⟩
    · intro a ha b hb heq
      rcases ha with rfl | ⟨ha, hakey⟩
      · rcases hb with rfl | ⟨hb, hbkey⟩
        · rfl
        · exact absurd heq.symm hbkey
      · rcases hb with rfl | ⟨hb, hbkey⟩
        · exact absurd heq hakey
        · exact hf.keys ha hb heq
    · rintro row (rfl | ⟨hold, -⟩)
      · exact le_refl _
      · exact (hf.taken row hold).trans hnew.le
  | outside htop => exact ⟨hf.keys, fun row hrow => (hf.taken row hrow).trans htop⟩

/-! ## Versions -/

/-- `v` is a row of the feed as it is, or as it was before it became that. -/
def Version (key : ρ → κ) (change : ρ → γ) (becomes : ρ → ρ → Prop) (f : Feed ρ γ)
    (v : ρ) : Prop :=
  ∃ row ∈ f.rows, key row = key v ∧ (row = v ∨ change v < change row ∧ becomes v row)

theorem Version.of_mem {row : ρ} (h : row ∈ f.rows) : Version key change becomes f row :=
  ⟨row, h, rfl, Or.inl rfl⟩

theorem Version.advance [IsTrans ρ becomes] (hf : f.Sound key change) {v : ρ}
    (hv : Version key change becomes f v) (h : Advance key change becomes f g) :
    Version key change becomes g v := by
  obtain ⟨row, hrow, hkey, hchange⟩ := hv
  cases h with
  | put new hnew hbecomes =>
    by_cases hsame : key row = key new
    · have hlt : change row < change new := (hf.taken row hrow).trans_lt hnew
      have hnext : becomes row new := hbecomes row hrow hsame
      refine ⟨new, Or.inl rfl, hsame.symm.trans hkey, Or.inr ?_⟩
      rcases hchange with rfl | ⟨hless, hold⟩
      · exact ⟨hlt, hnext⟩
      · exact ⟨hless.trans hlt, IsTrans.trans _ _ _ hold hnext⟩
    · exact ⟨row, Or.inr ⟨hrow, hsame⟩, hkey, hchange⟩
  | outside htop => exact ⟨row, hrow, hkey, hchange⟩

/-- A version is its row or has become it. -/
theorem Version.of_key (hf : f.Sound key change) {v row : ρ}
    (hv : Version key change becomes f v) (hrow : row ∈ f.rows) (hkey : key row = key v) :
    row = v ∨ change v < change row ∧ becomes v row := by
  obtain ⟨current, hcurrent, hckey, hchange⟩ := hv
  have hsame : current = row := hf.keys hcurrent hrow (hckey.trans hkey.symm)
  rw [← hsame]
  exact hchange

/-- No version of a row is newer than the row. -/
theorem Version.change_le (hf : f.Sound key change) {v row : ρ}
    (hv : Version key change becomes f v) (hrow : row ∈ f.rows) (hkey : key row = key v) :
    change v ≤ change row := by
  rcases hv.of_key hf hrow hkey with rfl | ⟨hlt, -⟩
  · exact le_refl _
  · exact hlt.le

/-! ## Copies -/

variable {β : Type}

/-- A copy holds the content of every row that has not changed since `cursor`, a
change that was taken. -/
structure Mirrors (key : ρ → κ) (change : ρ → γ) (content : ρ → β) (f : Feed ρ γ)
    (held : κ → Option β) (cursor : γ) : Prop where
  le_top : cursor ≤ f.top
  held : ∀ row ∈ f.rows, change row ≤ cursor → held (key row) = some (content row)

variable {content : ρ → β} {held : κ → Option β} {cursor : γ}

theorem Mirrors.advance (hm : Mirrors key change content f held cursor)
    (h : Advance key change becomes f g) : Mirrors key change content g held cursor := by
  refine ⟨hm.le_top.trans h.le_top, ?_⟩
  intro row hrow hle
  rcases h.mem hrow with hold | hnew
  · exact hm.held row hold hle
  · exact absurd (hle.trans hm.le_top) (not_le.mpr hnew)

/-! ## Reading by pages -/

variable [DecidableEq κ]

omit [DecidableEq κ] in
/-- The first rows of some that are sorted by change are those up to the last of them. -/
theorem mem_take_of_sorted {rows : List ρ}
    (hsorted : rows.Pairwise fun a b => change a < change b) {n : Nat} {last : ρ}
    (hlast : (rows.take n).getLast? = some last) (row : ρ) :
    row ∈ rows.take n ↔ row ∈ rows ∧ change row ≤ change last := by
  obtain ⟨init, hinit⟩ := List.getLast?_eq_some_iff.mp hlast
  have hsplit : rows = init ++ [last] ++ rows.drop n := by
    rw [← hinit, List.take_append_drop]
  rw [hsplit, List.pairwise_append] at hsorted
  obtain ⟨htaken, -, hrest⟩ := hsorted
  constructor
  · intro hrow
    refine ⟨List.mem_of_mem_take hrow, ?_⟩
    rw [hinit] at hrow
    rcases List.mem_append.mp hrow with hrow | hrow
    · exact ((List.pairwise_append.mp htaken).2.2 row hrow last
        (List.mem_singleton_self last)).le
    · rw [List.mem_singleton.mp hrow]
  · rintro ⟨hrow, hle⟩
    rw [hsplit] at hrow
    rcases List.mem_append.mp hrow with hrow | hrow
    · rwa [hinit]
    · have hlt := hrest last (List.mem_append_right _ (List.mem_singleton_self last)) row hrow
      exact absurd hle (not_le.mpr hlt)

/-- What pages read from `start` on have collected when the last of them ended at
`after`, whatever was committed in between. -/
structure Collected (key : ρ → κ) (change : ρ → γ) (becomes : ρ → ρ → Prop) (f : Feed ρ γ)
    (start after : γ) (read : List ρ) : Prop where
  start_le : start ≤ after
  le_top : after ≤ f.top
  version : ∀ x ∈ read, Version key change becomes f x
  /-- In the order of their changes. -/
  sorted : read.Pairwise fun a b => change a < change b
  between : ∀ x ∈ read, start < change x ∧ change x ≤ after
  /-- Of each row that changed since `start`, as far as `after`, the last read is
  the newest. -/
  newest : ∀ row ∈ f.rows, start < change row → change row ≤ after →
    latest key (key row) read = some row

variable {start after : γ} {read : List ρ}

theorem Collected.nil (h : start ≤ f.top) : Collected key change becomes f start start [] := by
  refine ⟨le_refl _, h, ?_, .nil, ?_, ?_⟩
  · intro x hx
    cases hx
  · intro x hx
    cases hx
  · intro row _ hlt hle
    exact absurd hle (not_le.mpr hlt)

theorem Collected.advance [IsTrans ρ becomes] (hc : Collected key change becomes f start after read)
    (hf : f.Sound key change) (h : Advance key change becomes f g) :
    Collected key change becomes g start after read := by
  refine { hc with le_top := hc.le_top.trans h.le_top, version := ?_, newest := ?_ }
  · intro x hx
    exact (hc.version x hx).advance hf h
  · intro row hrow hlt hle
    rcases h.mem hrow with hold | hnew
    · exact hc.newest row hold hlt hle
    · -- a new change is past everything read
      exact absurd (hle.trans hc.le_top) (not_le.mpr hnew)

/-- A page holds what changed after `after`, as far as `next`. -/
theorem Collected.page (hc : Collected key change becomes f start after read)
    (hf : f.Sound key change) {next : γ} {page : List ρ} (hle : after ≤ next)
    (htop : next ≤ f.top) (hsorted : page.Pairwise fun a b => change a < change b)
    (hpage : ∀ row, row ∈ page ↔ row ∈ f.rows ∧ after < change row ∧ change row ≤ next) :
    Collected key change becomes f start next (read ++ page) := by
  refine ⟨hc.start_le.trans hle, htop, ?_, ?_, ?_, ?_⟩
  · intro x hx
    rcases List.mem_append.mp hx with hx | hx
    · exact hc.version x hx
    · exact Version.of_mem ((hpage x).mp hx).1
  · refine List.pairwise_append.mpr ⟨hc.sorted, hsorted, ?_⟩
    intro x hx y hy
    exact (hc.between x hx).2.trans_lt ((hpage y).mp hy).2.1
  · intro x hx
    rcases List.mem_append.mp hx with hx | hx
    · obtain ⟨hlt, hxle⟩ := hc.between x hx
      exact ⟨hlt, hxle.trans hle⟩
    · obtain ⟨-, hlt, hxle⟩ := (hpage x).mp hx
      exact ⟨hc.start_le.trans_lt hlt, hxle⟩
  · intro row hrow hlt hrowle
    rw [latest_append]
    by_cases hread : change row ≤ after
    · have hnot : latest key (key row) page = none := by
        refine latest_eq_none ?_
        intro other hother hkey
        obtain ⟨hmem, hafter, -⟩ := (hpage other).mp hother
        rw [hf.keys hmem hrow hkey] at hafter
        exact absurd hread (not_le.mpr hafter)
      rw [hnot, Option.none_or]
      exact hc.newest row hrow hlt hread
    · have hmem : row ∈ page := (hpage row).mpr ⟨hrow, not_le.mp hread, hrowle⟩
      have hself : latest key (key row) page = some row := by
        refine latest_eq_self hmem ?_
        intro other hother hkey
        exact hf.keys ((hpage other).mp hother).1 hrow hkey
      rw [hself, Option.some_or]

/-! ## Recording what was read -/

/-- What a copy holds once some rows are recorded over it, each over the last. -/
def overlay (key : ρ → κ) (content : ρ → β) (held : κ → Option β) (read : List ρ) (k : κ) :
    Option β :=
  ((latest key k read).map content).or (held k)

/-- Recording what was read keeps the copy, and takes its cursor as far as the
reading went, if it started no later than the cursor and none of what it read is
older than what the copy holds. -/
theorem Mirrors.record (hm : Mirrors key change content f held cursor)
    (hc : Collected key change becomes f start after read) (hstart : start ≤ cursor)
    (hfresh : ∀ row ∈ f.rows, change row ≤ cursor → ∀ x, latest key (key row) read = some x →
      content x = content row)
    {cursor' : γ} (hcursor : cursor' ≤ max cursor after) :
    Mirrors key change content f (overlay key content held read) cursor' := by
  refine ⟨hcursor.trans (max_le hm.le_top hc.le_top), ?_⟩
  intro row hrow hle
  unfold overlay
  by_cases hold : change row ≤ cursor
  · cases hlast : latest key (key row) read with
    | none =>
      rw [Option.map_none, Option.none_or]
      exact hm.held row hrow hold
    | some x =>
      rw [Option.map_some, Option.some_or, hfresh row hrow hold x hlast]
  · have hlt : cursor < change row := not_le.mp hold
    have hread : change row ≤ after := by
      rcases le_max_iff.mp (hle.trans hcursor) with h | h
      · exact absurd h hold
      · exact h
    rw [hc.newest row hrow (hstart.trans_lt hlt) hread]
    rfl

/-- Nothing read from a cursor on is older than what the cursor covers. -/
theorem Collected.fresh (hc : Collected key change becomes f cursor after read)
    (hf : f.Sound key change) {row : ρ} (hrow : row ∈ f.rows) (hle : change row ≤ cursor)
    {x : ρ} (hx : latest key (key row) read = some x) : content x = content row := by
  obtain ⟨hmem, hkey⟩ := latest_eq_some hx
  have hlt := (hc.between x hmem).1
  exact absurd ((hc.version x hmem).change_le hf hrow hkey.symm)
    (not_le.mpr (hle.trans_lt hlt))

/-- The last read of a key is the newest read of it. -/
theorem Collected.le_latest (hc : Collected key change becomes f start after read) {k : κ}
    {x y : ρ} (hx : latest key k read = some x) (hy : y ∈ read) (hkey : key y = k) :
    change y ≤ change x := by
  have hsorted : (read.filter (key · = k)).Pairwise fun a b => change a < change b :=
    hc.sorted.filter _
  obtain ⟨init, hinit⟩ := List.getLast?_eq_some_iff.mp hx
  have hmem : y ∈ read.filter (key · = k) := List.mem_filter.mpr ⟨hy, decide_eq_true hkey⟩
  rw [hinit] at hmem hsorted
  rcases List.mem_append.mp hmem with hbefore | hlast
  · exact ((List.pairwise_append.mp hsorted).2.2 y hbefore x (List.mem_singleton_self x)).le
  · rw [List.mem_singleton.mp hlast]

end Feed

end Opca.Foundation
