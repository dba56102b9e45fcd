/-
  Foundation/Fallible.lean --- computations in `Except`: what a success says of
  the steps it is made of.
-/
import Mathlib.Data.List.Basic

set_option autoImplicit false

namespace Opca.Foundation

/-- A sequence of two steps succeeds when both do. -/
theorem bind_eq_ok {ε α β : Type} {x : Except ε α} {f : α → Except ε β} {b : β} :
    (x >>= f) = .ok b ↔ ∃ a, x = .ok a ∧ f a = .ok b := by
  cases x with
  | error e =>
    constructor
    · intro h
      cases h
    · rintro ⟨a, h, -⟩
      cases h
  | ok a =>
    constructor
    · intro h
      exact ⟨a, rfl, h⟩
    · rintro ⟨a', h, hf⟩
      cases h
      exact hf

theorem map_eq_ok {ε α β : Type} {x : Except ε α} {f : α → β} {b : β} :
    x.map f = .ok b ↔ ∃ a, x = .ok a ∧ f a = b := by
  cases x with
  | error e =>
    constructor
    · intro h
      cases h
    · rintro ⟨a, h, -⟩
      cases h
  | ok a =>
    constructor
    · intro h
      cases h
      exact ⟨a, rfl, rfl⟩
    · rintro ⟨a', h, rfl⟩
      cases h
      rfl

/-- What a fallible map yields, each of its values came of an input. -/
theorem exists_of_mem_mapM {ε α β : Type} {f : α → Except ε β} :
    ∀ {xs : List α} {ys : List β}, xs.mapM f = .ok ys →
      ∀ y ∈ ys, ∃ x ∈ xs, f x = .ok y
  | [], ys, h, y, hy => by
      rw [List.mapM_nil] at h
      cases h
      cases hy
  | x :: xs, ys, h, y, hy => by
      rw [List.mapM_cons] at h
      obtain ⟨z, hx, h⟩ := bind_eq_ok.mp h
      obtain ⟨zs, hxs, h⟩ := bind_eq_ok.mp h
      cases h
      rcases List.mem_cons.mp hy with rfl | hy
      · exact ⟨x, List.mem_cons_self, hx⟩
      · obtain ⟨x', hx', hfx'⟩ := exists_of_mem_mapM hxs y hy
        exact ⟨x', List.mem_cons_of_mem x hx', hfx'⟩

/-- Each input of a fallible map that succeeds yields one of its values. -/
theorem exists_of_mem_of_mapM {ε α β : Type} {f : α → Except ε β} :
    ∀ {xs : List α} {ys : List β}, xs.mapM f = .ok ys →
      ∀ x ∈ xs, ∃ y ∈ ys, f x = .ok y
  | [], ys, h, x, hx => by cases hx
  | z :: xs, ys, h, x, hx => by
      rw [List.mapM_cons] at h
      obtain ⟨y, hz, h⟩ := bind_eq_ok.mp h
      obtain ⟨zs, hxs, h⟩ := bind_eq_ok.mp h
      cases h
      rcases List.mem_cons.mp hx with rfl | hx
      · exact ⟨y, List.mem_cons_self, hz⟩
      · obtain ⟨y', hy', hfx⟩ := exists_of_mem_of_mapM hxs x hx
        exact ⟨y', List.mem_cons_of_mem y hy', hfx⟩

theorem bind_eq_error {ε α β : Type} {x : Except ε α} {f : α → Except ε β} {e : ε} :
    (x >>= f) = .error e ↔ x = .error e ∨ ∃ a, x = .ok a ∧ f a = .error e := by
  cases x with
  | error e' =>
    constructor
    · intro h
      cases h
      exact .inl rfl
    · rintro (h | ⟨a, h, -⟩)
      · cases h
        rfl
      · cases h
  | ok a =>
    constructor
    · exact fun h => .inr ⟨a, rfl, h⟩
    · rintro (h | ⟨a', h, hf⟩)
      · cases h
      · cases h
        exact hf

theorem mapError_eq_error {ε δ α : Type} {x : Except ε α} {f : ε → δ} {e : δ} :
    x.mapError f = .error e ↔ ∃ e', x = .error e' ∧ f e' = e := by
  cases x with
  | error e' =>
    constructor
    · intro h
      cases h
      exact ⟨e', rfl, rfl⟩
    · rintro ⟨e', h, rfl⟩
      cases h
      rfl
  | ok a =>
    constructor
    · intro h
      cases h
    · rintro ⟨e', h, -⟩
      cases h

/-- A fallible map that fails does so at one of its inputs. -/
theorem exists_of_mapM_error {ε α β : Type} {f : α → Except ε β} {xs : List α} {e : ε}
    (h : xs.mapM f = .error e) : ∃ x ∈ xs, f x = .error e := by
  induction xs with
  | nil =>
    rw [List.mapM_nil] at h
    cases h
  | cons x xs ih =>
    rw [List.mapM_cons] at h
    rcases bind_eq_error.mp h with hx | ⟨y, -, h⟩
    · exact ⟨x, List.mem_cons_self, hx⟩
    · rcases bind_eq_error.mp h with hxs | ⟨ys, -, h⟩
      · obtain ⟨x', hx', hfx'⟩ := ih hxs
        exact ⟨x', List.mem_cons_of_mem x hx', hfx'⟩
      · cases h

/-- A success that was computed. -/
theorem exists_of_isOk {ε α : Type} {x : Except ε α} (h : x.isOk = true) :
    ∃ a, x = .ok a := by
  cases x with
  | error e => cases h
  | ok a => exact ⟨a, rfl⟩

/-- A value that had to be there. -/
theorem elim_eq_ok {ε α : Type} {o : Option α} {e : ε} {a : α}
    (h : o.elim (.error e) .ok = (.ok a : Except ε α)) : o = some a := by
  cases o with
  | none => cases h
  | some b =>
    cases h
    rfl

theorem mapError_eq_ok {ε δ α : Type} {x : Except ε α} {f : ε → δ} {a : α} :
    x.mapError f = .ok a ↔ x = .ok a := by
  cases x with
  | error e =>
    constructor
    · intro h
      cases h
    · intro h
      cases h
  | ok b =>
    constructor
    · intro h
      cases h
      rfl
    · intro h
      cases h
      rfl

end Opca.Foundation
