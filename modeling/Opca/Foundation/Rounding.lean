/-
  Foundation/Rounding.lean --- a quotient rounded to a floating-point number and cut
  to an integer again: where it is the integer below, and where it is the next.
-/
import Mathlib.Algebra.Group.Nat.Even
import Mathlib.Data.Nat.Log

set_option autoImplicit false

namespace Opca.Foundation.Rounding

variable {x y precision : Nat}

/-- The integer nearest to `x / y`, of two the even one. -/
def nearest (x y : Nat) : Nat :=
  if 2 * (x % y) < y then x / y
  else if y < 2 * (x % y) then x / y + 1
  else x / y + x / y % 2

/-- What a unit is divided into, by a number of `precision + 1` bits near `x / y`. -/
def scale (precision x y : Nat) : Nat := 2 ^ (precision - Nat.log2 (x / y))

/-- `x / y` as a number of `precision + 1` bits, cut to an integer. -/
def floored (precision x y : Nat) : Nat :=
  nearest (x * scale precision x y) y / scale precision x y

/-- The quotient is nearer to the next integer than to any number below it. -/
def Blurred (precision x y : Nat) : Prop := 2 * ((y - x % y) * scale precision x y) ≤ y

instance : Decidable (Blurred precision x y) := inferInstanceAs (Decidable (_ ≤ _))

/-- Just below an even `n`, the nearest integer is `n` from half a unit on. -/
theorem nearest_of_gap {n gap : Nat} (hy : 0 < y) (hgap : 0 < gap) (hn : n % 2 = 0)
    (hx : x + gap = n * y) : nearest x y = n ↔ 2 * gap ≤ y := by
  have hlt : x / y < n := (Nat.div_lt_iff_lt_mul hy).mpr (by omega)
  have hmod := Nat.mod_lt x hy
  have hdiv := Nat.div_add_mod' x y
  unfold nearest
  generalize x / y = q at hlt hdiv ⊢
  generalize x % y = r at hmod hdiv ⊢
  rcases Nat.lt_or_ge (q + 1) n with hbelow | hlast
  · have hmul := Nat.mul_le_mul_right y (show q + 2 ≤ n by omega)
    rw [Nat.add_mul] at hmul
    split
    · omega
    · split <;> omega
  · obtain rfl : n = q + 1 := by omega
    rw [Nat.add_mul] at hx
    split
    · omega
    · split <;> omega

theorem le_nearest : x / y ≤ nearest x y := by
  unfold nearest
  generalize x / y = q
  split
  · exact le_rfl
  · split <;> omega

theorem nearest_le : nearest x y ≤ x / y + 1 := by
  unfold nearest
  generalize x / y = q
  split
  · omega
  · split <;> omega

/-- Cutting goes down to the integer below, unless rounding went up to the next. -/
theorem floored_eq (hy : 0 < y) (h : Nat.log2 (x / y) < precision) :
    floored precision x y = x / y + if Blurred precision x y then 1 else 0 := by
  have hscale : 0 < scale precision x y := Nat.pow_pos (by decide)
  have heven : scale precision x y % 2 = 0 := by
    obtain ⟨k, hk⟩ : ∃ k, precision - Nat.log2 (x / y) = k + 1 :=
      ⟨precision - Nat.log2 (x / y) - 1, by omega⟩
    rw [scale, hk, Nat.pow_succ, Nat.mul_mod_left]
  unfold floored
  generalize hs : scale precision x y = s at hscale heven ⊢
  have hr := Nat.mod_lt x hy
  have hx := Nat.div_add_mod' x y
  have hgap : x * s + (y - x % y) * s = (x / y + 1) * s * y := by
    rw [← Nat.add_mul, show x + (y - x % y) = (x / y + 1) * y by rw [Nat.add_mul]; omega,
      Nat.mul_right_comm]
  have hnearest := nearest_of_gap (n := (x / y + 1) * s) hy
    (Nat.mul_pos (by omega) hscale) (by rw [Nat.mul_mod, heven]; simp) hgap
  have hlow : x / y * s ≤ nearest (x * s) y := by
    refine le_trans ?_ le_nearest
    rw [Nat.le_div_iff_mul_le hy, Nat.mul_right_comm]
    exact Nat.mul_le_mul_right s (Nat.div_mul_le_self x y)
  have hlt : x * s / y < (x / y + 1) * s :=
    (Nat.div_lt_iff_lt_mul hy).mpr (by
      have := Nat.mul_pos (show 0 < y - x % y by omega) hscale
      omega)
  have hhigh : nearest (x * s) y ≤ (x / y + 1) * s := nearest_le.trans hlt
  by_cases hblurred : Blurred precision x y
  · rw [if_pos hblurred]
    unfold Blurred at hblurred
    rw [hs] at hblurred
    rw [hnearest.mpr hblurred, Nat.mul_div_cancel _ hscale]
  · rw [if_neg hblurred]
    unfold Blurred at hblurred
    rw [hs] at hblurred
    have hne := fun heq => hblurred (hnearest.mp heq)
    apply Nat.div_eq_of_lt_le hlow
    omega

end Opca.Foundation.Rounding
