/-
  Foundation/Repack.lean --- bits packed in digits of one width are packed again in digits
  of another, and what is left over must be nothing.

  The value of the digits is Mathlib's `Nat.ofDigits`; they are written highest first.
-/
import Mathlib.Data.Nat.Digits.Lemmas
import Mathlib.Tactic.Ring

set_option autoImplicit false

namespace Opca.Foundation.Repack

variable {base m n : Nat} {digits digits' out out' : List Nat}

/-! ## Values -/

/-- The number that digits of a base write, the highest first. -/
def value (base : Nat) (digits : List Nat) : Nat := Nat.ofDigits base digits.reverse

@[simp] theorem value_nil : value base [] = 0 := by simp [value]

theorem value_append : value base (digits ++ digits') =
    value base digits * base ^ digits'.length + value base digits' := by
  simp only [value, List.reverse_append, Nat.ofDigits_append, List.length_reverse]
  ring

theorem value_concat (digit : Nat) :
    value base (digits ++ [digit]) = value base digits * base + digit := by
  simp [value, Nat.ofDigits_cons]
  ring

/-- So many digits of a value there are once. -/
theorem eq_of_value (hbase : 1 < base) (hlength : digits.length = digits'.length)
    (h : ∀ digit ∈ digits, digit < base) (h' : ∀ digit ∈ digits', digit < base)
    (hvalue : value base digits = value base digits') : digits = digits' := by
  have hreverse : digits.reverse = digits'.reverse :=
    Nat.ofDigits_inj_of_len_eq hbase (by simpa using hlength) (by simpa using h)
      (by simpa using h') hvalue
  simpa using hreverse

/-! ## Padding -/

/-- Digits of `m` bits hold the bits of `out`, of `n` bits each, and zeros up to the next
digit. -/
structure Padded (m n : Nat) (out digits : List Nat) : Prop where
  le : n * out.length ≤ m * digits.length
  lt : m * digits.length < n * out.length + m
  digits_lt : ∀ digit ∈ digits, digit < 2 ^ m
  out_lt : ∀ digit ∈ out, digit < 2 ^ n
  value_eq : value (2 ^ m) digits =
    value (2 ^ n) out * 2 ^ (m * digits.length - n * out.length)

namespace Padded

theorem nil (hm : 0 < m) : Padded m n [] [] where
  le := by simp
  lt := by simpa using hm
  digits_lt := by simp
  out_lt := by simp
  value_eq := by simp

/-- One way only to pad. -/
theorem unique (hm : 0 < m) (h : Padded m n out digits) (h' : Padded m n out digits') :
    digits = digits' := by
  have hlength : digits.length = digits'.length := by
    have hle : m * digits.length < m * (digits'.length + 1) := by
      have := h.lt
      have := h'.le
      rw [Nat.mul_add]
      omega
    have hge : m * digits'.length < m * (digits.length + 1) := by
      have := h'.lt
      have := h.le
      rw [Nat.mul_add]
      omega
    have hle := Nat.lt_of_mul_lt_mul_left hle
    have hge := Nat.lt_of_mul_lt_mul_left hge
    omega
  apply eq_of_value (Nat.one_lt_two_pow (by omega)) hlength h.digits_lt h'.digits_lt
  rw [h.value_eq, h'.value_eq, hlength]

/-- What fills its digits may be followed by more. -/
theorem append (h : Padded m n out digits) (hfull : m * digits.length = n * out.length)
    (h' : Padded m n out' digits') : Padded m n (out ++ out') (digits ++ digits') where
  le := by
    have := h'.le
    simp only [List.length_append, Nat.mul_add]
    omega
  lt := by
    have := h'.lt
    simp only [List.length_append, Nat.mul_add]
    omega
  digits_lt := by
    intro digit hdigit
    exact (List.mem_append.mp hdigit).elim (h.digits_lt digit) (h'.digits_lt digit)
  out_lt := by
    intro digit hdigit
    exact (List.mem_append.mp hdigit).elim (h.out_lt digit) (h'.out_lt digit)
  value_eq := by
    have hle := h'.le
    have hspare : m * (digits ++ digits').length - n * (out ++ out').length =
        m * digits'.length - n * out'.length := by
      simp only [List.length_append, Nat.mul_add]
      omega
    have hbits : m * digits'.length =
        n * out'.length + (m * digits'.length - n * out'.length) := by omega
    have hsplit : (2 ^ m) ^ digits'.length =
        (2 ^ n) ^ out'.length * 2 ^ (m * digits'.length - n * out'.length) := by
      rw [← Nat.pow_mul, ← Nat.pow_mul, ← Nat.pow_add, ← hbits]
    rw [hspare, value_append, value_append, h.value_eq, h'.value_eq, hsplit, hfull]
    simp
    ring

end Padded

/-! ## Repacking -/

/-- The digits written so far, and the bits that do not make one yet. -/
structure Repacking where
  out : List Nat
  left : Nat
  bits : Nat
  deriving DecidableEq, Repr

/-- The next digit, of `m` bits, is taken. -/
def Repacking.push (m n : Nat) (s : Repacking) (digit : Nat) : Repacking :=
  let left := s.left * 2 ^ m + digit
  let bits := s.bits + m
  if n ≤ bits then
    ⟨s.out ++ [left / 2 ^ (bits - n)], left % 2 ^ (bits - n), bits - n⟩
  else ⟨s.out, left, bits⟩

def repack (m n : Nat) (digits : List Nat) : Repacking :=
  digits.foldl (Repacking.push m n) ⟨[], 0, 0⟩

/-- The state holds the bits of the digits taken. -/
structure Repacks (m n : Nat) (digits : List Nat) (s : Repacking) : Prop where
  bits_lt : s.bits < n
  left_lt : s.left < 2 ^ s.bits
  out_lt : ∀ digit ∈ s.out, digit < 2 ^ n
  length : n * s.out.length + s.bits = m * digits.length
  value_eq : value (2 ^ m) digits = value (2 ^ n) s.out * 2 ^ s.bits + s.left

namespace Repacks

variable {s : Repacking}

theorem push (hmn : m ≤ n) (h : Repacks m n digits s) {digit : Nat} (hdigit : digit < 2 ^ m) :
    Repacks m n (digits ++ [digit]) (s.push m n digit) := by
  have hleft : s.left * 2 ^ m + digit < 2 ^ (s.bits + m) := by
    calc s.left * 2 ^ m + digit < (s.left + 1) * 2 ^ m := by rw [Nat.add_mul]; omega
      _ ≤ 2 ^ s.bits * 2 ^ m := Nat.mul_le_mul_right _ h.left_lt
      _ = 2 ^ (s.bits + m) := (Nat.pow_add ..).symm
  have hvalue : value (2 ^ m) (digits ++ [digit]) =
      value (2 ^ n) s.out * 2 ^ (s.bits + m) + (s.left * 2 ^ m + digit) := by
    rw [value_concat, h.value_eq, Nat.pow_add]
    ring
  have hlength := h.length
  have hbits := h.bits_lt
  simp only [Repacking.push]
  split
  next hfull =>
    have hpow : 2 ^ (s.bits + m) = 2 ^ n * 2 ^ (s.bits + m - n) := by
      rw [← Nat.pow_add]
      congr 1
      omega
    refine ⟨by simp only; omega, Nat.mod_lt _ (Nat.two_pow_pos _), ?_, ?_, ?_⟩
    · intro out hout
      rcases List.mem_append.mp hout with hout | hout
      · exact h.out_lt out hout
      · rw [List.mem_singleton.mp hout]
        apply Nat.div_lt_of_lt_mul
        rw [Nat.mul_comm (2 ^ (s.bits + m - n)), ← hpow]
        exact hleft
    · simp only [List.length_append, List.length_singleton, Nat.mul_add]
      omega
    · rw [hvalue, hpow]
      simp only [value_concat]
      rw [Nat.add_mul, Nat.add_assoc, Nat.mul_assoc]
      congr 1
      exact (Nat.div_add_mod' _ _).symm
  next hshort =>
    refine ⟨by simp only; omega, hleft, h.out_lt, ?_, hvalue⟩
    simp only [List.length_append, List.length_singleton, Nat.mul_add]
    omega

theorem foldl (hmn : m ≤ n) {rest : List Nat} (h : Repacks m n digits s)
    (hrest : ∀ digit ∈ rest, digit < 2 ^ m) :
    Repacks m n (digits ++ rest) (rest.foldl (Repacking.push m n) s) := by
  induction rest generalizing digits s with
  | nil => simpa using h
  | cons digit rest ih =>
    have hpushed := h.push hmn (hrest digit List.mem_cons_self)
    have hall := ih hpushed fun d hd => hrest d (List.mem_cons_of_mem _ hd)
    simpa using hall

/-- Repacking ends with nothing but padding left just where its digits are what it wrote,
padded. -/
theorem padded_iff (h : Repacks m n digits s) (hdigits : ∀ digit ∈ digits, digit < 2 ^ m)
    (hmn : m ≤ n) : Padded m n out digits ↔ (s.left = 0 ∧ s.bits < m) ∧ s.out = out := by
  have hlength := h.length
  have hleft := h.left_lt
  constructor
  · intro hpadded
    have hle := hpadded.le
    have hlt := hpadded.lt
    have hbits := h.bits_lt
    have hn : 0 < n := by omega
    have hcount : s.out.length = out.length := by
      have hless : n * s.out.length < n * (out.length + 1) := by
        rw [Nat.mul_add]
        omega
      have hmore : n * out.length < n * (s.out.length + 1) := by
        rw [Nat.mul_add]
        omega
      have hless := Nat.lt_of_mul_lt_mul_left hless
      have hmore := Nat.lt_of_mul_lt_mul_left hmore
      omega
    rw [hcount] at hlength
    have hspare : m * digits.length - n * out.length = s.bits := by omega
    have hvalue := hpadded.value_eq
    rw [h.value_eq, hspare] at hvalue
    have hparts : value (2 ^ n) s.out = value (2 ^ n) out ∧ s.left = 0 := by
      have hdiv := congrArg (· / 2 ^ s.bits) hvalue
      have hmod := congrArg (· % 2 ^ s.bits) hvalue
      simp only [Nat.mul_add_mod', Nat.mul_mod_left, Nat.mod_eq_of_lt hleft] at hmod
      simp only [hmod, Nat.add_zero, Nat.mul_div_cancel _ (Nat.two_pow_pos _)] at hdiv
      exact ⟨hdiv, hmod⟩
    refine ⟨⟨hparts.2, by omega⟩, ?_⟩
    exact eq_of_value (Nat.one_lt_two_pow (by omega)) hcount h.out_lt hpadded.out_lt hparts.1
  · intro hs
    obtain ⟨⟨hzero, hbits⟩, rfl⟩ := hs
    have hspare : m * digits.length - n * s.out.length = s.bits := by omega
    refine ⟨by omega, by omega, hdigits, h.out_lt, ?_⟩
    rw [h.value_eq, hspare, hzero, Nat.add_zero]

end Repacks

theorem repacks_repack (hm : 0 < m) (hmn : m ≤ n)
    (hdigits : ∀ digit ∈ digits, digit < 2 ^ m) : Repacks m n digits (repack m n digits) := by
  have hnil : Repacks m n [] ⟨[], 0, 0⟩ := ⟨by simp only; omega, by simp, by simp, by simp, by simp⟩
  simpa [repack] using hnil.foldl hmn hdigits

end Opca.Foundation.Repack
