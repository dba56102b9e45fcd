/-
  Foundation/Radix.lean --- numbers as vectors of digits, the lowest first:
  multiplying one and adding to it in place, and the numeral that it prints.

  The value of a vector is Mathlib's `Nat.ofDigits`.
-/
import Mathlib.Data.Nat.Digits.Lemmas
import Mathlib.Tactic.IntervalCases

set_option autoImplicit false

namespace Opca.Foundation.Radix

variable {base factor carry : Nat} {digits : List Nat}

/-! ## The operations -/

/-- One pass over the digits: each is multiplied and takes the carry of the one
before it. What the last one carries is left over. -/
def scale (base factor : Nat) : List Nat → Nat → List Nat × Nat
  | [], carry => ([], carry)
  | digit :: digits, carry =>
    let value := digit * factor + carry
    let (scaled, left) := scale base factor digits (value / base)
    (value % base :: scaled, left)

/-- The digits of a carry, put on at the high end, at most `fuel` of them. -/
def spill (base : Nat) : Nat → List Nat → Nat → List Nat
  | 0, digits, _ => digits
  | fuel + 1, digits, carry =>
    if 0 < carry then spill base fuel (digits ++ [carry % base]) (carry / base) else digits

/-- Multiplied by `factor`, and `carry` added. -/
def mulAdd (base factor : Nat) (digits : List Nat) (carry : Nat) : List Nat :=
  let (scaled, left) := scale base factor digits carry
  -- a carry has no more digits than its value
  spill base left scaled left

/-- Without the zeros in front, but never without a digit. -/
def dropZeros : List Nat → List Nat
  | 0 :: digit :: digits => dropZeros (digit :: digits)
  | digits => digits

/-- Without the zeros at the high end, but never without a digit. -/
def trim (digits : List Nat) : List Nat := (dropZeros digits.reverse).reverse

/-- The numeral, the highest digit first. -/
def numeral (digits : List Nat) : String := String.ofList (digits.reverse.map Nat.digitChar)

/-! ## What a pass keeps -/

/-- Digits of the base, at least one of them. -/
structure Digits (base : Nat) (digits : List Nat) : Prop where
  ne_nil : digits ≠ []
  lt : ∀ digit ∈ digits, digit < base

theorem length_scale : (scale base factor digits carry).1.length = digits.length := by
  induction digits generalizing carry with
  | nil => rfl
  | cons digit digits ih => simp [scale, ih]

theorem scale_lt (hbase : 0 < base) :
    ∀ digit ∈ (scale base factor digits carry).1, digit < base := by
  induction digits generalizing carry with
  | nil => simp [scale]
  | cons digit digits ih =>
    simp only [scale, List.mem_cons, forall_eq_or_imp]
    exact ⟨Nat.mod_lt _ hbase, ih⟩

/-- The pass multiplies the value, its left-over carry counted above the digits. -/
theorem ofDigits_scale :
    Nat.ofDigits base (scale base factor digits carry).1 +
        base ^ digits.length * (scale base factor digits carry).2 =
      Nat.ofDigits base digits * factor + carry := by
  induction digits generalizing carry with
  | nil => simp [scale]
  | cons digit digits ih =>
    simp only [scale, Nat.ofDigits_cons, List.length_cons]
    have hvalue := Nat.mod_add_div (digit * factor + carry) base
    calc (digit * factor + carry) % base +
          base * Nat.ofDigits base (scale base factor digits
            ((digit * factor + carry) / base)).1 +
          base ^ (digits.length + 1) * (scale base factor digits
            ((digit * factor + carry) / base)).2
        = (digit * factor + carry) % base +
          base * (Nat.ofDigits base (scale base factor digits
              ((digit * factor + carry) / base)).1 +
            base ^ digits.length * (scale base factor digits
              ((digit * factor + carry) / base)).2) := by
          rw [Nat.pow_succ', Nat.mul_add, Nat.add_assoc, Nat.mul_assoc]
      _ = (digit * factor + carry) % base + base * ((digit * factor + carry) / base) +
          base * Nat.ofDigits base digits * factor := by
          rw [ih, Nat.mul_add, ← Nat.mul_assoc]
          omega
      _ = (digit + base * Nat.ofDigits base digits) * factor + carry := by
          rw [hvalue, Nat.add_mul]
          omega

theorem spill_eq (hbase : 1 < base) {fuel : Nat} (hfuel : carry ≤ fuel) :
    spill base fuel digits carry = digits ++ base.digits carry := by
  induction fuel generalizing digits carry with
  | zero =>
    obtain rfl := Nat.le_zero.mp hfuel
    simp [spill]
  | succ fuel ih =>
    rw [spill]
    split
    next hpos =>
      have hless := Nat.div_lt_self hpos hbase
      rw [ih (by omega), Nat.digits_def' hbase hpos, List.append_assoc, List.singleton_append]
    next hzero =>
      obtain rfl := Nat.eq_zero_of_not_pos hzero
      simp

theorem Digits.mulAdd (h : Digits base digits) (hbase : 1 < base) :
    Digits base (mulAdd base factor digits carry) where
  ne_nil := by
    have hlength := List.length_pos_of_ne_nil h.ne_nil
    rw [← @length_scale base factor carry] at hlength
    simp [Radix.mulAdd, spill_eq hbase le_rfl, List.ne_nil_of_length_pos hlength]
  lt := by
    intro digit hdigit
    simp only [Radix.mulAdd, spill_eq hbase le_rfl, List.mem_append] at hdigit
    rcases hdigit with hscaled | hspilt
    · exact scale_lt (by omega) digit hscaled
    · exact Nat.digits_lt_base hbase hspilt

theorem ofDigits_mulAdd (hbase : 1 < base) :
    Nat.ofDigits base (mulAdd base factor digits carry) =
      Nat.ofDigits base digits * factor + carry := by
  simp only [mulAdd, spill_eq hbase le_rfl, Nat.ofDigits_append, Nat.ofDigits_digits, length_scale]
  exact ofDigits_scale

/-! ## The numeral -/

theorem ofDigits_trim : Nat.ofDigits base (trim digits) = Nat.ofDigits base digits := by
  have hdrop (digits : List Nat) : Nat.ofDigits base (dropZeros digits).reverse =
      Nat.ofDigits base digits.reverse := by
    induction digits using dropZeros.induct with
    | case1 digit digits ih =>
      rw [dropZeros, ih, List.reverse_cons (a := 0), Nat.ofDigits_append, Nat.ofDigits_singleton,
        Nat.mul_zero, Nat.add_zero]
    | case2 digits h => rw [dropZeros.eq_2 _ h]
  rw [trim, hdrop, List.reverse_reverse]

theorem dropZeros_suffix : dropZeros digits <:+ digits := by
  induction digits using dropZeros.induct with
  | case1 digit digits ih =>
    rw [dropZeros]
    exact ih.trans (List.suffix_cons _ _)
  | case2 digits h => rw [dropZeros.eq_2 _ h]

theorem dropZeros_ne_nil (h : digits ≠ []) : dropZeros digits ≠ [] := by
  induction digits using dropZeros.induct with
  | case1 digit digits ih =>
    rw [dropZeros]
    exact ih (List.cons_ne_nil _ _)
  | case2 digits hzero =>
    rw [dropZeros.eq_2 _ hzero]
    exact h

theorem dropZeros_head (h : 1 < (dropZeros digits).length) :
    (dropZeros digits).head? ≠ some 0 := by
  induction digits using dropZeros.induct with
  | case1 digit digits ih =>
    rw [dropZeros] at h ⊢
    exact ih h
  | case2 digits hzero =>
    rw [dropZeros.eq_2 _ hzero] at h ⊢
    match digits, h with
    | digit :: next :: rest, _ =>
      intro hhead
      obtain rfl := Option.some.inj hhead
      exact hzero next rest rfl

theorem Digits.trim (h : Digits base digits) : Digits base (trim digits) where
  ne_nil := by
    rw [Radix.trim, Ne, List.reverse_eq_nil_iff]
    exact dropZeros_ne_nil (List.reverse_ne_nil_iff.mpr h.ne_nil)
  lt := by
    intro digit hdigit
    exact h.lt digit (List.mem_reverse.mp (dropZeros_suffix.subset (List.mem_reverse.mp hdigit)))

theorem trim_last (h : 1 < (trim digits).length) : (trim digits).getLast? ≠ some 0 := by
  rw [trim, List.length_reverse] at h
  rw [trim, List.getLast?_reverse]
  exact dropZeros_head h

/-- What is trimmed is the value's digits, and `[0]` for none. -/
theorem trim_eq (h : Digits base digits) (hbase : 1 < base) :
    trim digits =
      if Nat.ofDigits base digits = 0 then [0] else base.digits (Nat.ofDigits base digits) := by
  have htrim := h.trim
  rw [← ofDigits_trim]
  have hlast := @trim_last digits
  generalize trim digits = trimmed at htrim hlast
  by_cases hzero : trimmed.getLast htrim.ne_nil = 0
  · have hlength : trimmed.length = 1 := by
      have hpos := List.length_pos_of_ne_nil htrim.ne_nil
      have hle : ¬1 < trimmed.length := fun h =>
        hlast h (by rw [List.getLast?_eq_some_getLast htrim.ne_nil, hzero])
      omega
    obtain ⟨digit, rfl⟩ := List.length_eq_one_iff.mp hlength
    simp only [List.getLast_singleton] at hzero
    simp [hzero]
  · have hdigits := Nat.digits_ofDigits base hbase trimmed htrim.lt fun _ => hzero
    rw [hdigits, if_neg]
    intro hvalue
    rw [hvalue, Nat.digits_zero] at hdigits
    exact htrim.ne_nil hdigits.symm

theorem toDigits_eq {n : Nat} (hbase : 1 < base) (hpos : 0 < n) :
    Nat.toDigits base n = (base.digits n).reverse.map Nat.digitChar := by
  induction n using Nat.strong_induction_on with
  | _ n ih =>
    rw [Nat.digits_def' hbase hpos, List.reverse_cons, List.map_append, Nat.toDigits_eq_if hbase]
    split
    · next hlt => simp [Nat.div_eq_of_lt hlt, Nat.mod_eq_of_lt hlt]
    · next hge =>
      have hdiv : 0 < n / base := Nat.div_pos (by omega) (by omega)
      rw [ih _ (Nat.div_lt_self hpos hbase) hdiv]
      rfl

/-- Only zero's numeral begins with a zero. -/
theorem head_toDigits {n : Nat} (hpos : 0 < n) : (Nat.toDigits 10 n).head? ≠ some '0' := by
  have hne := Nat.digits_ne_nil_iff_ne_zero (b := 10).mpr (by omega : n ≠ 0)
  have hlt := Nat.digits_lt_base (by omega) (List.getLast_mem hne)
  have hzero := Nat.getLast_digit_ne_zero 10 (by omega : n ≠ 0)
  rw [toDigits_eq (by omega) hpos, List.head?_map, List.head?_reverse,
    List.getLast?_eq_some_getLast hne]
  generalize (Nat.digits 10 n).getLast hne = digit at hlt hzero
  interval_cases digit <;> simp_all [Nat.digitChar]

/-- The trimmed digits print the value. -/
theorem numeral_trim (h : Digits 10 digits) :
    numeral (trim digits) = toString (Nat.ofDigits 10 digits) := by
  rw [numeral, trim_eq h (by omega), Nat.toString_eq_ofList_toDigits]
  split
  · next hzero => simp [hzero, Nat.toDigits_zero, Nat.digitChar]
  · next hvalue => rw [toDigits_eq (by omega) (by omega)]

/-! ## The order of numerals -/

theorem ofDigitChars_cons_zero (c : Char) (cs : List Char) :
    Nat.ofDigitChars 10 (c :: cs) 0 =
      10 ^ cs.length * (c.toNat - '0'.toNat) + Nat.ofDigitChars 10 cs 0 := by
  rw [Nat.ofDigitChars_cons, Nat.ofDigitChars_eq_ofDigitChars_zero, Nat.mul_zero, Nat.zero_add]

theorem ofDigitChars_lt {cs : List Char} (h : ∀ c ∈ cs, c.isDigit = true) :
    Nat.ofDigitChars 10 cs 0 < 10 ^ cs.length := by
  induction cs with
  | nil => simp
  | cons c cs ih =>
    have hc := h c (List.mem_cons_self ..)
    have hcs := ih fun c hc => h c (List.mem_cons_of_mem _ hc)
    have hdigit : c.toNat - '0'.toNat ≤ 9 := by
      have hnine := (Char.isDigit_iff_toNat.mp hc).2
      simp only [Char.reduceToNat] at hnine ⊢
      omega
    rw [ofDigitChars_cons_zero, List.length_cons, Nat.pow_succ]
    have := Nat.mul_le_mul_left (10 ^ cs.length) hdigit
    omega

/-- Numerals of one length are ordered as texts the way their values are. -/
theorem lt_iff_ofDigitChars {cs ds : List Char} (hlength : cs.length = ds.length)
    (hcs : ∀ c ∈ cs, c.isDigit = true) (hds : ∀ d ∈ ds, d.isDigit = true) :
    cs < ds ↔ Nat.ofDigitChars 10 cs 0 < Nat.ofDigitChars 10 ds 0 := by
  induction cs generalizing ds with
  | nil =>
    obtain rfl : ds = [] := List.length_eq_zero_iff.mp hlength.symm
    simp
  | cons c cs ih =>
    cases ds with
    | nil => simp at hlength
    | cons d ds =>
      have hlength : cs.length = ds.length := by simpa using hlength
      have hcs' := fun c hc => hcs c (List.mem_cons_of_mem _ hc)
      have hds' := fun d hd => hds d (List.mem_cons_of_mem _ hd)
      have hlt := ofDigitChars_lt hcs'
      have hlt' := ofDigitChars_lt hds'
      obtain ⟨hc, -⟩ := Char.isDigit_iff_toNat.mp (hcs c (List.mem_cons_self ..))
      obtain ⟨hd, -⟩ := Char.isDigit_iff_toNat.mp (hds d (List.mem_cons_self ..))
      rw [List.cons_lt_cons_iff, ih hlength hcs' hds', ofDigitChars_cons_zero,
        ofDigitChars_cons_zero, ← hlength]
      rw [← hlength] at hlt'
      -- the first place that differs outweighs all that follow it
      rcases Nat.lt_trichotomy c.toNat d.toNat with hbelow | hsame | habove
      · have hplace := Nat.mul_le_mul_left (10 ^ cs.length)
          (show c.toNat - '0'.toNat + 1 ≤ d.toNat - '0'.toNat by omega)
        have hcd : c < d := hbelow
        rw [Nat.mul_add] at hplace
        simp only [hcd, true_or, true_iff]
        omega
      · obtain rfl : c = d := Char.ext (UInt32.toNat_inj.mp hsame)
        simp only [Char.lt_irrefl, false_or, true_and]
        omega
      · have hplace := Nat.mul_le_mul_left (10 ^ cs.length)
          (show d.toNat - '0'.toNat + 1 ≤ c.toNat - '0'.toNat by omega)
        have hcd : ¬c < d := Nat.lt_asymm habove
        have hne : c ≠ d := fun h => Nat.lt_irrefl _ (h ▸ habove)
        rw [Nat.mul_add] at hplace
        simp only [hcd, hne, false_and, or_self, false_iff]
        omega

/-- What follows two texts of one length does not change their order. -/
theorem append_lt_append {cs ds : List Char} (hlength : cs.length = ds.length)
    (tail : List Char) : cs ++ tail < ds ++ tail ↔ cs < ds := by
  induction cs generalizing ds with
  | nil =>
    obtain rfl : ds = [] := List.length_eq_zero_iff.mp hlength.symm
    simp
  | cons c cs ih =>
    cases ds with
    | nil => simp at hlength
    | cons d ds =>
      have hlength : cs.length = ds.length := by simpa using hlength
      rw [List.cons_append, List.cons_append, List.cons_lt_cons_iff, List.cons_lt_cons_iff,
        ih hlength]

end Opca.Foundation.Radix
