/-
  Acme/Serial.lean --- the decimal text of a hexadecimal serial, digit by digit as
  the broker computes it, and the filter by issuer that compares such texts
  (`enrolment.rs`, `acme/store.rs`).
-/
import Opca.Acme.Broker

set_option autoImplicit false

namespace Opca.Acme.Serial

open Opca.Foundation Radix

/-- The number that a text's hexadecimal digits denote. -/
def value (hex : String) : Nat := Nat.ofDigits 16 (nibbles hex).reverse

variable {hex : String}

/-- One nibble multiplies what is there by sixteen and adds itself. -/
theorem foldl_mulAdd (ns ds : List Nat) (h : Digits 10 ds) :
    Digits 10 (ns.foldl (fun digits nibble => mulAdd 10 16 digits nibble) ds) ∧
      Nat.ofDigits 10 (ns.foldl (fun digits nibble => mulAdd 10 16 digits nibble) ds) =
        Nat.ofDigits 16 ns.reverse + 16 ^ ns.length * Nat.ofDigits 10 ds := by
  induction ns generalizing ds with
  | nil => simp [h]
  | cons nibble ns ih =>
    obtain ⟨hdigits, hvalue⟩ := ih (mulAdd 10 16 ds nibble) (h.mulAdd (by omega))
    refine ⟨hdigits, ?_⟩
    rw [List.foldl_cons, hvalue, ofDigits_mulAdd (by omega), List.reverse_cons,
      Nat.ofDigits_append, Nat.ofDigits_singleton, List.length_reverse, List.length_cons,
      Nat.pow_succ, Nat.mul_add, Nat.mul_assoc, Nat.mul_comm (Nat.ofDigits 10 ds) 16]
    omega

theorem digits_spec (hex : String) :
    Digits 10 (digits hex) ∧ Nat.ofDigits 10 (digits hex) = value hex := by
  obtain ⟨hdigits, hvalue⟩ := foldl_mulAdd (nibbles hex) [0] ⟨by simp, by simp⟩
  refine ⟨hdigits, hvalue.trans ?_⟩
  simp [value]

theorem decimal_eq_toString (hex : String) : decimal hex = toString (value hex) := by
  obtain ⟨hdigits, hvalue⟩ := digits_spec hex
  rw [decimal, numeral_trim hdigits, hvalue]

theorem toString_inj {m n : Nat} : toString m = toString n ↔ m = n := by
  constructor
  · intro h
    have hdigits : Nat.toDigits 10 m = Nat.toDigits 10 n := by
      simpa only [Nat.toString_eq_repr, Nat.toList_repr] using congrArg String.toList h
    rw [← @Nat.ofDigitChars_ten_toDigits m, hdigits, Nat.ofDigitChars_ten_toDigits]
  · exact congrArg toString

theorem issuedBy_decimal {serials : List String} {c : Certificate}
    (h : c.issuerSerial = decimal hex) :
    Store.issuedBy (some (serials.map decimal)) c = true ↔ ∃ s ∈ serials, value s = value hex := by
  simp only [Store.issuedBy, Option.elim_some, decide_eq_true_eq, List.mem_map, h,
    decimal_eq_toString, toString_inj]

/-- The text is the canonical numeral of the number, so that two spellings of one
serial are one text, and the filter by issuer finds a leaf whatever the spelling. -/
theorem decimal_canonical (hex : String) :
    decimal hex = toString (value hex) ∧
      Nat.ofDigitChars 10 (decimal hex).toList 0 = value hex ∧
      ((decimal hex).toList.head? = some '0' ↔ value hex = 0) ∧
      (value hex = 0 ↔ decimal hex = "0") ∧
      (∀ other, decimal other = decimal hex ↔ value other = value hex) ∧
      ∀ (serials : List String) (c : Certificate),
        Store.issuedBy (some (serials.map decimal)) { c with issuerSerial := decimal hex } = true ↔
          ∃ s ∈ serials, value s = value hex := by
  have hzero : toString 0 = "0" := rfl
  refine ⟨decimal_eq_toString hex, ?_, ?_, ?_, fun other => ?_, fun serials c => ?_⟩
  · rw [decimal_eq_toString, Nat.toString_eq_repr, Nat.toList_repr,
      Nat.ofDigitChars_ten_toDigits]
  · rw [decimal_eq_toString, Nat.toString_eq_repr, Nat.toList_repr]
    constructor
    · intro hhead
      by_contra hvalue
      exact head_toDigits (Nat.pos_of_ne_zero hvalue) hhead
    · intro hvalue
      rw [hvalue, Nat.toDigits_zero]
      rfl
  · rw [decimal_eq_toString, ← hzero, toString_inj]
  · rw [decimal_eq_toString, decimal_eq_toString, toString_inj]
  · exact issuedBy_decimal rfl

end Opca.Acme.Serial
