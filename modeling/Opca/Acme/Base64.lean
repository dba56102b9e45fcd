/-
  Acme/Base64.lean --- base64url without padding, as tokens, digests and requests are written
  (acme/mod.rs).

  A text is read by its UTF-8 bytes, as the source reads it.
-/
import Opca.Foundation.Repack
import Mathlib.Data.String.Basic

set_option autoImplicit false

namespace Opca.Acme

open Foundation.Repack

/-! ## Writing -/

/-- `ALPHABET`. -/
def base64Alphabet : List Char :=
  "ABCDEFGHIJKLMNOPQRSTUVWXYZabcdefghijklmnopqrstuvwxyz0123456789-_".toList

/-- Up to three bytes as one number of 24 bits, the first the highest. -/
def triple (chunk : List UInt8) : Nat :=
  chunk.zipIdx.foldl (fun acc (b, i) => acc ||| b.toNat <<< (16 - 8 * i)) 0

/-- The digits that a chunk of up to three bytes is written with, one more than its bytes. -/
def sextets (chunk : List UInt8) : List Nat :=
  (List.range (chunk.length + 1)).map fun i => triple chunk >>> (18 - 6 * i) &&& 0x3f

/-- The bytes, in chunks of three. -/
def sextetsOf : List UInt8 → List Nat
  | [] => []
  | b₀ :: b₁ :: b₂ :: bytes => sextets [b₀, b₁, b₂] ++ sextetsOf bytes
  | [b₀, b₁] => sextets [b₀, b₁]
  | [b₀] => sextets [b₀]

def base64url (bytes : List UInt8) : String :=
  String.ofList ((sextetsOf bytes).map fun sextet => base64Alphabet.getD sextet 'A')

/-! ## Reading -/

/-- What a byte of the text stands for. -/
def sextetOf (c : UInt8) : Option Nat :=
  if 65 ≤ c.toNat ∧ c.toNat ≤ 90 then some (c.toNat - 65)
  else if 97 ≤ c.toNat ∧ c.toNat ≤ 122 then some (c.toNat - 97 + 26)
  else if 48 ≤ c.toNat ∧ c.toNat ≤ 57 then some (c.toNat - 48 + 52)
  else if c.toNat = 45 then some 62
  else if c.toNat = 95 then some 63
  else none

/-- The loop's variables. -/
structure Decoding where
  buffer : Nat
  bits : Nat
  out : List UInt8
  deriving DecidableEq, Repr

/-- One turn of the loop. -/
def Decoding.push (s : Decoding) (value : Nat) : Decoding :=
  let buffer := (s.buffer <<< 6 ||| value) &&& 0xffff
  let bits := s.bits + 6
  if 8 ≤ bits then
    let bits := bits - 8
    ⟨buffer, bits, s.out ++ [UInt8.ofNat (buffer >>> bits)]⟩
  else ⟨buffer, bits, s.out⟩

/-- The bytes of a text, up to one that is of no digit. -/
def decodeBytes : List UInt8 → Decoding → Option Decoding
  | [], s => some s
  | c :: text, s =>
    match sextetOf c with
    | none => none
    | some value => decodeBytes text (s.push value)

def fromBase64url (text : String) : Option (List UInt8) :=
  match decodeBytes text.toByteArray.data.toList ⟨0, 0, []⟩ with
  | none => none
  | some s => if s.bits < 6 ∧ s.buffer &&& (1 <<< s.bits - 1) = 0 then some s.out else none

/-! ## The alphabet -/

theorem sextetOf_alphabet : ∀ sextet < 64,
    sextetOf (base64Alphabet.getD sextet 'A').toUInt8 = some sextet ∧
      (base64Alphabet.getD sextet 'A').toNat < 128 := by
  decide +kernel

theorem alphabet_of_sextetOf : ∀ c : UInt8, ∀ sextet, sextetOf c = some sextet →
    sextet < 64 ∧ c.toNat = (base64Alphabet.getD sextet 'A').toNat := by
  have hall : ∀ n < 256, ∀ sextet ∈ sextetOf (UInt8.ofNat n),
      sextet < 64 ∧ n = (base64Alphabet.getD sextet 'A').toNat := by
    decide +kernel
  intro c sextet hc
  have hn := hall c.toNat (UInt8.toNat_lt c) sextet
  rw [UInt8.ofNat_toNat] at hn
  exact hn hc

/-! ## What is written is padded -/

theorem triple_one (b₀ : UInt8) : triple [b₀] = b₀.toNat * 65536 := by
  simp [triple, Nat.shiftLeft_eq]

theorem triple_two (b₀ b₁ : UInt8) : triple [b₀, b₁] = b₀.toNat * 65536 + b₁.toNat * 256 := by
  have h₁ := UInt8.toNat_lt b₁
  have hor := Nat.shiftLeft_add_eq_or_of_lt (b := b₁.toNat <<< 8) (i := 16)
    (by rw [Nat.shiftLeft_eq]; omega) b₀.toNat
  simp only [Nat.shiftLeft_eq] at hor
  simp [triple, Nat.shiftLeft_eq, ← hor]

theorem triple_three (b₀ b₁ b₂ : UInt8) :
    triple [b₀, b₁, b₂] = b₀.toNat * 65536 + b₁.toNat * 256 + b₂.toNat := by
  have h₁ := UInt8.toNat_lt b₁
  have h₂ := UInt8.toNat_lt b₂
  have hor := Nat.shiftLeft_add_eq_or_of_lt (b := b₁.toNat <<< 8) (i := 16)
    (by rw [Nat.shiftLeft_eq]; omega) b₀.toNat
  have hor' := Nat.shiftLeft_add_eq_or_of_lt (b := b₂.toNat) (i := 8)
    (by omega) (b₀.toNat * 256 + b₁.toNat)
  have hfirst : (b₀.toNat * 256 + b₁.toNat) * 2 ^ 8 = b₀.toNat * 65536 + b₁.toNat * 256 := by
    omega
  simp only [Nat.shiftLeft_eq] at hor hor'
  rw [hfirst] at hor'
  simp [triple, Nat.shiftLeft_eq, ← hor, ← hor']

theorem shift_and (number shift : Nat) :
    number >>> shift &&& 0x3f = number / 2 ^ shift % 64 := by
  rw [Nat.shiftRight_eq_div_pow]
  exact Nat.and_two_pow_sub_one_eq_mod _ 6

/-- The numbers of the bytes. -/
def octets (bytes : List UInt8) : List Nat := bytes.map UInt8.toNat

theorem octets_lt {bytes : List UInt8} : ∀ octet ∈ octets bytes, octet < 2 ^ 8 := by
  intro octet hoctet
  obtain ⟨b, -, rfl⟩ := List.mem_map.mp hoctet
  exact UInt8.toNat_lt b

theorem sextets_lt {chunk : List UInt8} : ∀ sextet ∈ sextets chunk, sextet < 2 ^ 6 := by
  intro sextet hsextet
  obtain ⟨i, -, rfl⟩ := List.mem_map.mp hsextet
  simp only [shift_and]
  exact Nat.mod_lt _ (by decide)

@[simp] theorem length_sextets (chunk : List UInt8) :
    (sextets chunk).length = chunk.length + 1 := by
  simp [sextets]

theorem padded_one (b₀ : UInt8) : Padded 6 8 (octets [b₀]) (sextets [b₀]) where
  le := by simp [octets]
  lt := by simp [octets]
  digits_lt := sextets_lt
  out_lt := octets_lt
  value_eq := by
    have h₀ := UInt8.toNat_lt b₀
    simp [octets, sextets, shift_and, triple_one, value, Nat.ofDigits_cons, List.range_succ]
    omega

theorem padded_two (b₀ b₁ : UInt8) : Padded 6 8 (octets [b₀, b₁]) (sextets [b₀, b₁]) where
  le := by simp [octets]
  lt := by simp [octets]
  digits_lt := sextets_lt
  out_lt := octets_lt
  value_eq := by
    have h₀ := UInt8.toNat_lt b₀
    have h₁ := UInt8.toNat_lt b₁
    simp [octets, sextets, shift_and, triple_two, value, Nat.ofDigits_cons, List.range_succ]
    omega

theorem padded_three (b₀ b₁ b₂ : UInt8) :
    Padded 6 8 (octets [b₀, b₁, b₂]) (sextets [b₀, b₁, b₂]) where
  le := by simp [octets]
  lt := by simp [octets]
  digits_lt := sextets_lt
  out_lt := octets_lt
  value_eq := by
    have h₀ := UInt8.toNat_lt b₀
    have h₁ := UInt8.toNat_lt b₁
    have h₂ := UInt8.toNat_lt b₂
    simp [octets, sextets, shift_and, triple_three, value, Nat.ofDigits_cons, List.range_succ]
    omega

/-- Every chunk but the last fills its digits. -/
theorem padded_sextetsOf (bytes : List UInt8) : Padded 6 8 (octets bytes) (sextetsOf bytes) := by
  induction bytes using sextetsOf.induct with
  | case1 => exact Padded.nil (by decide)
  | case2 b₀ b₁ b₂ bytes ih =>
    have happend := (padded_three b₀ b₁ b₂).append (by simp [octets]) ih
    simpa [octets, sextetsOf] using happend
  | case3 b₀ b₁ => exact padded_two b₀ b₁
  | case4 b₀ => exact padded_one b₀

theorem alphabet_getD : ∀ sextet < 64, base64Alphabet.getD sextet 'A' ∈ base64Alphabet := by
  decide +kernel

/-- A text is of the alphabet. -/
theorem mem_base64url {bytes : List UInt8} {c : Char} (h : c ∈ (base64url bytes).toList) :
    c ∈ base64Alphabet := by
  rw [base64url, String.toList_ofList] at h
  obtain ⟨sextet, hsextet, rfl⟩ := List.mem_map.mp h
  exact alphabet_getD sextet ((padded_sextetsOf bytes).digits_lt sextet hsextet)

/-! ## Reading repacks -/

/-- The low bits of the buffer are what the library's state has left over. -/
structure Follows (s : Decoding) (r : Repacking) : Prop where
  buffer_lt : s.buffer < 2 ^ 16
  bits_eq : s.bits = r.bits
  left_eq : s.buffer % 2 ^ s.bits = r.left
  out_eq : octets s.out = r.out

/-- The buffer's high bits, which are of bytes long written, change none of the low ones. -/
theorem buffer_mod (buffer bits : Nat) {sextet : Nat} (hbits : bits ≤ 8) (hsextet : sextet < 64) :
    ((buffer <<< 6 ||| sextet) &&& 0xffff) % 2 ^ (bits + 6) =
      buffer % 2 ^ bits * 2 ^ 6 + sextet := by
  have hor := Nat.shiftLeft_add_eq_or_of_lt (b := sextet) (i := 6) (by omega) buffer
  have hand := Nat.and_two_pow_sub_one_eq_mod (buffer <<< 6 + sextet) 16
  have hdvd : 2 ^ (bits + 6) ∣ 2 ^ 16 := Nat.pow_dvd_pow 2 (by omega)
  have hlow : buffer % 2 ^ bits * 2 ^ 6 + sextet < 2 ^ (bits + 6) := by
    have hlt := Nat.mod_lt buffer (Nat.two_pow_pos bits)
    rw [Nat.pow_add]
    omega
  have hsplit : buffer * 2 ^ 6 + sextet =
      2 ^ (bits + 6) * (buffer / 2 ^ bits) + (buffer % 2 ^ bits * 2 ^ 6 + sextet) := by
    conv_lhs => rw [← Nat.div_add_mod buffer (2 ^ bits)]
    rw [Nat.pow_add]
    ring
  rw [← hor]
  calc (buffer <<< 6 + sextet &&& 0xffff) % 2 ^ (bits + 6)
      = (buffer <<< 6 + sextet) % 2 ^ 16 % 2 ^ (bits + 6) := by rw [← hand]
    _ = (buffer * 2 ^ 6 + sextet) % 2 ^ (bits + 6) := by
      rw [Nat.mod_mod_of_dvd _ hdvd, Nat.shiftLeft_eq]
    _ = buffer % 2 ^ bits * 2 ^ 6 + sextet := by
      rw [hsplit, Nat.mul_add_mod, Nat.mod_eq_of_lt hlow]

theorem Follows.push {s : Decoding} {r : Repacking} (h : Follows s r) (hbits : r.bits < 8)
    {sextet : Nat} (hsextet : sextet < 64) :
    Follows (s.push sextet) (r.push 6 8 sextet) := by
  obtain ⟨-, hrbits, hleft, hout⟩ := h
  have hmod := buffer_mod s.buffer s.bits (by omega) hsextet
  have hlt : (s.buffer <<< 6 ||| sextet) &&& 0xffff < 2 ^ 16 :=
    Nat.lt_of_le_of_lt Nat.and_le_right (by decide)
  rw [hleft] at hmod
  simp only [Decoding.push, Repacking.push, hrbits]
  rw [hrbits] at hmod
  split
  next hfull =>
    have hpow : 2 ^ (r.bits + 6) = 2 ^ (r.bits + 6 - 8) * 2 ^ 8 := by
      rw [← Nat.pow_add]
      congr 1
      omega
    refine ⟨hlt, rfl, ?_, ?_⟩
    · simp only
      rw [← hmod, Nat.mod_mod_of_dvd _ (Nat.pow_dvd_pow 2 (Nat.sub_le ..))]
    · simp only [octets, List.map_append, List.map_cons, List.map_nil, UInt8.toNat_ofNat']
      rw [← hmod, hpow, Nat.mod_mul_right_div_self, Nat.shiftRight_eq_div_pow]
      exact congrArg (· ++ _) hout
  next hshort => exact ⟨hlt, rfl, hmod, hout⟩

/-- The bytes of a text that are all digits, and the digits. -/
def Spells (text : List UInt8) (digits : List Nat) : Prop :=
  text.map sextetOf = digits.map some

theorem Spells.lt {text : List UInt8} {digits : List Nat} (h : Spells text digits) :
    ∀ digit ∈ digits, digit < 2 ^ 6 := by
  intro digit hdigit
  have hmem : some digit ∈ text.map sextetOf := by
    rw [h]
    exact List.mem_map_of_mem hdigit
  obtain ⟨c, -, hc⟩ := List.mem_map.mp hmem
  exact (alphabet_of_sextetOf c digit hc).1

/-- The loop goes through just when every byte is a digit, and follows the library's. -/
theorem decodeBytes_eq_some {text : List UInt8} {s s' : Decoding} {r : Repacking}
    {before : List Nat} (hr : Repacks 6 8 before r) (hs : Follows s r)
    (h : decodeBytes text s = some s') :
    ∃ digits, Spells text digits ∧
      Follows s' (digits.foldl (Repacking.push 6 8) r) := by
  induction text generalizing s r before with
  | nil =>
    cases h
    exact ⟨[], rfl, hs⟩
  | cons c text ih =>
    simp only [decodeBytes] at h
    split at h
    · cases h
    next value hvalue =>
      have hlt := (alphabet_of_sextetOf c value hvalue).1
      obtain ⟨digits, hdigits, hfollows⟩ := ih (hr.push (by decide) hlt)
        (hs.push hr.bits_lt hlt) h
      refine ⟨value :: digits, ?_, hfollows⟩
      simp only [Spells, List.map_cons, hvalue]
      exact congrArg _ hdigits

theorem decodeBytes_of_spells {text : List UInt8} {digits : List Nat} (h : Spells text digits)
    (s : Decoding) : ∃ s', decodeBytes text s = some s' := by
  induction text generalizing digits s with
  | nil => exact ⟨s, rfl⟩
  | cons c text ih =>
    cases digits with
    | nil => cases h
    | cons digit digits =>
      simp only [Spells, List.map_cons, List.cons.injEq] at h
      obtain ⟨s', hs'⟩ := ih h.2 (s.push digit)
      exact ⟨s', by simpa [decodeBytes, h.1] using hs'⟩

/-! ## The texts -/

theorem Spells.unique {text : List UInt8} {digits digits' : List Nat} (h : Spells text digits)
    (h' : Spells text digits') : digits = digits' :=
  List.map_injective_iff.mpr (Option.some_injective _) (h.symm.trans h')

/-- The text of so many digits is one. -/
theorem Spells.text_unique {text text' : List UInt8} {digits : List Nat}
    (h : Spells text digits) (h' : Spells text' digits) : text = text' := by
  have hinj : ∀ c c' : UInt8, ∀ digit, sextetOf c = some digit → sextetOf c' = some digit →
      c = c' := by
    intro c c' digit hc hc'
    apply UInt8.toNat_inj.mp
    rw [(alphabet_of_sextetOf c digit hc).2, (alphabet_of_sextetOf c' digit hc').2]
  induction text generalizing text' digits with
  | nil =>
    cases digits with
    | nil => exact (List.map_eq_nil_iff.mp h').symm
    | cons => cases h
  | cons c text ih =>
    cases digits with
    | nil => cases h
    | cons digit digits =>
      cases text' with
      | nil => cases h'
      | cons c' text' =>
        simp only [Spells, List.map_cons, List.cons.injEq] at h h'
        rw [hinj c c' digit h.1 h'.1, ih h.2 h'.2]

theorem toByteArray_ofAscii {chars : List Char} (h : ∀ c ∈ chars, c.toNat < 128) :
    (String.ofList chars).toByteArray.data.toList = chars.map Char.toUInt8 := by
  induction chars with
  | nil => simp
  | cons c chars ih =>
    have hc : c.toNat < 128 := h c List.mem_cons_self
    have hrest := ih fun d hd => h d (List.mem_cons_of_mem _ hd)
    have hsize : c.utf8Size = 1 := by
      apply Char.utf8Size_eq_one_iff.mpr
      apply UInt32.le_iff_toNat_le.mpr
      exact Nat.le_of_lt_succ hc
    simp only [String.toByteArray_ofList] at hrest ⊢
    rw [List.utf8Encode_cons, List.utf8Encode_singleton, String.utf8EncodeChar_eq_singleton hsize]
    simp [hrest]

/-- What is written spells its digits. -/
theorem spells_base64url (bytes : List UInt8) :
    Spells (base64url bytes).toByteArray.data.toList (sextetsOf bytes) := by
  have hlt := (padded_sextetsOf bytes).digits_lt
  rw [base64url, toByteArray_ofAscii]
  · simp only [Spells, List.map_map]
    exact List.map_congr_left fun sextet hsextet => (sextetOf_alphabet sextet (hlt _ hsextet)).1
  · intro c hc
    obtain ⟨sextet, hsextet, rfl⟩ := List.mem_map.mp hc
    exact (sextetOf_alphabet sextet (hlt _ hsextet)).2

theorem low_bits_eq (buffer bits : Nat) : buffer &&& (1 <<< bits - 1) = buffer % 2 ^ bits := by
  rw [Nat.one_shiftLeft]
  exact Nat.and_two_pow_sub_one_eq_mod _ _

/-- A text is read as the bytes that its digits are the padded ones of. -/
theorem fromBase64url_eq_some {text : String} {bytes : List UInt8} :
    fromBase64url text = some bytes ↔
      ∃ digits, Spells text.toByteArray.data.toList digits ∧ Padded 6 8 (octets bytes) digits := by
  have hnil : Repacks 6 8 [] ⟨[], 0, 0⟩ := repacks_repack (by decide) (by decide) (by simp)
  have hstart : Follows ⟨0, 0, []⟩ ⟨[], 0, 0⟩ := ⟨by decide, rfl, rfl, rfl⟩
  unfold fromBase64url
  cases hdecoded : decodeBytes text.toByteArray.data.toList ⟨0, 0, []⟩ with
  | none =>
    simp only [reduceCtorEq, false_iff]
    intro hspelt
    obtain ⟨digits, hdigits, -⟩ := hspelt
    obtain ⟨s', hs'⟩ := decodeBytes_of_spells hdigits ⟨0, 0, []⟩
    rw [hdecoded] at hs'
    cases hs'
  | some s =>
    obtain ⟨digits, hdigits, hfollows⟩ := decodeBytes_eq_some hnil hstart hdecoded
    have hrepacks := repacks_repack (m := 6) (n := 8) (by decide) (by decide) hdigits.lt
    have hexact : s.bits < 6 ∧ s.buffer &&& (1 <<< s.bits - 1) = 0 ↔
        (repack 6 8 digits).left = 0 ∧ (repack 6 8 digits).bits < 6 := by
      rw [low_bits_eq, hfollows.left_eq, hfollows.bits_eq]
      exact and_comm
    have hpadded (out : List Nat) : Padded 6 8 out digits ↔
        ((repack 6 8 digits).left = 0 ∧ (repack 6 8 digits).bits < 6) ∧
          (repack 6 8 digits).out = out :=
      hrepacks.padded_iff hdigits.lt (by decide)
    simp only [hexact]
    constructor
    · intro h
      split at h
      next hnothing =>
        cases h
        exact ⟨digits, hdigits, (hpadded _).mpr ⟨hnothing, hfollows.out_eq.symm⟩⟩
      · cases h
    · intro h
      obtain ⟨digits', hdigits', hpadded'⟩ := h
      rw [← hdigits.unique hdigits'] at hpadded'
      obtain ⟨hnothing, hsame⟩ := (hpadded _).mp hpadded'
      rw [if_pos hnothing]
      have hout : octets s.out = octets bytes := hfollows.out_eq.trans hsame
      exact congrArg some (List.map_injective_iff.mpr (fun _ _ => UInt8.toNat_inj.mp) hout)

/-- **Base64url is canonical.** -/
theorem fromBase64url_iff (text : String) (bytes : List UInt8) :
    fromBase64url text = some bytes ↔ text = base64url bytes := by
  rw [fromBase64url_eq_some]
  constructor
  · intro h
    obtain ⟨digits, hdigits, hpadded⟩ := h
    have hsame := hpadded.unique (by decide) (padded_sextetsOf bytes)
    rw [hsame] at hdigits
    have hbytes := hdigits.text_unique (spells_base64url bytes)
    apply String.toByteArray_inj.mp
    exact ByteArray.ext (Array.toList_inj.mp hbytes)
  · intro h
    rw [h]
    exact ⟨_, spells_base64url bytes, padded_sextetsOf bytes⟩

end Opca.Acme
