/-
  Foundation/Utf8.lean --- bytes read as UTF-8 with whatever is none replaced, as
  `String::from_utf8_lossy` reads them, and the spaces at the end of what was read.
-/
import Opca.Foundation.Text

set_option autoImplicit false

namespace Opca.Foundation.Utf8

/-- The bytes of a text. -/
def encode (chars : List Char) : List UInt8 := chars.flatMap String.utf8EncodeChar

/-- U+FFFD. -/
def replacement : Char := '\uFFFD'

def isContinuation (b : UInt8) : Bool := 0x80 ≤ b.toNat && b.toNat ≤ 0xbf

/-- Whether a character may begin with these two bytes, and go on after them. -/
def mayBegin (first second : UInt8) : Bool :=
  let a := first.toNat
  let b := second.toNat
  if a = 0xe0 then 0xa0 ≤ b && b ≤ 0xbf
  else if a = 0xed then 0x80 ≤ b && b ≤ 0x9f
  else if a = 0xf0 then 0x90 ≤ b && b ≤ 0xbf
  else if a = 0xf4 then 0x80 ≤ b && b ≤ 0x8f
  else 0xe1 ≤ a && a ≤ 0xf3 && 0x80 ≤ b && b ≤ 0xbf

/-- How many bytes are replaced where no character stands: as many as one might begin with. -/
def broken : List UInt8 → Nat
  | first :: second :: third :: _ =>
    if mayBegin first second then
      if 0xf0 ≤ first.toNat && isContinuation third then 3 else 2
    else 1
  | [first, second] => if mayBegin first second then 2 else 1
  | _ => 1

theorem broken_pos (bytes : List UInt8) : 0 < broken bytes := by
  unfold broken
  split
  · split
    · split <;> simp
    · simp
  · split <;> simp
  · simp

/-- The first character of the bytes, and the bytes after it. -/
def next (bytes : List UInt8) : Char × List UInt8 :=
  match bytes.toByteArray.utf8DecodeChar? 0 with
  | some c => (c, bytes.drop c.utf8Size)
  | none => (replacement, bytes.drop (broken bytes))

theorem length_next {bytes : List UInt8} (h : bytes ≠ []) :
    (next bytes).2.length < bytes.length := by
  have hpos := List.length_pos_of_ne_nil h
  unfold next
  split
  next c hc =>
    have hsize := c.utf8Size_pos
    simp only [List.length_drop]
    omega
  · have hbroken := broken_pos bytes
    simp only [List.length_drop]
    omega

/-- `String::from_utf8_lossy`. -/
def fromUtf8Lossy (bytes : List UInt8) : List Char :=
  if _h : bytes = [] then []
  else (next bytes).1 :: fromUtf8Lossy (next bytes).2
termination_by bytes.length
decreasing_by exact length_next _h

@[simp] theorem fromUtf8Lossy_nil : fromUtf8Lossy [] = [] := by
  rw [fromUtf8Lossy]
  simp

theorem fromUtf8Lossy_of_ne_nil {bytes : List UInt8} (h : bytes ≠ []) :
    fromUtf8Lossy bytes = (next bytes).1 :: fromUtf8Lossy (next bytes).2 := by
  rw [fromUtf8Lossy, dif_neg h]

/-! ## Texts -/

theorem next_encodeChar (c : Char) (rest : List UInt8) :
    next (String.utf8EncodeChar c ++ rest) = (c, rest) := by
  unfold next
  rw [List.toByteArray_append, ByteArray.utf8DecodeChar?_utf8EncodeChar_append]
  simp only [List.drop_left' (String.length_utf8EncodeChar c)]

/-- A text is read as it stands. -/
theorem fromUtf8Lossy_encode (chars : List Char) : fromUtf8Lossy (encode chars) = chars := by
  induction chars with
  | nil => simp [encode]
  | cons c chars ih =>
    have hcons : encode (c :: chars) = String.utf8EncodeChar c ++ encode chars := by
      simp [encode]
    have hne : encode (c :: chars) ≠ [] := by
      rw [hcons]
      apply List.append_ne_nil_of_left_ne_nil
      apply List.ne_nil_of_length_pos
      rw [String.length_utf8EncodeChar]
      exact c.utf8Size_pos
    rw [fromUtf8Lossy_of_ne_nil hne, hcons, next_encodeChar, ih]

/-- What was not replaced stands there. -/
theorem next_eq (bytes : List UInt8) : (next bytes).1 = replacement ∨
    bytes = String.utf8EncodeChar (next bytes).1 ++ (next bytes).2 := by
  unfold next
  split
  next c hc =>
    right
    obtain ⟨rest, hbytes⟩ := ByteArray.exists_of_utf8DecodeChar?_eq_some hc
    have hsplit : bytes = String.utf8EncodeChar c ++ rest.data.toList := by
      have hlist := congrArg (fun b : ByteArray => b.data.toList) hbytes
      simpa using hlist
    have hdrop : (String.utf8EncodeChar c ++ rest.data.toList).drop c.utf8Size =
        rest.data.toList := List.drop_left' (String.length_utf8EncodeChar c)
    simp only
    conv_rhs => rw [hsplit, hdrop]
    exact hsplit
  · exact .inl rfl

theorem encode_fromUtf8Lossy {bytes : List UInt8} (h : replacement ∉ fromUtf8Lossy bytes) :
    encode (fromUtf8Lossy bytes) = bytes := by
  induction bytes using fromUtf8Lossy.induct with
  | case1 => simp [encode]
  | case2 bytes hne ih =>
    rw [fromUtf8Lossy_of_ne_nil hne] at h ⊢
    simp only [List.mem_cons, not_or] at h
    rcases next_eq bytes with hreplaced | hbytes
    · exact absurd hreplaced.symm h.1
    · have hrest := ih h.2
      simp only [encode, List.flatMap_cons] at hrest ⊢
      rw [hrest]
      exact hbytes.symm

/-- A text without replacements is read from its own bytes only. -/
theorem fromUtf8Lossy_iff {bytes : List UInt8} {chars : List Char} (h : replacement ∉ chars) :
    fromUtf8Lossy bytes = chars ↔ bytes = encode chars := by
  constructor
  · intro hread
    rw [← hread] at h ⊢
    exact (encode_fromUtf8Lossy h).symm
  · intro hbytes
    rw [hbytes, fromUtf8Lossy_encode]

/-! ## Spaces -/

/-- `str::trim_end`. -/
def trimEnd (chars : List Char) : List Char := chars.rdropWhile isWhiteSpace

theorem trimEnd_append {text spaces : List Char} (h : ∀ c ∈ spaces, isWhiteSpace c = true) :
    trimEnd (text ++ spaces) = trimEnd text := by
  induction spaces using List.reverseRecOn with
  | nil => simp
  | append_singleton spaces c ih =>
    have hc : isWhiteSpace c = true := h c (by simp)
    rw [trimEnd, ← List.append_assoc, List.rdropWhile_concat_pos _ _ _ hc]
    exact ih fun d hd => h d (by simp [hd])

/-- A text that ends in no space comes of itself with spaces put on. -/
theorem trimEnd_eq_iff {chars text : List Char} (h : trimEnd text = text) :
    trimEnd chars = text ↔ ∃ spaces, (∀ c ∈ spaces, isWhiteSpace c = true) ∧
      chars = text ++ spaces := by
  constructor
  · intro htrim
    refine ⟨chars.rtakeWhile isWhiteSpace, fun c hc => List.mem_rtakeWhile_imp hc, ?_⟩
    rw [← htrim]
    exact (List.rdropWhile_append_rtakeWhile ..).symm
  · intro hspaces
    obtain ⟨spaces, hspaces, rfl⟩ := hspaces
    rw [trimEnd_append hspaces, h]

end Opca.Foundation.Utf8
