/-
  Foundation/Text.lean --- texts as the Rust standard library reads and writes
  them: ASCII case, prefixes and suffixes, ordered sets, dot-separated labels
  and unsigned numbers in decimal.
-/
import Mathlib.Algebra.Order.Ring.Int
import Mathlib.Data.Char
import Mathlib.Data.List.DropRight
import Mathlib.Data.List.Dedup
import Mathlib.Data.List.Sort
import Mathlib.Data.String.Basic

set_option autoImplicit false

namespace Opca.Foundation

/-! ## Prefixes, suffixes and trimming -/

/-- `str::trim_end_matches` with one character. -/
def trimEndMatches (c : Char) (s : String) : String :=
  String.ofList (s.toList.rdropWhile (· == c))

/-- A text without the character at its end is left as it is. -/
theorem trimEndMatches_of_not_ends {c : Char} {s : String}
    (h : s.toList.getLast? ≠ some c) : trimEndMatches c s = s := by
  unfold trimEndMatches
  have hkeep : s.toList.rdropWhile (· == c) = s.toList := by
    rw [List.rdropWhile_eq_self_iff]
    intro hne hlast
    refine h ?_
    rw [List.getLast?_eq_some_getLast hne]
    exact congrArg some (by simpa using hlast)
  rw [hkeep, String.ofList_toList]

/-- `char::is_whitespace`: the characters with the property `White_Space`. -/
def isWhiteSpace (c : Char) : Bool :=
  let n := c.toNat
  (0x9 ≤ n && n ≤ 0xD) || n = 0x20 || n = 0x85 || n = 0xA0 || n = 0x1680 ||
    (0x2000 ≤ n && n ≤ 0x200A) || n = 0x2028 || n = 0x2029 || n = 0x202F || n = 0x205F ||
    n = 0x3000

/-- `str::trim`. -/
def trim (s : String) : String :=
  String.ofList ((s.toList.dropWhile isWhiteSpace).rdropWhile isWhiteSpace)

theorem trim_of_not_whiteSpace {s : String} (h : ∀ c ∈ s.toList, isWhiteSpace c = false) :
    trim s = s := by
  have hfront : s.toList.dropWhile isWhiteSpace = s.toList := by
    rw [List.dropWhile_eq_self_iff]
    intro hpos
    rw [h _ (List.getElem_mem hpos)]
    exact Bool.false_ne_true
  have hback : s.toList.rdropWhile isWhiteSpace = s.toList := by
    rw [List.rdropWhile_eq_self_iff]
    intro hne
    rw [h _ (List.getLast_mem hne)]
    exact Bool.false_ne_true
  unfold trim
  rw [hfront, hback, String.ofList_toList]

/-- `str::strip_prefix`. -/
def stripPrefix (pre s : String) : Option String :=
  if pre.toList.isPrefixOf s.toList then
    some (String.ofList (s.toList.drop pre.length))
  else none

theorem stripPrefix_eq_some {pre s t : String} (h : stripPrefix pre s = some t) :
    s = pre ++ t := by
  unfold stripPrefix at h
  split at h
  next hpre =>
    cases h
    obtain ⟨rest, hrest⟩ := List.isPrefixOf_iff_prefix.mp hpre
    refine String.toList_inj.mp ?_
    rw [String.toList_append, String.toList_ofList, ← hrest, ← String.length_toList,
      List.drop_left]
  next => cases h

theorem stripPrefix_append (pre s : String) : stripPrefix pre (pre ++ s) = some s := by
  unfold stripPrefix
  have hpre : pre.toList.isPrefixOf (pre ++ s).toList = true := by
    rw [String.toList_append, List.isPrefixOf_iff_prefix]
    exact List.prefix_append ..
  rw [if_pos hpre, String.toList_append, ← String.length_toList, List.drop_left,
    String.ofList_toList]

/-- `str::ends_with`. -/
def endsWith (s suffix : String) : Bool :=
  suffix.toList.isSuffixOf s.toList

theorem endsWith_iff {s suffix : String} :
    endsWith s suffix = true ↔ ∃ t : String, s = t ++ suffix := by
  unfold endsWith
  rw [List.isSuffixOf_iff_suffix]
  constructor
  · rintro ⟨rest, hrest⟩
    refine ⟨String.ofList rest, String.toList_inj.mp ?_⟩
    rw [String.toList_append, String.toList_ofList, hrest]
  · rintro ⟨t, rfl⟩
    exact ⟨t.toList, String.toList_append.symm⟩

/-! ## ASCII case -/

/-- `str::to_ascii_lowercase`. -/
def toAsciiLowercase (s : String) : String :=
  String.ofList (s.toList.map Char.toLower)

theorem toLower_toLower (c : Char) : c.toLower.toLower = c.toLower := by
  unfold Char.toLower
  split
  next h =>
    have hlow : 65 ≤ c.val.toNat := UInt32.le_iff_toNat_le.mp h.1
    have hhigh : c.val.toNat ≤ 90 := UInt32.le_iff_toNat_le.mp h.2
    have hsum : (c.val + ('a'.val - 'A'.val)).toNat = c.val.toNat + 32 := by
      rw [UInt32.toNat_add]
      have hdiff : ('a'.val - 'A'.val).toNat = 32 := by decide
      rw [hdiff]
      omega
    rw [dif_neg]
    rintro ⟨-, hle⟩
    have hle' : (c.val + ('a'.val - 'A'.val)).toNat ≤ 90 :=
      UInt32.le_iff_toNat_le.mp hle
    omega
  next => rfl

theorem toAsciiLowercase_idem (s : String) :
    toAsciiLowercase (toAsciiLowercase s) = toAsciiLowercase s := by
  unfold toAsciiLowercase
  rw [String.toList_ofList, List.map_map]
  congr 1
  refine List.map_congr_left ?_
  intro c _
  exact toLower_toLower c

theorem toAsciiLowercase_append (s t : String) :
    toAsciiLowercase (s ++ t) = toAsciiLowercase s ++ toAsciiLowercase t := by
  refine String.toList_inj.mp ?_
  simp only [toAsciiLowercase, String.toList_ofList, String.toList_append,
    List.map_append]

/-! ## ASCII texts -/

theorem toNat_of_isAlphanum {c : Char} (h : c.isAlphanum = true) :
    48 ≤ c.toNat ∧ c.toNat ≤ 122 := by
  unfold Char.isAlphanum Char.isAlpha Char.isUpper Char.isLower Char.isDigit at h
  simp only [Bool.or_eq_true, Bool.and_eq_true, decide_eq_true_eq, ge_iff_le,
    UInt32.le_iff_toNat_le] at h
  have hval : c.toNat = c.val.toNat := rfl
  simp at h
  omega

/-- An ASCII text has as many bytes as characters. -/
theorem utf8ByteSize_of_ascii {cs : List Char} (h : ∀ c ∈ cs, c.toNat < 128) :
    (String.ofList cs).utf8ByteSize = cs.length := by
  induction cs with
  | nil => rfl
  | cons c cs ih =>
    have hc : c.utf8Size = 1 := by
      unfold Char.utf8Size
      rw [if_pos]
      rw [UInt32.le_iff_toNat_le]
      exact Nat.le_of_lt_succ (h c List.mem_cons_self)
    rw [String.ofList_cons, String.utf8ByteSize_append, String.utf8ByteSize_singleton, hc,
      ih fun c hc => h c (List.mem_cons_of_mem _ hc), List.length_cons, Nat.add_comm]

/-! ## Ordered sets -/

/-- The `BTreeSet` collected from a list, as its elements in order. -/
def btreeSet (xs : List String) : List String :=
  xs.dedup.insertionSort (· ≤ ·)

theorem mem_btreeSet {xs : List String} {x : String} : x ∈ btreeSet xs ↔ x ∈ xs := by
  unfold btreeSet
  rw [List.mem_insertionSort, List.mem_dedup]

/-- A set is made of its elements, however they were listed. -/
theorem btreeSet_congr {xs ys : List String} (h : ∀ x, x ∈ xs ↔ x ∈ ys) :
    btreeSet xs = btreeSet ys := by
  have hperm : xs.dedup.Perm ys.dedup := by
    rw [List.perm_ext_iff_of_nodup xs.nodup_dedup ys.nodup_dedup]
    intro x
    rw [List.mem_dedup, List.mem_dedup]
    exact h x
  have hsorted : ((xs.dedup).insertionSort (· ≤ ·)).Perm ((ys.dedup).insertionSort (· ≤ ·)) :=
    (List.perm_insertionSort _ _).trans (hperm.trans (List.perm_insertionSort _ _).symm)
  exact hsorted.eq_of_pairwise' (List.pairwise_insertionSort _ _)
    (List.pairwise_insertionSort _ _)

/-! ## Labels -/

/-- The labels of a dotted name, the leftmost first. -/
def labels (s : String) : List (List Char) := s.toList.splitOn '.'

/-- What is put before a dot only adds labels on the left. -/
theorem labels_append_dot (s t : String) :
    labels (s ++ "." ++ t) = labels s ++ labels t := by
  unfold labels
  have hlist : (s ++ "." ++ t).toList = s.toList ++ '.' :: t.toList := by
    simp [String.toList_append]
  rw [hlist, List.splitOn_append_cons_self]

theorem mem_intercalate {α : Type} {sep : List α} {x : α} :
    ∀ {parts : List (List α)}, x ∈ sep.intercalate parts → x ∈ sep ∨ ∃ part ∈ parts, x ∈ part
  | [], h => by
      rw [List.intercalate_nil] at h
      cases h
  | [part], h => by
      rw [List.intercalate_singleton] at h
      exact .inr ⟨part, List.mem_cons_self, h⟩
  | part :: next :: parts, h => by
      rw [List.intercalate_cons_cons, List.mem_append, List.mem_append] at h
      rcases h with (hpart | hsep) | hrest
      · exact .inr ⟨part, List.mem_cons_self, hpart⟩
      · exact .inl hsep
      · obtain hsep | ⟨part', hmem, hx⟩ := mem_intercalate hrest
        · exact .inl hsep
        · exact .inr ⟨part', List.mem_cons_of_mem part hmem, hx⟩

/-- A character of a text is a dot, or in one of its labels. -/
theorem mem_labels {s : String} {c : Char} (hc : c ∈ s.toList) (hdot : c ≠ '.') :
    ∃ label ∈ labels s, c ∈ label := by
  have hjoin : ['.'].intercalate (labels s) = s.toList := List.intercalate_splitOn '.'
  rw [← hjoin] at hc
  refine (mem_intercalate hc).resolve_left ?_
  rwa [List.mem_singleton]

/-! ## Unsigned numbers -/

/-- The digits an unsigned number's text is read from: an optional leading
`+` is skipped. -/
def unsignedDigits : List Char → List Char
  | '+' :: rest => rest
  | cs => cs

/-- `str::parse` for an unsigned integer of `w` bits: decimal digits, at least
one of them, whose value fits. -/
def parseUnsigned (w : Nat) (s : String) : Option Nat :=
  let digits := unsignedDigits s.toList
  if digits ≠ [] ∧ digits.all Char.isDigit then
    let n := Nat.ofDigitChars 10 digits 0
    if n < 2 ^ w then some n else none
  else none

/-- The decimal digits of a number are digits, and none of them is a sign. -/
theorem unsignedDigits_toDigits (n : Nat) :
    unsignedDigits (Nat.toDigits 10 n) = Nat.toDigits 10 n := by
  cases hdigits : Nat.toDigits 10 n with
  | nil => rfl
  | cons d ds =>
    have hmem : d ∈ Nat.toDigits 10 n := by
      rw [hdigits]
      exact List.mem_cons_self
    have hd : d.isDigit :=
      Nat.isDigit_of_mem_toDigits (by decide) (by decide) hmem
    unfold unsignedDigits
    split
    · rename_i heq
      cases heq
      exact absurd hd (by decide)
    · rfl

theorem toList_repr (n : Nat) : (Nat.repr n).toList = Nat.toDigits 10 n := by
  simp [Nat.repr]

theorem all_isDigit_toDigits (n : Nat) : (Nat.toDigits 10 n).all Char.isDigit = true := by
  rw [List.all_eq_true]
  intro c hc
  exact Nat.isDigit_of_mem_toDigits (by decide) (by decide) hc

/-- What `to_string` writes for a number, `parse` reads back if it fits. -/
theorem parseUnsigned_repr_eq (w n : Nat) :
    parseUnsigned w (Nat.repr n) = if n < 2 ^ w then some n else none := by
  have hne : Nat.toDigits 10 n ≠ [] := Nat.toDigits_ne_nil
  simp only [parseUnsigned, toList_repr, unsignedDigits_toDigits, hne, all_isDigit_toDigits,
    Nat.ofDigitChars_ten_toDigits, ne_eq, not_false_eq_true, and_self, if_true]

theorem parseUnsigned_repr {w n : Nat} (hn : n < 2 ^ w) :
    parseUnsigned w (Nat.repr n) = some n := by
  rw [parseUnsigned_repr_eq, if_pos hn]

/-! ## Signed numbers -/

/-- `str::parse` for a signed integer of `w` bits. -/
def parseSigned (w : Nat) (s : String) : Option Int :=
  match s.toList with
  | '-' :: digits =>
    if digits ≠ [] ∧ digits.all Char.isDigit ∧ Nat.ofDigitChars 10 digits 0 ≤ 2 ^ (w - 1) then
      some (-(Nat.ofDigitChars 10 digits 0 : Int))
    else none
  | _ => (parseUnsigned (w - 1) s).map Int.ofNat

theorem parseSigned_repr (w n : Nat) :
    parseSigned w (Nat.repr n) = if n < 2 ^ (w - 1) then some (n : Int) else none := by
  unfold parseSigned
  split
  next digits hdigits =>
    -- a sign is no digit
    have hdigit : Char.isDigit '-' = true := by
      refine List.all_eq_true.mp (all_isDigit_toDigits n) '-' ?_
      rw [← toList_repr, hdigits]
      exact List.mem_cons_self
    exact absurd hdigit (by decide)
  next =>
    rw [parseUnsigned_repr_eq]
    split <;> rfl

theorem parseSigned_neg_repr (w n : Nat) :
    parseSigned w ("-" ++ Nat.repr n) =
      if n ≤ 2 ^ (w - 1) then some (-(n : Int)) else none := by
  have hlist : ("-" ++ Nat.repr n).toList = '-' :: Nat.toDigits 10 n := by
    rw [String.toList_append, toList_repr]
    rfl
  have hne : Nat.toDigits 10 n ≠ [] := Nat.toDigits_ne_nil
  simp only [parseSigned, hlist, hne, all_isDigit_toDigits, Nat.ofDigitChars_ten_toDigits,
    ne_eq, not_false_eq_true, true_and]

/-- What `to_string` writes, `parse` reads back if it fits, and not at all if it does
not. -/
theorem parseSigned_toString (w : Nat) (n : Int) :
    parseSigned w (toString n) =
      if -2 ^ (w - 1) ≤ n ∧ n < 2 ^ (w - 1) then some n else none := by
  have hpow : (2 : Int) ^ (w - 1) = ((2 ^ (w - 1) : Nat) : Int) := by norm_cast
  cases n with
  | ofNat k =>
    have hfits : (-2 ^ (w - 1) ≤ Int.ofNat k ∧ Int.ofNat k < 2 ^ (w - 1)) ↔ k < 2 ^ (w - 1) := by
      rw [hpow, Int.ofNat_eq_natCast]
      omega
    rw [show toString (Int.ofNat k) = Nat.repr k from rfl, parseSigned_repr, if_congr hfits rfl rfl]
    rfl
  | negSucc k =>
    have hfits : (-2 ^ (w - 1) ≤ Int.negSucc k ∧ Int.negSucc k < 2 ^ (w - 1)) ↔
        k + 1 ≤ 2 ^ (w - 1) := by
      rw [hpow, Int.negSucc_eq]
      omega
    rw [show toString (Int.negSucc k) = "-" ++ Nat.repr (k + 1) from rfl, parseSigned_neg_repr,
      if_congr hfits rfl rfl]
    rfl

theorem toString_ne_empty (n : Int) : toString n ≠ "" := by
  intro h
  have hlist := congrArg String.toList h
  cases n with
  | ofNat k =>
    rw [show toString (Int.ofNat k) = Nat.repr k from rfl, toList_repr] at hlist
    exact Nat.toDigits_ne_nil hlist
  | negSucc k =>
    rw [show toString (Int.negSucc k) = "-" ++ Nat.repr (k + 1) from rfl,
      String.toList_append] at hlist
    cases hlist

end Opca.Foundation
