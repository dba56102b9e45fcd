/-
  Core/San.lean --- a subject alternative name as it is read from a text
  (`services/san.rs`).

  A slice of a text at a byte inside a character panics; what may panic is `none` then.
-/
import Opca.Core.Domains
import Opca.Foundation.IpText

set_option autoImplicit false

namespace Opca.Core

open Opca.Foundation

namespace San

/-! ## Texts -/

/-- `str::split_once`, on the characters. -/
def splitOnce (sep : List Char) : List Char → Option (List Char × List Char)
  | [] => if sep = [] then some ([], []) else none
  | c :: cs =>
    if sep.isPrefixOf (c :: cs) then some ([], (c :: cs).drop sep.length)
    else (splitOnce sep cs).map fun (before, after) => (c :: before, after)

/-- The two slices at a byte. -/
def splitAtByte : List Char → Nat → Option (List Char × List Char)
  | cs, 0 => some ([], cs)
  | [], _ + 1 => none
  | c :: cs, n + 1 =>
    if c.utf8Size ≤ n + 1 then
      (splitAtByte cs (n + 1 - c.utf8Size)).map fun (front, rest) => (c :: front, rest)
    else none

/-- `u8::is_ascii_graphic`, of a character's only byte; no byte of another character is. -/
def isAsciiGraphic (c : Char) : Bool := 0x21 ≤ c.toNat && c.toNat ≤ 0x7e

def eqIgnoreAsciiCase (s t : List Char) : Bool := s.map Char.toLower = t.map Char.toLower

/-! ## The names -/

inductive SubjectAltName where
  | dns (v : String)
  | ip (address : IpAddr)
  | email (v : String)
  | uri (v : String)
  deriving DecidableEq

/-- `Display`. -/
def SubjectAltName.text : SubjectAltName → String
  | .dns v | .email v | .uri v => v
  | .ip address => address.text

def isScheme : List Char → Bool
  | [] => false
  | c :: cs => c.isAlpha && cs.all fun c => c.isAlphanum || c ∈ ['+', '-', '.']

/-- Requiring `://` (or `urn:`) keeps `host:port` from reading as a URI. -/
def isUri (v : String) : Option Bool :=
  match splitOnce "://".toList v.toList with
  | some (scheme, rest) =>
    some (isScheme scheme && !rest.isEmpty && v.toList.all isAsciiGraphic)
  | none =>
    if 4 < v.utf8ByteSize then
      (splitAtByte v.toList 4).map fun (front, rest) =>
        eqIgnoreAsciiCase front "urn:".toList && !rest.isEmpty && v.toList.all isAsciiGraphic
    else some false

namespace SubjectAltName

def invalid (v why : String) : OpcaError := .invalidCertificate s!"Invalid SAN '{v}': {why}"

/-- A text that is trimmed: classified as IP, then email (has `@`), then URI
(`scheme://…` or `urn:…`), then DNS name. -/
def ofTrimmed (v : String) : Option (Except OpcaError SubjectAltName) :=
  if v = "" then some (.error (invalid v "empty"))
  else
    match IpAddr.parse v with
    | some address => some (.ok (.ip address))
    | none =>
      match splitOnce ['@'] v.toList with
      | some (localPart, domain) =>
        if localPart.isEmpty || !localPart.all fun c => isAsciiGraphic c && c ≠ '@' then
          some (.error (invalid v "not a valid email address"))
        else if !isDnsName (String.ofList domain) false then
          some (.error (invalid v "email domain is not a valid hostname"))
        else some (.ok (.email v))
      | none =>
        (isUri v).map fun uri =>
          if uri then .ok (.uri v)
          else if isDnsName v true then .ok (.dns v)
          else .error (invalid v "not a valid hostname, IP address, email or URI")

def fromStr (s : String) : Option (Except OpcaError SubjectAltName) := ofTrimmed (trim s)

end SubjectAltName

/-! ## Slices and separators -/

theorem splitOnce_eq_some {sep cs before after : List Char}
    (h : splitOnce sep cs = some (before, after)) : cs = before ++ sep ++ after := by
  induction cs generalizing before with
  | nil =>
    rw [splitOnce] at h
    split at h
    next hsep =>
      cases h
      rw [hsep]
      rfl
    next => cases h
  | cons c cs ih =>
    rw [splitOnce] at h
    split at h
    next hpre =>
      cases h
      obtain ⟨rest, hrest⟩ := List.isPrefixOf_iff_prefix.mp hpre
      rw [← hrest, List.drop_left, List.nil_append]
    next =>
      obtain ⟨⟨before', after'⟩, hrec, heq⟩ := Option.map_eq_some_iff.mp h
      cases heq
      rw [ih hrec]
      rfl

theorem splitOnce_isSome {sep cs : List Char} :
    (splitOnce sep cs).isSome = true ↔ ∃ before after, cs = before ++ sep ++ after := by
  constructor
  · intro h
    obtain ⟨⟨before, after⟩, hsplit⟩ := Option.isSome_iff_exists.mp h
    exact ⟨before, after, splitOnce_eq_some hsplit⟩
  · rintro ⟨before, after, rfl⟩
    induction before with
    | nil =>
      cases hcs : sep ++ after with
      | nil =>
        rw [List.nil_append, hcs, splitOnce, if_pos (List.append_eq_nil_iff.mp hcs).1]
        rfl
      | cons c cs =>
        have hpre : sep.isPrefixOf (c :: cs) = true := by
          rw [← hcs]
          exact List.isPrefixOf_iff_prefix.mpr (List.prefix_append sep after)
        rw [List.nil_append, hcs, splitOnce, if_pos hpre]
        rfl
    | cons c before ih =>
      rw [List.cons_append, List.cons_append, splitOnce]
      split
      · rfl
      · rw [Option.isSome_map]
        exact ih

/-- A byte of a text at which a character starts, or the text ends. -/
def IsCharBoundary (n : Nat) (v : String) : Prop :=
  ∃ front rest : String, v = front ++ rest ∧ front.utf8ByteSize = n

theorem splitAtByte_isSome {n : Nat} {cs : List Char} :
    (splitAtByte cs n).isSome = true ↔
      ∃ front rest, cs = front ++ rest ∧ (String.ofList front).utf8ByteSize = n := by
  induction cs generalizing n with
  | nil =>
    cases n with
    | zero =>
      rw [splitAtByte]
      exact ⟨fun _ => ⟨[], [], rfl, rfl⟩, fun _ => rfl⟩
    | succ n =>
      rw [splitAtByte]
      refine ⟨fun h => (Bool.false_ne_true h).elim, ?_⟩
      rintro ⟨front, rest, happend, hsize⟩
      rw [(List.append_eq_nil_iff.mp happend.symm).1] at hsize
      cases hsize
  | cons c cs ih =>
    cases n with
    | zero =>
      rw [splitAtByte]
      exact ⟨fun _ => ⟨[], c :: cs, rfl, rfl⟩, fun _ => rfl⟩
    | succ n =>
      have hcons (front : List Char) : (String.ofList (c :: front)).utf8ByteSize =
          c.utf8Size + (String.ofList front).utf8ByteSize := by
        rw [String.ofList_cons, String.utf8ByteSize_append, String.utf8ByteSize_singleton]
      rw [splitAtByte]
      constructor
      · intro h
        split at h
        next hle =>
          rw [Option.isSome_map] at h
          obtain ⟨front, rest, hcs, hsize⟩ := ih.mp h
          refine ⟨c :: front, rest, by rw [hcs]; rfl, ?_⟩
          rw [hcons, hsize]
          omega
        next => cases h
      · rintro ⟨front, rest, happend, hsize⟩
        cases front with
        | nil => cases hsize
        | cons d front =>
          obtain ⟨rfl, hcs⟩ := List.cons.inj happend
          rw [hcons] at hsize
          rw [if_pos (by omega), Option.isSome_map, ih]
          exact ⟨front, rest, hcs, by omega⟩

theorem splitAtByte_isSome_iff {n : Nat} {v : String} :
    (splitAtByte v.toList n).isSome = true ↔ IsCharBoundary n v := by
  rw [splitAtByte_isSome]
  constructor
  · rintro ⟨front, rest, hv, hsize⟩
    refine ⟨.ofList front, .ofList rest, ?_, hsize⟩
    rw [← String.ofList_append, ← hv, String.ofList_toList]
  · rintro ⟨front, rest, rfl, hsize⟩
    exact ⟨front.toList, rest.toList, String.toList_append, by rwa [String.ofList_toList]⟩

/-! ## Trimming -/

theorem dropWhile_rdropWhile {p : Char → Bool} (cs : List Char) :
    ((cs.dropWhile p).rdropWhile p).dropWhile p = (cs.dropWhile p).rdropWhile p := by
  rw [List.dropWhile_eq_self_iff]
  intro hpos hhead
  obtain ⟨more, hmore⟩ := List.rdropWhile_prefix p (cs.dropWhile p)
  have hlen : 0 < (cs.dropWhile p).length := by
    rw [← hmore, List.length_append]
    omega
  refine List.dropWhile_get_zero_not p cs hlen ?_
  rw [← hhead]
  refine congrArg p ?_
  rw [List.get_eq_getElem]
  exact List.getElem_of_eq hmore.symm hlen |>.trans (List.getElem_append_left hpos)

theorem trim_trim (s : String) : trim (trim s) = trim s := by
  unfold trim
  rw [String.toList_ofList, dropWhile_rdropWhile, List.rdropWhile_idempotent]

theorem isWhiteSpace_toDigits {radix n : Nat} {c : Char} (hbase : 1 < radix)
    (hradix : radix ≤ 16) (hc : c ∈ Nat.toDigits radix n) : isWhiteSpace c = false := by
  obtain ⟨ds, hds⟩ := IpAddr.exists_digitsOf hbase n
  rw [hds.text] at hc
  obtain ⟨d, hd, rfl⟩ := List.mem_map.mp hc
  have hall : ∀ d : Fin 16, isWhiteSpace (Nat.digitChar d) = false := by decide
  exact hall ⟨d, (hds.below d hd).trans_le hradix⟩

theorem isWhiteSpace_ipv4Text {a b c d : Nat} {x : Char}
    (hx : x ∈ IpAddr.ipv4Text a b c d) : isWhiteSpace x = false := by
  have hdigits {n : Nat} (h : x ∈ Nat.toDigits 10 n) : isWhiteSpace x = false :=
    isWhiteSpace_toDigits (by decide) (by decide) h
  simp only [IpAddr.ipv4Text, List.mem_append, List.mem_cons] at hx
  rcases hx with hx | rfl | hx | rfl | hx | rfl | hx
  all_goals first | exact hdigits hx | rfl

theorem isWhiteSpace_fmtSubslice {groups : List Nat} {x : Char}
    (hx : x ∈ IpAddr.fmtSubslice groups) : isWhiteSpace x = false := by
  have hdigits {n : Nat} (h : x ∈ Nat.toDigits 16 n) : isWhiteSpace x = false :=
    isWhiteSpace_toDigits (by decide) (by decide) h
  cases groups with
  | nil => cases hx
  | cons group groups =>
    simp only [IpAddr.fmtSubslice, IpAddr.afterColons, List.mem_append, List.mem_flatMap,
      List.mem_cons] at hx
    rcases hx with hx | ⟨g, -, rfl | hx⟩
    · exact hdigits hx
    · rfl
    · exact hdigits hx

theorem trim_ipText (ip : IpAddr) : trim ip.text = ip.text := by
  refine trim_of_not_whiteSpace fun x hx => ?_
  cases ip with
  | v4 a b c d =>
    rw [IpAddr.text, String.toList_ofList] at hx
    exact isWhiteSpace_ipv4Text hx
  | v6 groups =>
    have hcolons {cs : List Char} (hall : cs.all (!isWhiteSpace ·) = true) (h : x ∈ cs) :
        isWhiteSpace x = false := by
      simpa using List.all_eq_true.mp hall x h
    rw [IpAddr.text, String.toList_ofList] at hx
    unfold IpAddr.ipv6Text at hx
    split at hx
    · rcases List.mem_append.mp hx with hx | hx
      · exact hcolons rfl hx
      · exact isWhiteSpace_ipv4Text hx
    · split at hx
      · rcases List.mem_append.mp hx with hx | hx
        · rcases List.mem_append.mp hx with hx | hx
          · exact isWhiteSpace_fmtSubslice hx
          · exact hcolons rfl hx
        · exact isWhiteSpace_fmtSubslice hx
      · exact isWhiteSpace_fmtSubslice hx

/-! ## Reading a name -/

namespace SubjectAltName

/-- The slice that a name is looked at with, if it comes to that, is of whole characters. -/
def SliceFits (v : String) : Prop :=
  (IpAddr.parse v).isSome ∨ '@' ∈ v.toList ∨ (∃ scheme rest, v = scheme ++ "://" ++ rest) ∨
    v.utf8ByteSize ≤ 4 ∨ IsCharBoundary 4 v

theorem splitOnce_at {v : String} : (splitOnce ['@'] v.toList).isSome = true ↔
    '@' ∈ v.toList := by
  rw [splitOnce_isSome, List.mem_iff_append]
  simp

theorem splitOnce_scheme {v : String} : (splitOnce "://".toList v.toList).isSome = true ↔
    ∃ scheme rest, v = scheme ++ "://" ++ rest := by
  rw [splitOnce_isSome]
  constructor
  · rintro ⟨before, after, hv⟩
    refine ⟨.ofList before, .ofList after, String.toList_inj.mp ?_⟩
    simp [hv]
  · rintro ⟨scheme, rest, rfl⟩
    exact ⟨scheme.toList, rest.toList, by simp⟩

theorem isUri_isSome {v : String} : (isUri v).isSome = true ↔
    (∃ scheme rest, v = scheme ++ "://" ++ rest) ∨ v.utf8ByteSize ≤ 4 ∨
      IsCharBoundary 4 v := by
  unfold isUri
  rw [← splitOnce_scheme, ← splitAtByte_isSome_iff]
  cases splitOnce "://".toList v.toList with
  | some split => simp
  | none =>
    by_cases hlong : 4 < v.utf8ByteSize
    · simp [hlong, Option.isSome_map]
    · simp [hlong, Nat.le_of_not_lt hlong]

theorem ofTrimmed_isSome {v : String} : (ofTrimmed v).isSome = true ↔ SliceFits v := by
  unfold ofTrimmed SliceFits
  rw [← isUri_isSome, ← splitOnce_at]
  by_cases hempty : v = ""
  · subst hempty
    simp [isUri_isSome]
  · rw [if_neg hempty]
    cases IpAddr.parse v with
    | some address => simp
    | none =>
      cases splitOnce ['@'] v.toList with
      | some split =>
        obtain ⟨localPart, domain⟩ := split
        simp only [Option.isSome_none, Bool.false_eq_true, Option.isSome_some, true_or,
          or_true, iff_true]
        split
        · rfl
        · split <;> rfl
      | none => simp [Option.isSome_map]

/-- Other names than addresses are the text as it was. -/
theorem ofTrimmed_text {v : String} {name : SubjectAltName}
    (h : ofTrimmed v = some (.ok name)) : (∃ ip, name = .ip ip) ∨ name.text = v := by
  unfold ofTrimmed at h
  split at h
  · cases h
  · split at h
    next ip _ =>
      cases h
      exact .inl ⟨ip, rfl⟩
    · split at h
      · split at h
        · cases h
        · split at h
          · cases h
          · cases h
            exact .inr rfl
      · obtain ⟨uri, -, heq⟩ := Option.map_eq_some_iff.mp h
        split at heq
        · cases heq
          exact .inr rfl
        · split at heq
          · cases heq
            exact .inr rfl
          · cases heq

theorem ofTrimmed_ip (ip : IpAddr) : ofTrimmed ip.text = some (.ok (.ip ip)) := by
  have hparse := IpAddr.parse_text ip
  unfold ofTrimmed
  rw [if_neg, hparse]
  intro hempty
  rw [hempty] at hparse
  cases hparse

/-- A name that is read is read again from its text. -/
theorem fromStr_text {s : String} {name : SubjectAltName}
    (h : fromStr s = some (.ok name)) : fromStr name.text = some (.ok name) := by
  unfold fromStr at h ⊢
  rcases ofTrimmed_text h with ⟨ip, rfl⟩ | htext
  · rw [text, trim_ipText]
    exact ofTrimmed_ip ip
  · rw [htext, trim_trim]
    exact h

/-- Reading a name comes to an end, with one that is read again from its text if it is
one, exactly if no character is cut. -/
theorem fromStr_returns_iff (s : String) :
    ((∃ r, fromStr s = some r) ∧
      ∀ name, fromStr s = some (.ok name) → fromStr name.text = some (.ok name)) ↔
      SliceFits (trim s) := by
  rw [← ofTrimmed_isSome, Option.isSome_iff_exists]
  exact ⟨fun h => h.1, fun h => ⟨h, fun _ => fromStr_text⟩⟩

/-- The slice `v[..4]` of this text ends inside its last character. -/
theorem fromStr_panics : ¬ ∃ r, fromStr "abcé" = some r := by
  rw [← Option.isSome_iff_exists]
  decide

end SubjectAltName

end San

end Opca.Core
