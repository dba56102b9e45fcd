/-
  Frontend/San.lean --- a subject alternative name as the front end classifies it, and when
  the back end classifies it alike (`utils/san.ts`, `services/san.rs`).

  The URL parser is a parameter: of a bracketed host it takes the forms of RFC 4291.
-/
import Opca.Core.San
import Opca.Foundation.Ipv6Forms

set_option autoImplicit false

namespace Opca.Frontend

open Opca.Foundation
open Opca.Core (isLabel)
open Opca.Core.San (splitOnce isAsciiGraphic splitAtByte SubjectAltName)

/-! ## The classifier -/

inductive SanKind where
  | dns | ip4 | ip6 | email | uri
  deriving DecidableEq, Repr

/-- What `String.prototype.trim` removes. -/
def isJsWhiteSpace (c : Char) : Bool :=
  let n := c.toNat
  (0x9 ≤ n && n ≤ 0xD) || n = 0x20 || n = 0xA0 || n = 0x1680 ||
    (0x2000 ≤ n && n ≤ 0x200A) || n = 0x2028 || n = 0x2029 || n = 0x202F || n = 0x205F ||
    n = 0x3000 || n = 0xFEFF

def strip (p : Char → Bool) (cs : List Char) : List Char := (cs.dropWhile p).rdropWhile p

/-- `length`, in UTF-16 units. -/
def utf16Length (cs : List Char) : Nat :=
  (cs.map fun c => if c.toNat < 0x10000 then 1 else 2).sum

def isIpv4 (v : List Char) : Bool :=
  let parts := v.splitOn '.'
  parts.length = 4 && parts.all IpAddr.isOctet

/-- `url` says whether `http://[v]/` is a URL. -/
def isIpv6 (url : List Char → Bool) (v : List Char) : Bool :=
  v.contains ':' && v.all IpAddr.isAddressChar && url v

/-- `[A-Za-z0-9](?:[A-Za-z0-9-]{0,61}[A-Za-z0-9])?`. -/
def isDnsLabel : List Char → Bool
  | [] => false
  | c :: cs =>
    c.isAlphanum && (cs.isEmpty || (decide (cs.length ≤ 62) &&
      cs.dropLast.all (fun c => c.isAlphanum || c = '-') && cs.getLast?.any Char.isAlphanum))

def isDnsName (v : List Char) (allowWildcard : Bool) : Bool :=
  let name := if allowWildcard && "*.".toList.isPrefixOf v then v.drop 2 else v
  let labels := name.splitOn '.'
  utf16Length name ≤ 253 &&
    !labels.getLast?.any (fun label => !label.isEmpty && label.all Char.isDigit) &&
    labels.all isDnsLabel

/-- `[A-Za-z][A-Za-z0-9+.-]*`. -/
def isScheme : List Char → Bool
  | [] => false
  | c :: cs => c.isAlpha && cs.all fun c => c.isAlphanum || c ∈ ['+', '.', '-']

def isUri (v : List Char) : Bool :=
  match splitOnce "://".toList v with
  | some (scheme, rest) => isScheme scheme && !rest.isEmpty && v.all isAsciiGraphic
  | none =>
    (v.take 4).map Char.toLower = "urn:".toList && !(v.drop 4).isEmpty && v.all isAsciiGraphic

/-- What is classified once it is trimmed, or what is wrong with it. -/
def classifyTrimmed (url : List Char → Bool) (v : List Char) : Except String SanKind :=
  if v.isEmpty then .error "Enter a hostname, IP address, email or URI"
  else if isIpv4 v then .ok .ip4
  else if isIpv6 url v then .ok .ip6
  else
    match splitOnce ['@'] v with
    | some (localPart, domain) =>
      if localPart.isEmpty || !localPart.all isAsciiGraphic then
        .error "Not a valid email address"
      else if !isDnsName domain false then .error "Email domain is not a valid hostname"
      else .ok .email
    | none =>
      if isUri v then .ok .uri
      else if isDnsName v true then .ok .dns
      else if v.all fun c => c.isDigit || c = '.' then .error "Not a valid IPv4 address"
      else .error "Not a valid hostname, IP address, email or URI"

def classifySan (url : List Char → Bool) (input : String) : Except String SanKind :=
  classifyTrimmed url (strip isJsWhiteSpace input.toList)

/-- Of a host written with address characters, the URL parser takes the forms of RFC 4291. -/
def TakesRfc4291 (url : List Char → Bool) : Prop :=
  ∀ v, (∀ c ∈ v, IpAddr.isAddressChar c = true) → (url v = true ↔ IpAddr.Rfc4291 v)

/-! ## What the back end makes of it -/

def kindOf : SubjectAltName → SanKind
  | .dns _ => .dns
  | .ip (.v4 _ _ _ _) => .ip4
  | .ip (.v6 _) => .ip6
  | .email _ => .email
  | .uri _ => .uri

/-- The kind of the name that is read, if one is. -/
def readKind : Option (Except Core.OpcaError SubjectAltName) → Option SanKind
  | some (.ok name) => some (kindOf name)
  | _ => none

variable {url : List Char → Bool} {v : List Char}

/-! ## Characters -/

theorem isAsciiGraphic_of_isAddressChar {c : Char} (h : IpAddr.isAddressChar c = true) :
    isAsciiGraphic c = true := by
  unfold IpAddr.isAddressChar IpAddr.isHexDigit at h
  unfold isAsciiGraphic
  simp only [Bool.or_eq_true, Bool.and_eq_true, decide_eq_true_eq, IpAddr.le_iff_toNat_le] at h
  rw [Bool.and_eq_true, decide_eq_true_eq, decide_eq_true_eq]
  have h0 : '0'.toNat = 48 := rfl
  have h9 : '9'.toNat = 57 := rfl
  have ha : 'a'.toNat = 97 := rfl
  have hf : 'f'.toNat = 102 := rfl
  have hA : 'A'.toNat = 65 := rfl
  have hF : 'F'.toNat = 70 := rfl
  rcases h with (((h | h) | h) | rfl) | rfl
  · omega
  · omega
  · omega
  · decide
  · decide

theorem isAsciiGraphic_of_isAlphanum {c : Char} (h : c.isAlphanum = true) :
    isAsciiGraphic c = true := by
  unfold Char.isAlphanum Char.isAlpha Char.isUpper Char.isLower Char.isDigit at h
  simp only [Bool.or_eq_true, Bool.and_eq_true, decide_eq_true_eq, ge_iff_le,
    UInt32.le_iff_toNat_le] at h
  unfold isAsciiGraphic
  rw [Bool.and_eq_true, decide_eq_true_eq, decide_eq_true_eq]
  have hval : c.toNat = c.val.toNat := rfl
  simp at h
  omega

theorem isAsciiGraphic_of_label {c : Char} (h : (c.isAlphanum || c = '-') = true) :
    isAsciiGraphic c = true := by
  rcases Bool.or_eq_true_iff.mp h with h | h
  · exact isAsciiGraphic_of_isAlphanum h
  · rw [of_decide_eq_true h]
    decide

/-- A graphic character is one byte, and one UTF-16 unit. -/
theorem utf8Size_of_isAsciiGraphic {c : Char} (h : isAsciiGraphic c = true) : c.utf8Size = 1 := by
  unfold isAsciiGraphic at h
  rw [Bool.and_eq_true, decide_eq_true_eq, decide_eq_true_eq] at h
  unfold Char.utf8Size
  rw [if_pos]
  rw [UInt32.le_iff_toNat_le]
  exact h.2.trans (by decide)

theorem size_of_graphic : ∀ {cs : List Char}, (∀ c ∈ cs, isAsciiGraphic c = true) →
    (String.ofList cs).utf8ByteSize = cs.length ∧ utf16Length cs = cs.length
  | [], _ => ⟨rfl, rfl⟩
  | c :: cs, h => by
    have hc := h c List.mem_cons_self
    obtain ⟨hsize, hlength⟩ := size_of_graphic fun c hc => h c (List.mem_cons_of_mem _ hc)
    have hsmall : c.toNat < 0x10000 := by
      unfold isAsciiGraphic at hc
      rw [Bool.and_eq_true, decide_eq_true_eq, decide_eq_true_eq] at hc
      exact hc.2.trans_lt (by decide)
    constructor
    · rw [String.ofList_cons, String.utf8ByteSize_append, String.utf8ByteSize_singleton, hsize,
        utf8Size_of_isAsciiGraphic hc, List.length_cons, Nat.add_comm]
    · unfold utf16Length at hlength ⊢
      rw [List.map_cons, List.sum_cons, if_pos hsmall, hlength, List.length_cons, Nat.add_comm]

/-! ## Host names -/

theorem isAlphanum_iff {c : Char} :
    c.isAlphanum = true ↔ (c.isAlphanum || c = '-') = true ∧ c ≠ '-' := by
  rw [Bool.or_eq_true, decide_eq_true_eq]
  constructor
  · intro h
    refine ⟨.inl h, ?_⟩
    rintro rfl
    cases h
  · rintro ⟨h | h, hne⟩
    · exact h
    · exact absurd h hne

theorem isDnsLabel_iff {label : List Char} : isDnsLabel label = true ↔
    label ≠ [] ∧ label.length ≤ 63 ∧ (∀ c ∈ label, (c.isAlphanum || c = '-') = true) ∧
      label.head? ≠ some '-' ∧ label.getLast? ≠ some '-' := by
  cases label with
  | nil => exact ⟨nofun, fun h => absurd rfl h.1⟩
  | cons c cs =>
    rw [isDnsLabel]
    rcases List.eq_nil_or_concat cs with rfl | ⟨mid, last, hcs⟩
    · simp only [List.isEmpty_nil, Bool.true_or, Bool.and_true, isAlphanum_iff, ne_eq,
        List.cons_ne_self, not_false_eq_true, List.length_singleton, List.mem_singleton,
        forall_eq, List.head?_cons, Option.some.injEq, List.getLast?_singleton, true_and]
      exact ⟨fun h => ⟨by decide, h.1, h.2, h.2⟩, fun h => ⟨h.2.1, h.2.2.1⟩⟩
    · rw [List.concat_eq_append] at hcs
      subst hcs
      have hempty : (mid ++ [last]).isEmpty = false := by simp
      have hlast : (c :: (mid ++ [last])).getLast? = some last := by
        rw [← List.cons_append, List.getLast?_concat]
      rw [hlast, hempty, Bool.false_or, List.dropLast_concat, Bool.and_eq_true, Bool.and_eq_true,
        Bool.and_eq_true, decide_eq_true_eq, List.all_eq_true,
        List.getLast?_concat, Option.any_some, isAlphanum_iff, @isAlphanum_iff last,
        List.head?_cons, List.length_cons, List.length_append, List.length_singleton]
      simp only [ne_eq, reduceCtorEq, not_false_eq_true, true_and, Option.some.injEq,
        List.forall_mem_cons, List.forall_mem_append, List.mem_singleton, forall_eq]
      constructor
      · rintro ⟨⟨hc, hfirst⟩, ⟨hlength, hmid⟩, hend, hback⟩
        exact ⟨by omega, ⟨hc, hmid, hend⟩, hfirst, hback⟩
      · rintro ⟨hlength, ⟨hc, hmid, hend⟩, hfirst, hback⟩
        exact ⟨⟨hc, hfirst⟩, ⟨by omega, hmid⟩, hend, hback⟩

theorem isDnsLabel_eq (label : List Char) : isDnsLabel label = isLabel label := by
  rw [Bool.eq_iff_iff, isDnsLabel_iff]
  unfold isLabel
  simp only [Bool.and_eq_true, decide_eq_true_eq, List.all_eq_true]
  constructor
  · rintro ⟨hne, hlength, hall, hfirst, hlast⟩
    have hsize := (size_of_graphic fun c hc => isAsciiGraphic_of_label (hall c hc)).1
    rw [hsize]
    exact ⟨⟨⟨⟨List.length_pos_iff.mpr hne, hlength⟩, hall⟩, hfirst⟩, hlast⟩
  · rintro ⟨⟨⟨⟨hpos, hlength⟩, hall⟩, hfirst⟩, hlast⟩
    have hsize := (size_of_graphic fun c hc => isAsciiGraphic_of_label (hall c hc)).1
    rw [hsize] at hpos hlength
    exact ⟨List.length_pos_iff.mp hpos, hlength, hall, hfirst, hlast⟩

theorem graphic_of_labels {name : List Char} (h : (name.splitOn '.').all isDnsLabel = true) :
    ∀ c ∈ name, isAsciiGraphic c = true := by
  intro c hc
  have hjoin : ['.'].intercalate (name.splitOn '.') = name := List.intercalate_splitOn '.'
  rw [← hjoin] at hc
  rcases mem_intercalate hc with hdot | ⟨label, hlabel, hmem⟩
  · rw [List.mem_singleton.mp hdot]
    decide
  · have hall := (isDnsLabel_iff.mp (List.all_eq_true.mp h label hlabel)).2.2.1
    exact isAsciiGraphic_of_label (hall c hmem)

/-- The name that is left of a wildcard's. -/
def nameOf (v : List Char) (allowWildcard : Bool) : List Char :=
  if allowWildcard && "*.".toList.isPrefixOf v then v.drop 2 else v

theorem isDnsName_eq (v : List Char) (allowWildcard : Bool) :
    isDnsName v allowWildcard = Core.isDnsName (String.ofList v) allowWildcard := by
  have hname : (if allowWildcard then (stripPrefix "*." (String.ofList v)).getD (String.ofList v)
      else String.ofList v) = String.ofList (nameOf v allowWildcard) := by
    have hlist : (String.ofList v).toList = v := String.toList_ofList
    unfold nameOf stripPrefix
    cases allowWildcard with
    | false => rfl
    | true =>
      rw [if_pos rfl, hlist, Bool.true_and]
      split <;> rfl
  unfold isDnsName Core.isDnsName
  simp only [hname]
  change (decide (utf16Length (nameOf v allowWildcard) ≤ 253) &&
      !((nameOf v allowWildcard).splitOn '.').getLast?.any
        (fun label => !label.isEmpty && label.all Char.isDigit) &&
      ((nameOf v allowWildcard).splitOn '.').all isDnsLabel) = _
  unfold labels
  rw [String.toList_ofList]
  generalize nameOf v allowWildcard = name
  have hlabels : (name.splitOn '.').all isDnsLabel = (name.splitOn '.').all isLabel :=
    congrArg _ (funext isDnsLabel_eq)
  rw [← hlabels]
  cases hall : (name.splitOn '.').all isDnsLabel with
  | false => rw [Bool.and_false, Bool.and_false]
  | true =>
    obtain ⟨hsize, hlength⟩ := size_of_graphic (graphic_of_labels hall)
    rw [hsize, hlength]
    cases hlast : (name.splitOn '.').getLast? with
    | none => rfl
    | some label =>
      have hmem := List.mem_of_getLast? hlast
      have hne := (isDnsLabel_iff.mp (List.all_eq_true.mp hall label hmem)).1
      have hempty : label.isEmpty = false := by
        cases label with
        | nil => exact absurd rfl hne
        | cons c cs => rfl
      simp only [Option.any_some, hempty, Bool.not_false, Bool.true_and]

theorem graphic_of_isDnsName {allowWildcard : Bool} (h : isDnsName v allowWildcard = true) :
    ∀ c ∈ v, isAsciiGraphic c = true := by
  unfold isDnsName at h
  simp only [Bool.and_eq_true] at h
  have hname := graphic_of_labels h.2
  split at hname
  next hwildcard =>
    obtain ⟨rest, rfl⟩ := List.isPrefixOf_iff_prefix.mp hwildcard.2
    intro c hc
    rcases List.mem_append.mp hc with hc | hc
    · have hall : "*.".toList.all isAsciiGraphic = true := by decide
      exact List.all_eq_true.mp hall c hc
    · exact hname c hc
  next => exact hname

/-! ## Addresses -/

theorem isIpv4_iff : isIpv4 v = true ↔ IpAddr.IsQuad v := by
  unfold isIpv4
  simp only [Bool.and_eq_true, decide_eq_true_eq, List.all_eq_true]
  constructor
  · rintro ⟨hlength, hall⟩
    have hjoin : ['.'].intercalate (v.splitOn '.') = v := List.intercalate_splitOn '.'
    match hparts : v.splitOn '.', hlength with
    | [a, b, c, d], _ =>
      rw [hparts] at hjoin hall
      have hv : v = a ++ '.' :: (b ++ '.' :: (c ++ '.' :: d)) := by
        rw [← hjoin]
        simp [List.intercalate_cons_cons]
      exact ⟨a, b, c, d, hall a (by simp), hall b (by simp), hall c (by simp), hall d (by simp),
        hv⟩
  · rintro ⟨a, b, c, d, ha, hb, hc, hd, rfl⟩
    have hdot {o : List Char} (h : IpAddr.isOctet o = true) : o.splitOn '.' = [o] := by
      refine List.splitOn_eq_singleton fun hmem => ?_
      cases (IpAddr.isOctet_iff.mp h).2.2.1 '.' hmem
    rw [List.splitOn_append_cons_self, List.splitOn_append_cons_self,
      List.splitOn_append_cons_self, hdot ha, hdot hb, hdot hc, hdot hd]
    refine ⟨rfl, ?_⟩
    simp [ha, hb, hc, hd]

theorem isIpv6_iff (hurl : TakesRfc4291 url) : isIpv6 url v = true ↔ IpAddr.Rfc4291 v := by
  unfold isIpv6
  rw [Bool.and_eq_true, Bool.and_eq_true, List.all_eq_true]
  constructor
  · rintro ⟨⟨-, hall⟩, hv⟩
    exact (hurl v hall).mp hv
  · intro hrfc
    have hall := hrfc.isAddressChar
    exact ⟨⟨List.contains_iff_mem.mpr hrfc.colon.1, hall⟩, (hurl v hall).mpr hrfc⟩

/-! ## URIs -/

theorem isScheme_eq (scheme : List Char) : isScheme scheme = Core.San.isScheme scheme := by
  cases scheme with
  | nil => rfl
  | cons c cs =>
    have hmark (c : Char) : decide (c ∈ ['+', '.', '-']) = decide (c ∈ ['+', '-', '.']) := by
      simp only [List.mem_cons, List.not_mem_nil, or_false, decide_eq_decide]
      tauto
    rw [isScheme, Core.San.isScheme]
    simp only [hmark]

theorem splitAtByte_of_graphic : ∀ {cs : List Char} {n : Nat},
    (∀ c ∈ cs, isAsciiGraphic c = true) → n ≤ cs.length →
      splitAtByte cs n = some (cs.take n, cs.drop n)
  | cs, 0, _, _ => by
    cases cs <;> rfl
  | [], n + 1, _, h => absurd h (Nat.not_succ_le_zero n)
  | c :: cs, n + 1, hall, h => by
    have hone := utf8Size_of_isAsciiGraphic (hall c List.mem_cons_self)
    rw [splitAtByte, hone, if_pos (Nat.le_add_left 1 n), Nat.add_sub_cancel,
      splitAtByte_of_graphic (fun c hc => hall c (List.mem_cons_of_mem _ hc))
        (Nat.le_of_succ_le_succ h)]
    rfl

/-- Where the back end comes to an answer it is the front end's; where it panics a character
of the text is not graphic. -/
theorem isUri_eq (v : List Char) : Core.San.isUri (String.ofList v) = some (isUri v) ∨
    (isUri v = false ∧ Core.San.isUri (String.ofList v) = some false) ∨
    (isUri v = false ∧ Core.San.isUri (String.ofList v) = none ∧
      ¬ ∀ c ∈ v, isAsciiGraphic c = true) := by
  have hlist : (String.ofList v).toList = v := String.toList_ofList
  unfold Core.San.isUri isUri
  rw [hlist]
  cases splitOnce "://".toList v with
  | some split =>
    obtain ⟨scheme, rest⟩ := split
    left
    dsimp only
    rw [isScheme_eq]
  | none =>
    dsimp only
    by_cases hall : ∀ c ∈ v, isAsciiGraphic c = true
    · left
      have hgraphic : v.all isAsciiGraphic = true := List.all_eq_true.mpr hall
      rw [(size_of_graphic hall).1]
      by_cases hlong : 4 < v.length
      · rw [if_pos hlong, splitAtByte_of_graphic hall hlong.le]
        rfl
      · have hdrop : v.drop 4 = [] := List.drop_eq_nil_of_le (not_lt.mp hlong)
        rw [if_neg hlong, hdrop]
        simp
    · have hgraphic : v.all isAsciiGraphic = false := by
        rw [Bool.eq_false_iff, ne_eq, List.all_eq_true]
        exact hall
      rw [hgraphic, Bool.and_false]
      right
      split
      · cases splitAtByte v 4 with
        | none => exact .inr ⟨rfl, rfl, hall⟩
        | some split =>
          refine .inl ⟨rfl, ?_⟩
          rw [Option.map_some, Bool.and_false]
      · exact .inl ⟨rfl, rfl⟩

/-! ## The two classifiers -/

theorem at_not_mem_of_splitOnce : ∀ {v before after : List Char},
    splitOnce ['@'] v = some (before, after) → '@' ∉ before
  | [], before, after, h => by cases h
  | c :: cs, before, after, h => by
    rw [splitOnce] at h
    split at h
    · cases h
      exact List.not_mem_nil
    next hpre =>
      obtain ⟨⟨before', after'⟩, hsplit, heq⟩ := Option.map_eq_some_iff.mp h
      cases heq
      have hne : c ≠ '@' := by
        rintro rfl
        exact hpre rfl
      rw [List.mem_cons, not_or]
      exact ⟨hne.symm, at_not_mem_of_splitOnce hsplit⟩

/-- A text that is trimmed is classified alike. -/
theorem classifyTrimmed_eq (hurl : TakesRfc4291 url) (v : List Char) :
    (classifyTrimmed url v).toOption = readKind (SubjectAltName.ofTrimmed (String.ofList v)) := by
  have hlist : (String.ofList v).toList = v := String.toList_ofList
  unfold classifyTrimmed SubjectAltName.ofTrimmed
  cases v with
  | nil => rfl
  | cons c cs =>
    generalize hv : c :: cs = v at hlist
    have hne : String.ofList v ≠ "" := by
      intro hempty
      have hnil := congrArg String.toList hempty
      rw [hlist, ← hv] at hnil
      cases hnil
    have hnotEmpty : v.isEmpty = false := by
      rw [← hv]
      rfl
    rw [hnotEmpty, if_neg Bool.false_ne_true, if_neg hne]
    by_cases hv4 : isIpv4 v = true
    · obtain ⟨a, b, c, d, hparse⟩ := IpAddr.parse_v4_iff.mpr (hlist.symm ▸ isIpv4_iff.mp hv4)
      rw [if_pos hv4, hparse]
      rfl
    by_cases hv6 : isIpv6 url v = true
    · obtain ⟨groups, hparse⟩ :=
        IpAddr.parse_v6_iff.mpr (hlist.symm ▸ (isIpv6_iff hurl).mp hv6)
      rw [if_neg hv4, if_pos hv6, hparse]
      rfl
    have hparse : IpAddr.parse (String.ofList v) = none := by
      cases hparse : IpAddr.parse (String.ofList v) with
      | none => rfl
      | some address =>
        cases address with
        | v4 a b c d =>
          have hquad := IpAddr.parse_v4_iff.mp ⟨a, b, c, d, hparse⟩
          rw [hlist] at hquad
          exact absurd (isIpv4_iff.mpr hquad) hv4
        | v6 groups =>
          have hrfc := IpAddr.parse_v6_iff.mp ⟨groups, hparse⟩
          rw [hlist] at hrfc
          exact absurd ((isIpv6_iff hurl).mpr hrfc) hv6
    rw [if_neg hv4, if_neg hv6, hparse, hlist]
    cases hat : splitOnce ['@'] v with
    | some split =>
      obtain ⟨localPart, domain⟩ := split
      have hlocal : (localPart.all fun c => isAsciiGraphic c && decide (c ≠ '@')) =
          localPart.all isAsciiGraphic := by
        rw [Bool.eq_iff_iff, List.all_eq_true, List.all_eq_true]
        refine forall₂_congr fun c hc => ?_
        have hc' : c ≠ '@' := fun heq => at_not_mem_of_splitOnce hat (heq ▸ hc)
        rw [decide_eq_true hc', Bool.and_true]
      dsimp only
      rw [hlocal, ← isDnsName_eq]
      split
      · rfl
      split <;> rfl
    | none =>
      dsimp only
      rw [← isDnsName_eq]
      rcases isUri_eq v with huri | ⟨hfalse, huri⟩ | ⟨hfalse, huri, hgraphic⟩
      · rw [huri]
        cases isUri v with
        | true => rfl
        | false =>
          cases isDnsName v true with
          | true => rfl
          | false =>
            rw [if_neg Bool.false_ne_true, if_neg Bool.false_ne_true]
            split <;> rfl
      · rw [hfalse, huri]
        cases isDnsName v true with
        | true => rfl
        | false =>
          rw [if_neg Bool.false_ne_true, if_neg Bool.false_ne_true]
          split <;> rfl
      · have hdns : isDnsName v true = false := by
          rw [Bool.eq_false_iff]
          exact fun h => hgraphic (graphic_of_isDnsName h)
        rw [hfalse, huri, hdns, if_neg Bool.false_ne_true, if_neg Bool.false_ne_true]
        split <;> rfl

/-- What is classified is written with graphic characters. -/
theorem graphic_of_classifyTrimmed {kind : SanKind} (h : classifyTrimmed url v = .ok kind) :
    ∀ c ∈ v, isAsciiGraphic c = true := by
  unfold classifyTrimmed at h
  split at h
  · cases h
  split at h
  next hv4 =>
    exact fun c hc => isAsciiGraphic_of_isAddressChar
      (IpAddr.isAddressChar_of_quad (isIpv4_iff.mp hv4) hc)
  split at h
  next hv6 =>
    unfold isIpv6 at hv6
    rw [Bool.and_eq_true, Bool.and_eq_true, List.all_eq_true] at hv6
    exact fun c hc => isAsciiGraphic_of_isAddressChar (hv6.1.2 c hc)
  split at h
  next localPart domain hat =>
    split at h
    · cases h
    next hlocal =>
      split at h
      · cases h
      next hdomain =>
        rw [Bool.or_eq_true, not_or, Bool.not_eq_true', Bool.not_eq_false, List.all_eq_true]
          at hlocal
        rw [Bool.not_eq_true', Bool.not_eq_false] at hdomain
        rw [Core.San.splitOnce_eq_some hat]
        intro c hc
        simp only [List.mem_append, List.mem_singleton] at hc
        rcases hc with (hc | rfl) | hc
        · exact hlocal.2 c hc
        · decide
        · exact graphic_of_isDnsName hdomain c hc
  next =>
    split at h
    next huri =>
      unfold isUri at huri
      have hall : v.all isAsciiGraphic = true := by
        split at huri
        · exact (Bool.and_eq_true_iff.mp huri).2
        · exact (Bool.and_eq_true_iff.mp huri).2
      exact List.all_eq_true.mp hall
    next =>
      split at h
      next hdns => exact graphic_of_isDnsName hdns
      next => split at h <;> cases h

/-! ## Trimming -/

/-- What is stripped is before and after what is left. -/
theorem strip_spec (p : Char → Bool) (cs : List Char) : ∃ front back,
    cs = front ++ strip p cs ++ back ∧ (∀ c ∈ front, p c = true) ∧ ∀ c ∈ back, p c = true := by
  refine ⟨cs.takeWhile p, (cs.dropWhile p).rtakeWhile p, ?_, ?_, ?_⟩
  · unfold strip
    rw [List.append_assoc, List.rdropWhile_append_rtakeWhile, List.takeWhile_append_dropWhile]
  · exact fun c hc => List.mem_takeWhile_imp hc
  · exact fun c hc => List.mem_rtakeWhile_imp hc

theorem dropWhile_of_front {p : Char → Bool} {front cs : List Char}
    (hfront : ∀ c ∈ front, p c = true) (hcs : ∀ c ∈ cs.head?, p c = false) :
    (front ++ cs).dropWhile p = cs := by
  rw [List.dropWhile_append_of_pos hfront]
  cases cs with
  | nil => rfl
  | cons c cs =>
    rw [List.dropWhile_cons_of_neg]
    rw [hcs c rfl]
    exact Bool.false_ne_true

/-- What is left of a text is what nothing of it is stripped from. -/
theorem strip_eq {p : Char → Bool} {front cs back : List Char}
    (hfront : ∀ c ∈ front, p c = true) (hback : ∀ c ∈ back, p c = true)
    (hcs : ∀ c ∈ cs, p c = false) : strip p (front ++ cs ++ back) = cs := by
  unfold strip
  rw [List.append_assoc]
  cases cs with
  | nil =>
    have hall : ∀ c ∈ front ++ ([] ++ back), p c = true := by
      intro c hc
      rcases List.mem_append.mp hc with hc | hc
      · exact hfront c hc
      · exact hback c hc
    rw [List.dropWhile_eq_nil_iff.mpr hall]
    rfl
  | cons c cs =>
    rw [dropWhile_of_front hfront fun x hx => by
      cases Option.mem_some.mp hx
      exact hcs c List.mem_cons_self]
    unfold List.rdropWhile
    rw [List.reverse_append, dropWhile_of_front, List.reverse_reverse]
    · exact fun x hx => hback x (List.mem_reverse.mp hx)
    · exact fun x hx => hcs x (List.mem_reverse.mp (List.mem_of_mem_head? hx))

/-- White space, in the sense of either end. -/
def isBlank (c : Char) : Bool := isWhiteSpace c || isJsWhiteSpace c

theorem isBlank_of_graphic {c : Char} (h : isAsciiGraphic c = true) : isBlank c = false := by
  unfold isAsciiGraphic at h
  rw [Bool.and_eq_true, decide_eq_true_eq, decide_eq_true_eq] at h
  simp only [isBlank, isWhiteSpace, isJsWhiteSpace, Bool.or_eq_false_iff, Bool.and_eq_false_iff,
    decide_eq_false_iff_not]
  omega

/-- U+0085, which is white space to the back end alone. -/
def nextLine : Char := Char.ofNat 0x85

/-- U+FEFF, which is white space to the front end alone. -/
def byteOrderMark : Char := Char.ofNat 0xFEFF

theorem isWhiteSpace_of_isBlank {c : Char} (h : isBlank c = true) (hc : c ≠ byteOrderMark) :
    isWhiteSpace c = true := by
  have hmark : byteOrderMark.toNat = 0xFEFF := rfl
  rw [ne_eq, ← Char.toNat_inj, hmark] at hc
  simp only [isBlank, isWhiteSpace, isJsWhiteSpace, Bool.or_eq_true, Bool.and_eq_true,
    decide_eq_true_eq] at h ⊢
  omega

theorem isJsWhiteSpace_of_isBlank {c : Char} (h : isBlank c = true) (hc : c ≠ nextLine) :
    isJsWhiteSpace c = true := by
  have hline : nextLine.toNat = 0x85 := rfl
  rw [ne_eq, ← Char.toNat_inj, hline] at hc
  simp only [isBlank, isWhiteSpace, isJsWhiteSpace, Bool.or_eq_true, Bool.and_eq_true,
    decide_eq_true_eq] at h ⊢
  omega

/-! ## When both ends agree -/

variable {p : Char → Bool} {cs : List Char}

/-- What is classified once some white space is stripped is all that there is but white
space. -/
theorem strip_eq_bare (hp : ∀ c, p c = true → isBlank c = true)
    (h : ∀ c ∈ strip p cs, isAsciiGraphic c = true) : strip isBlank cs = strip p cs := by
  obtain ⟨front, back, hcs, hfront, hback⟩ := strip_spec p cs
  generalize hkept : strip p cs = kept at hcs h
  rw [hcs]
  exact strip_eq (fun c hc => hp c (hfront c hc)) (fun c hc => hp c (hback c hc))
    fun c hc => isBlank_of_graphic (h c hc)

theorem strip_eq_of_bare (hp : ∀ c ∈ cs, isBlank c = true → p c = true)
    (hp' : ∀ c, p c = true → isBlank c = true)
    (h : ∀ c ∈ strip isBlank cs, isAsciiGraphic c = true) :
    strip p cs = strip isBlank cs := by
  obtain ⟨front, back, hcs, hfront, hback⟩ := strip_spec isBlank cs
  generalize hkept : strip isBlank cs = kept at hcs h
  have hkeep (c : Char) (hc : c ∈ kept) : p c = false := by
    rw [Bool.eq_false_iff]
    intro hstripped
    have hblank := isBlank_of_graphic (h c hc)
    rw [hp' c hstripped] at hblank
    cases hblank
  subst hcs
  refine strip_eq (fun c hc => hp c ?_ (hfront c hc)) (fun c hc => hp c ?_ (hback c hc)) hkeep
  · exact List.mem_append_left _ (List.mem_append_left _ hc)
  · exact List.mem_append_right _ hc

/-- A character that is not stripped is left. -/
theorem mem_strip {c : Char} (hc : c ∈ cs) (hp : p c = false) : c ∈ strip p cs := by
  obtain ⟨front, back, hcs, hfront, hback⟩ := strip_spec p cs
  rw [hcs, List.mem_append, List.mem_append] at hc
  rcases hc with (hc | hc) | hc
  · rw [hfront c hc] at hp
    cases hp
  · exact hc
  · rw [hback c hc] at hp
    cases hp

/-- A text of which a character that is not graphic is left is not classified. -/
theorem classifyTrimmed_none {c : Char} (hc : c ∈ cs) (hp : p c = false)
    (hblank : isBlank c = true) : (classifyTrimmed url (strip p cs)).toOption = none := by
  cases hclassify : classifyTrimmed url (strip p cs) with
  | error why => rfl
  | ok kind =>
    have hgraphic := graphic_of_classifyTrimmed hclassify c (mem_strip hc hp)
    rw [isBlank_of_graphic hgraphic] at hblank
    cases hblank

theorem isBlank_of_isWhiteSpace (c : Char) (h : isWhiteSpace c = true) : isBlank c = true := by
  unfold isBlank
  rw [h, Bool.true_or]

theorem isBlank_of_isJsWhiteSpace (c : Char) (h : isJsWhiteSpace c = true) :
    isBlank c = true := by
  unfold isBlank
  rw [h, Bool.or_true]

/-- The classifiers agree on a text just when they do on what they strip of it. -/
theorem toOption_eq_iff (cs : List Char) :
    (classifyTrimmed url (strip isJsWhiteSpace cs)).toOption =
        (classifyTrimmed url (strip isWhiteSpace cs)).toOption ↔
      (nextLine ∈ cs ↔ byteOrderMark ∈ cs) ∨
        (classifyTrimmed url (strip isBlank cs)).toOption = none := by
  cases hbare : classifyTrimmed url (strip isBlank cs) with
  | error why =>
    refine ⟨fun _ => .inr rfl, fun _ => ?_⟩
    have hnone {p : Char → Bool} (hp : ∀ c, p c = true → isBlank c = true) :
        (classifyTrimmed url (strip p cs)).toOption = none := by
      cases hclassify : classifyTrimmed url (strip p cs) with
      | error _ => rfl
      | ok kind =>
        have hsame := strip_eq_bare hp (graphic_of_classifyTrimmed hclassify)
        rw [hsame, hclassify] at hbare
        cases hbare
    rw [hnone isBlank_of_isWhiteSpace, hnone isBlank_of_isJsWhiteSpace]
  | ok kind =>
    have hgraphic := graphic_of_classifyTrimmed hbare
    have hback (hmark : byteOrderMark ∉ cs) :
        (classifyTrimmed url (strip isWhiteSpace cs)).toOption = some kind := by
      rw [strip_eq_of_bare (fun c hc h => isWhiteSpace_of_isBlank h fun heq => hmark (heq ▸ hc))
        isBlank_of_isWhiteSpace hgraphic, hbare]
      rfl
    have hfront (hline : nextLine ∉ cs) :
        (classifyTrimmed url (strip isJsWhiteSpace cs)).toOption = some kind := by
      rw [strip_eq_of_bare (fun c hc h => isJsWhiteSpace_of_isBlank h fun heq => hline (heq ▸ hc))
        isBlank_of_isJsWhiteSpace hgraphic, hbare]
      rfl
    have hback' (hmark : byteOrderMark ∈ cs) :
        (classifyTrimmed url (strip isWhiteSpace cs)).toOption = none :=
      classifyTrimmed_none hmark (by decide) (by decide)
    have hfront' (hline : nextLine ∈ cs) :
        (classifyTrimmed url (strip isJsWhiteSpace cs)).toOption = none :=
      classifyTrimmed_none hline (by decide) (by decide)
    have hsome : ¬ (Except.ok kind : Except String SanKind).toOption = none := nofun
    rw [or_iff_left hsome]
    by_cases hline : nextLine ∈ cs
    · by_cases hmark : byteOrderMark ∈ cs
      · rw [hfront' hline, hback' hmark]
        exact ⟨fun _ => ⟨fun _ => hmark, fun _ => hline⟩, fun _ => rfl⟩
      · rw [hfront' hline, hback hmark]
        exact ⟨nofun, fun h => absurd (h.mp hline) hmark⟩
    · by_cases hmark : byteOrderMark ∈ cs
      · rw [hfront hline, hback' hmark]
        exact ⟨nofun, fun h => absurd (h.mpr hmark) hline⟩
      · rw [hfront hline, hback hmark]
        exact ⟨fun _ => ⟨fun h => absurd h hline, fun h => absurd h hmark⟩, fun _ => rfl⟩

theorem readKind_eq_some {r : Option (Except Core.OpcaError SubjectAltName)} {kind : SanKind} :
    readKind r = some kind ↔ ∃ name, r = some (.ok name) ∧ kindOf name = kind := by
  unfold readKind
  split
  next name =>
    rw [Option.some.injEq]
    exact ⟨fun h => ⟨name, rfl, h⟩, fun ⟨other, heq, h⟩ => by cases heq; exact h⟩
  next hnone =>
    refine ⟨nofun, fun ⟨name, heq, _⟩ => absurd heq (hnone name)⟩

theorem toOption_eq_some {r : Except String SanKind} {kind : SanKind} :
    r.toOption = some kind ↔ r = .ok kind := by
  cases r with
  | error why => exact ⟨nofun, nofun⟩
  | ok kind' => exact ⟨fun h => by cases h; rfl, fun h => by cases h; rfl⟩

/-- Both ends classify a text alike just when it holds both of U+0085 and U+FEFF, or neither,
or is no name even without them around it. -/
theorem classifySan_agrees_iff (hurl : TakesRfc4291 url) (s : String) :
    (∀ kind, classifySan url s = .ok kind ↔
      ∃ name, SubjectAltName.fromStr s = some (.ok name) ∧ kindOf name = kind) ↔
      (nextLine ∈ s.toList ↔ byteOrderMark ∈ s.toList) ∨
        ∀ name, SubjectAltName.ofTrimmed (String.ofList (strip isBlank s.toList)) ≠
          some (.ok name) := by
  have hread : readKind (SubjectAltName.fromStr s) =
      (classifyTrimmed url (strip isWhiteSpace s.toList)).toOption :=
    (classifyTrimmed_eq hurl _).symm
  have hname : (∀ name, SubjectAltName.ofTrimmed (String.ofList (strip isBlank s.toList)) ≠
      some (.ok name)) ↔ (classifyTrimmed url (strip isBlank s.toList)).toOption = none := by
    rw [classifyTrimmed_eq hurl, Option.eq_none_iff_forall_ne_some]
    constructor
    · intro h kind hkind
      obtain ⟨name, heq, -⟩ := readKind_eq_some.mp hkind
      exact h name heq
    · intro h name heq
      exact h (kindOf name) (readKind_eq_some.mpr ⟨name, heq, rfl⟩)
  rw [hname, ← toOption_eq_iff, ← hread]
  constructor
  · intro h
    refine Option.ext fun kind => ?_
    rw [readKind_eq_some, toOption_eq_some]
    exact h kind
  · intro h kind
    rw [← readKind_eq_some, ← h, toOption_eq_some]
    rfl

/-- A URL parser that takes the forms of RFC 4291 and nothing else. -/
def plainUrl (v : List Char) : Bool := (IpAddr.readIpv6 v).any (·.2.isEmpty)

theorem plainUrl_takes : TakesRfc4291 plainUrl := by
  intro v _
  rw [← IpAddr.readIpv6_iff]
  unfold plainUrl
  rw [Option.any_eq_true]
  constructor
  · rintro ⟨⟨groups, rest⟩, hread, hend⟩
    obtain rfl : rest = [] := List.isEmpty_iff.mp hend
    exact ⟨groups, hread⟩
  · rintro ⟨groups, hread⟩
    exact ⟨_, hread, rfl⟩

theorem classifySan_agrees_example :
    classifySan plainUrl " fe80::1:10.0.0.1" = .ok .ip6 ↔
      ∃ name, SubjectAltName.fromStr " fe80::1:10.0.0.1" = some (.ok name) ∧ kindOf name = .ip6 :=
  (classifySan_agrees_iff plainUrl_takes _).mpr (.inl (by decide)) .ip6

/-- A byte order mark before a host name: the front end takes the name, the back end does
not. -/
theorem mark_before_name : ¬ ∀ url s, TakesRfc4291 url → ∀ kind, classifySan url s = .ok kind ↔
    ∃ name, SubjectAltName.fromStr s = some (.ok name) ∧ kindOf name = kind := by
  intro hclaim
  have hread : readKind (SubjectAltName.fromStr
      (String.ofList (byteOrderMark :: "localhost".toList))) = none := by
    decide
  have hclassify : (classifySan plainUrl
      (String.ofList (byteOrderMark :: "localhost".toList))).toOption = some .dns := by
    decide
  have hname := readKind_eq_some.mpr
    ((hclaim plainUrl _ plainUrl_takes _).mp (toOption_eq_some.mp hclassify))
  rw [hread] at hname
  cases hname

end Opca.Frontend
