/-
  Core/DomainNames.lean --- what the checks of host names and of permitted domains accept:
  the host names of RFC 1123, and lists of them (`services/san.rs`,
  `services/ca/subordinate.rs`).
-/
import Opca.Core.Domains
import Opca.Foundation.HostName

set_option autoImplicit false

namespace Opca.Core

open Opca.Foundation

/-! ## Host names -/

section

variable {label : List Char} {v : String}

/-- The check of a label is written in bytes, but what it leaves is ASCII. -/
theorem isLabel_iff : isLabel label = true ↔ HostLabel label := by
  have hsize (h : ∀ c ∈ label, c.isAlphanum = true ∨ c = '-') :
      (String.ofList label).utf8ByteSize = label.length := by
    refine utf8ByteSize_of_ascii fun c hc => ?_
    rcases h c hc with halpha | rfl
    · exact (toNat_of_isAlphanum halpha).2.trans_lt (by decide)
    · decide
  simp only [isLabel, Bool.and_eq_true, List.all_eq_true, Bool.or_eq_true, decide_eq_true_eq]
  constructor
  · rintro ⟨⟨⟨⟨hpos, hlong⟩, hwritten⟩, hhead⟩, hlast⟩
    rw [hsize hwritten] at hpos hlong
    exact ⟨List.length_pos_iff.mp hpos, hlong, hwritten, inner_iff.mpr ⟨hhead, hlast⟩⟩
  · intro h
    obtain ⟨hhead, hlast⟩ := inner_iff.mp h.inner
    rw [hsize h.written]
    exact ⟨⟨⟨⟨List.length_pos_iff.mpr h.ne_nil, h.length_le⟩, h.written⟩, hhead⟩, hlast⟩

theorem isDnsName_false_iff : isDnsName v false = true ↔ HostName v := by
  have hlast : (!(labels v).getLast?.any (·.all Char.isDigit)) = true ↔
      ∃ last, (labels v).getLast? = some last ∧ ∃ c ∈ last, c.isDigit = false := by
    cases hlast : (labels v).getLast? with
    | none => exact absurd (List.getLast?_eq_none_iff.mp hlast) (labels_ne_nil v)
    | some last => simp
  rw [hostName_iff, ← hlast]
  simp only [isDnsName, Bool.and_eq_true, List.all_eq_true, decide_eq_true_eq, isLabel_iff,
    Bool.false_eq_true, if_false]
  exact ⟨fun h => ⟨h.1.1, h.2, h.1.2⟩, fun h => ⟨⟨h.1, h.2.2⟩, h.2.1⟩⟩

/-- A wildcard is no host name itself. -/
theorem not_hostName_wildcard (rest : String) : ¬HostName ("*." ++ rest) := by
  intro h
  refine h.not_mem (c := '*') (by decide) (by decide) (by decide) ?_
  rw [String.toList_append]
  exact List.mem_append_left _ (by decide)

/-- The names that are accepted are the host names, and where a wildcard may stand, those
with one at the front. -/
theorem isDnsName_iff (v : String) (allowWildcard : Bool) :
    isDnsName v allowWildcard = true ↔
      HostName v ∨ allowWildcard = true ∧ ∃ rest, v = "*." ++ rest ∧ HostName rest := by
  cases allowWildcard with
  | false =>
    rw [isDnsName_false_iff]
    simp
  | true =>
    have hname : isDnsName v true = isDnsName ((stripPrefix "*." v).getD v) false := rfl
    rw [hname, isDnsName_false_iff]
    constructor
    · intro h
      cases hstrip : stripPrefix "*." v with
      | none =>
        rw [hstrip] at h
        exact .inl h
      | some rest =>
        rw [hstrip] at h
        exact .inr ⟨rfl, rest, stripPrefix_eq_some hstrip, h⟩
    · rintro (h | ⟨-, rest, rfl, h⟩)
      · cases hstrip : stripPrefix "*." v with
        | none => exact h
        | some rest =>
          rw [stripPrefix_eq_some hstrip] at h
          exact absurd h (not_hostName_wildcard rest)
      · rw [stripPrefix_append]
        exact h

end

/-! ## Permitted domains -/

/-- An entry as it is compared and permitted. -/
def normalized (raw : String) : String := toAsciiLowercase (trim raw)

section

variable {domains out : List String}

/-- What is refused as an address or as a wildcard is no host name either: that only
decides what is said. -/
theorem refusal_eq_none_iff {domain : String} : refusal domain = none ↔ HostName domain := by
  unfold refusal
  constructor
  · intro h
    split at h
    · cases h
    · split at h
      · cases h
      · split at h
        · cases h
        · next hname => exact isDnsName_false_iff.mp (by simpa using hname)
  · intro h
    rw [h.parse_eq_none, if_neg (by simp),
      if_neg (h.not_mem (by decide) (by decide) (by decide)), isDnsName_false_iff.mpr h]
    rfl

/-- One more entry is put at the end of those before it, unless it is among them. -/
theorem permit_eraseDups {seen : List String} {raw : String} (h : HostName (normalized raw)) :
    permit seen.eraseDups raw = .ok (seen ++ [normalized raw]).eraseDups := by
  have hpermit : permit seen.eraseDups raw = .ok (if normalized raw ∈ seen.eraseDups
      then seen.eraseDups else seen.eraseDups ++ [normalized raw]) :=
    permit_allowed (refusal_eq_none_iff.mpr h)
  rw [hpermit, List.eraseDups_append]
  by_cases hseen : normalized raw ∈ seen
  · have hnone : [normalized raw].removeAll seen = [] := by simp [List.removeAll, hseen]
    rw [if_pos (List.mem_eraseDups.mpr hseen), hnone, List.eraseDups_nil, List.append_nil]
  · have hone : [normalized raw].removeAll seen = [normalized raw] := by
      simp [List.removeAll, hseen]
    rw [if_neg (mt List.mem_eraseDups.mp hseen), hone, List.eraseDups_cons]
    rfl

/-- The entries are permitted in turn, each for itself. -/
theorem foldlM_permit_iff (seen : List String) :
    domains.foldlM permit seen.eraseDups = .ok out ↔
      (∀ raw ∈ domains, HostName (normalized raw)) ∧
        out = (seen ++ domains.map normalized).eraseDups := by
  induction domains generalizing seen with
  | nil =>
    rw [List.foldlM_nil, List.map_nil, List.append_nil]
    constructor
    · intro h
      cases h
      exact ⟨by simp, rfl⟩
    · rintro ⟨-, rfl⟩
      rfl
  | cons raw domains ih =>
    rw [List.foldlM_cons, List.forall_mem_cons, List.map_cons]
    have hassoc : seen ++ normalized raw :: domains.map normalized =
        (seen ++ [normalized raw]) ++ domains.map normalized := by simp
    constructor
    · intro h
      obtain ⟨next, hpermit, hrest⟩ := bind_eq_ok.mp h
      cases hrefusal : refusal (normalized raw) with
      | some why =>
        rw [permit_refused hrefusal] at hpermit
        cases hpermit
      | none =>
        have hname := refusal_eq_none_iff.mp hrefusal
        rw [permit_eraseDups hname] at hpermit
        cases hpermit
        obtain ⟨hall, hout⟩ := (ih _).mp hrest
        exact ⟨⟨hname, hall⟩, by rw [hassoc, hout]⟩
    · rintro ⟨⟨hname, hall⟩, hout⟩
      rw [hassoc] at hout
      exact bind_eq_ok.mpr ⟨_, permit_eraseDups hname, (ih _).mpr ⟨hall, hout⟩⟩

theorem permittedDomains_iff : permittedDomains domains = .ok out ↔
    domains ≠ [] ∧ (∀ raw ∈ domains, HostName (normalized raw)) ∧
      out = (domains.map normalized).eraseDups := by
  have hempty : (domains.map normalized).eraseDups = [] ↔ domains = [] := by
    cases domains with
    | nil => simp
    | cons raw domains => simp [List.eraseDups_cons]
  constructor
  · intro h
    obtain ⟨found, hfold, h⟩ := bind_eq_ok.mp h
    obtain ⟨hall, hfound⟩ := (foldlM_permit_iff []).mp hfold
    rw [List.nil_append] at hfound
    split at h
    next => cases h
    next hne =>
      cases h
      rw [hfound, hempty] at hne
      exact ⟨hne, hall, hfound⟩
  · rintro ⟨hne, hall, rfl⟩
    refine bind_eq_ok.mpr ⟨_, (foldlM_permit_iff []).mpr ⟨hall, rfl⟩, ?_⟩
    rw [List.nil_append, if_neg (mt hempty.mp hne)]

/-- The names accepted are the host names of RFC 1123, a wildcard before them where one is
allowed; a list of domains is permitted when it has entries and each is such a name once
trimmed and in lower case, and then those are permitted, each where it is first; what is
permitted once is permitted as it is. -/
theorem domainNames :
    (∀ v allowWildcard, isDnsName v allowWildcard = true ↔
      HostName v ∨ allowWildcard = true ∧ ∃ rest, v = "*." ++ rest ∧ HostName rest) ∧
    (∀ domains out, permittedDomains domains = .ok out ↔
      domains ≠ [] ∧
      (∀ raw ∈ domains, HostName (normalized raw) ∧ IpAddr.parse (normalized raw) = none) ∧
      out = (domains.map normalized).eraseDups) ∧
    ∀ domains, permittedDomains domains >>= permittedDomains = permittedDomains domains := by
  refine ⟨isDnsName_iff, fun domains out => ?_, fun domains => ?_⟩
  · rw [permittedDomains_iff]
    refine and_congr_right fun _ => and_congr_left fun _ => ?_
    exact ⟨fun h raw hraw => ⟨h raw hraw, (h raw hraw).parse_eq_none⟩,
      fun h raw hraw => (h raw hraw).1⟩
  · cases hpermitted : permittedDomains domains with
    | error e => rfl
    | ok out => exact permittedDomains_idem hpermitted

end

end Opca.Core
