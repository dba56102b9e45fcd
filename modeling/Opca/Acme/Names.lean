/-
  Acme/Names.lean --- the DNS names an order may ask for: the check every name
  goes through, and an order's authorisations (`acme/issue.rs`,
  `acme/server.rs`, `enrolment.rs`).
-/
import Opca.Acme.Records
import Opca.Foundation.Fallible
import Opca.Foundation.IpAddr
import Opca.Foundation.Text

set_option autoImplicit false

namespace Opca.Acme

open Opca.Foundation

/-- What checking a name takes from outside: the hostname grammar and IDNA of
`wslib_dns`, and the quoting of a text in a message. -/
structure NameRules where
  validateHostname : String → Except String Unit
  /-- The A-label form, where there is one. -/
  toAscii : String → Option String
  quote : String → String

/-- `wslib_dns` on names that are lower-case host names already. -/
def plainRules : NameRules where
  validateHostname _ := .ok ()
  toAscii := some
  quote name := "\"" ++ name ++ "\""

def rejected (detail : String) : Problem := ⟨.rejectedIdentifier, detail⟩
def badCsr (detail : String) : Problem := ⟨.badCsr, detail⟩
def malformed (detail : String) : Problem := ⟨.malformed, detail⟩

/-! ## One name -/

/-- Whether `host` is a DNS name equal to or under one of `domains`. -/
def hostWithin (host : String) (domains : List String) : Bool :=
  let host := toAsciiLowercase (trimEndMatches '.' host)
  (IpAddr.parse host).isNone && domains.any fun domain =>
    let domain := toAsciiLowercase domain
    host = domain || endsWith host ("." ++ domain)

/-- A name without a wildcard at its front. -/
def baseOf (name : String) : String := (stripPrefix "*." name).getD name

/-- Refuses a DNS name the broker may not issue for: anything but a lower-case
A-label name equal to or under one of `permittedDomains`, with a wildcard only as
its whole leftmost label.  Never an IP address. -/
def checkIdentifier (rules : NameRules) (name : String) (permittedDomains : List String) :
    Except Problem Unit :=
  let refuse (why : String) : Except Problem Unit :=
    .error (rejected (rules.quote name ++ " " ++ why))
  let base := baseOf name
  if (IpAddr.parse name).isSome then
    refuse "is an IP address, and only DNS names are issued"
  else if '*' ∈ base.toList then
    refuse "has a wildcard other than as its whole leftmost label"
  else if base.toList.getLast? = some '.' ∨ toAsciiLowercase name ≠ name then
    refuse "is not a lower-case name without a trailing dot"
  else
    match rules.validateHostname base with
    | .error e => refuse ("is not a host name: " ++ e)
    | .ok () =>
      if rules.toAscii base ≠ some base then refuse "is not in A-label form"
      else if !hostWithin base permittedDomains then
        refuse "is outside the permitted domains"
      else .ok ()

/-- A lower-case name equal to a permitted domain or under one, whatever the
domains' own case. -/
def WithinDomains (name : String) (domains : List String) : Prop :=
  ∃ domain ∈ domains, name = toAsciiLowercase domain ∨
    ∃ front : String, name = front ++ "." ++ toAsciiLowercase domain

theorem hostWithin_spec {host : String} {domains : List String}
    (hdot : host.toList.getLast? ≠ some '.') (hlower : toAsciiLowercase host = host)
    (h : hostWithin host domains = true) : WithinDomains host domains := by
  rw [hostWithin, trimEndMatches_of_not_ends hdot, hlower, Bool.and_eq_true,
    List.any_eq_true] at h
  obtain ⟨-, domain, hmem, hmatch⟩ := h
  refine ⟨domain, hmem, ?_⟩
  rw [Bool.or_eq_true, decide_eq_true_eq, endsWith_iff] at hmatch
  rcases hmatch with heq | ⟨front, hfront⟩
  · exact Or.inl heq
  · right
    refine ⟨front, ?_⟩
    rw [hfront, String.append_assoc]

/-- What is lower-case is so without its wildcard. -/
theorem toAsciiLowercase_baseOf {name : String} (h : toAsciiLowercase name = name) :
    toAsciiLowercase (baseOf name) = baseOf name := by
  unfold baseOf
  cases hstrip : stripPrefix "*." name with
  | none => exact h
  | some base =>
    have hname := stripPrefix_eq_some hstrip
    have hwild : toAsciiLowercase "*." = "*." := by decide
    rw [hname, toAsciiLowercase_append, hwild] at h
    rw [Option.getD_some]
    have hlist := congrArg String.toList h
    rw [String.toList_append, String.toList_append] at hlist
    exact String.toList_inj.mp (List.append_cancel_left hlist)

/-- A checked name is lower-case and, without its wildcard, a permitted domain or
under one. -/
theorem checkIdentifier_ok {rules : NameRules} {name : String}
    {permitted : List String} (h : checkIdentifier rules name permitted = .ok ()) :
    toAsciiLowercase name = name ∧ '*' ∉ (baseOf name).toList ∧
      WithinDomains (baseOf name) permitted := by
  unfold checkIdentifier at h
  simp only at h
  split at h
  · cases h
  split at h
  · cases h
  rename_i hstar
  split at h
  · cases h
  rename_i hshape
  rw [not_or, not_not] at hshape
  obtain ⟨hdot, hlower⟩ := hshape
  split at h
  · cases h
  split at h
  · cases h
  split at h
  · cases h
  rename_i hwithin
  rw [Bool.not_eq_true', Bool.not_eq_false] at hwithin
  exact ⟨hlower, hstar, hostWithin_spec hdot (toAsciiLowercase_baseOf hlower) hwithin⟩

/-! ## Name constraints -/

/-- A dNSName constraint, as RFC 5280 §4.2.1.10 has it: a name satisfies it that
is made from it by adding zero or more labels on the left.  Case does not count. -/
def SatisfiesConstraint (name constraint : String) : Prop :=
  labels (toAsciiLowercase constraint) <:+ labels (toAsciiLowercase name)

/-- The names a subordinate constrained to `domains` may sign for. -/
def AcceptedBy (domains : List String) (name : String) : Prop :=
  ∃ domain ∈ domains, SatisfiesConstraint name domain

theorem labels_under (front domain : String) :
    labels domain <:+ labels (front ++ "." ++ domain) := by
  rw [labels_append_dot]
  exact List.suffix_append _ _

/-- A wildcard is one more label. -/
theorem labels_baseOf (name : String) : labels (baseOf name) <:+ labels name := by
  unfold baseOf
  cases hstrip : stripPrefix "*." name with
  | none => exact List.suffix_refl _
  | some base =>
    rw [stripPrefix_eq_some hstrip]
    exact labels_under "*" base

/-- Every name that passes the check is one its subordinate may sign for. -/
theorem acceptedBy_of_withinDomains {name : String} {domains : List String}
    (hlower : toAsciiLowercase name = name)
    (h : WithinDomains (baseOf name) domains) : AcceptedBy domains name := by
  obtain ⟨domain, hmem, hmatch⟩ := h
  refine ⟨domain, hmem, ?_⟩
  unfold SatisfiesConstraint
  rw [hlower]
  refine List.IsSuffix.trans ?_ (labels_baseOf name)
  rcases hmatch with heq | ⟨front, hfront⟩
  · exact heq ▸ List.suffix_refl _
  · rw [hfront]
    exact labels_under front _

/-! ## The names of an order -/

/-- An identifier of a new-order request: its `type` and its value. -/
structure Identifier where
  kind : String
  value : String
  deriving DecidableEq, Repr

def maxIdentifiers : Nat := 100

/-- One identifier's name, lower-case, if the broker issues for it. -/
def nameOf (rules : NameRules) (permitted : List String) (identifier : Identifier) :
    Except Problem String :=
  if identifier.kind = "dns" then
    let name := toAsciiLowercase identifier.value
    (checkIdentifier rules name permitted).map fun () => name
  else if identifier.kind = "ip" then
    .error (rejected
      (identifier.value ++ " is an IP address, and only DNS names are issued"))
  else
    .error ⟨.unsupportedIdentifier,
      rules.quote identifier.kind ++ " identifiers are not issued"⟩

/-- The DNS names `identifiers` ask for, lower-case, each one the broker issues
for. -/
def names (rules : NameRules) (identifiers : List Identifier) (permitted : List String) :
    Except Problem (List String) :=
  if identifiers.isEmpty ∨ maxIdentifiers < identifiers.length then
    .error (malformed
      ("an order names 1 to " ++ Nat.repr maxIdentifiers ++ " identifiers"))
  else (identifiers.mapM (nameOf rules permitted)).map btreeSet

/-- Every name of an accepted order passes the check. -/
theorem checkIdentifier_of_mem_names {rules : NameRules} {identifiers : List Identifier}
    {permitted found : List String} (h : names rules identifiers permitted = .ok found)
    {name : String} (hname : name ∈ found) :
    checkIdentifier rules name permitted = .ok () := by
  unfold names at h
  split at h
  · cases h
  obtain ⟨ys, hmap, rfl⟩ := map_eq_ok.mp h
  obtain ⟨identifier, -, hof⟩ := exists_of_mem_mapM hmap name (mem_btreeSet.mp hname)
  unfold nameOf at hof
  split at hof
  · obtain ⟨u, hcheck, rfl⟩ := map_eq_ok.mp hof
    exact hcheck
  · split at hof
    · cases hof
    · cases hof

/-- An accepted order has a name. -/
theorem names_ne_nil {rules : NameRules} {identifiers : List Identifier}
    {permitted found : List String} (h : names rules identifiers permitted = .ok found) :
    found ≠ [] := by
  unfold names at h
  split at h
  · cases h
  next hcount =>
    obtain ⟨ys, hmap, rfl⟩ := map_eq_ok.mp h
    rw [not_or, List.isEmpty_iff] at hcount
    obtain ⟨identifier, hidentifier⟩ := List.exists_mem_of_ne_nil _ hcount.1
    obtain ⟨name, hname, -⟩ := exists_of_mem_of_mapM hmap identifier hidentifier
    exact List.ne_nil_of_mem (mem_btreeSet.mpr hname)

/-! ## Their authorisations -/

/-- The authorisation of one name.  A wildcard is validated only by dns-01, as
RFC 8555 §7.1.3 has it. -/
def authorisationFor (name : String) (offered : List ChallengeType) (expires : Time) :
    Except Problem NewAuthorisation :=
  let wildcard := (stripPrefix "*." name).isSome
  let challenges := offered.filter fun kind => !wildcard || kind = .dns01
  if challenges.isEmpty then
    .error (rejected (name ++ " needs dns-01, which is not offered"))
  else .ok ⟨baseOf name, wildcard, expires, challenges⟩

theorem dns01_of_authorisationFor {name : String} {offered : List ChallengeType}
    {expires : Time} {new : NewAuthorisation}
    (h : authorisationFor name offered expires = .ok new) (hwild : new.wildcard = true) :
    ∀ kind ∈ new.challenges, kind = .dns01 := by
  unfold authorisationFor at h
  simp only at h
  split at h
  · cases h
  · cases h
    intro kind hkind
    have hoffered := (List.mem_filter.mp hkind).2
    rw [show (stripPrefix "*." name).isSome = true from hwild] at hoffered
    exact of_decide_eq_true hoffered

end Opca.Acme
