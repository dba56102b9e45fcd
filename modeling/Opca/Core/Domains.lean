/-
  Core/Domains.lean --- the domains that a subordinate is permitted: how they are
  normalised, compared, put into name constraints and checked against a CSR
  (`services/ca/subordinate.rs`, `services/san.rs`, `services/acme_broker/enrol.rs`,
  `services/acme_broker/renew.rs`).
-/
import Opca.Core.Authority
import Opca.Foundation.IpAddr

set_option autoImplicit false

namespace Opca.Core

open Opca.Foundation

/-! ## Host names -/

/-- A label of an RFC 1123 host name. -/
def isLabel (label : List Char) : Bool :=
  let length := (String.ofList label).utf8ByteSize
  1 ≤ length && length ≤ 63 && label.all (fun c => c.isAlphanum || c = '-') &&
    label.head? ≠ some '-' && label.getLast? ≠ some '-'

/-- RFC 1123 hostname; a wildcard is allowed only as the whole first label, and an
all-numeric last label is refused so a mistyped IP isn't taken as a name. -/
def isDnsName (v : String) (allowWildcard : Bool) : Bool :=
  let name := if allowWildcard then (stripPrefix "*." v).getD v else v
  name.utf8ByteSize ≤ 253 && !(labels name).getLast?.any (·.all Char.isDigit) &&
    (labels name).all isLabel

/-- What a host name is written with. -/
theorem isAlphanum_of_isDnsName {v : String} (h : isDnsName v false = true) {c : Char}
    (hc : c ∈ v.toList) (hdot : c ≠ '.') (hdash : c ≠ '-') : c.isAlphanum = true := by
  obtain ⟨label, hlabel, hmem⟩ := mem_labels hc hdot
  simp only [isDnsName, Bool.and_eq_true, List.all_eq_true] at h
  have hall := h.2 label hlabel
  simp only [isLabel, Bool.and_eq_true, List.all_eq_true, Bool.or_eq_true,
    decide_eq_true_eq] at hall
  exact (hall.1.1.2 c hmem).resolve_right hdash

theorem isWhiteSpace_of_isAlphanum {c : Char} (h : c.isAlphanum = true) :
    isWhiteSpace c = false := by
  have hrange := toNat_of_isAlphanum h
  simp only [isWhiteSpace, Bool.or_eq_false_iff, Bool.and_eq_false_iff, decide_eq_false_iff_not]
  omega

/-- A host name has no white space to trim. -/
theorem trim_of_isDnsName {v : String} (h : isDnsName v false = true) : trim v = v := by
  refine trim_of_not_whiteSpace fun c hc => ?_
  by_cases hdot : c = '.'
  · rw [hdot]
    decide
  · by_cases hdash : c = '-'
    · rw [hdash]
      decide
    · exact isWhiteSpace_of_isAlphanum (isAlphanum_of_isDnsName h hc hdot hdash)

/-! ## Permitted domains -/

/-- Why a domain cannot be permitted. -/
def refusal (domain : String) : Option String :=
  if (IpAddr.parse domain).isSome then some "an IP address, not a domain"
  else if '*' ∈ domain.toList then
    some "a wildcard; the domain already covers every name below it"
  else if !isDnsName domain false then some "not a valid DNS name"
  else none

/-- One more domain among those permitted. -/
def permit (out : List String) (raw : String) : Except OpcaError (List String) :=
  match refusal (toAsciiLowercase (trim raw)) with
  | some why => .error (.invalidCertificate s!"Permitted domain '{raw}': {why}")
  | none =>
    .ok (if toAsciiLowercase (trim raw) ∈ out then out
      else out ++ [toAsciiLowercase (trim raw)])

/-- Lowercased and deduplicated; each covers itself and every name below it. -/
def permittedDomains (domains : List String) : Except OpcaError (List String) := do
  let out ← domains.foldlM permit []
  if out = [] then
    .error (.invalidCertificate "A subordinate CA needs at least one permitted domain")
  else .ok out

/-- What permitting a domain leaves of it. -/
structure Permitted (domain : String) : Prop where
  lowercase : toAsciiLowercase domain = domain
  allowed : refusal domain = none

theorem Permitted.isDnsName {domain : String} (h : Permitted domain) :
    isDnsName domain false = true := by
  have hallowed := h.allowed
  unfold refusal at hallowed
  split at hallowed
  · cases hallowed
  · split at hallowed
    · cases hallowed
    · split at hallowed
      · cases hallowed
      · next hname => simpa using hname

theorem Permitted.trim {domain : String} (h : Permitted domain) : trim domain = domain :=
  trim_of_isDnsName h.isDnsName

/-- Domains as `permittedDomains` leaves them. -/
structure AllPermitted (domains : List String) : Prop where
  permitted : ∀ domain ∈ domains, Permitted domain
  nodup : domains.Nodup

theorem AllPermitted.nil : AllPermitted [] := ⟨by simp, List.nodup_nil⟩

theorem permit_refused {out : List String} {raw why : String}
    (h : refusal (toAsciiLowercase (trim raw)) = some why) :
    permit out raw = .error (.invalidCertificate s!"Permitted domain '{raw}': {why}") := by
  unfold permit
  rw [h]

theorem permit_allowed {out : List String} {raw : String}
    (h : refusal (toAsciiLowercase (trim raw)) = none) :
    permit out raw = .ok (if toAsciiLowercase (trim raw) ∈ out then out
      else out ++ [toAsciiLowercase (trim raw)]) := by
  unfold permit
  rw [h]

theorem AllPermitted.append {out : List String} {domain : String} (h : AllPermitted out)
    (hdomain : Permitted domain) (hnew : domain ∉ out) : AllPermitted (out ++ [domain]) := by
  refine ⟨?_, ?_⟩
  · intro other hother
    rcases List.mem_append.mp hother with hold | hadded
    · exact h.permitted other hold
    · rw [List.mem_singleton.mp hadded]
      exact hdomain
  · rw [List.nodup_append]
    refine ⟨h.nodup, List.nodup_singleton _, ?_⟩
    intro a ha b hb heq
    rw [List.mem_singleton.mp hb] at heq
    exact hnew (heq ▸ ha)

theorem permit_ok {out out' : List String} {raw : String} (h : permit out raw = .ok out')
    (hout : AllPermitted out) : AllPermitted out' := by
  cases hrefusal : refusal (toAsciiLowercase (trim raw)) with
  | some why =>
    rw [permit_refused hrefusal] at h
    cases h
  | none =>
    rw [permit_allowed hrefusal] at h
    injection h with h
    rw [← h]
    split
    next => exact hout
    next hnew => exact hout.append ⟨toAsciiLowercase_idem _, hrefusal⟩ hnew

theorem foldlM_permit_ok (domains : List String) : ∀ {out out' : List String},
    domains.foldlM permit out = .ok out' → AllPermitted out → AllPermitted out' := by
  induction domains with
  | nil =>
    intro out out' h hout
    rw [List.foldlM_nil] at h
    cases h
    exact hout
  | cons raw domains ih =>
    intro out out' h hout
    rw [List.foldlM_cons] at h
    obtain ⟨next, hpermit, hrest⟩ := bind_eq_ok.mp h
    exact ih hrest (permit_ok hpermit hout)

/-- What is permitted is in normal form. -/
theorem permittedDomains_ok {domains out : List String} (h : permittedDomains domains = .ok out) :
    AllPermitted out ∧ out ≠ [] := by
  obtain ⟨found, hfold, h⟩ := bind_eq_ok.mp h
  split at h
  next => cases h
  next hne =>
    cases h
    exact ⟨foldlM_permit_ok domains hfold .nil, hne⟩

theorem foldlM_permit_of_permitted (domains : List String) : ∀ {out : List String},
    AllPermitted (out ++ domains) → domains.foldlM permit out = .ok (out ++ domains) := by
  induction domains with
  | nil =>
    intro out _
    rw [List.foldlM_nil, List.append_nil]
    rfl
  | cons domain domains ih =>
    intro out h
    have hpermitted := h.permitted domain (by simp)
    have hnew : domain ∉ out := by
      have hnodup := h.nodup
      rw [List.nodup_append] at hnodup
      exact fun hmem => hnodup.2.2 domain hmem domain List.mem_cons_self rfl
    have hnormal : toAsciiLowercase (trim domain) = domain := by
      rw [hpermitted.trim, hpermitted.lowercase]
    have hpermit : permit out domain = .ok (out ++ [domain]) := by
      rw [permit_allowed (by rw [hnormal]; exact hpermitted.allowed), hnormal, if_neg hnew]
    have hassoc : out ++ domain :: domains = (out ++ [domain]) ++ domains := by simp
    rw [hassoc] at h
    rw [List.foldlM_cons, hpermit, hassoc]
    exact ih h

/-- Permitting what is permitted changes nothing. -/
theorem permittedDomains_idem {domains out : List String}
    (h : permittedDomains domains = .ok out) : permittedDomains out = .ok out := by
  obtain ⟨hall, hne⟩ := permittedDomains_ok h
  refine bind_eq_ok.mpr ⟨out, foldlM_permit_of_permitted out hall, ?_⟩
  rw [if_neg hne]

example : permittedDomains ["Home.ARPA", " lab.example ", "home.arpa"] =
    .ok ["home.arpa", "lab.example"] := by
  decide +kernel

theorem mem_of_sameDomains {a b : List String} (h : sameDomains a b = true) (domain : String) :
    domain ∈ a ↔ domain ∈ b :=
  (List.isPerm_iff.mp h).mem_iff

/-! ## Whose domains -/

/-- The broker's configured domains when it has any, which the operator may not change;
otherwise the operator's. -/
def enrolmentDomains (configured chosen : List String) : Except OpcaError (List String) :=
  if configured = [] then permittedDomains chosen
  else do
    let configured ← permittedDomains configured
    if chosen = [] then return configured
    else
      let domains ← permittedDomains chosen
      if sameDomains domains configured then return configured
      else .error (.other ("The broker is configured for " ++ ", ".intercalate configured ++
        "; its domains are changed on the broker, not in opCA"))

/-- The broker's configured domains when they differ from those recorded. -/
def changedDomains (recorded configured : List String) :
    Except OpcaError (Option (List String)) :=
  if configured = [] then return none
  else do
    let configured ← permittedDomains configured
    return if sameDomains recorded configured then none else some configured

/-- What an enrolment asks for is in normal form. -/
theorem enrolmentDomains_idem {configured chosen domains : List String}
    (h : enrolmentDomains configured chosen = .ok domains) :
    permittedDomains domains = .ok domains := by
  unfold enrolmentDomains at h
  split at h
  · exact permittedDomains_idem h
  · obtain ⟨permitted, hpermitted, h⟩ := bind_eq_ok.mp h
    split at h
    · cases h
      exact permittedDomains_idem hpermitted
    · obtain ⟨asked, _, h⟩ := bind_eq_ok.mp h
      split at h
      · cases h
        exact permittedDomains_idem hpermitted
      · cases h

/-! ## Name constraints -/

/-- A subtree of names. -/
inductive NameSubtree where
  | dns (name : String)
  | ip (address : IpAddr) (prefixLength : Nat)
  deriving DecidableEq

structure NameConstraints where
  permitted : List NameSubtree
  excluded : List NameSubtree
  deriving DecidableEq

/-- The DNS names that the constraints permit. -/
def NameConstraints.permittedDns (constraints : NameConstraints) : List String :=
  constraints.permitted.filterMap fun
    | .dns name => some name
    | .ip _ _ => none

def nameConstraints (domains : List String) : NameConstraints where
  permitted := domains.map .dns
  excluded := [everything (.v4 0 0 0 0), everything (.v6 (.replicate 8 0))]
where
  everything (address : IpAddr) : NameSubtree := .ip address 0

@[simp] theorem permittedDns_nameConstraints (domains : List String) :
    (nameConstraints domains).permittedDns = domains := by
  unfold NameConstraints.permittedDns nameConstraints
  rw [List.filterMap_map]
  exact List.filterMap_some

/-! ## The names of a CSR -/

/-- A name that a CSR asks for, other than a DNS name as it is displayed. -/
inductive SubjectAltName where
  | dns (host : String)
  | other (displayed : String)
  deriving DecidableEq, Repr

def SubjectAltName.display : SubjectAltName → String
  | .dns host => host
  | .other displayed => displayed

/-- What is read of a CSR. -/
structure Csr where
  commonName : Option String
  names : List SubjectAltName
  publicKey : String
  deriving DecidableEq, Repr

def within (domains : List String) (name : String) : Bool :=
  let name := toAsciiLowercase name
  domains.any fun domain => name = domain || endsWith name ("." ++ domain)

/-- The CSR's names are never copied into the certificate, but one naming a host outside
the domains is refused, as is a host-like common name. -/
def checkRequestedNames (csr : Csr) (domains : List String) : Except OpcaError Unit := do
  csr.names.forM fun name =>
    match name with
    | .dns host => if within domains host then .ok () else outside host
    | .other displayed => outside displayed
  match csr.commonName with
  | none => .ok ()
  | some cn =>
    let hostLike := (IpAddr.parse cn).isSome || ('.' ∈ cn.toList && isDnsName cn true)
    if hostLike && !within domains cn then outside cn else .ok ()
where
  outside (name : String) : Except OpcaError Unit :=
    .error (.invalidCertificate (s!"The CSR names {name}, outside the permitted domains " ++
      ", ".intercalate domains))

end Opca.Core
