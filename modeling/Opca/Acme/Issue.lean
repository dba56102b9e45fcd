/-
  Acme/Issue.lean --- finalising an order: its CSR checked against the order and
  the permitted domains, then a leaf issued from the subordinate
  (`acme/issue.rs`).
-/
import Opca.Acme.Names

set_option autoImplicit false

namespace Opca.Acme

open Opca.Foundation

/-! ## Requests -/

/-- A subject alternative name, as `wslib_crypto_x509` reads it. -/
inductive SubjectAltName where
  | dns (name : String)
  | ip (address : String)
  | email (address : String)
  | uri (uri : String)
  deriving DecidableEq, Repr

inductive KeyDescription where
  | rsa (bits : Option Nat)
  | ecdsa (curve : Option String)
  | other (name : String)
  deriving DecidableEq, Repr

/-- What a CSR whose signature verifies says. -/
structure Csr where
  /-- The DER SubjectPublicKeyInfo. -/
  spki : List UInt8
  key : KeyDescription
  names : List SubjectAltName
  commonName : Option String
  deriving DecidableEq, Repr

structure IssuanceConfig where
  permittedDomains : List String
  challenges : List ChallengeType
  leafDays : UInt32
  leafMaxDays : UInt32
  deriving DecidableEq, Repr

structure Validity where
  notBefore : Time
  notAfter : Time
  deriving DecidableEq, Repr

inductive KeyUsage where
  | digitalSignature | keyEncipherment
  deriving DecidableEq, Repr

/-- What the authority is asked to sign: a serverAuth leaf for the CSR's key. -/
structure Leaf where
  /-- The subject's common name, or an empty subject. -/
  subject : Option String
  /-- `SanPolicy::Requested`: the CSR's own names. -/
  names : List SubjectAltName
  keyUsage : List KeyUsage
  crlDistributionPoints : List String
  caIssuers : List String
  spki : List UInt8
  validity : Validity
  deriving DecidableEq, Repr

/-- What issuing takes from outside: the reading of a CSR, the spelling of what
is refused, and the signature, which gives the leaf's serial and PEM. -/
structure Signing where
  fromDer : List UInt8 → Except String Csr
  describeName : SubjectAltName → String
  describeKey : KeyDescription → String
  sign : Leaf → Except String (String × String)

structure Issuer where
  /-- The subordinate and any intermediates above it, without the root. -/
  chainPem : String
  subordinateSerial : String
  subordinateNotAfter : Time
  config : IssuanceConfig
  /-- Where the leaves say the subordinate and its CRL are published. -/
  pkiOrigin : Option String
  deriving DecidableEq, Repr

def second : Time := 1000000000
def day : Time := 86400 * second
/-- As step-ca does, for clients whose clocks run a little behind. -/
def backdate : Time := 60 * second
/-- RFC 5280's ub-common-name. -/
def commonNameMax : Nat := 64
def crlPath : String := "/crl"
def caPath : String := "/ca.crt"

section Issue

variable (rules : NameRules) (signing : Signing)

/-! ## The checks -/

/-- One of the CSR's names, lower-case, if the broker may issue for it. -/
def requestedName (permitted : List String) : SubjectAltName → Except Problem String
  | .dns dns =>
    let dns := toAsciiLowercase dns
    (checkIdentifier rules dns permitted).map fun () => dns
  | .ip address => .error (rejected
      (signing.describeName (.ip address) ++
        " is an IP address, and only DNS names are issued"))
  | other => .error (badCsr (signing.describeName other ++ " is not a DNS name"))

/-- The CSR's DNS names, lower-case, each one the broker may issue for. -/
def requestedNames (config : IssuanceConfig) (csr : Csr) : Except Problem (List String) := do
  let names := btreeSet (← csr.names.mapM (requestedName rules signing config.permittedDomains))
  if names.isEmpty then .error (badCsr "the CSR names no DNS names") else .ok names

def checkKey (key : KeyDescription) : Except Problem Unit :=
  let accepted := match key with
    | .rsa (some bits) => decide (2048 ≤ bits ∧ bits ≤ 8192)
    | .ecdsa (some curve) => decide (curve = "P-256" ∨ curve = "P-384")
    | _ => false
  if accepted then .ok ()
  else .error (badCsr ("an " ++ signing.describeKey key ++
    " key is not issued for: RSA of 2048 to 8192 bits, P-256 or P-384"))

/-- Among the CSR's DNS names short enough for a common name: its common name if
it is one, else the first, else none. -/
def leafCommonName (csr : Csr) : Option String :=
  let fitting := csr.names.filterMap fun name => match name with
    | .dns dns => if dns.utf8ByteSize ≤ commonNameMax then some (toAsciiLowercase dns) else none
    | _ => none
  let own := (csr.commonName.map toAsciiLowercase).filter (· ∈ fitting)
  own.or fitting.head?

/-- From now, less a minute, or the order's later notBefore; for the order's
notAfter or the default lifetime, capped by the longest and by the subordinate's
own end. -/
def Issuer.validity (issuer : Issuer) (order : Order) (now : Time) :
    Except Problem Validity :=
  let earliest := now - backdate
  let notBefore := order.notBefore.elim earliest (max · earliest)
  let days (n : UInt32) := notBefore + day * n.toNat
  let notAfter := min (min (order.notAfter.getD (days issuer.config.leafDays))
    (days issuer.config.leafMaxDays)) issuer.subordinateNotAfter
  if notAfter ≤ notBefore then
    .error (malformed "the certificate would end before it begins")
  else .ok ⟨notBefore, notAfter⟩

/-- The leaf asked for: its subject `commonName` alone or empty. -/
def Issuer.leaf (issuer : Issuer) (csr : Csr) (commonName : Option String)
    (validity : Validity) : Leaf where
  subject := commonName
  names := csr.names
  keyUsage := .digitalSignature :: match csr.key with
    | .rsa _ => [.keyEncipherment]
    | _ => []
  crlDistributionPoints := issuer.pkiOrigin.toList.map (· ++ crlPath)
  caIssuers := issuer.pkiOrigin.toList.map (· ++ caPath)
  spki := csr.spki
  validity := validity

/-- A set of texts, as a message shows it. -/
def quoteSet (names : List String) : String :=
  "\x7b" ++ ", ".intercalate (names.map rules.quote) ++ "\x7d"

/-- The certificate `csrDer` asks for, with the leaf it was signed from, if it
names exactly the order's identifiers and nothing else refuses it; `accountKey`
is the account's DER SubjectPublicKeyInfo, which the CSR may not reuse. -/
def Issuer.issue (issuer : Issuer) (order : Order) (csrDer accountKey : List UInt8)
    (now : Time) : Except Problem (Leaf × NewCertificate) := do
  let csr ← (signing.fromDer csrDer).mapError fun e =>
    badCsr ("the CSR is unreadable or its signature fails: " ++ e)
  if csr.spki = accountKey then .error (badCsr "the CSR's key is the account's key")
  else do
    checkKey signing csr.key
    let names ← requestedNames rules signing issuer.config csr
    let ordered := btreeSet (order.identifiers.map toAsciiLowercase)
    if names ≠ ordered then
      .error (badCsr ("the CSR names " ++ quoteSet rules names ++ ", and the order " ++
        quoteSet rules ordered))
    else do
      let validity ← issuer.validity order now
      let commonName := leafCommonName csr
      let leaf := issuer.leaf csr commonName validity
      let (serial, pem) ← (signing.sign leaf).mapError (Problem.mk .serverInternal)
      .ok (leaf, {
        serial := serial
        commonName := commonName
        sans := names
        notBefore := validity.notBefore
        notAfter := validity.notAfter
        chainPem := pem ++ issuer.chainPem
        issuerSerial := issuer.subordinateSerial })

/-! ## What a certificate says of its CSR and order -/

variable {rules signing}

/-- The DNS names of a CSR, lower-case. -/
def Csr.dnsNames (csr : Csr) : List String :=
  csr.names.filterMap fun name => match name with
    | .dns dns => some (toAsciiLowercase dns)
    | _ => none

theorem Csr.mem_dnsNames {csr : Csr} {name : String} :
    name ∈ csr.dnsNames ↔ ∃ dns, .dns dns ∈ csr.names ∧ toAsciiLowercase dns = name := by
  unfold Csr.dnsNames
  rw [List.mem_filterMap]
  constructor
  · rintro ⟨san, hsan, h⟩
    cases san with
    | dns dns =>
      cases h
      exact ⟨dns, hsan, rfl⟩
    | _ => cases h
  · rintro ⟨dns, hdns, rfl⟩
    exact ⟨_, hdns, rfl⟩

/-- Only a DNS name that passes the check is let into the leaf. -/
theorem requestedName_ok {permitted : List String} {san : SubjectAltName}
    {name : String} (h : requestedName rules signing permitted san = .ok name) :
    ∃ dns, san = .dns dns ∧ toAsciiLowercase dns = name ∧
      checkIdentifier rules name permitted = .ok () := by
  cases san with
  | dns dns =>
    obtain ⟨u, hcheck, rfl⟩ := map_eq_ok.mp h
    exact ⟨dns, rfl, rfl, hcheck⟩
  | ip _ => cases h
  | email _ => cases h
  | uri _ => cases h

theorem requestedNames_ok {config : IssuanceConfig} {csr : Csr} {found : List String}
    (h : requestedNames rules signing config csr = .ok found) :
    (∀ san ∈ csr.names, ∃ dns, san = .dns dns) ∧
    (∀ name, name ∈ found ↔ name ∈ csr.dnsNames) ∧
    (∀ name ∈ found, checkIdentifier rules name config.permittedDomains = .ok ()) := by
  obtain ⟨ys, hmap, h⟩ := bind_eq_ok.mp h
  dsimp only at h
  split at h
  · cases h
  cases h
  refine ⟨?_, ?_, ?_⟩
  · intro san hsan
    obtain ⟨name, -, hname⟩ := exists_of_mem_of_mapM hmap san hsan
    obtain ⟨dns, hdns, -⟩ := requestedName_ok hname
    exact ⟨dns, hdns⟩
  · intro name
    rw [mem_btreeSet, Csr.mem_dnsNames]
    constructor
    · intro hname
      obtain ⟨san, hsan, hof⟩ := exists_of_mem_mapM hmap name hname
      obtain ⟨dns, rfl, hlower, -⟩ := requestedName_ok hof
      exact ⟨dns, hsan, hlower⟩
    · rintro ⟨dns, hdns, rfl⟩
      obtain ⟨name, hname, hof⟩ := exists_of_mem_of_mapM hmap _ hdns
      obtain ⟨dns', heq, hlower, -⟩ := requestedName_ok hof
      cases heq
      rw [hlower]
      exact hname
  · intro name hname
    obtain ⟨san, -, hof⟩ := exists_of_mem_mapM hmap name (mem_btreeSet.mp hname)
    obtain ⟨dns, -, -, hcheck⟩ := requestedName_ok hof
    exact hcheck

theorem leafCommonName_mem {csr : Csr} {cn : String} (h : leafCommonName csr = some cn) :
    cn ∈ csr.dnsNames := by
  have hfitting : ∀ name ∈ csr.names.filterMap (fun name => match name with
      | .dns dns => if dns.utf8ByteSize ≤ commonNameMax then some (toAsciiLowercase dns)
        else none
      | _ => none), name ∈ csr.dnsNames := by
    intro name hname
    obtain ⟨san, hsan, hof⟩ := List.mem_filterMap.mp hname
    cases san with
    | dns dns =>
      simp only at hof
      split at hof
      · cases hof
        exact Csr.mem_dnsNames.mpr ⟨dns, hsan, rfl⟩
      · cases hof
    | _ => cases hof
  unfold leafCommonName at h
  simp only at h
  rcases Option.or_eq_some_iff.mp h with hown | ⟨-, hfirst⟩
  · have hmem := (Option.filter_eq_some_iff.mp hown).2
    exact hfitting cn (of_decide_eq_true hmem)
  · exact hfitting cn (List.mem_of_mem_head? hfirst)

/-- What holds between an order, a CSR and the leaf signed for them, under a
list of permitted domains. -/
structure Contained (permitted : List String) (order : Order) (csr : Csr) (leaf : Leaf)
    (issued : NewCertificate) : Prop where
  /-- The leaf carries the CSR's names, and each of them is a DNS name. -/
  leaf_names : leaf.names = csr.names
  only_dns : ∀ san ∈ leaf.names, ∃ dns, san = .dns dns
  /-- Case aside, they are the order's identifiers. -/
  ordered : ∀ name, name ∈ csr.dnsNames ↔ name ∈ order.identifiers
  common_name : issued.commonName = leaf.subject ∧
    ∀ cn, leaf.subject = some cn → cn ∈ csr.dnsNames
  within : ∀ name ∈ csr.dnsNames, '*' ∉ (baseOf name).toList ∧
    WithinDomains (baseOf name) permitted
  /-- The subordinate's name constraints accept the leaf. -/
  constraints : ∀ dns, .dns dns ∈ leaf.names → AcceptedBy permitted dns

/-- What `issue` returns passed all of its checks. -/
theorem Issuer.issue_ok {issuer : Issuer} {order : Order} {csrDer accountKey : List UInt8}
    {now : Time} {leaf : Leaf} {issued : NewCertificate}
    (h : issuer.issue rules signing order csrDer accountKey now = .ok (leaf, issued)) :
    ∃ csr found validity, signing.fromDer csrDer = .ok csr ∧
      requestedNames rules signing issuer.config csr = .ok found ∧
      found = btreeSet (order.identifiers.map toAsciiLowercase) ∧
      leaf = issuer.leaf csr (leafCommonName csr) validity ∧
      issued.commonName = leafCommonName csr := by
  obtain ⟨csr, hcsr, h⟩ := bind_eq_ok.mp h
  split at h
  · cases h
  obtain ⟨-, -, h⟩ := bind_eq_ok.mp h
  obtain ⟨found, hfound, h⟩ := bind_eq_ok.mp h
  dsimp only at h
  split at h
  · cases h
  rename_i hsame
  rw [ne_eq, not_not] at hsame
  obtain ⟨validity, -, h⟩ := bind_eq_ok.mp h
  obtain ⟨⟨serial, pem⟩, -, h⟩ := bind_eq_ok.mp h
  cases h
  exact ⟨csr, found, validity, mapError_eq_ok.mp hcsr, hfound, hsame, rfl, rfl⟩

/-! ## What is refused -/

theorem checkKey_error {key : KeyDescription} {problem : Problem}
    (h : checkKey signing key = .error problem) : problem.kind = .badCsr := by
  rcases ite_eq_iff.mp h with ⟨-, h⟩ | ⟨-, h⟩
  · cases h
  · cases h
    rfl

theorem Issuer.validity_error {issuer : Issuer} {order : Order} {now : Time}
    {problem : Problem} (h : issuer.validity order now = .error problem) :
    problem.kind = .malformed := by
  rcases ite_eq_iff.mp h with ⟨-, h⟩ | ⟨-, h⟩
  · cases h
    rfl
  · cases h

/-- Only a CSR's names are rejected as identifiers. -/
theorem Issuer.issue_rejected {issuer : Issuer} {order : Order}
    {csrDer accountKey : List UInt8} {now : Time} {csr : Csr} {problem : Problem}
    (hcsr : signing.fromDer csrDer = .ok csr)
    (h : issuer.issue rules signing order csrDer accountKey now = .error problem)
    (hkind : problem.kind = .rejectedIdentifier) :
    requestedNames rules signing issuer.config csr = .error problem := by
  unfold Issuer.issue at h
  rw [hcsr] at h
  rcases bind_eq_error.mp h with h | ⟨_, hread, h⟩
  · cases h
  cases hread
  split at h
  · cases h
    cases hkind
  rcases bind_eq_error.mp h with h | ⟨_, -, h⟩
  · rw [checkKey_error h] at hkind
    cases hkind
  rcases bind_eq_error.mp h with h | ⟨found, -, h⟩
  · exact h
  dsimp only at h
  split at h
  · cases h
    cases hkind
  rcases bind_eq_error.mp h with h | ⟨validity, -, h⟩
  · rw [Issuer.validity_error h] at hkind
    cases hkind
  rcases bind_eq_error.mp h with h | ⟨_, -, h⟩
  · obtain ⟨_, -, rfl⟩ := mapError_eq_error.mp h
    cases hkind
  · cases h

theorem requestedNames_rejected {config : IssuanceConfig} {csr : Csr} {problem : Problem}
    (h : requestedNames rules signing config csr = .error problem)
    (hkind : problem.kind = .rejectedIdentifier) :
    ∃ san ∈ csr.names, requestedName rules signing config.permittedDomains san =
      .error problem := by
  rcases bind_eq_error.mp h with h | ⟨ys, -, h⟩
  · exact exists_of_mapM_error h
  · rcases ite_eq_iff.mp h with ⟨-, h⟩ | ⟨-, h⟩
    · cases h
      cases hkind
    · cases h

theorem requestedName_eq_ok {permitted : List String} {dns : String}
    (h : checkIdentifier rules (toAsciiLowercase dns) permitted = .ok ()) :
    requestedName rules signing permitted (.dns dns) = .ok (toAsciiLowercase dns) := by
  simp only [requestedName, h]
  rfl

/-- A CSR whose names all pass is read as these names. -/
theorem requestedNames_eq_ok {config : IssuanceConfig} {csr : Csr} (hne : csr.names ≠ [])
    (h : ∀ san ∈ csr.names, ∃ dns, san = .dns dns ∧
      checkIdentifier rules (toAsciiLowercase dns) config.permittedDomains = .ok ()) :
    requestedNames rules signing config csr = .ok (btreeSet csr.dnsNames) := by
  have hmap : csr.names.mapM (requestedName rules signing config.permittedDomains) =
      .ok csr.dnsNames := by
    unfold Csr.dnsNames
    clear hne
    revert h
    induction csr.names with
    | nil => exact fun _ => rfl
    | cons san rest ih =>
      intro h
      obtain ⟨dns, rfl, hcheck⟩ := h san List.mem_cons_self
      rw [List.mapM_cons, requestedName_eq_ok hcheck,
        ih fun other hother => h other (List.mem_cons_of_mem _ hother)]
      rfl
  unfold requestedNames
  rw [hmap]
  obtain ⟨san, hsan⟩ := List.exists_mem_of_ne_nil _ hne
  obtain ⟨dns, rfl, -⟩ := h san hsan
  have hname : toAsciiLowercase dns ∈ btreeSet csr.dnsNames :=
    mem_btreeSet.mpr (Csr.mem_dnsNames.mpr ⟨dns, hsan, rfl⟩)
  have hnonempty : (btreeSet csr.dnsNames).isEmpty = false := by
    rw [List.isEmpty_eq_false_iff]
    exact List.ne_nil_of_mem hname
  show (if (btreeSet csr.dnsNames).isEmpty then _ else _) = _
  rw [hnonempty]
  rfl

/-- Whatever is issued for an order whose identifiers are lower case carries just them. -/
theorem Issuer.issue_contained_of_lower {issuer : Issuer} {order : Order}
    {csrDer accountKey : List UInt8} {now : Time} {leaf : Leaf} {issued : NewCertificate}
    (hlowered : order.identifiers.map toAsciiLowercase = order.identifiers)
    (hissue : issuer.issue rules signing order csrDer accountKey now = .ok (leaf, issued)) :
    ∃ csr, signing.fromDer csrDer = .ok csr ∧
      Contained issuer.config.permittedDomains order csr leaf issued := by
  obtain ⟨csr, requested, validity, hcsr, hnames, hsame, rfl, hcn⟩ := Issuer.issue_ok hissue
  obtain ⟨hdns, hmem, hcheck⟩ := requestedNames_ok hnames
  have hpassed : ∀ name ∈ csr.dnsNames,
      checkIdentifier rules name issuer.config.permittedDomains = .ok () :=
    fun name hname => hcheck name ((hmem name).mpr hname)
  refine ⟨csr, hcsr, rfl, hdns, ?_, ⟨hcn, fun cn hsubject => leafCommonName_mem hsubject⟩, ?_, ?_⟩
  · intro name
    rw [← hmem, hsame, mem_btreeSet, hlowered]
  · intro name hname
    exact (checkIdentifier_ok (hpassed name hname)).2
  · intro dns hmemDns
    have hname : toAsciiLowercase dns ∈ csr.dnsNames :=
      Csr.mem_dnsNames.mpr ⟨dns, hmemDns, rfl⟩
    obtain ⟨hlower, -, hwithin⟩ := checkIdentifier_ok (hpassed _ hname)
    obtain ⟨domain, hdomain, haccepts⟩ := acceptedBy_of_withinDomains hlower hwithin
    refine ⟨domain, hdomain, ?_⟩
    unfold SatisfiesConstraint at haccepts ⊢
    rwa [hlower] at haccepts

/-- What an issuer needs beside names that it may issue for. -/
structure Issuer.Willing (signing : Signing) (issuer : Issuer) (order : Order) (csr : Csr)
    (accountKey : List UInt8) (now : Time) : Prop where
  key : csr.spki ≠ accountKey ∧ checkKey signing csr.key = .ok ()
  signs : ∃ validity issued, issuer.validity order now = .ok validity ∧
    signing.sign (issuer.leaf csr (leafCommonName csr) validity) = .ok issued

theorem Issuer.issue_eq_ok {issuer : Issuer} {order : Order} {csrDer accountKey : List UInt8}
    {now : Time} {csr : Csr} (hcsr : signing.fromDer csrDer = .ok csr)
    (hnames : requestedNames rules signing issuer.config csr =
      .ok (btreeSet (order.identifiers.map toAsciiLowercase)))
    (h : issuer.Willing signing order csr accountKey now) :
    ∃ result, issuer.issue rules signing order csrDer accountKey now = .ok result := by
  obtain ⟨⟨haccount, hkey⟩, validity, issued, hvalidity, hsign⟩ := h
  unfold Issuer.issue
  rw [hcsr, show (Except.ok csr : Except String Csr).mapError _ = (.ok csr : Except Problem Csr)
    from rfl]
  simp only [bind, Except.bind, if_neg haccount, hkey, hnames, ne_eq, not_true_eq_false,
    if_false, hvalidity, hsign]
  exact ⟨_, rfl⟩

end Issue

/-- **Names are contained end to end.**  For an order accepted under any permitted
domains: whatever certificate is issued for it, under any others, carries exactly
its names; and under the same domains no identifier is rejected but for a name that
was not accepted, and a CSR for the order's names is issued for. -/
theorem issue_contained (rules : NameRules) (signing : Signing)
    (identifiers : List Identifier) (permitted found : List String)
    (hnew : names rules identifiers permitted = .ok found) (issuer : Issuer) (order : Order)
    (csrDer accountKey : List UInt8) (now : Time) :
    (∀ leaf issued, order.identifiers = found →
      issuer.issue rules signing order csrDer accountKey now = .ok (leaf, issued) →
      ∃ csr, signing.fromDer csrDer = .ok csr ∧
        Contained issuer.config.permittedDomains order csr leaf issued) ∧
    (issuer.config.permittedDomains = permitted → ∀ csr, signing.fromDer csrDer = .ok csr →
      (∀ problem, issuer.issue rules signing order csrDer accountKey now = .error problem →
        problem.kind = .rejectedIdentifier → ∃ san ∈ csr.names,
          requestedName rules signing permitted san = .error problem ∧
          ∀ dns, san = .dns dns → toAsciiLowercase dns ∉ found) ∧
      (order.identifiers = found → (∀ san ∈ csr.names, ∃ dns, san = .dns dns) →
        (∀ name, name ∈ csr.dnsNames ↔ name ∈ found) →
        issuer.Willing signing order csr accountKey now →
        ∃ result, issuer.issue rules signing order csrDer accountKey now = .ok result)) := by
  have hchecked : ∀ name ∈ found, checkIdentifier rules name permitted = .ok () :=
    fun name => checkIdentifier_of_mem_names hnew
  have hlowered : found.map toAsciiLowercase = found := by
    refine (List.map_congr_left fun name hname => ?_).trans (List.map_id' found)
    exact (checkIdentifier_ok (hchecked name hname)).1
  refine ⟨fun leaf issued horder => Issuer.issue_contained_of_lower (horder ▸ hlowered), ?_⟩
  rintro rfl csr hcsr
  constructor
  · intro problem hissue hkind
    have hnames := Issuer.issue_rejected hcsr hissue hkind
    obtain ⟨san, hsan, hrefused⟩ := requestedNames_rejected hnames hkind
    refine ⟨san, hsan, hrefused, ?_⟩
    rintro dns rfl hfound
    rw [requestedName_eq_ok (hchecked _ hfound)] at hrefused
    cases hrefused
  · intro horder hdns hsame hwilling
    obtain ⟨name, hname⟩ := List.exists_mem_of_ne_nil _ (names_ne_nil hnew)
    obtain ⟨dns, hmem, -⟩ := Csr.mem_dnsNames.mp ((hsame name).mpr hname)
    have hrequested : requestedNames rules signing issuer.config csr =
        .ok (btreeSet csr.dnsNames) := by
      refine requestedNames_eq_ok (List.ne_nil_of_mem hmem) fun san hsan => ?_
      obtain ⟨dns, rfl⟩ := hdns san hsan
      exact ⟨dns, rfl, hchecked _ ((hsame _).mp (Csr.mem_dnsNames.mpr ⟨dns, hsan, rfl⟩))⟩
    refine Issuer.issue_eq_ok hcsr ?_ hwilling
    rw [hrequested, horder, hlowered, btreeSet_congr hsame]

/-- A CSR for a wildcard and its base. -/
def wildcardCsr : Csr where
  spki := [1]
  key := .ecdsa (some "P-256")
  names := [.dns "*.Example.com", .dns "example.com"]
  commonName := none

/-- It, and the signature on its leaf. -/
def plainSigning : Signing where
  fromDer _ := .ok wildcardCsr
  describeName _ := ""
  describeKey _ := ""
  sign _ := .ok ("7", "leaf")

/-- A CSR that names another host beside them. -/
def otherCsr : Csr :=
  { wildcardCsr with names := wildcardCsr.names ++ [.dns "example.org"] }

def otherSigning : Signing := { plainSigning with fromDer _ := .ok otherCsr }

/-- An order for the same names has its certificate; with the other host, it is that one that
is refused. -/
theorem issue_contained_wildcard :
    let order : Order :=
      ⟨1, 1, .ready, ["*.example.com", "example.com"], none, none, 0, none, none, 0⟩
    let issuer : Issuer := ⟨"", "5", 1000 * day, ⟨["example.com"], [.dns01], 30, 90⟩, none⟩
    (∃ leaf issued,
      issuer.issue plainRules plainSigning order [] [2] 0 = .ok (leaf, issued) ∧
      Contained ["example.com"] order wildcardCsr leaf issued) ∧
    ∃ problem, issuer.issue plainRules otherSigning order [] [2] 0 = .error problem ∧
      requestedName plainRules otherSigning ["example.com"] (.dns "example.org") =
        .error problem := by
  intro order issuer
  have hnew : names plainRules [⟨"dns", "example.com"⟩, ⟨"dns", "*.example.com"⟩]
      ["example.com"] = .ok ["*.example.com", "example.com"] := by
    rfl
  constructor
  · have hcontained := issue_contained plainRules plainSigning _ _ _ hnew issuer order [] [2] 0
    have hnames : wildcardCsr.dnsNames = ["*.example.com", "example.com"] := by decide
    have hdns : ∀ san ∈ wildcardCsr.names, ∃ dns, san = .dns dns := by
      intro san hsan
      rcases List.mem_cons.mp hsan with rfl | hsan
      · exact ⟨_, rfl⟩
      · exact ⟨_, List.mem_singleton.mp hsan⟩
    obtain ⟨⟨leaf, issued⟩, hissue⟩ := (hcontained.2 rfl wildcardCsr rfl).2 rfl hdns
      (fun name => by rw [hnames]) ⟨⟨by decide, rfl⟩, ⟨-backdate, 30 * day - backdate⟩,
        ("7", "leaf"), by decide, rfl⟩
    obtain ⟨csr, hcsr, hnames⟩ := hcontained.1 leaf issued rfl hissue
    cases hcsr
    exact ⟨leaf, issued, hissue, hnames⟩
  · have hcontained := issue_contained plainRules otherSigning _ _ _ hnew issuer order [] [2] 0
    have hissue : issuer.issue plainRules otherSigning order [] [2] 0 =
        .error (rejected "\"example.org\" is outside the permitted domains") := by
      decide +kernel
    obtain ⟨san, hsan, hrefused, hunnamed⟩ := (hcontained.2 rfl otherCsr rfl).1 _ hissue rfl
    have hother : san = .dns "example.org" := by
      rcases List.mem_append.mp hsan with hsan | hsan
      · rcases List.mem_cons.mp hsan with rfl | hsan
        · exact absurd (by decide) (hunnamed _ rfl)
        · cases List.mem_singleton.mp hsan
          exact absurd (by decide) (hunnamed _ rfl)
      · exact List.mem_singleton.mp hsan
    rw [hother] at hrefused
    exact ⟨_, hissue, hrefused⟩

end Opca.Acme
