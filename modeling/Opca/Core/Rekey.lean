/-
  Core/Rekey.lean --- a new key for a bundle, and a request with the names of the
  certificate that it had (`services/cert.rs`, `services/san.rs`).

  Keys, certificates and requests are types of their own; what is read of them and how a
  request is made are parameters.
-/
import Opca.Core.Lifetimes
import Opca.Core.San

set_option autoImplicit false

namespace Opca.Core

open Opca.Foundation

inductive KeyAlgorithm where
  | ecP256 | ecP384 | rsa2048 | rsa4096
  deriving DecidableEq, Repr

def Lifetimes.CertType.defaultKeyAlgorithm : Lifetimes.CertType → KeyAlgorithm
  | .ca => .ecP384
  | .appleDev => .rsa2048
  | _ => .ecP256

namespace San.Rekey

open Lifetimes (CertType)

/-! ## Bundles -/

structure CertBundleConfig where
  cn : Option String := none
  keyAlgorithm : Option KeyAlgorithm := none
  org : Option String := none
  ou : Option String := none
  email : Option String := none
  city : Option String := none
  state : Option String := none
  country : Option String := none
  altNames : Option (List String) := none
  nextSerial : Option Int := none
  caDays : Option Int := none
  deriving DecidableEq

structure CertificateBundle (Key Cert Csr : Type) where
  certType : CertType
  title : String
  config : CertBundleConfig
  csr : Option Csr
  privateKey : Option Key
  certificate : Option Cert
  chain : Option (List Cert)
  deriving DecidableEq

structure Subject where
  commonName : String
  country : Option String
  state : Option String
  locality : Option String
  organisation : Option String
  organisationalUnit : Option String
  email : Option String
  deriving DecidableEq

/-- An entry of a certificate's extension; an address is of 4 or 16 octets, and one of
another length is among the others. -/
inductive GeneralName where
  | dnsName (v : String)
  | ipAddress (address : IpAddr)
  | rfc822Name (v : String)
  | uniformResourceIdentifier (v : String)
  | other
  deriving DecidableEq

/-- What is done with keys, certificates and requests. -/
structure X509 (Key Cert Csr : Type) where
  generate : KeyAlgorithm → Except OpcaError Key
  /-- The algorithm of a certificate's key, if it is one of the four. -/
  keyAlgorithm : Cert → Option KeyAlgorithm
  commonName : Cert → Option String
  subjectAltNames : Cert → Option (List GeneralName)
  buildCsr : Key → Subject → List SubjectAltName → Except OpcaError Csr
  names : Csr → List SubjectAltName

/-- A request carries the names that it is made with. -/
def X509.Carries {Key Cert Csr : Type} (x : X509 Key Cert Csr) : Prop :=
  ∀ key subject names csr, x.buildCsr key subject names = .ok csr → x.names csr = names

/-! ## Rekeying -/

def fromGeneralName : GeneralName → Option SubjectAltName
  | .dnsName v => some (.dns v)
  | .ipAddress address => some (.ip address)
  | .rfc822Name v => some (.email v)
  | .uniformResourceIdentifier v => some (.uri v)
  | .other => none

/-- The names of an extension, those of other kinds left out. -/
def ofExtension (names : Option (List GeneralName)) : List SubjectAltName :=
  (names.map (List.filterMap fromGeneralName)).getD []

section

variable {Key Cert Csr : Type} (x : X509 Key Cert Csr)

def ofCertificate (cert : Cert) : List SubjectAltName := ofExtension (x.subjectAltNames cert)

/-- The names as they are read from their texts, up to the first that is refused. -/
def parseNames : List String → Option (Except OpcaError (List SubjectAltName))
  | [] => some (.ok [])
  | s :: texts => do
    match ← SubjectAltName.fromStr s with
    | .error e => return .error e
    | .ok name => return (← parseNames texts).map (name :: ·)

def subjectOf (cn : String) (config : CertBundleConfig) : Subject where
  commonName := cn
  country := config.country
  state := config.state
  locality := config.city
  organisation := config.org
  organisationalUnit := config.ou
  email := config.email

def buildCsr (cn : String) (key : Key) (config : CertBundleConfig) :
    Option (Except OpcaError Csr) := do
  match ← parseNames (config.altNames.getD []) with
  | .error e => return .error e
  | .ok names => return x.buildCsr key (subjectOf cn config) names

/-- The CN and the names of the certificate, where the configuration has none. -/
def backfilled (bundle : CertificateBundle Key Cert Csr) : CertBundleConfig :=
  let names := (bundle.certificate.map (ofCertificate x)).getD []
  { bundle.config with
    cn := bundle.config.cn.or (bundle.certificate.bind x.commonName)
    altNames := bundle.config.altNames.or
      (if names = [] then none else some (names.map SubjectAltName.text)) }

def keyAlgorithmFor (algorithm : Option KeyAlgorithm) (bundle : CertificateBundle Key Cert Csr) :
    KeyAlgorithm :=
  (algorithm.or (bundle.certificate.bind x.keyAlgorithm)).getD
    bundle.certType.defaultKeyAlgorithm

/-- The outcome, and the bundle after it. -/
def regenerateKeyAndCsr (algorithm : Option KeyAlgorithm)
    (bundle : CertificateBundle Key Cert Csr) :
    Option (Except OpcaError Unit × CertificateBundle Key Cert Csr) :=
  let config := backfilled x bundle
  let filled := { bundle with config }
  match config.cn with
  | none => some (.error (.invalidCertificate "CN is required for rekeying"), filled)
  | some cn =>
    match x.generate (keyAlgorithmFor x algorithm bundle) with
    | .error e => some (.error e, filled)
    | .ok newKey => do
      match ← buildCsr x cn newKey config with
      | .error e => return (.error e, filled)
      | .ok newCsr =>
        return (.ok (), { filled with privateKey := some newKey, csr := some newCsr })

end

/-! ## Names and their texts -/

def toGeneralName : SubjectAltName → GeneralName
  | .dns v => .dnsName v
  | .ip address => .ipAddress address
  | .email v => .rfc822Name v
  | .uri v => .uniformResourceIdentifier v

/-- A name whose text is classified as that name. -/
def ReadsBack : SubjectAltName → Prop
  | .ip _ => True
  | .dns v => trim v = v ∧ v ≠ "" ∧ IpAddr.parse v = none ∧ '@' ∉ v.toList ∧
      isUri v = some false ∧ isDnsName v true = true
  | .email v => trim v = v ∧ IpAddr.parse v = none ∧ ∃ localPart domain,
      splitOnce ['@'] v.toList = some (localPart, domain) ∧ localPart ≠ [] ∧
      (∀ c ∈ localPart, isAsciiGraphic c = true ∧ c ≠ '@') ∧
      isDnsName (String.ofList domain) false = true
  | .uri v => trim v = v ∧ v ≠ "" ∧ IpAddr.parse v = none ∧ '@' ∉ v.toList ∧
      isUri v = some true

/-- Of printable ASCII characters, if it is a text. -/
def Printable : SubjectAltName → Prop
  | .ip _ => True
  | .dns v | .email v | .uri v => ∀ c ∈ v.toList, 0x20 ≤ c.toNat ∧ c.toNat ≤ 0x7e

/-! ## Reading back -/

section

variable {v : String} {name : SubjectAltName}

/-- Other names than addresses read back as a text only if nothing is trimmed. -/
theorem trim_eq_of_fromStr (h : SubjectAltName.fromStr name.text = some (.ok name))
    (hip : ∀ address, name ≠ .ip address) : trim name.text = name.text := by
  rcases SubjectAltName.ofTrimmed_text h with ⟨address, haddress⟩ | htext
  · exact absurd haddress (hip address)
  · exact htext.symm

theorem fromStr_text_iff (hip : ∀ address, name ≠ .ip address) :
    SubjectAltName.fromStr name.text = some (.ok name) ↔
      trim name.text = name.text ∧ SubjectAltName.ofTrimmed name.text = some (.ok name) := by
  constructor
  · intro h
    have htrim := trim_eq_of_fromStr h hip
    have hread : SubjectAltName.ofTrimmed (trim name.text) = some (.ok name) := h
    rw [htrim] at hread
    exact ⟨htrim, hread⟩
  · rintro ⟨htrim, h⟩
    show SubjectAltName.ofTrimmed (trim name.text) = _
    rw [htrim]
    exact h

theorem splitOnce_at_none : splitOnce ['@'] v.toList = none ↔ '@' ∉ v.toList := by
  rw [← SubjectAltName.splitOnce_at, Bool.not_eq_true, Option.isSome_eq_false_iff,
    Option.isNone_iff_eq_none]

theorem ofTrimmed_dns : SubjectAltName.ofTrimmed v = some (.ok (.dns v)) ↔
    v ≠ "" ∧ IpAddr.parse v = none ∧ '@' ∉ v.toList ∧ isUri v = some false ∧
      isDnsName v true = true := by
  rw [← splitOnce_at_none]
  unfold SubjectAltName.ofTrimmed
  by_cases hempty : v = ""
  · simp [hempty]
  · cases IpAddr.parse v with
    | some address => simp [hempty]
    | none =>
      cases splitOnce ['@'] v.toList with
      | some split =>
        simp only [hempty]
        grind
      | none =>
        cases isUri v with
        | none => simp [hempty]
        | some uri => cases uri <;> cases hdns : isDnsName v true <;> simp [hempty]

theorem ofTrimmed_uri : SubjectAltName.ofTrimmed v = some (.ok (.uri v)) ↔
    v ≠ "" ∧ IpAddr.parse v = none ∧ '@' ∉ v.toList ∧ isUri v = some true := by
  rw [← splitOnce_at_none]
  unfold SubjectAltName.ofTrimmed
  by_cases hempty : v = ""
  · simp [hempty]
  · cases IpAddr.parse v with
    | some address => simp [hempty]
    | none =>
      cases splitOnce ['@'] v.toList with
      | some split =>
        simp only [hempty]
        grind
      | none =>
        cases isUri v with
        | none => simp [hempty]
        | some uri => cases uri <;> cases hdns : isDnsName v true <;> simp [hempty]

theorem ofTrimmed_email : SubjectAltName.ofTrimmed v = some (.ok (.email v)) ↔
    IpAddr.parse v = none ∧ ∃ localPart domain,
      splitOnce ['@'] v.toList = some (localPart, domain) ∧ localPart ≠ [] ∧
      (∀ c ∈ localPart, isAsciiGraphic c = true ∧ c ≠ '@') ∧
      isDnsName (String.ofList domain) false = true := by
  unfold SubjectAltName.ofTrimmed
  by_cases hempty : v = ""
  · subst hempty
    simp [splitOnce]
  · cases IpAddr.parse v with
    | some address => simp [hempty]
    | none =>
      cases splitOnce ['@'] v.toList with
      | none =>
        cases isUri v with
        | none => simp [hempty]
        | some uri => cases uri <;> cases hdns : isDnsName v true <;> simp [hempty]
      | some split =>
        obtain ⟨localPart, domain⟩ := split
        simp only [hempty]
        grind

theorem readsBack_iff (name : SubjectAltName) :
    SubjectAltName.fromStr name.text = some (.ok name) ↔ ReadsBack name := by
  cases name with
  | ip address =>
    simp [ReadsBack, SubjectAltName.text, SubjectAltName.fromStr, trim_ipText,
      SubjectAltName.ofTrimmed_ip]
  | dns v =>
    rw [fromStr_text_iff (by simp)]
    exact and_congr_right fun _ => ofTrimmed_dns
  | email v =>
    rw [fromStr_text_iff (by simp)]
    exact and_congr_right fun _ => ofTrimmed_email
  | uri v =>
    rw [fromStr_text_iff (by simp)]
    exact and_congr_right fun _ => ofTrimmed_uri

end

/-! ## ASCII texts -/

section

variable {cs : List Char} {n : Nat}

/-- Every byte of an ASCII text starts a character. -/
theorem sliceFits_of_ascii {v : String} (h : ∀ c ∈ v.toList, c.toNat ≤ 0x7e) :
    SubjectAltName.SliceFits v := by
  have hascii (c : Char) (hc : c ∈ v.toList) : c.toNat < 128 :=
    (h c hc).trans_lt (by decide)
  by_cases hshort : v.toList.length ≤ 4
  · have hsize := utf8ByteSize_of_ascii hascii
    rw [String.ofList_toList] at hsize
    exact .inr (.inr (.inr (.inl (hsize.trans_le hshort))))
  · refine .inr (.inr (.inr (.inr
      ⟨.ofList (v.toList.take 4), .ofList (v.toList.drop 4), ?_, ?_⟩)))
    · rw [← String.ofList_append, List.take_append_drop, String.ofList_toList]
    · rw [utf8ByteSize_of_ascii fun c hc => hascii c (List.mem_of_mem_take hc),
        List.length_take]
      omega

theorem mem_of_mem_trim {s : String} {c : Char} (h : c ∈ (trim s).toList) : c ∈ s.toList := by
  unfold trim at h
  rw [String.toList_ofList] at h
  exact (List.dropWhile_sublist _).subset ((List.rdropWhile_prefix _ _).subset h)

theorem fromStr_isSome {name : SubjectAltName} (h : Printable name) :
    ∃ r, SubjectAltName.fromStr name.text = some r := by
  have hof {v : String} (hv : ∀ c ∈ v.toList, 0x20 ≤ c.toNat ∧ c.toNat ≤ 0x7e) :
      ∃ r, SubjectAltName.fromStr v = some r := by
    rw [← Option.isSome_iff_exists]
    exact SubjectAltName.ofTrimmed_isSome.mpr
      (sliceFits_of_ascii fun c hc => (hv c (mem_of_mem_trim hc)).2)
  cases name with
  | ip address => exact ⟨_, (readsBack_iff (.ip address)).mpr trivial⟩
  | dns v => exact hof h
  | email v => exact hof h
  | uri v => exact hof h

end

/-! ## The names of a certificate -/

section

variable {names parsed : List SubjectAltName}

theorem ofExtension_toGeneralName :
    ofExtension (some (names.map toGeneralName)) = names := by
  have hback : fromGeneralName ∘ toGeneralName = some := by
    funext name
    cases name <;> rfl
  rw [ofExtension, Option.map_some, Option.getD_some, List.filterMap_map, hback,
    List.filterMap_some]

theorem parseNames_isSome (h : ∀ name ∈ names, Printable name) :
    ∃ r, parseNames (names.map SubjectAltName.text) = some r := by
  induction names with
  | nil => exact ⟨_, rfl⟩
  | cons name names ih =>
    obtain ⟨r, hr⟩ := fromStr_isSome (h name List.mem_cons_self)
    obtain ⟨rs, hrs⟩ := ih fun name hname => h name (List.mem_cons_of_mem _ hname)
    rw [List.map_cons, parseNames, hr]
    cases r with
    | error e => exact ⟨.error e, rfl⟩
    | ok read => exact ⟨rs.map (read :: ·), by simp [hrs]⟩

/-- The names that are read are those of the certificate only if each reads back. -/
theorem parsed_eq_iff (h : parseNames (names.map SubjectAltName.text) = some (.ok parsed)) :
    parsed = names ↔ ∀ name ∈ names, ReadsBack name := by
  induction names generalizing parsed with
  | nil =>
    cases h
    simp
  | cons name names ih =>
    rw [List.map_cons, parseNames] at h
    cases hname : SubjectAltName.fromStr name.text with
    | none => simp [hname] at h
    | some r =>
      cases r with
      | error e => simp [hname] at h
      | ok read =>
        cases hrest : parseNames (names.map SubjectAltName.text) with
        | none => simp [hname, hrest] at h
        | some rs =>
          cases rs with
          | error e => simp [hname, hrest, Except.map] at h
          | ok reads =>
            have hparsed : read :: reads = parsed := by
              simpa [hname, hrest, Except.map] using h
            rw [← hparsed, List.cons.injEq, ih hrest, List.forall_mem_cons, ← readsBack_iff,
              hname, Option.some_inj, Except.ok.injEq]

end

/-! ## What a rekeying keeps -/

section

variable {Key Cert Csr : Type} {x : X509 Key Cert Csr} {algorithm : Option KeyAlgorithm}
  {bundle after : CertificateBundle Key Cert Csr} {cert : Cert} {names : List SubjectAltName}
  {outcome : Except OpcaError Unit}

/-- A bundle as it is retrieved, with a certificate for some names. -/
structure Retrieved (x : X509 Key Cert Csr) (bundle : CertificateBundle Key Cert Csr)
    (cert : Cert) (names : List SubjectAltName) : Prop where
  certificate : bundle.certificate = some cert
  cn : bundle.config.cn = none
  altNames : bundle.config.altNames = none
  names : x.subjectAltNames cert = some (names.map toGeneralName)

/-- The request carries the names, or nothing has happened. -/
def Kept (x : X509 Key Cert Csr) (names : List SubjectAltName)
    (bundle : CertificateBundle Key Cert Csr) (outcome : Except OpcaError Unit)
    (after : CertificateBundle Key Cert Csr) : Prop :=
  match outcome with
  | .ok _ => ∃ csr, after.csr = some csr ∧ x.names csr = names
  | .error _ => after = bundle

/-- The certificate has a CN, no name's text is refused, and a key and a request are
made. -/
def GoesThrough (x : X509 Key Cert Csr) (algorithm : Option KeyAlgorithm)
    (bundle : CertificateBundle Key Cert Csr) (cert : Cert) (names : List SubjectAltName) :
    Prop :=
  ∃ cn key parsed csr, x.commonName cert = some cn ∧
    x.generate (keyAlgorithmFor x algorithm bundle) = .ok key ∧
    parseNames (names.map SubjectAltName.text) = some (.ok parsed) ∧
    x.buildCsr key (subjectOf cn bundle.config) parsed = .ok csr

theorem Retrieved.backfilled (h : Retrieved x bundle cert names) : backfilled x bundle =
    { bundle.config with
      cn := x.commonName cert
      altNames := if names = [] then none else some (names.map SubjectAltName.text) } := by
  have hnames : ofCertificate x cert = names := by
    rw [ofCertificate, h.names, ofExtension_toGeneralName]
  simp [Rekey.backfilled, h.certificate, h.cn, h.altNames, hnames]

/-- Nothing is filled in only if the certificate has nothing to fill in. -/
theorem Retrieved.backfilled_eq_iff (h : Retrieved x bundle cert names) :
    ({ bundle with config := Rekey.backfilled x bundle } : CertificateBundle Key Cert Csr) =
      bundle ↔ x.commonName cert = none ∧ names = [] := by
  obtain ⟨certType, title, config, csr, privateKey, certificate, chain⟩ := bundle
  obtain ⟨cn, keyAlgorithm, org, ou, email, city, state, country, altNames, nextSerial,
    caDays⟩ := config
  obtain rfl : cn = none := h.cn
  obtain rfl : altNames = none := h.altNames
  rw [h.backfilled]
  simp

theorem Retrieved.regenerate (h : Retrieved x bundle cert names)
    (hprintable : ∀ name ∈ names, Printable name) :
    (∃ cn key parsed csr, x.commonName cert = some cn ∧
      x.generate (keyAlgorithmFor x algorithm bundle) = .ok key ∧
      parseNames (names.map SubjectAltName.text) = some (.ok parsed) ∧
      x.buildCsr key (subjectOf cn bundle.config) parsed = .ok csr ∧
      regenerateKeyAndCsr x algorithm bundle = some (.ok (),
        { bundle with
          config := Rekey.backfilled x bundle, privateKey := some key, csr := some csr })) ∨
    (¬GoesThrough x algorithm bundle cert names ∧
      ∃ e, regenerateKeyAndCsr x algorithm bundle =
        some (.error e, { bundle with config := Rekey.backfilled x bundle })) := by
  obtain ⟨read, hread⟩ := parseNames_isSome hprintable
  have htexts : (Rekey.backfilled x bundle).altNames.getD [] =
      names.map SubjectAltName.text := by
    rw [h.backfilled]
    cases names <;> simp
  have hcn : (Rekey.backfilled x bundle).cn = x.commonName cert := by rw [h.backfilled]
  have hsubject (cn : String) : subjectOf cn (Rekey.backfilled x bundle) =
      subjectOf cn bundle.config := by
    rw [h.backfilled]
    rfl
  unfold regenerateKeyAndCsr
  simp only [hcn]
  cases hname : x.commonName cert with
  | none =>
    refine .inr ⟨?_, _, rfl⟩
    rintro ⟨cn, key, parsed, csr, hcn', -⟩
    rw [hname] at hcn'
    cases hcn'
  | some cn =>
    cases hkey : x.generate (keyAlgorithmFor x algorithm bundle) with
    | error e =>
      refine .inr ⟨?_, _, rfl⟩
      rintro ⟨cn', key, parsed, csr, -, hkey', -⟩
      rw [hkey] at hkey'
      cases hkey'
    | ok key =>
      simp only [buildCsr, htexts, hread, hsubject]
      cases read with
      | error e =>
        refine .inr ⟨?_, e, rfl⟩
        rintro ⟨cn', key', parsed, csr, -, -, hread', -⟩
        rw [hread] at hread'
        cases hread'
      | ok parsed =>
        cases hcsr : x.buildCsr key (subjectOf cn bundle.config) parsed with
        | error e =>
          refine .inr ⟨?_, e, by simp [hcsr]⟩
          rintro ⟨cn', key', parsed', csr, hcn', hkey', hread', hcsr'⟩
          rw [hname] at hcn'
          rw [hkey] at hkey'
          rw [hread] at hread'
          cases hcn'
          cases hkey'
          cases hread'
          rw [hcsr] at hcsr'
          cases hcsr'
        | ok csr => exact .inl ⟨cn, key, parsed, csr, rfl, rfl, rfl, hcsr, by simp [hcsr]⟩

/-- A rekeying comes to an end, and changes no more than the configuration if it fails.  It
keeps the names exactly if it goes through and each reads back from its text; where it does
not go through, the configuration has been filled in, if the certificate has anything to
fill in. -/
theorem names_kept_iff (hcarries : x.Carries) (h : Retrieved x bundle cert names)
    (hprintable : ∀ name ∈ names, Printable name) (algorithm : Option KeyAlgorithm) :
    ∃ outcome after, regenerateKeyAndCsr x algorithm bundle = some (outcome, after) ∧
      (Kept x names bundle outcome after ↔
        (GoesThrough x algorithm bundle cert names ∧ ∀ name ∈ names, ReadsBack name) ∨
        (¬GoesThrough x algorithm bundle cert names ∧
          x.commonName cert = none ∧ names = [])) ∧
      (∀ e, outcome = .error e → after = { bundle with config := after.config }) := by
  rcases h.regenerate hprintable with
    ⟨cn, key, parsed, csr, hcn, hkey, hparsed, hcsr, hrun⟩ | ⟨hstopped, e, hrun⟩
  · refine ⟨_, _, hrun, ?_, ?_⟩
    · have hgoes : GoesThrough x algorithm bundle cert names :=
        ⟨cn, key, parsed, csr, hcn, hkey, hparsed, hcsr⟩
      have hnames := hcarries key _ parsed csr hcsr
      simp only [Kept, Option.some_inj, exists_eq_left', hgoes, true_and, not_true_eq_false,
        false_and, or_false]
      rw [hnames]
      exact parsed_eq_iff hparsed
    · intro e he
      cases he
  · refine ⟨_, _, hrun, ?_, ?_⟩
    · simp only [Kept, hstopped, false_and, false_or, not_false_eq_true, true_and]
      exact h.backfilled_eq_iff
    · intro e' _
      rfl

end

/-! ## Rekeyings -/

abbrev SampleCert := Option String × List GeneralName

def sampleX509 : X509 KeyAlgorithm SampleCert (List SubjectAltName) where
  generate algorithm := .ok algorithm
  keyAlgorithm _ := some .ecP384
  commonName cert := cert.1
  subjectAltNames cert := some cert.2
  buildCsr _ _ names := .ok names
  names csr := csr

theorem sampleX509_carries : sampleX509.Carries := by
  intro key subject names csr h
  cases h
  rfl

def sampleBundle (names : List SubjectAltName) :
    CertificateBundle KeyAlgorithm SampleCert (List SubjectAltName) where
  certType := .webServer
  title := "CRT_1_vpn.example.com"
  config := {}
  csr := none
  privateKey := none
  certificate := some (some "vpn.example.com", names.map toGeneralName)
  chain := none

theorem sampleBundle_retrieved (names : List SubjectAltName) :
    Retrieved sampleX509 (sampleBundle names) (some "vpn.example.com", names.map toGeneralName)
      names :=
  ⟨rfl, rfl, rfl, rfl⟩

def printable (s : String) : Bool := s.toList.all fun c => 0x20 ≤ c.toNat && c.toNat ≤ 0x7e

theorem of_printable {v : String} (h : printable v = true) :
    ∀ c ∈ v.toList, 0x20 ≤ c.toNat ∧ c.toNat ≤ 0x7e := by
  intro c hc
  simpa using List.all_eq_true.mp h c hc

def sampleNames : List SubjectAltName := [.dns "vpn.example.com", .ip (.v4 10 0 0 1)]

/-- A rekeying that keeps a DNS name and an address. -/
theorem sampleNames_kept : ∃ outcome after,
    regenerateKeyAndCsr sampleX509 none (sampleBundle sampleNames) = some (outcome, after) ∧
    Kept sampleX509 sampleNames (sampleBundle sampleNames) outcome after := by
  have hread : parseNames (sampleNames.map SubjectAltName.text) = some (.ok sampleNames) := by
    decide
  have hprintable : ∀ name ∈ sampleNames, Printable name := by
    intro name hname
    simp only [sampleNames, List.mem_cons, List.not_mem_nil, or_false] at hname
    rcases hname with rfl | rfl
    · exact of_printable (by decide)
    · trivial
  obtain ⟨outcome, after, hrun, hkept, -⟩ := names_kept_iff sampleX509_carries
    (sampleBundle_retrieved sampleNames) hprintable none
  refine ⟨outcome, after, hrun, hkept.mpr (.inl ⟨?_, (parsed_eq_iff hread).mp rfl⟩)⟩
  exact ⟨"vpn.example.com", .ecP384, sampleNames, sampleNames, rfl, rfl, hread, rfl⟩

def userUri : String := "https://ops@vpn.example.com"

/-- A URI with a user in it comes back as an e-mail address. -/
theorem userUri_becomes_email :
    Retrieved sampleX509 (sampleBundle [.uri userUri])
      (some "vpn.example.com", [.uniformResourceIdentifier userUri]) [.uri userUri] ∧
    Printable (.uri userUri) ∧
    ∃ after, regenerateKeyAndCsr sampleX509 none (sampleBundle [.uri userUri]) =
        some (.ok (), after) ∧
      after.csr = some [.email userUri] ∧
      ¬Kept sampleX509 [.uri userUri] (sampleBundle [.uri userUri]) (.ok ()) after := by
  have hread : parseNames [userUri] = some (.ok [.email userUri]) := by decide
  refine ⟨sampleBundle_retrieved [.uri userUri], of_printable (by decide), ?_⟩
  refine ⟨{ sampleBundle [.uri userUri] with
    config := { cn := some "vpn.example.com", altNames := some [userUri] }
    privateKey := some .ecP384
    csr := some [.email userUri] }, ?_, rfl, ?_⟩
  · simp only [regenerateKeyAndCsr, backfilled, ofCertificate, sampleBundle, sampleX509,
      ofExtension, buildCsr, keyAlgorithmFor, Option.map_some, Option.getD_some,
      Option.bind_some, List.map_cons, List.map_nil, toGeneralName, Option.none_or,
      List.filterMap_cons, List.filterMap_nil, fromGeneralName, SubjectAltName.text]
    simp [hread]
  · rintro ⟨csr, hcsr, hnames⟩
    cases hcsr
    cases hnames

end San.Rekey

end Opca.Core
