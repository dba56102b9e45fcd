/-
  Acme/Issuers.lean --- the subordinates whose leaves the CRL covers: the serials that an
  enrolment names, carried by every change and read by every CRL (`enrolled.rs`,
  `backup.rs`, `pki.rs`, `acme/store.rs`).
-/
import Opca.Acme.Running

set_option autoImplicit false

namespace Opca.Acme.Broker

open Opca.Foundation

/-! ## What an enrolment names -/

/-- A list of issuers has the serial; none stands for every one. -/
def Names (issuers : Option (List String)) (serial : String) : Prop :=
  ∀ known ∈ issuers, serial ∈ known

/-- The enrolment names every serial that was held for the key. -/
def NamesHeld (held : List (String × String)) (key : String) (enrolled : Enrolled) : Prop :=
  ∀ h ∈ held, h.1 = key → Names enrolled.issuers h.2

instance (issuers : Option (List String)) (serial : String) : Decidable (Names issuers serial) :=
  inferInstanceAs (Decidable (∀ known ∈ issuers, serial ∈ known))

instance (held : List (String × String)) (key : String) (enrolled : Enrolled) :
    Decidable (NamesHeld held key enrolled) :=
  inferInstanceAs (Decidable (∀ h ∈ held, h.1 = key → Names enrolled.issuers h.2))

theorem issuedBy_of_names {issuers : Option (List String)} {c : Certificate}
    (h : Names issuers c.issuerSerial) : Store.issuedBy issuers c = true := by
  cases issuers with
  | none => rfl
  | some known => exact decide_eq_true (h known rfl)

theorem Names.append {issuers : Option (List String)} {serial : String} (h : Names issuers serial)
    (more : List String) : Names (issuers.map (· ++ more)) serial := by
  intro known hknown
  obtain ⟨earlier, hearlier, rfl⟩ := Option.map_eq_some_iff.mp hknown
  exact List.mem_append_left more (h earlier hearlier)

theorem names_append_self {issuers : Option (List String)} {serial : String} :
    Names (issuers.map (· ++ [serial])) serial := by
  intro known hknown
  obtain ⟨earlier, -, rfl⟩ := Option.map_eq_some_iff.mp hknown
  exact List.mem_append_right earlier List.mem_cons_self

theorem NamesHeld.mono {held held' : List (String × String)} {key : String} {enrolled : Enrolled}
    (h : NamesHeld held key enrolled) (hsub : ∀ p ∈ held', p ∈ held) :
    NamesHeld held' key enrolled :=
  fun p hp => h p (hsub p hp)

/-! ## The promise, and when it is kept -/

/-- The CRLs cover every leaf that the key signed. -/
structure CoversHeld (parseSerial : String → Except String Nat) (s : Running) : Prop where
  /-- The enrolment names every serial ever held for the key. -/
  kept : ∀ enrolled ∈ s.broker.mode.stored, NamesHeld s.held s.broker.subordinate enrolled
  /-- Each CRL lists every revoked, unexpired leaf that a serial held for its key issued. -/
  listed : ∀ signed ∈ s.crls, ∀ c ∈ signed.store.certificates.rows,
    c.revokedAt.isSome = true → signed.now < c.notAfter →
    (signed.crl.signer, c.issuerSerial) ∈ signed.held →
    ∃ entry ∈ signed.crl.revoked, revocation parseSerial c = .ok entry

section Keeps

variable (outside : Outside) (config : Config)

/-- Each enrolment that is stored or restored names what was held for the key, its own
subordinate among it; and a CRL is signed under the list that the broker's enrolment
still has. -/
def KeepsIssuers (s : Running) : RunningStep → Prop
  | .redeem checked _ _ _ =>
    NamesHeld (s.note outside checked.enrolled) s.broker.subordinate checked.enrolled
  | .restore blob chosen io =>
    ∀ enrolled ∈ (checkCapture outside config s.broker blob io).toWrite chosen,
      NamesHeld (s.note outside enrolled) s.broker.subordinate enrolled
  | .signCrl => ∀ read ∈ s.signing, ∃ current ∈ s.broker.mode.stored,
      current.issuers = read.1.issuers
  | _ => True

instance (s : Running) (l : RunningStep) : Decidable (KeepsIssuers outside config s l) :=
  match l with
  | .redeem checked _ _ _ => inferInstanceAs (Decidable
      (NamesHeld (s.note outside checked.enrolled) s.broker.subordinate checked.enrolled))
  | .restore blob chosen io => inferInstanceAs (Decidable
      (∀ enrolled ∈ (checkCapture outside config s.broker blob io).toWrite chosen,
        NamesHeld (s.note outside enrolled) s.broker.subordinate enrolled))
  | .signCrl => inferInstanceAs (Decidable
      (∀ read ∈ s.signing, ∃ current ∈ s.broker.mode.stored, current.issuers = read.1.issuers))
  | .check _ _ | .updateChain _ _ _ | .revoke _ | .pause _ _ | .reload _ | .reopen _
  | .restart _ _ | .refresh _ | .handler _ | .receive _ _ _ | .take _ | .issue _ _
  | .beginCrl _ => .isTrue trivial

end Keeps

/-! ## The invariant -/

variable {outside : Outside} {config : Config} {rules : NameRules} {signing : Signing}
  {parseSerial : String → Except String Nat} {s t : Running} {enrolled current : Enrolled}
  {broker : Broker}

/-- The enrolment in memory names what was held, and the one on disk also what it would
add; a key on disk that is not yet in memory has held nothing. -/
structure HeldInv (outside : Outside) (s : Running) : Prop where
  mode : ∀ enrolled ∈ s.broker.mode.stored, NamesHeld s.held s.broker.subordinate enrolled
  noted : ∀ enrolled ∈ s.broker.mode.stored, ∀ h ∈ heldBy outside enrolled, h ∈ s.held
  disk : ∀ enrolled ∈ s.broker.enrolment,
    NamesHeld (s.note outside enrolled) s.broker.subordinate enrolled
  diskKey : s.broker.keyFile ≠ s.broker.subordinate → ∀ enrolled ∈ s.broker.enrolment,
    ∀ h ∈ heldBy outside enrolled, h.1 ≠ s.broker.keyFile
  heldKey : s.broker.keyFile ≠ s.broker.subordinate → ∀ h ∈ s.held, h.1 ≠ s.broker.keyFile
  checkedKey : s.broker.keyFile ≠ s.broker.subordinate → ∀ checked ∈ s.enrolling,
    ∀ h ∈ heldBy outside checked.enrolled, h.1 ≠ s.broker.keyFile

theorem mem_note {h : String × String} :
    h ∈ s.note outside enrolled ↔ h ∈ heldBy outside enrolled ∨ h ∈ s.held := by
  unfold Running.note
  cases heldBy outside enrolled with
  | none => simp
  | some found => simp [List.mem_insert_iff, eq_comm]

theorem held_become_of_stored (h : broker.mode.stored = some enrolled) :
    (s.become outside broker).held = s.note outside enrolled := by
  unfold Running.become
  rw [h]
  rfl

theorem held_become_of_none (h : broker.mode.stored = none) :
    (s.become outside broker).held = s.held := by
  unfold Running.become
  rw [h]
  rfl

theorem heldBy_of_certifies {key serial : String} (h : Certifies outside enrolled key serial) :
    heldBy outside enrolled = some (key, serial) := by
  obtain ⟨subordinate, hsubordinate, rfl, rfl⟩ := h
  unfold heldBy
  rw [hsubordinate]
  rfl

theorem heldBy_congr {enrolled' : Enrolled} (h : enrolled'.chainPem = enrolled.chainPem) :
    heldBy outside enrolled' = heldBy outside enrolled := by
  unfold heldBy subordinateOf
  rw [h]

/-- Nothing that matters here has changed. -/
theorem HeldInv.of_eq (h : HeldInv outside s) (hmode : t.broker.mode = s.broker.mode)
    (henrolment : t.broker.enrolment = s.broker.enrolment)
    (hkeyFile : t.broker.keyFile = s.broker.keyFile)
    (hsubordinate : t.broker.subordinate = s.broker.subordinate) (hheld : t.held = s.held)
    (henrolling : ∀ checked ∈ t.enrolling, checked ∈ s.enrolling) : HeldInv outside t := by
  have hnote : ∀ enrolled, t.note outside enrolled = s.note outside enrolled := by
    intro enrolled
    unfold Running.note
    rw [hheld]
  refine ⟨?_, ?_, ?_, ?_, ?_, ?_⟩
  · rw [hmode, hheld, hsubordinate]
    exact h.mode
  · rw [hmode, hheld]
    exact h.noted
  · simp only [henrolment, hsubordinate, hnote]
    exact h.disk
  · rw [henrolment, hkeyFile, hsubordinate]
    exact h.diskKey
  · rw [hkeyFile, hsubordinate, hheld]
    exact h.heldKey
  · rw [hkeyFile, hsubordinate]
    exact fun hkey checked hchecked => h.checkedKey hkey checked (henrolling checked hchecked)

theorem HeldInv.resumed (h : HeldInv outside s) : HeldInv outside s.resumed :=
  h.of_eq rfl rfl rfl rfl rfl fun _ hchecked => hchecked

theorem HeldInv.accepted (h : HeldInv outside s) : HeldInv outside s.accepted := by
  unfold Running.accepted
  split
  · exact h.of_eq rfl rfl rfl rfl rfl fun _ hchecked => hchecked
  · exact h

/-- What is in memory is held already. -/
theorem HeldInv.held_become (h : HeldInv outside s) (hmode : broker.mode = s.broker.mode) :
    (s.become outside broker).held = s.held := by
  cases hstored : s.broker.mode.stored with
  | none => exact held_become_of_none (hmode ▸ hstored)
  | some current =>
    rw [held_become_of_stored (hmode ▸ hstored)]
    unfold Running.note
    cases hheldBy : heldBy outside current with
    | none => rfl
    | some p => exact List.insert_of_mem (h.noted current hstored p hheldBy)

/-- The broker goes on with another state on disk, whose enrolment names what it is to
hold. -/
theorem HeldInv.become (h : HeldInv outside s)
    (hsubordinate : broker.subordinate = s.broker.subordinate)
    (hmode : broker.mode = s.broker.mode)
    (hdisk : ∀ enrolled ∈ broker.enrolment,
      NamesHeld (s.note outside enrolled) s.broker.subordinate enrolled)
    (hkey : broker.keyFile ≠ s.broker.subordinate →
      (∀ enrolled ∈ broker.enrolment, ∀ p ∈ heldBy outside enrolled, p.1 ≠ broker.keyFile) ∧
        (∀ p ∈ s.held, p.1 ≠ broker.keyFile) ∧
        ∀ checked ∈ s.enrolling, ∀ p ∈ heldBy outside checked.enrolled,
          p.1 ≠ broker.keyFile) :
    HeldInv outside (s.become outside broker) := by
  have hheld := h.held_become hmode
  have hnote : ∀ enrolled, (s.become outside broker).note outside enrolled =
      s.note outside enrolled := by
    intro enrolled
    unfold Running.note
    rw [hheld]
  rw [← hsubordinate] at hkey
  refine ⟨?_, ?_, ?_, fun hne => (hkey hne).1, ?_, fun hne => (hkey hne).2.2⟩
  · show ∀ enrolled ∈ broker.mode.stored, NamesHeld _ broker.subordinate enrolled
    rw [hmode, hsubordinate, hheld]
    exact h.mode
  · show ∀ enrolled ∈ broker.mode.stored, _
    rw [hmode, hheld]
    exact h.noted
  · show ∀ enrolled ∈ broker.enrolment, NamesHeld _ broker.subordinate enrolled
    simp only [hsubordinate, hnote]
    exact hdisk
  · rw [hheld]
    exact fun hne => (hkey hne).2.1

/-- Nothing on disk has changed, nor what is held. -/
theorem HeldInv.same (h : HeldInv outside s) (henrolment : broker.enrolment = s.broker.enrolment)
    (hkeyFile : broker.keyFile = s.broker.keyFile)
    (hsubordinate : broker.subordinate = s.broker.subordinate)
    (hmode : broker.mode = s.broker.mode) : HeldInv outside (s.become outside broker) := by
  refine h.become hsubordinate hmode ?_ ?_
  · rw [henrolment]
    exact h.disk
  · rw [henrolment, hkeyFile]
    exact fun hne => ⟨h.diskKey hne, h.heldKey hne, h.checkedKey hne⟩

/-- What a change leaves in memory and on disk names what it holds from then on, under
the key that the broker then has. -/
theorem HeldInv.taken (h : HeldInv outside s) (hkeyFile : broker.keyFile = s.broker.keyFile)
    (hdisk : broker.enrolment = some enrolled) (hmode : broker.mode = .enrolled enrolled)
    (hnames : NamesHeld (s.note outside enrolled) broker.subordinate enrolled)
    (hsubordinate : broker.subordinate = s.broker.subordinate ∨
      broker.subordinate = s.broker.keyFile)
    (hkey : s.broker.keyFile ≠ s.broker.subordinate →
      ∀ p ∈ heldBy outside enrolled, p.1 ≠ s.broker.keyFile) :
    HeldInv outside (s.become outside broker) := by
  have hstored : broker.mode.stored = some enrolled := by rw [hmode]; rfl
  have hheld : (s.become outside broker).held = s.note outside enrolled :=
    held_become_of_stored hstored
  have hnote : ∀ p ∈ (s.become outside broker).note outside enrolled,
      p ∈ s.note outside enrolled := by
    intro p hp
    rw [mem_note, hheld] at hp
    rcases hp with hp | hp
    · exact mem_note.mpr (Or.inl hp)
    · exact hp
  have hdiffers : broker.keyFile ≠ broker.subordinate →
      s.broker.keyFile ≠ s.broker.subordinate := by
    intro hne
    rcases hsubordinate with hsame | hfile
    · rwa [hkeyFile, hsame] at hne
    · exact absurd (hkeyFile.trans hfile.symm) hne
  refine ⟨?_, ?_, ?_, ?_, ?_, ?_⟩
  · show ∀ e ∈ broker.mode.stored, NamesHeld _ broker.subordinate e
    rw [hstored, hheld]
    rintro _ ⟨⟩
    exact hnames
  · show ∀ e ∈ broker.mode.stored, _
    rw [hstored, hheld]
    rintro _ ⟨⟩ p hp
    exact mem_note.mpr (Or.inl hp)
  · show ∀ e ∈ broker.enrolment, NamesHeld _ broker.subordinate e
    rw [hdisk]
    rintro _ ⟨⟩
    exact hnames.mono hnote
  · intro hne e he p hp
    change e ∈ broker.enrolment at he
    rw [hdisk] at he
    cases he
    rw [show (s.become outside broker).broker.keyFile = s.broker.keyFile from hkeyFile]
    exact hkey (hdiffers hne) p hp
  · intro hne p hp
    rw [hheld, mem_note] at hp
    rw [show (s.become outside broker).broker.keyFile = s.broker.keyFile from hkeyFile]
    rcases hp with hp | hp
    · exact hkey (hdiffers hne) p hp
    · exact h.heldKey (hdiffers hne) p hp
  · intro hne checked hchecked p hp
    rw [show (s.become outside broker).broker.keyFile = s.broker.keyFile from hkeyFile]
    exact h.checkedKey (hdiffers hne) checked hchecked p hp

theorem HeldInv.stored (h : HeldInv outside s) (hstored : Stored s.broker enrolled broker)
    (hnames : NamesHeld (s.note outside enrolled) s.broker.subordinate enrolled)
    (hkey : s.broker.keyFile ≠ s.broker.subordinate →
      ∀ p ∈ heldBy outside enrolled, p.1 ≠ s.broker.keyFile) :
    HeldInv outside (s.become outside broker) := by
  refine h.taken hstored.keyFile hstored.enrolment hstored.mode ?_ (Or.inl hstored.subordinate)
    hkey
  rw [hstored.subordinate]
  exact hnames

/-- Also where only flags of the enrolment on disk are changed. -/
theorem HeldInv.flagged (h : HeldInv outside s) (hdisk : s.broker.enrolment = some current)
    (hstored : Stored s.broker enrolled broker) (hchain : enrolled.chainPem = current.chainPem)
    (hissuers : enrolled.issuers = current.issuers) :
    HeldInv outside (s.become outside broker) := by
  have hheldBy : heldBy outside enrolled = heldBy outside current := heldBy_congr hchain
  refine h.stored hstored ?_ ?_
  · intro p hp hkey
    rw [hissuers]
    refine h.disk current hdisk p ?_ hkey
    rw [mem_note] at hp ⊢
    rwa [← hheldBy]
  · rw [hheldBy]
    exact fun hne => h.diskKey hne current hdisk

/-- A key that the broker takes up from disk has held only what is on disk. -/
theorem HeldInv.reloaded (h : HeldInv outside s)
    (hkeyFile : broker.keyFile = s.broker.keyFile)
    (hdisk : broker.enrolment = s.broker.enrolment)
    (hsubordinate : broker.subordinate = s.broker.keyFile)
    (hmode : broker.mode = Mode.of s.broker.enrolment) :
    HeldInv outside (s.become outside broker) := by
  cases henrolment : s.broker.enrolment with
  | none =>
    rw [henrolment] at hdisk hmode
    have hstored : broker.mode.stored = none := by rw [hmode]; rfl
    have hheld : (s.become outside broker).held = s.held := held_become_of_none hstored
    have hsame : (s.become outside broker).broker.keyFile =
        (s.become outside broker).broker.subordinate := hkeyFile.trans hsubordinate.symm
    refine ⟨?_, ?_, ?_, fun hne => absurd hsame hne, fun hne => absurd hsame hne,
      fun hne => absurd hsame hne⟩
    · show ∀ e ∈ broker.mode.stored, _
      rw [hstored]
      rintro _ ⟨⟩
    · show ∀ e ∈ broker.mode.stored, _
      rw [hstored]
      rintro _ ⟨⟩
    · show ∀ e ∈ broker.enrolment, _
      rw [hdisk]
      rintro _ ⟨⟩
  | some enrolled =>
    rw [henrolment] at hdisk hmode
    refine h.taken hkeyFile hdisk hmode ?_ (Or.inr hsubordinate)
      fun hne => h.diskKey hne enrolled henrolment
    rw [hsubordinate]
    by_cases hsame : s.broker.keyFile = s.broker.subordinate
    · rw [hsame]
      exact h.disk enrolled henrolment
    · -- the key is new to the memory, so nothing was held for it
      intro p hp hkey
      rcases mem_note.mp hp with hp | hp
      · exact absurd hkey (h.diskKey hsame enrolled henrolment p hp)
      · exact absurd hkey (h.heldKey hsame p hp)

/-- A restored enrolment is on disk, and not in memory yet. -/
theorem HeldInv.switched {enrolment : Option Enrolled} (h : HeldInv outside s) (store : Store)
    (hnames : ∀ enrolled ∈ enrolment,
      NamesHeld (s.note outside enrolled) s.broker.subordinate enrolled)
    (hcertifies : ∀ enrolled ∈ enrolment,
      ∃ serial, Certifies outside enrolled s.broker.subordinate serial) :
    HeldInv outside (s.become outside (switched s.broker enrolment store)) := by
  cases enrolment with
  | none => exact h.same rfl rfl rfl rfl
  | some enrolled =>
    refine h.become rfl rfl ?_ fun hne => ⟨?_, h.heldKey hne, h.checkedKey hne⟩
    · rintro _ ⟨⟩
      exact hnames enrolled rfl
    · rintro _ ⟨⟩ p hp
      obtain ⟨serial, hserial⟩ := hcertifies enrolled rfl
      rw [heldBy_of_certifies hserial] at hp
      cases hp
      exact fun heq => hne heq.symm

/-- Renewal appends the new serial to those named before. -/
theorem HeldInv.renewed {update : ChainUpdate} {now : Time} {io : Io}
    {subordinate : CertificateView} (h : HeldInv outside s)
    (hrenewed : renewed outside config s.broker update now io = .ok (enrolled, subordinate))
    (hstored : Stored s.broker enrolled broker) : HeldInv outside (s.become outside broker) := by
  obtain ⟨current, serial, hdisk, -, -, -, hcertifies, hissuers⟩ := renewed_ok hrenewed
  have hheldBy := heldBy_of_certifies hcertifies
  refine h.stored hstored ?_ ?_
  · intro p hp hkey
    rw [hissuers]
    rcases mem_note.mp hp with hp | hp
    · rw [hheldBy] at hp
      cases hp
      exact names_append_self
    · exact (h.disk current hdisk p (mem_note.mpr (Or.inr hp)) hkey).append [serial]
  · intro hne p hp
    rw [hheldBy] at hp
    cases hp
    exact fun heq => hne heq.symm

/-- A restored enrolment that is taken up. -/
theorem HeldInv.restored {enrolment : Option Enrolled} {store : Store} (h : HeldInv outside s)
    (hnames : ∀ enrolled ∈ enrolment,
      NamesHeld (s.note outside enrolled) s.broker.subordinate enrolled)
    (hcertifies : ∀ enrolled ∈ enrolment,
      ∃ serial, Certifies outside enrolled s.broker.subordinate serial)
    (hrefreshed : Refreshed { Broker.switched s.broker enrolment store with
      subordinate := s.broker.keyFile
      mode := Mode.of (enrolment.or s.broker.enrolment) } broker) :
    HeldInv outside (s.become outside broker) := by
  have hswitched := h.switched store hnames hcertifies
  have hheld : (s.become outside (Broker.switched s.broker enrolment store)).held = s.held :=
    h.held_become rfl
  have hreloaded := hswitched.reloaded hrefreshed.keyFile hrefreshed.enrolment
    hrefreshed.subordinate hrefreshed.mode
  refine hreloaded.of_eq rfl rfl rfl rfl ?_ fun _ hchecked => hchecked
  show broker.mode.stored.elim s.held (s.note outside) = broker.mode.stored.elim
    (s.become outside _).held ((s.become outside _).note outside)
  unfold Running.note
  rw [hheld]

/-- An enrolment that was checked is stored. -/
theorem HeldInv.redeemed {checked : Checked} (h : HeldInv outside s) (hmem : checked ∈ s.enrolling)
    (hstored : Stored s.broker checked.enrolled broker)
    (hnames : NamesHeld (s.note outside checked.enrolled) s.broker.subordinate
      checked.enrolled) :
    HeldInv outside
      (({ s with enrolling := s.enrolling.erase checked }.become outside
        broker).resumed.accepted) := by
  have hrest : HeldInv outside { s with enrolling := s.enrolling.erase checked } :=
    h.of_eq rfl rfl rfl rfl rfl fun _ hchecked => List.mem_of_mem_erase hchecked
  exact (hrest.stored hstored hnames fun hne => h.checkedKey hne checked hmem).resumed.accepted

/-- A key made at a reopening is none that was known. -/
theorem HeldInv.reopened {key : String} (h : HeldInv outside s)
    (hnew : s.knows outside key = false) :
    HeldInv outside (s.become outside (reopen s.broker key)) := by
  unfold Running.knows at hnew
  simp only [Bool.or_eq_false_iff, List.any_eq_false, decide_eq_true_eq] at hnew
  obtain ⟨⟨-, hheld⟩, hchecked⟩ := hnew
  refine h.become rfl rfl ?_ fun _ => ⟨?_, hheld, ?_⟩
  · rintro _ ⟨⟩
  · rintro _ ⟨⟩
  · intro checked hmem p hp
    have hfree := hchecked checked hmem
    rw [show heldBy outside checked.enrolled = some p from hp] at hfree
    show p.1 ≠ key
    simpa using hfree

theorem HeldInv.step (h : HeldInv outside s) {l : RunningStep}
    (hok : KeepsIssuers outside config s l) (hstep : Goes outside config parseSerial s l t) :
    HeldInv outside t := by
  cases hstep with
  | beside => exact h.of_eq rfl rfl rfl rfl rfl fun _ hchecked => hchecked
  | unchanged => exact h.same rfl rfl rfl rfl
  | checked hcheck =>
    refine ⟨h.mode, h.noted, h.disk, h.diskKey, h.heldKey, ?_⟩
    intro hne checked hchecked p hp
    rcases List.mem_append.mp hchecked with hold | hnew
    · exact h.checkedKey hne checked hold p hp
    · rw [List.mem_singleton.mp hnew] at hp
      obtain ⟨-, -, serial, hcertifies, -⟩ := check_ok hcheck
      rw [heldBy_of_certifies hcertifies] at hp
      cases hp
      exact fun heq => hne heq.symm
  | refused checked =>
    exact h.of_eq rfl rfl rfl rfl rfl fun _ hchecked => List.mem_of_mem_erase hchecked
  | enrolled hmem hstored => exact h.redeemed hmem hstored hok
  | updated hrenewed hstored => exact (h.renewed hrenewed hstored).accepted
  | revokedAlready =>
    exact (h.same rfl rfl rfl rfl).of_eq rfl rfl rfl rfl rfl fun _ hchecked => hchecked
  | revoked _ hdisk hstored _ =>
    exact (h.flagged hdisk hstored rfl rfl).of_eq rfl rfl rfl rfl rfl fun _ hchecked => hchecked
  | pausedAlready =>
    exact (h.same rfl rfl rfl rfl).of_eq rfl rfl rfl rfl rfl fun _ hchecked => hchecked
  | paused _ hdisk _ hstored _ =>
    exact (h.flagged hdisk hstored rfl rfl).of_eq rfl rfl rfl rfl rfl fun _ hchecked => hchecked
  | resumedAlready => exact (h.same rfl rfl rfl rfl).resumed
  | resumed hdisk _ hstored => exact (h.flagged hdisk hstored rfl rfl).resumed
  | resumedUnanswered hdisk _ hstored => exact h.flagged hdisk hstored rfl rfl
  | switched store =>
    exact h.switched store hok fun enrolled henrolled =>
      (checkCapture_ok (mem_of_toWrite henrolled)).1
  | restored store hrefreshed =>
    exact h.restored hok (fun enrolled henrolled =>
      (checkCapture_ok (mem_of_toWrite henrolled)).1) hrefreshed
  | reloaded hrefreshed =>
    exact h.reloaded hrefreshed.keyFile hrefreshed.enrolment hrefreshed.subordinate
      hrefreshed.mode
  | reopened hnew => exact (h.reopened hnew).of_eq rfl rfl rfl rfl rfl fun _ hchecked => hchecked
  | @restarted io opened broker hstart =>
    have hbroker := start_ok hstart
    have hreloaded : HeldInv outside (s.become outside broker) := by
      rw [hbroker]
      exact h.reloaded rfl rfl rfl rfl
    refine hreloaded.of_eq rfl rfl rfl rfl rfl ?_
    rintro _ ⟨⟩
  | refreshed hrefreshed =>
    exact h.same hrefreshed.enrolment hrefreshed.keyFile hrefreshed.subordinate hrefreshed.mode
  | received => exact h.of_eq rfl rfl rfl rfl rfl fun _ hchecked => hchecked
  | taken => exact h.of_eq rfl rfl rfl rfl rfl fun _ hchecked => hchecked
  | signed => exact h.of_eq rfl rfl rfl rfl rfl fun _ hchecked => hchecked

/-! ## Every CRL -/

/-- What a CRL lists was read from the store under the enrolment's issuers. -/
theorem signCrl_ok {now : Time} {store : Store} {crl : Crl}
    (h : s.signCrl outside parseSerial enrolled now = .ok (store, .ok crl)) :
    crl.signer = s.broker.subordinate ∧
      (s.broker.acme.store.revokedUnexpired enrolled.issuers now).mapM (revocation parseSerial) =
        .ok crl.revoked := by
  obtain ⟨⟨certificate, revoked⟩, hread, h⟩ := bind_eq_ok.mp h
  obtain ⟨⟨numbered, number⟩, -, h⟩ := bind_eq_ok.mp h
  simp only [Except.ok.injEq, Prod.mk.injEq] at h
  obtain ⟨⟨⟩, -, rfl⟩ := map_eq_ok.mp h.2
  obtain ⟨chain, -, hread⟩ := bind_eq_ok.mp hread
  obtain ⟨first, -, hread⟩ := bind_eq_ok.mp hread
  obtain ⟨listed, hlisted, hread⟩ := bind_eq_ok.mp hread
  cases hread
  exact ⟨rfl, hlisted⟩

theorem CoversHeld.step (h : CoversHeld parseSerial s) (hheld : HeldInv outside s)
    {l : RunningStep} (hok : KeepsIssuers outside config s l)
    (hstep : Goes outside config parseSerial s l t) : CoversHeld parseSerial t := by
  refine ⟨(hheld.step hok hstep).mode, ?_⟩
  have haccepted : ∀ u : Running, u.accepted.crls = u.crls := by
    intro u
    unfold Running.accepted
    split
    · rfl
    · rfl
  cases hstep with
  | enrolled =>
    rw [haccepted]
    exact h.listed
  | updated =>
    rw [haccepted]
    exact h.listed
  | signed hsigning hsign =>
    intro signed hsigned c hc hrevoked hunexpired hissuer
    rcases List.mem_append.mp hsigned with hold | hnew
    · exact h.listed signed hold c hc hrevoked hunexpired hissuer
    · rw [List.mem_singleton.mp hnew] at hc hunexpired hissuer ⊢
      obtain ⟨hsigner, hlisted⟩ := signCrl_ok hsign
      obtain ⟨current, hcurrent, hissuers⟩ := hok _ hsigning
      have hnames := hheld.mode current hcurrent _ hissuer hsigner
      rw [hissuers] at hnames
      refine exists_of_mem_of_mapM hlisted c ?_
      unfold Store.revokedUnexpired
      simp only [List.mem_filter, Bool.and_eq_true, decide_eq_true_eq]
      exact ⟨hc, ⟨hrevoked, hunexpired⟩, issuedBy_of_names hnames⟩
  | _ => exact h.listed

theorem heldInv_of_init (hs : (running outside config rules signing parseSerial).init s) :
    HeldInv outside s ∧ CoversHeld parseSerial s := by
  obtain ⟨hdisk, hmode, hkey, -, -, henrolling, -, hcrls, hheld, -, -⟩ := hs
  have hstored : s.broker.mode.stored = none := by
    rw [hmode]
    rfl
  refine ⟨⟨?_, ?_, ?_, ?_, ?_, ?_⟩, ⟨?_, ?_⟩⟩
  · simp [hstored]
  · simp [hstored]
  · simp [hdisk]
  · simp [hdisk]
  · simp [hheld]
  · simp [henrolling]
  · simp [hstored]
  · simp [hcrls]

/-- **Every CRL covers what its key signed**, in every run whose enrolments name the
subordinates held before them. -/
theorem coversHeld_of_keeps (outside : Outside) (config : Config) (rules : NameRules)
    (signing : Signing) (parseSerial : String → Except String Nat) {s : Running}
    (hs : ((running outside config rules signing parseSerial).system.restrict
      (KeepsIssuers outside config)).Reachable s) :
    CoversHeld parseSerial s := by
  have hinv : ((running outside config rules signing parseSerial).system.restrict
      (KeepsIssuers outside config)).Invariant
      fun s => HeldInv outside s ∧ CoversHeld parseSerial s := by
    refine ⟨?_, ?_⟩
    · intro s hinit
      exact heldInv_of_init
        (show (running outside config rules signing parseSerial).init s from hinit)
    · rintro s t l ⟨hheld, hcovers⟩ ⟨hok, hnext⟩
      have hgoes := goes_of_next hnext
      exact ⟨hheld.step hok hgoes, hcovers.step hheld hok hgoes⟩
  exact (hinv.reachable hs).2

/-- What is issued for the order while the chain is `br`, and revoked. -/
def issuedUnderB : List RunningStep :=
  let issuer : Issuer :=
    ⟨"b", "11", 1000 * day, plainEnrolled.config, some "http://acme.example.com"⟩
  [.receive 1 [] [2], .take ⟨1, [], [2], none, false, false⟩,
    .issue ⟨1, [], [2], some (readyOrder, issuer), false, false⟩ 0,
    .handler (.revoke "7" (some 1) (100 * second))]

/-- A broker is enrolled with `ar` and renewed to `br`, and its leaf is revoked. -/
def renewedRun : List RunningStep :=
  enrolRun ++ [.updateChain ⟨"br", plainEnrolled.config⟩ 0 (.fine plainConfig)] ++ issuedUnderB

def renewedEnrolled : Enrolled :=
  { plainEnrolled with chainPem := "br", issuers := some ["10", "11"] }

/-- The renewed enrolment is restored, and the leaf is on the CRL. -/
theorem coversHeld_renewed :
    ∃ s : Running, s.crls.map (fun signed => signed.crl.revoked.map Revocation.serial) = [[7]] ∧
      CoversHeld decimalSerial s := by
  obtain ⟨s, hs, hview⟩ := Machine.exists_reachable_of_exec_guard
    (fun (s : Running) (l : RunningStep)
      (h : decide (KeepsIssuers plainOutside plainConfig s l) = true) => of_decide_eq_true h)
    (M := running plainOutside plainConfig plainRules plainSigning decimalSerial) freshBroker_init
    (renewedRun ++ [.restore (backupOf renewedEnrolled) [enrolmentSection] (.fine plainConfig),
      .beginCrl (200 * second), .signCrl])
    (fun s => s.crls.map (fun signed => signed.crl.revoked.map Revocation.serial) = [[7]])
    (by decide +kernel)
  exact ⟨s, of_decide_eq_true hview, coversHeld_of_keeps plainOutside plainConfig plainRules
    plainSigning decimalSerial hs⟩

/-- The enrolment is restored as it was before the renewal: the next CRL leaves the
leaf out. -/
theorem leaf_unlisted :
    ¬ ∀ s, (running plainOutside plainConfig plainRules plainSigning
        decimalSerial).system.Reachable s → CoversHeld decimalSerial s := by
  intro hclaim
  obtain ⟨s, hs, hview⟩ := Machine.exists_reachable_of_exec
    (M := running plainOutside plainConfig plainRules plainSigning decimalSerial) freshBroker_init
    (renewedRun ++ [.restore (backupOf plainEnrolled) [enrolmentSection] (.fine plainConfig),
      .beginCrl (200 * second), .signCrl])
    (fun s => s.crls.any fun signed => signed.crl.revoked = [] ∧ signed.now = 200 * second ∧
      signed.store.certificates.rows.any fun c => c.revokedAt.isSome ∧
        200 * second < c.notAfter ∧ (signed.crl.signer, c.issuerSerial) ∈ signed.held)
    (by decide +kernel)
  obtain ⟨signed, hsigned, hview⟩ := List.any_eq_true.mp hview
  obtain ⟨hempty, hnow, hany⟩ := of_decide_eq_true hview
  obtain ⟨c, hc, hleaf⟩ := List.any_eq_true.mp hany
  obtain ⟨hrevoked, hunexpired, hissuer⟩ := of_decide_eq_true hleaf
  obtain ⟨entry, hentry, -⟩ :=
    (hclaim s hs).listed signed hsigned c hc hrevoked (hnow ▸ hunexpired) hissuer
  rw [hempty] at hentry
  cases hentry

end Opca.Acme.Broker
