/-
  Acme/OneEnrolment.lean --- enrolment attempts, whose checks run before the state lock is
  had, against reopenings of enrolment, new pairing codes and reloads (`enrolment.rs`,
  `cli.rs`, `broker.rs`).

  The pairing code's file is a parameter: a code that is accepted is spent, and a spent one
  is not accepted.
-/
import Opca.Acme.Broker

set_option autoImplicit false

namespace Opca.Acme.Broker

open Opca.Foundation

/-! ## The pairing code -/

/-- The file of a pairing code, and what redeeming a code does to it. -/
structure OneTimeCode (File : Type) where
  redeem : File → String → Redemption × File
  Spent : File → Prop

/-- A code is accepted once. -/
structure OneTimeCode.Once {File : Type} (codes : OneTimeCode File) : Prop where
  accepted : ∀ {file file' code}, codes.redeem file code = (.accepted, file') →
    codes.Spent file'
  spent : ∀ {file file' code redeemed}, codes.Spent file →
    codes.redeem file code = (redeemed, file') → redeemed ≠ .accepted ∧ codes.Spent file'

/-! ## Attempts -/

/-- An enrolment that was checked, and the key in memory then. -/
structure Attempt where
  checked : Checked
  key : String

/-- A broker and its code, and what is said of them: the last two are kept by no one. -/
structure Enrolling (File : Type) where
  broker : Broker
  /-- Which code this is, of those issued. -/
  codeNumber : Nat
  code : File
  attempts : Nat → Option Attempt
  /-- The attempts whose code was accepted and that were stored, with their code. -/
  stored : List (Nat × Attempt)
  /-- The codes that were accepted. -/
  accepted : List Nat
  /-- Whether enrolment was reopened, and since then neither loaded nor stored. -/
  reopened : Bool

/-- How far a reopening gets; the code's file is no part of what it archives. -/
inductive Reopening (File : Type) where
  | archived
  | rekeyed (key : String)
  | done (key : String) (code : File)

inductive EnrollingStep (File : Type) where
  | check (attempt : Nat) (enrolment : Enrolment) (now : Time)
  | redeem (attempt : Nat) (promote : Except String Unit) (io : Io)
  | reopen (reopening : Reopening File)
  /-- `opca-acme pairing`, which an enrolled broker refuses. -/
  | pairing (code : File)
  | reload (io : Io)
  | restart (io : Io) (opened : Except String Unit)

section Machine

variable {File : Type} (outside : Outside) (config : Config) (codes : OneTimeCode File)

/-- Whether an attempt gets as far as redeeming its code. -/
def redeems (checked : Checked) (io : Io) : Bool :=
  (operatorConfig outside config checked.root checked.enrolled.operatorPin io).isOk &&
    io.write.isOk

/-- `enrol` under the lock, and its answer. -/
def enrol (s : Enrolling File) (attempt : Attempt) (promote : Except String Unit) (io : Io) :
    Enrolling File × Except ErrorBody Status :=
  let (redeemed, code) := codes.redeem s.code attempt.checked.code
  let s :=
    if redeems outside config attempt.checked io then
      let accepted :=
        if redeemed = .accepted then s.accepted ++ [s.codeNumber] else s.accepted
      { s with code, accepted }
    else s
  match redeemAndStore outside config s.broker attempt.checked redeemed promote io with
  | (broker, .error e) => ({ s with broker }, .error e)
  | (broker, .ok _) =>
    ({ s with broker, stored := s.stored ++ [(s.codeNumber, attempt)], reopened := false },
      status outside broker attempt.checked.enrolled)

def enrollingMachine : Machine (Enrolling File) (EnrollingStep File) where
  init s := s.broker.enrolment = none ∧ s.broker.mode = .enrolling ∧ s.stored = [] ∧
    s.accepted = [] ∧ s.reopened = false ∧ ∀ attempt, s.attempts attempt = none
  next s
    | .check attempt enrolment now =>
      match check outside config s.broker enrolment now with
      | .error _ => some s
      | .ok checked => some { s with
          attempts :=
            Function.update s.attempts attempt (some ⟨checked, s.broker.subordinate⟩) }
    | .redeem attempt promote io =>
      (s.attempts attempt).map fun checked =>
        (enrol outside config codes
          { s with attempts := Function.update s.attempts attempt none } checked promote io).1
    | .reopen .archived =>
      some { s with broker := { s.broker with enrolment := none }, reopened := true }
    | .reopen (.rekeyed key) => some { s with broker := s.broker.reopen key, reopened := true }
    | .reopen (.done key code) => some { s with
        broker := s.broker.reopen key
        codeNumber := s.codeNumber + 1
        code
        reopened := true }
    | .pairing code =>
      if s.broker.enrolment.isSome then some s
      else some { s with codeNumber := s.codeNumber + 1, code }
    | .reload io =>
      match reloadLocked outside config s.broker io with
      | (broker, .ok _) => some { s with broker, reopened := false }
      | (broker, .error _) => some { s with broker }
    | .restart io opened =>
      (start outside config s.broker io opened).toOption.map fun broker =>
        { s with broker, attempts := fun _ => none, reopened := false }

def enrolling : System (Enrolling File) (EnrollingStep File) :=
  (enrollingMachine outside config codes).system

/-- The key that an attempt was checked against is still the one on disk when its code is
redeemed. -/
def CurrentKey (s : Enrolling File) : EnrollingStep File → Prop
  | .redeem attempt _ _ => ∀ checked, s.attempts attempt = some checked →
    checked.key = s.broker.keyFile
  | _ => True

end Machine

variable {File : Type} {outside : Outside} {config : Config} {codes : OneTimeCode File}
  {s t : Enrolling File}

/-! ## One attempt -/

/-- What an attempt under the lock does: it is stored, its code accepted; or the broker is as
it was, and the code too where it was not redeemed. -/
inductive Enrols (s : Enrolling File) (attempt : Attempt) (io : Io) : Enrolling File → Prop
  | stored {broker : Broker} {code : File} :
      codes.redeem s.code attempt.checked.code = (.accepted, code) →
      Stored s.broker attempt.checked.enrolled broker →
      Enrols s attempt io { s with
        broker
        code
        accepted := s.accepted ++ [s.codeNumber]
        stored := s.stored ++ [(s.codeNumber, attempt)]
        reopened := false }
  | refused : redeems outside config attempt.checked io = false → Enrols s attempt io s
  | redeemed {redeemed : Redemption} {code : File} {accepted : List Nat} :
      codes.redeem s.code attempt.checked.code = (redeemed, code) →
      (accepted = s.accepted ∧ redeemed ≠ .accepted ∨
        accepted = s.accepted ++ [s.codeNumber] ∧ redeemed = .accepted) →
      Enrols s attempt io { s with code, accepted }

theorem enrol_cases {attempt : Attempt} {promote : Except String Unit} {io : Io}
    {answer : Except ErrorBody Status}
    (h : enrol outside config codes s attempt promote io = (t, answer)) :
    @Enrols File outside config codes s attempt io t ∧
      (answer.isOk = true → t.broker.enrolment = some attempt.checked.enrolled) := by
  cases hredeem : codes.redeem s.code attempt.checked.code with
  | mk redeemed code =>
    unfold enrol at h
    rw [hredeem] at h
    unfold redeems redeemAndStore at h
    cases hoperator : operatorConfig outside config attempt.checked.root
      attempt.checked.enrolled.operatorPin io with
    | error e =>
      rw [hoperator] at h
      cases h
      refine ⟨.refused ?_, nofun⟩
      unfold redeems
      rw [hoperator]
      rfl
    | ok _ =>
      cases hwrite : io.write with
      | error e =>
        rw [hoperator, hwrite] at h
        cases h
        refine ⟨.refused ?_, nofun⟩
        unfold redeems
        rw [hoperator, hwrite]
        rfl
      | ok _ =>
        rw [hoperator, hwrite] at h
        by_cases haccepted : redeemed = .accepted
        · subst haccepted
          cases promote with
          | error e =>
            cases h
            exact ⟨.redeemed hredeem (.inr ⟨rfl, rfl⟩), nofun⟩
          | ok _ =>
            cases h
            have hstored := @refreshed_refreshAcme outside config
              { s.broker with
                enrolment := some attempt.checked.enrolled
                mode := .enrolled attempt.checked.enrolled } io
            exact ⟨.stored hredeem hstored, fun _ => hstored.enrolment⟩
        · simp only [ne_eq, haccepted, not_false_eq_true, if_true, if_false] at h
          cases h
          exact ⟨.redeemed hredeem (.inl ⟨rfl, haccepted⟩), nofun⟩

/-! ## The codes -/

/-- Every code that was accepted is spent, and was issued. -/
structure CodesOnce (codes : OneTimeCode File) (s : Enrolling File) : Prop where
  once : s.accepted.Nodup
  issued : ∀ number ∈ s.accepted, number ≤ s.codeNumber
  spent : s.codeNumber ∈ s.accepted → codes.Spent s.code
  stored : (s.stored.map Prod.fst).Sublist s.accepted

theorem codesOnce_enrols {attempt : Attempt} {io : Io} (hcodes : codes.Once)
    (h : CodesOnce codes s) (henrols : @Enrols File outside config codes s attempt io t) :
    CodesOnce codes t := by
  have hfresh {code : File} (hredeem : codes.redeem s.code attempt.checked.code =
      (.accepted, code)) : s.codeNumber ∉ s.accepted := fun hmem =>
    (hcodes.spent (h.spent hmem) hredeem).1 rfl
  have honce (hnew : s.codeNumber ∉ s.accepted) : (s.accepted ++ [s.codeNumber]).Nodup := by
    rw [List.nodup_append]
    refine ⟨h.once, List.nodup_singleton _, ?_⟩
    rintro _ hold _ hmem rfl
    exact hnew (List.mem_singleton.mp hmem ▸ hold)
  have hissued : ∀ number ∈ s.accepted ++ [s.codeNumber], number ≤ s.codeNumber := by
    intro number hnumber
    rcases List.mem_append.mp hnumber with hold | hmem
    · exact h.issued number hold
    · exact (List.mem_singleton.mp hmem).le
  cases henrols with
  | refused _ => exact h
  | stored hredeem _ =>
    refine ⟨honce (hfresh hredeem), hissued, fun _ => hcodes.accepted hredeem, ?_⟩
    rw [List.map_append]
    exact h.stored.append (List.Sublist.refl _)
  | redeemed hredeem haccepted =>
    rcases haccepted with ⟨rfl, -⟩ | ⟨rfl, rfl⟩
    · exact ⟨h.once, h.issued, fun hmem => (hcodes.spent (h.spent hmem) hredeem).2, h.stored⟩
    · exact ⟨honce (hfresh hredeem), hissued, fun _ => hcodes.accepted hredeem,
        h.stored.trans (List.sublist_append_left _ _)⟩

/-- Another code. -/
theorem codesOnce_issue {broker : Broker} {code : File} {reopened : Bool}
    (h : CodesOnce codes s) :
    CodesOnce codes { s with broker, codeNumber := s.codeNumber + 1, code, reopened } where
  once := h.once
  issued number hnumber := (h.issued number hnumber).trans (Nat.le_succ _)
  spent hmem := absurd (h.issued _ hmem) (Nat.not_succ_le_self _)
  stored := h.stored

/-! ## Steps -/

theorem of_check {attempt : Nat} {enrolment : Enrolment} {now : Time}
    (h : (enrollingMachine outside config codes).next s (.check attempt enrolment now) = some t) :
    t = s ∨ ∃ checked, check outside config s.broker enrolment now = .ok checked ∧
      t = { s with attempts :=
        Function.update s.attempts attempt (some ⟨checked, s.broker.subordinate⟩) } := by
  unfold enrollingMachine at h
  simp only at h
  split at h
  · cases h
    exact .inl rfl
  next checked hcheck =>
    cases h
    exact .inr ⟨checked, hcheck, rfl⟩

theorem of_redeem {number : Nat} {promote : Except String Unit} {io : Io}
    (h : (enrollingMachine outside config codes).next s (.redeem number promote io) = some t) :
    ∃ attempt, s.attempts number = some attempt ∧
      @Enrols File outside config codes
        { s with attempts := Function.update s.attempts number none } attempt io t := by
  obtain ⟨attempt, hattempt, rfl⟩ := Option.map_eq_some_iff.mp h
  exact ⟨attempt, hattempt, (enrol_cases rfl).1⟩

theorem of_reload {io : Io}
    (h : (enrollingMachine outside config codes).next s (.reload io) = some t) :
    t = s ∨ ∃ broker, Refreshed { s.broker with
        subordinate := s.broker.keyFile, mode := Mode.of s.broker.enrolment } broker ∧
      t = { s with broker, reopened := false } := by
  unfold enrollingMachine at h
  simp only at h
  cases hloaded : loaded outside config s.broker io with
  | error e =>
    unfold reloadLocked at h
    rw [hloaded] at h
    cases h
    exact .inl rfl
  | ok mode =>
    unfold reloadLocked at h
    rw [hloaded] at h
    cases h
    rw [loaded_ok hloaded]
    exact .inr ⟨_, refreshed_refreshAcme _ io, rfl⟩

theorem of_restart {io : Io} {opened : Except String Unit}
    (h : (enrollingMachine outside config codes).next s (.restart io opened) = some t) :
    ∃ broker, start outside config s.broker io opened = .ok broker ∧
      t = { s with broker, attempts := fun _ => none, reopened := false } := by
  obtain ⟨broker, hbroker, rfl⟩ := Option.map_eq_some_iff.mp h
  refine ⟨broker, ?_, rfl⟩
  cases hstart : start outside config s.broker io opened with
  | error e =>
    rw [hstart] at hbroker
    cases hbroker
  | ok broker' =>
    rw [hstart] at hbroker
    cases hbroker
    rfl

theorem of_pairing {code : File}
    (h : (enrollingMachine outside config codes).next s (.pairing code) = some t) :
    t = s ∨ t = { s with codeNumber := s.codeNumber + 1, code } := by
  unfold enrollingMachine at h
  simp only at h
  split at h
  · cases h
    exact .inl rfl
  · cases h
    exact .inr rfl

theorem codesOnce_step {step : EnrollingStep File} (hcodes : codes.Once)
    (h : CodesOnce codes s) (hstep : (enrolling outside config codes).step s step t) :
    CodesOnce codes t := by
  cases step with
  | check attempt enrolment now =>
    obtain rfl | ⟨checked, -, rfl⟩ := of_check hstep
    · exact h
    · exact ⟨h.once, h.issued, h.spent, h.stored⟩
  | redeem number promote io =>
    obtain ⟨attempt, -, henrols⟩ := of_redeem hstep
    have htaken : CodesOnce codes
        { s with attempts := Function.update s.attempts number none } :=
      ⟨h.once, h.issued, h.spent, h.stored⟩
    exact codesOnce_enrols hcodes htaken henrols
  | reopen reopening =>
    cases reopening with
    | archived =>
      cases hstep
      exact ⟨h.once, h.issued, h.spent, h.stored⟩
    | rekeyed key =>
      cases hstep
      exact ⟨h.once, h.issued, h.spent, h.stored⟩
    | done key code =>
      cases hstep
      exact codesOnce_issue h
  | pairing code =>
    obtain rfl | rfl := of_pairing hstep
    · exact h
    · exact codesOnce_issue h
  | reload io =>
    obtain rfl | ⟨broker, -, rfl⟩ := of_reload hstep
    · exact h
    · exact ⟨h.once, h.issued, h.spent, h.stored⟩
  | restart io opened =>
    obtain ⟨broker, -, rfl⟩ := of_restart hstep
    exact ⟨h.once, h.issued, h.spent, h.stored⟩

theorem enrolling_codesOnce (hcodes : codes.Once) :
    (enrolling outside config codes).Invariant (CodesOnce codes) where
  init hinit := by
    obtain ⟨-, -, hstored, haccepted, -, -⟩ := hinit
    refine ⟨?_, ?_, ?_, ?_⟩
    · rw [haccepted]
      exact List.nodup_nil
    · rw [haccepted]
      exact nofun
    · rw [haccepted]
      exact nofun
    · rw [hstored, haccepted]
      exact List.Sublist.refl _
  step := codesOnce_step hcodes

/-! ## The mode in memory -/

/-- Memory and disk agree, unless enrolment was reopened since they last did. -/
def InMemory (s : Enrolling File) : Prop :=
  s.reopened = false → s.broker.mode = Mode.of s.broker.enrolment

theorem stored_mode {b t : Broker} {enrolled : Broker.Enrolled} (h : Stored b enrolled t) :
    t.mode = Mode.of t.enrolment := by
  rw [h.mode, h.enrolment]
  rfl

theorem inMemory_enrols {attempt : Attempt} {io : Io} (h : InMemory s)
    (henrols : @Enrols File outside config codes s attempt io t) : InMemory t := by
  cases henrols with
  | stored _ hstored => exact fun _ => stored_mode hstored
  | refused _ => exact h
  | redeemed _ _ => exact h

theorem enrolling_inMemory : (enrolling outside config codes).Invariant InMemory where
  init hinit _ := by
    obtain ⟨henrolment, hmode, -⟩ := hinit
    rw [henrolment, hmode]
    rfl
  step {s t step} h hstep := by
    cases step with
    | check attempt enrolment now =>
      obtain rfl | ⟨checked, -, rfl⟩ := of_check hstep <;> exact h
    | redeem number promote io =>
      obtain ⟨attempt, -, henrols⟩ := of_redeem hstep
      have htaken : InMemory { s with attempts := Function.update s.attempts number none } := h
      exact inMemory_enrols htaken henrols
    | reopen reopening => cases reopening <;> (cases hstep; exact nofun)
    | pairing code =>
      obtain rfl | rfl := of_pairing hstep <;> exact h
    | reload io =>
      obtain rfl | ⟨broker, hrefreshed, rfl⟩ := of_reload hstep
      · exact h
      · intro _
        rw [hrefreshed.mode, hrefreshed.enrolment]
    | restart io opened =>
      obtain ⟨broker, hstart, rfl⟩ := of_restart hstep
      intro _
      rw [start_ok hstart]

/-! ## The stored chain -/

/-- The chain of an attempt begins with a certificate for the key that was in memory. -/
def Attempt.Certified (outside : Outside) (attempt : Attempt) : Prop :=
  ∃ serial, Certifies outside attempt.checked.enrolled attempt.key serial

/-- What a step makes of the attempts: those there were, and one just checked. -/
theorem attempts_step {step : EnrollingStep File}
    (hstep : (enrolling outside config codes).step s step t) {number : Nat} {attempt : Attempt}
    (h : t.attempts number = some attempt) :
    s.attempts number = some attempt ∨ attempt.key = s.broker.subordinate ∧
      ∃ enrolment now, step = .check number enrolment now ∧
        check outside config s.broker enrolment now = .ok attempt.checked := by
  cases step with
  | check number' enrolment now =>
    obtain rfl | ⟨checked, hcheck, rfl⟩ := of_check hstep
    · exact .inl h
    · change Function.update s.attempts number' (some _) number = some attempt at h
      by_cases hsame : number = number'
      · subst hsame
        rw [Function.update_self] at h
        cases h
        exact .inr ⟨rfl, enrolment, now, rfl, hcheck⟩
      · rw [Function.update_of_ne hsame] at h
        exact .inl h
  | redeem number' promote io =>
    obtain ⟨attempt', -, henrols⟩ := of_redeem hstep
    have hattempts : t.attempts = Function.update s.attempts number' none := by
      cases henrols <;> rfl
    rw [hattempts] at h
    by_cases hsame : number = number'
    · subst hsame
      rw [Function.update_self] at h
      cases h
    · rw [Function.update_of_ne hsame] at h
      exact .inl h
  | reopen reopening => cases reopening <;> (cases hstep; exact .inl h)
  | pairing code =>
    obtain rfl | rfl := of_pairing hstep <;> exact .inl h
  | reload io =>
    obtain rfl | ⟨broker, -, rfl⟩ := of_reload hstep <;> exact .inl h
  | restart io opened =>
    obtain ⟨broker, -, rfl⟩ := of_restart hstep
    cases h

/-- What a step stores: nothing, or an attempt that redeems its code. -/
theorem stored_step {step : EnrollingStep File}
    (hstep : (enrolling outside config codes).step s step t) :
    (t.stored = s.stored ∧ ∀ enrolled, t.broker.enrolment = some enrolled →
      s.broker.enrolment = some enrolled ∧ t.broker.keyFile = s.broker.keyFile) ∨
      ∃ number attempt promote io, step = .redeem number promote io ∧
        s.attempts number = some attempt ∧ t.stored = s.stored ++ [(s.codeNumber, attempt)] ∧
        t.broker.enrolment = some attempt.checked.enrolled ∧
        t.broker.keyFile = s.broker.keyFile := by
  cases step with
  | check number enrolment now =>
    obtain rfl | ⟨checked, -, rfl⟩ := of_check hstep <;> exact .inl ⟨rfl, fun _ h => ⟨h, rfl⟩⟩
  | redeem number promote io =>
    obtain ⟨attempt, hattempt, henrols⟩ := of_redeem hstep
    cases henrols with
    | stored _ hstored =>
      exact .inr ⟨number, attempt, promote, io, rfl, hattempt, rfl, hstored.enrolment,
        hstored.keyFile⟩
    | refused _ => exact .inl ⟨rfl, fun _ h => ⟨h, rfl⟩⟩
    | redeemed _ _ => exact .inl ⟨rfl, fun _ h => ⟨h, rfl⟩⟩
  | reopen reopening => cases reopening <;> (cases hstep; exact .inl ⟨rfl, nofun⟩)
  | pairing code =>
    obtain rfl | rfl := of_pairing hstep <;> exact .inl ⟨rfl, fun _ h => ⟨h, rfl⟩⟩
  | reload io =>
    obtain rfl | ⟨broker, hrefreshed, rfl⟩ := of_reload hstep
    · exact .inl ⟨rfl, fun _ h => ⟨h, rfl⟩⟩
    · exact .inl ⟨rfl, fun _ h => ⟨hrefreshed.enrolment.symm.trans h, hrefreshed.keyFile⟩⟩
  | restart io opened =>
    obtain ⟨broker, hstart, rfl⟩ := of_restart hstep
    cases start_ok hstart
    exact .inl ⟨rfl, fun _ h => ⟨h, rfl⟩⟩

/-- Every attempt is certified for the key it was checked against, and the enrolment on disk
is that of the last attempt stored. -/
structure AttemptsCertified (outside : Outside) (s : Enrolling File) : Prop where
  attempts : ∀ number attempt, s.attempts number = some attempt → attempt.Certified outside
  last : ∀ enrolled, s.broker.enrolment = some enrolled → ∃ number attempt,
    s.stored.getLast? = some (number, attempt) ∧ attempt.checked.enrolled = enrolled ∧
      attempt.Certified outside

theorem enrolling_certified :
    (enrolling outside config codes).Invariant (AttemptsCertified outside) where
  init := by
    rintro s ⟨henrolment, -, -, -, -, hattempts⟩
    refine ⟨fun number attempt hattempt => ?_, fun enrolled henrolled => ?_⟩
    · rw [hattempts number] at hattempt
      cases hattempt
    · rw [henrolment] at henrolled
      cases henrolled
  step := by
    intro s t step h hstep
    refine ⟨fun number attempt hattempt => ?_, fun enrolled henrolled => ?_⟩
    · obtain hold | ⟨hkey, _, _, _, hcheck⟩ := attempts_step hstep hattempt
      · exact h.attempts number attempt hold
      · obtain ⟨-, -, serial, hcertifies, -⟩ := check_ok hcheck
        exact ⟨serial, hkey ▸ hcertifies⟩
    · obtain ⟨hstored, hsame⟩ | ⟨number, attempt, _, _, -, hattempt, hstored, henrolment, -⟩ :=
        stored_step hstep
      · rw [hstored]
        exact h.last enrolled (hsame enrolled henrolled).1
      · refine ⟨s.codeNumber, attempt, ?_, Option.some.inj (henrolment.symm.trans henrolled),
          h.attempts number attempt hattempt⟩
        rw [hstored, List.getLast?_concat]

/-- The stored chain is for the key on disk, in runs whose redeeming attempts were checked
against that. -/
theorem certifies_keyFile_of_reachable
    (hs : ((enrolling outside config codes).restrict CurrentKey).Reachable s) :
    ∀ enrolled, s.broker.enrolment = some enrolled →
      ∃ serial, Certifies outside enrolled s.broker.keyFile serial := by
  induction hs with
  | init hinit =>
    intro enrolled henrolled
    rw [hinit.1] at henrolled
    cases henrolled
  | @step s t step hs hstep ih =>
    intro enrolled henrolled
    obtain ⟨-, hsame⟩ | ⟨number, attempt, promote, io, rfl, hattempt, -, henrolment, hkeyFile⟩ :=
      stored_step hstep.2
    · obtain ⟨hold, hkeyFile⟩ := hsame enrolled henrolled
      rw [hkeyFile]
      exact ih enrolled hold
    · have hcertified : attempt.Certified outside :=
        (enrolling_certified.reachable hs.of_restrict).attempts number attempt hattempt
      cases henrolment.symm.trans henrolled
      rw [hkeyFile, ← hstep.1 attempt hattempt]
      exact hcertified

/-! ## One enrolment per code -/

/-- An attempt that does not redeem its code leaves it. -/
theorem enrol_unredeemed {attempt : Attempt} {promote : Except String Unit} {io : Io}
    (h : redeems outside config attempt.checked io = false) :
    (enrol outside config codes s attempt promote io).1 = s := by
  unfold redeems at h
  unfold enrol redeems redeemAndStore
  cases hoperator : operatorConfig outside config attempt.checked.root
    attempt.checked.enrolled.operatorPin io with
  | error e => rfl
  | ok _ =>
    cases hwrite : io.write with
    | error e => rfl
    | ok _ =>
      rw [hoperator, hwrite] at h
      cases h

/-- What is kept of an attempt is what it was: the key in memory when it was checked, and
that its code was redeemed when it was stored. -/
structure Noted (outside : Outside) (config : Config) (s : Enrolling File)
    (step : EnrollingStep File) (t : Enrolling File) : Prop where
  checked : ∀ number attempt, t.attempts number = some attempt →
    s.attempts number = some attempt ∨ attempt.key = s.broker.subordinate ∧
      ∃ enrolment now, step = .check number enrolment now ∧
        check outside config s.broker enrolment now = .ok attempt.checked
  stored : t.stored = s.stored ∨ ∃ number attempt promote io,
    step = .redeem number promote io ∧ s.attempts number = some attempt ∧
      t.stored = s.stored ++ [(s.codeNumber, attempt)]

/-- In every run: no issued code is accepted twice, and so at most one enrolment is stored
for it; the stored chain is that of the last attempt stored, for the subordinate key that was
in memory when that attempt was checked, and for the one on disk where no redeeming attempt
was checked against another; what is in
memory is what a restart gives, unless enrolment was reopened and not yet taken up; a refusal
before the redeem changes nothing; and what is answered `Ok` is on disk. -/
theorem oneEnrolment_perCode (hcodes : codes.Once)
    (hs : (enrolling outside config codes).Reachable s) :
    (s.accepted.Nodup ∧ (s.stored.map Prod.fst).Nodup) ∧
    (∀ enrolled, s.broker.enrolment = some enrolled → ∃ number attempt serial,
      s.stored.getLast? = some (number, attempt) ∧ attempt.checked.enrolled = enrolled ∧
        Certifies outside enrolled attempt.key serial) ∧
    (∀ step t, (enrolling outside config codes).step s step t → Noted outside config s step t) ∧
    (((enrolling outside config codes).restrict CurrentKey).Reachable s →
      ∀ enrolled, s.broker.enrolment = some enrolled →
        ∃ serial, Certifies outside enrolled s.broker.keyFile serial) ∧
    (s.reopened = false → ∀ io opened broker,
      start outside config s.broker io opened = .ok broker → s.broker.mode = broker.mode) ∧
    (∀ attempt enrolment now e t, check outside config s.broker enrolment now = .error e →
      (enrolling outside config codes).step s (.check attempt enrolment now) t → t = s) ∧
    (∀ attempt promote io, redeems outside config attempt.checked io = false →
      (enrol outside config codes s attempt promote io).1 = s) ∧
    ∀ attempt promote io, (enrol outside config codes s attempt promote io).2.isOk = true →
      (enrol outside config codes s attempt promote io).1.broker.enrolment =
        some attempt.checked.enrolled := by
  have honce := (enrolling_codesOnce hcodes).reachable hs
  refine ⟨⟨honce.once, honce.stored.nodup honce.once⟩, ?_, ?_, certifies_keyFile_of_reachable,
    ?_, ?_, fun _ _ _ => enrol_unredeemed, fun _ _ _ => (enrol_cases rfl).2⟩
  · intro enrolled henrolled
    obtain ⟨number, attempt, hlast, rfl, serial, hcertifies⟩ :=
      (enrolling_certified.reachable hs).last enrolled henrolled
    exact ⟨number, attempt, serial, hlast, rfl, hcertifies⟩
  · intro step t hstep
    refine ⟨fun number attempt => attempts_step hstep, ?_⟩
    obtain ⟨hstored, -⟩ | ⟨number, attempt, promote, io, hredeem, hattempt, hstored, -, -⟩ :=
      stored_step hstep
    · exact .inl hstored
    · exact .inr ⟨number, attempt, promote, io, hredeem, hattempt, hstored⟩
  · intro hloaded io opened broker hstart
    rw [start_ok hstart]
    exact enrolling_inMemory.reachable hs hloaded
  · intro attempt enrolment now e t hrefused hstep
    obtain rfl | ⟨checked, hcheck, -⟩ := of_check hstep
    · rfl
    · rw [hrefused] at hcheck
      cases hcheck

/-! ## A reopening -/

/-- A code's file that says whether it is spent, and takes any code. -/
def anyCode : OneTimeCode Bool where
  redeem spent _ := if spent then (.spent "acceptance", true) else (.accepted, true)
  Spent spent := spent = true

theorem anyCode_once : anyCode.Once where
  accepted {file file' code} h := by
    cases file <;> cases h
    rfl
  spent {file file' code redeemed} hspent h := by
    cases hspent
    cases h
    exact ⟨nofun, rfl⟩

def unpaired : Enrolling Bool where
  broker := ⟨none, "key", ⟨.empty, [], [], [], []⟩, "key", .enrolling, false, none, false⟩
  codeNumber := 0
  code := false
  attempts _ := none
  stored := []
  accepted := []
  reopened := false

theorem unpaired_init {outside : Outside} {config : Config} :
    (enrollingMachine outside config anyCode).init unpaired :=
  ⟨rfl, rfl, rfl, rfl, rfl, fun _ => rfl⟩

/-- It is enrolled with the chain `ar`. -/
def pairs : List (EnrollingStep Bool) :=
  [.check 0 ⟨"code", "ar", operatorPin, plainEnrolled.config⟩ 0,
    .redeem 0 (.ok ()) (.fine plainConfig)]

/-- A broker is paired, and a second attempt with its code refused. -/
theorem oneEnrolment_perCode_paired :
    ∃ s : Enrolling Bool, s.accepted = [0] ∧ s.broker.enrolment = some plainEnrolled ∧
      (s.stored.map Prod.fst).Nodup ∧
      ∃ number attempt serial, s.stored = [(number, attempt)] ∧ attempt.key = "key" ∧
        Certifies plainOutside plainEnrolled attempt.key serial := by
  have hinit : (enrollingMachine plainOutside plainConfig anyCode).init unpaired := unpaired_init
  obtain ⟨s, hs, hview⟩ := Machine.exists_reachable_of_exec hinit
    (.check 1 ⟨"code", "br", operatorPin, plainEnrolled.config⟩ 0 ::
      pairs ++ [.redeem 1 (.ok ()) (.fine plainConfig)])
    (fun s : Enrolling Bool => decide (s.accepted = [0] ∧
      s.broker.enrolment = some plainEnrolled ∧ s.stored.length = 1 ∧
      s.stored.map (fun stored => stored.2.key) = ["key"]))
    (by decide)
  obtain ⟨haccepted, henrolled, hone, hkeys⟩ := of_decide_eq_true hview
  obtain ⟨⟨-, honce⟩, hchain, -⟩ := oneEnrolment_perCode anyCode_once hs
  obtain ⟨number, attempt, serial, hlast, -, hcertifies⟩ := hchain _ henrolled
  obtain ⟨stored, hstored⟩ := List.length_eq_one_iff.mp hone
  rw [hstored] at hlast hkeys
  cases hlast
  exact ⟨s, haccepted, henrolled, honce, number, attempt, serial, hstored,
    (List.cons.inj hkeys).1, hcertifies⟩

/-- An enrolled broker whose enrolment is reopened beside it is enrolled until it reloads; and
where a reopening ended before it issued a code, an attempt checked before it stores a chain
for the key it replaced. -/
theorem not_current_after_reopening :
    (¬ ∀ s, (enrolling plainOutside plainConfig anyCode).Reachable s → ∀ io opened broker,
      start plainOutside plainConfig s.broker io opened = .ok broker →
        s.broker.mode = broker.mode) ∧
    ¬ ∀ s, (enrolling plainOutside plainConfig anyCode).Reachable s → ∀ enrolled,
      s.broker.enrolment = some enrolled →
        ∃ serial, Certifies plainOutside enrolled s.broker.subordinate serial ∨
          Certifies plainOutside enrolled s.broker.keyFile serial := by
  have hinit : (enrollingMachine plainOutside plainConfig anyCode).init unpaired := unpaired_init
  refine ⟨fun hclaim => ?_, fun hclaim => ?_⟩
  · obtain ⟨s, hs, hview⟩ := Machine.exists_reachable_of_exec hinit
      (pairs ++ [.reopen (.done "key 2" false)])
      (fun s : Enrolling Bool => decide (s.broker.mode ≠ .enrolling ∧
        (start plainOutside plainConfig s.broker (.fine plainConfig) (.ok ())).toOption.map mode =
          some .enrolling))
      (by decide)
    obtain ⟨hmode, hstart⟩ := of_decide_eq_true hview
    cases hbroker : start plainOutside plainConfig s.broker (.fine plainConfig) (.ok ()) with
    | error e =>
      rw [hbroker] at hstart
      cases hstart
    | ok broker =>
      rw [hbroker] at hstart
      exact hmode ((hclaim s hs _ _ broker hbroker).trans (Option.some.inj hstart))
  · obtain ⟨s, hs, hview⟩ := Machine.exists_reachable_of_exec hinit
      [.check 0 ⟨"code", "ar", operatorPin, plainEnrolled.config⟩ 0, .reopen (.rekeyed "key 2"),
        .reload (.fine plainConfig), .redeem 0 (.ok ()) (.fine plainConfig)]
      (fun s : Enrolling Bool => decide (s.broker.enrolment = some plainEnrolled ∧
        s.broker.subordinate = "key 2" ∧ s.broker.keyFile = "key 2"))
      (by decide)
    obtain ⟨henrolled, hmemory, hdisk⟩ := of_decide_eq_true hview
    have hother : ∀ serial, ¬Certifies plainOutside plainEnrolled "key 2" serial := by
      rintro serial ⟨subordinate, hsubordinate, hkey, -⟩
      cases hsubordinate
      exact absurd hkey (by decide)
    obtain ⟨serial, hcertifies⟩ := hclaim s hs plainEnrolled henrolled
    rw [hmemory, hdisk] at hcertifies
    exact hother serial (hcertifies.elim id id)

end Opca.Acme.Broker
