/-
  Acme/Stopped.lean --- a broker that was paused or revoked: its enrolment on disk, its
  mode and the ACME server's own flag all say so, whatever is changed after it
  (`enrolled.rs`, `backup.rs`, `acme/listener.rs`, `acme/server.rs`).
-/
import Opca.Acme.Running

set_option autoImplicit false

namespace Opca.Acme.Broker

open Opca.Foundation

/-! ## The promise, and when it is kept -/

/-- No request that was received under a standing pause, or after a revocation that
stands, is given the issuer. -/
def StaysStopped (s : Running) : Prop :=
  ∀ request ∈ s.requests, request.underPause = true ∨ request.underRevocation = true →
    request.taken = none

section Keeps

variable (outside : Outside) (config : Config)

/-- No enrolment is stored over one that is revoked; a revoke or a pause that finds its
flag set on disk finds it in memory too; and an enrolment that is restored unrevoked is
paused if a pause stands, and not restored at all between a reopening and the chain
accepted after it. -/
def KeepsStopped (s : Running) : RunningStep → Prop
  | .redeem _ _ _ _ => ∀ current ∈ s.broker.enrolment, current.revoked = false
  | .revoke _ => ∀ current ∈ s.broker.enrolment, current.revoked = true →
      s.broker.mode.live = none
  | .pause true _ => ∀ current ∈ s.broker.enrolment, current.paused = true →
      ∀ live ∈ s.broker.mode.live, live.paused = true
  | .restore blob chosen io =>
    ∀ enrolled ∈ (checkCapture outside config s.broker blob io).toWrite chosen,
      enrolled.revoked = false →
        (s.pausing = true → enrolled.paused = true) ∧ s.revoked ≠ .reopened
  | _ => True

instance (s : Running) (l : RunningStep) : Decidable (KeepsStopped outside config s l) :=
  match l with
  | .redeem _ _ _ _ => inferInstanceAs (Decidable
      (∀ current ∈ s.broker.enrolment, current.revoked = false))
  | .revoke _ => inferInstanceAs (Decidable
      (∀ current ∈ s.broker.enrolment, current.revoked = true → s.broker.mode.live = none))
  | .pause true _ => inferInstanceAs (Decidable
      (∀ current ∈ s.broker.enrolment, current.paused = true →
        ∀ live ∈ s.broker.mode.live, live.paused = true))
  | .restore blob chosen io => inferInstanceAs (Decidable
      (∀ enrolled ∈ (checkCapture outside config s.broker blob io).toWrite chosen,
        enrolled.revoked = false →
          (s.pausing = true → enrolled.paused = true) ∧ s.revoked ≠ .reopened))
  | .check _ _ | .updateChain _ _ _ | .pause false _ | .reload _ | .reopen _ | .restart _ _
  | .refresh _ | .handler _ | .receive _ _ _ | .take _ | .issue _ _ | .beginCrl _
  | .signCrl => .isTrue trivial

end Keeps

/-! ## The invariant -/

variable {outside : Outside} {config : Config} {rules : NameRules} {signing : Signing}
  {parseSerial : String → Except String Nat} {s t : Running} {enrolled current : Enrolled}
  {b broker : Broker}

/-- The enrolments that may be live, on disk and in memory, are as the stop says. -/
structure ShowsStopped (pausing : Bool) (revoked : Revoked) (broker : Broker) : Prop where
  pausedDisk : pausing = true → ∀ e ∈ (Mode.of broker.enrolment).live, e.paused = true
  pausedMode : pausing = true → ∀ e ∈ broker.mode.live, e.paused = true
  revokedDisk : revoked ≠ .no → (Mode.of broker.enrolment).live = none
  revokedMode : revoked ≠ .no → broker.mode.live = none
  /-- Only a reopening takes the enrolment away. -/
  standing : revoked = .standing → broker.enrolment.isSome = true

structure StoppedInv (outside : Outside) (s : Running) : Prop where
  shows : ShowsStopped s.pausing s.revoked s.broker
  read : ∀ e ∈ s.broker.enrolment, (subordinateOf outside e).isSome = true
  checked : ∀ c ∈ s.enrolling, (subordinateOf outside c.enrolled).isSome = true
  /-- The listener serves only a mode that is live, as that is paused. -/
  serving : s.broker.serving = true → ∃ e ∈ s.broker.mode.live, s.broker.paused = e.paused
  underPause : ∀ r ∈ s.requests, r.underPause = true →
    s.pausing = true ∧ s.broker.paused = true ∧ r.taken = none
  underRevocation : ∀ r ∈ s.requests, r.underRevocation = false

/-- What is on disk and in memory, where both are the one enrolment. -/
theorem showsStopped_of_enrolled {pausing : Bool} {revoked : Revoked}
    (hdisk : broker.enrolment = some enrolled) (hmode : broker.mode = .enrolled enrolled)
    (hpaused : pausing = true → enrolled.revoked = false → enrolled.paused = true)
    (hrevoked : revoked ≠ .no → enrolled.revoked = true) :
    ShowsStopped pausing revoked broker := by
  have hof : Mode.of broker.enrolment = .enrolled enrolled := by
    rw [hdisk]
    rfl
  have hlive : ∀ e ∈ (Mode.enrolled enrolled).live, e = enrolled ∧ enrolled.revoked = false := by
    intro e he
    obtain ⟨hsame, hunrevoked⟩ := Mode.live_eq_some.mp he
    cases hsame
    exact ⟨rfl, hunrevoked⟩
  have hdead : revoked ≠ .no → (Mode.enrolled enrolled).live = none := by
    intro hne
    simp [Mode.live, hrevoked hne]
  refine ⟨?_, ?_, ?_, ?_, ?_⟩
  · rw [hof]
    intro hpausing e he
    obtain ⟨rfl, hunrevoked⟩ := hlive e he
    exact hpaused hpausing hunrevoked
  · rw [hmode]
    intro hpausing e he
    obtain ⟨rfl, hunrevoked⟩ := hlive e he
    exact hpaused hpausing hunrevoked
  · rw [hof]
    exact hdead
  · rw [hmode]
    exact hdead
  · rw [hdisk]
    exact fun _ => rfl

/-- A change that ends in a refresh keeps the invariant if what it put on disk and in
memory says what stands. -/
theorem StoppedInv.refreshed (h : StoppedInv outside s) (hrefreshed : Refreshed b broker)
    (hpaused : b.paused = s.broker.paused) {pausing : Bool} {revoked : Revoked}
    (hpausing : s.pausing = true → pausing = true) (hshows : ShowsStopped pausing revoked b)
    (hread : ∀ e ∈ b.enrolment, (subordinateOf outside e).isSome = true) :
    StoppedInv outside { s.become outside broker with pausing, revoked } := by
  refine ⟨?_, ?_, h.checked, ?_, ?_, h.underRevocation⟩
  · refine ⟨?_, ?_, ?_, ?_, ?_⟩
    · show _ → ∀ e ∈ (Mode.of broker.enrolment).live, _
      rw [hrefreshed.enrolment]
      exact hshows.pausedDisk
    · show _ → ∀ e ∈ broker.mode.live, _
      rw [hrefreshed.mode]
      exact hshows.pausedMode
    · show _ → (Mode.of broker.enrolment).live = none
      rw [hrefreshed.enrolment]
      exact hshows.revokedDisk
    · show _ → broker.mode.live = none
      rw [hrefreshed.mode]
      exact hshows.revokedMode
    · show _ → broker.enrolment.isSome = true
      rw [hrefreshed.enrolment]
      exact hshows.standing
  · show ∀ e ∈ broker.enrolment, _
    rw [hrefreshed.enrolment]
    exact hread
  · intro hserving
    obtain ⟨e, he⟩ := Option.isSome_iff_exists.mp (hrefreshed.serving hserving)
    refine ⟨e, ?_, hrefreshed.paused e he⟩
    show broker.mode.live = some e
    rw [hrefreshed.mode]
    exact he
  · intro r hr hunder
    obtain ⟨hstands, hflag, htaken⟩ := h.underPause r hr hunder
    refine ⟨hpausing hstands, ?_, htaken⟩
    show broker.paused = true
    cases hlive : b.mode.live with
    | none => rw [hrefreshed.stopped hlive, hpaused, hflag]
    | some e =>
      rw [hrefreshed.paused e hlive]
      exact hshows.pausedMode (hpausing hstands) e hlive

theorem ShowsStopped.of_eq {pausing : Bool} {revoked : Revoked} (h : ShowsStopped pausing revoked b)
    (henrolment : broker.enrolment = b.enrolment) (hmode : broker.mode = b.mode) :
    ShowsStopped pausing revoked broker := by
  refine ⟨?_, ?_, ?_, ?_, ?_⟩
  · rw [henrolment]
    exact h.pausedDisk
  · rw [hmode]
    exact h.pausedMode
  · rw [henrolment]
    exact h.revokedDisk
  · rw [hmode]
    exact h.revokedMode
  · rw [henrolment]
    exact h.standing

/-- Nothing that matters here has changed. -/
theorem StoppedInv.of_eq (h : StoppedInv outside s)
    (henrolment : t.broker.enrolment = s.broker.enrolment)
    (hmode : t.broker.mode = s.broker.mode) (hserving : t.broker.serving = s.broker.serving)
    (hpaused : t.broker.paused = s.broker.paused) (hpausing : t.pausing = s.pausing)
    (hrevoked : t.revoked = s.revoked) (hrequests : ∀ r ∈ t.requests, r ∈ s.requests)
    (henrolling : ∀ c ∈ t.enrolling, c ∈ s.enrolling) : StoppedInv outside t := by
  refine ⟨?_, ?_, fun c hc => h.checked c (henrolling c hc), ?_, ?_,
    fun r hr => h.underRevocation r (hrequests r hr)⟩
  · rw [hpausing, hrevoked]
    exact h.shows.of_eq henrolment hmode
  · rw [henrolment]
    exact h.read
  · rw [hserving, hmode, hpaused]
    exact h.serving
  · rw [hpausing, hpaused]
    exact fun r hr => h.underPause r (hrequests r hr)

/-- An enrolment stored on disk and in memory. -/
theorem StoppedInv.stored (h : StoppedInv outside s) (hstored : Stored s.broker enrolled broker)
    {pausing : Bool} {revoked : Revoked} (hpausing : s.pausing = true → pausing = true)
    (hpaused : pausing = true → enrolled.revoked = false → enrolled.paused = true)
    (hrevoked : revoked ≠ .no → enrolled.revoked = true)
    (hread : (subordinateOf outside enrolled).isSome = true) :
    StoppedInv outside { s.become outside broker with pausing, revoked } := by
  refine h.refreshed hstored rfl hpausing (showsStopped_of_enrolled rfl rfl hpaused hrevoked) ?_
  rintro _ ⟨⟩
  exact hread

theorem StoppedInv.resumed (h : StoppedInv outside s) : StoppedInv outside s.resumed := by
  refine ⟨⟨?_, ?_, h.shows.revokedDisk, h.shows.revokedMode, h.shows.standing⟩, h.read, h.checked,
    h.serving, ?_, ?_⟩
  · intro hpausing
    cases hpausing
  · intro hpausing
    cases hpausing
  · intro r hr hunder
    obtain ⟨request, -, rfl⟩ := List.mem_map.mp hr
    cases hunder
  · intro r hr
    obtain ⟨request, hrequest, rfl⟩ := List.mem_map.mp hr
    exact h.underRevocation request hrequest

theorem StoppedInv.accepted (h : StoppedInv outside s) : StoppedInv outside s.accepted := by
  unfold Running.accepted
  split
  next =>
    refine ⟨⟨h.shows.pausedDisk, h.shows.pausedMode, ?_, ?_, ?_⟩, h.read, h.checked, h.serving,
      ?_, ?_⟩
    · intro hne
      exact absurd rfl hne
    · intro hne
      exact absurd rfl hne
    · intro hstanding
      cases hstanding
    · intro r hr hunder
      obtain ⟨request, hrequest, rfl⟩ := List.mem_map.mp hr
      exact h.underPause request hrequest hunder
    · intro r hr
      obtain ⟨request, -, rfl⟩ := List.mem_map.mp hr
      rfl
  next => exact h

theorem accepted_become :
    (s.become outside broker).accepted = s.accepted.become outside broker := by
  unfold Running.accepted
  by_cases hreopened : s.revoked = .reopened
  · rw [if_pos hreopened,
      if_pos (show (s.become outside broker).revoked = .reopened from hreopened)]
    rfl
  · rw [if_neg hreopened, if_neg (show ¬ (s.become outside broker).revoked = .reopened from
      hreopened)]

/-- While a revocation stands, nothing on disk is unrevoked. -/
theorem StoppedInv.not_revoked (h : StoppedInv outside s)
    (hdisk : s.broker.enrolment = some current)
    (hunrevoked : current.revoked = false) : s.revoked = .no := by
  by_contra hne
  have hdead := h.shows.revokedDisk hne
  rw [hdisk] at hdead
  have hlive : (Mode.of (some current)).live = some current :=
    Mode.live_eq_some.mpr ⟨rfl, hunrevoked⟩
  rw [hlive] at hdead
  cases hdead

theorem live_of_revoked (hdisk : broker.enrolment = some current)
    (hrevoked : current.revoked = true) :
    (Mode.of broker.enrolment).live = none := by
  rw [hdisk]
  simp [Mode.of, Mode.live, hrevoked]

/-- A restored enrolment is on disk, and not in memory yet. -/
theorem StoppedInv.switched {blob : Blob} {chosen : List String} {io : RestoreIo}
    (h : StoppedInv outside s) (store : Store)
    (hok : KeepsStopped outside config s (.restore blob chosen io)) :
    StoppedInv outside (s.become outside (switched s.broker
      ((checkCapture outside config s.broker blob io).toWrite chosen) store)) := by
  cases hwrite : (checkCapture outside config s.broker blob io).toWrite chosen with
  | none => exact h.of_eq rfl rfl rfl rfl rfl rfl (fun _ hr => hr) (fun _ hc => hc)
  | some enrolled =>
    obtain ⟨⟨serial, subordinate, hsubordinate, -⟩, hguard⟩ :=
      checkCapture_ok (mem_of_toWrite hwrite)
    have hkeeps := hok enrolled hwrite
    have hlive : ∀ e ∈ (Mode.of (some enrolled)).live, e = enrolled ∧ enrolled.revoked = false := by
      intro e he
      obtain ⟨hsame, hunrevoked⟩ := Mode.live_eq_some.mp he
      cases hsame
      exact ⟨rfl, hunrevoked⟩
    refine ⟨⟨?_, h.shows.pausedMode, ?_, h.shows.revokedMode, fun _ => rfl⟩, ?_, h.checked,
      h.serving, h.underPause, h.underRevocation⟩
    · intro hpausing e he
      obtain ⟨rfl, hunrevoked⟩ := hlive e he
      exact (hkeeps hunrevoked).1 hpausing
    · intro hne
      suffices hdead : enrolled.revoked = true from live_of_revoked rfl hdead
      by_contra hunrevoked
      rw [Bool.not_eq_true] at hunrevoked
      cases hrevoked : s.revoked with
      | no => exact hne hrevoked
      | reopened => exact (hkeeps hunrevoked).2 hrevoked
      | standing =>
        -- the restore's own guard, since the revoked enrolment is still on disk
        obtain ⟨current, hdisk⟩ := Option.isSome_iff_exists.mp (h.shows.standing hrevoked)
        cases hcurrent : current.revoked with
        | false => exact hne (h.not_revoked hdisk hcurrent)
        | true =>
          rw [hguard current hdisk hcurrent] at hunrevoked
          cases hunrevoked
    · rintro _ ⟨⟩
      rw [hsubordinate]
      rfl

/-- What is on disk is taken up. -/
theorem StoppedInv.reloaded (h : StoppedInv outside s)
    (hrefreshed : Refreshed { s.broker with
      subordinate := s.broker.keyFile
      mode := Mode.of s.broker.enrolment } broker) :
    StoppedInv outside (s.become outside broker) :=
  h.refreshed hrefreshed rfl (fun hpausing => hpausing)
    ⟨h.shows.pausedDisk, h.shows.pausedDisk, h.shows.revokedDisk, h.shows.revokedDisk,
      h.shows.standing⟩ h.read

theorem given_of_paused {request : Request} (h : s.broker.paused = true) :
    s.given request = none := by
  unfold Running.given issuing
  rw [h]
  cases s.broker.acme.store.orders.get? request.order with
  | none => rfl
  | some order =>
    simp only [Option.bind_eq_bind, Option.bind_some]
    split
    · rfl
    · rfl

/-- A new enrolment is neither paused nor revoked, and ends what stood. -/
theorem StoppedInv.redeemed {checked : Checked} (h : StoppedInv outside s)
    (hmem : checked ∈ s.enrolling) (hstored : Stored s.broker checked.enrolled broker)
    (hok : ∀ current ∈ s.broker.enrolment, current.revoked = false) :
    StoppedInv outside
      (({ s with enrolling := s.enrolling.erase checked }.become outside
        broker).resumed.accepted) := by
  have hnot : s.revoked ≠ .standing := by
    intro hstanding
    obtain ⟨current, hdisk⟩ := Option.isSome_iff_exists.mp (h.shows.standing hstanding)
    have hno := h.not_revoked hdisk (hok current hdisk)
    rw [hstanding] at hno
    cases hno
  have hrest : StoppedInv outside { s with enrolling := s.enrolling.erase checked } :=
    h.of_eq rfl rfl rfl rfl rfl rfl (fun _ hr => hr) fun _ hc => List.mem_of_mem_erase hc
  generalize hu : { s with enrolling := s.enrolling.erase checked }.resumed.accepted = u
  have hbefore : StoppedInv outside u := hu ▸ hrest.resumed.accepted
  obtain ⟨hbroker, hpausing, hrevoked⟩ : u.broker = s.broker ∧ u.pausing = false ∧
      u.revoked = .no := by
    rw [← hu]
    unfold Running.accepted
    split
    next => exact ⟨rfl, rfl, rfl⟩
    next hreopened =>
      refine ⟨rfl, rfl, ?_⟩
      cases hrevoked : s.revoked with
      | no => rfl
      | standing => exact absurd hrevoked hnot
      | reopened => exact absurd hrevoked hreopened
  have hafter : StoppedInv outside { u.become outside broker with
      pausing := u.pausing, revoked := u.revoked } := by
    refine hbefore.stored (hbroker ▸ hstored) (fun hstands => hstands) ?_ ?_
      (h.checked checked hmem)
    · intro hstands
      rw [hpausing] at hstands
      cases hstands
    · exact fun hne => absurd hrevoked hne
  have hcommute : ({ s with enrolling := s.enrolling.erase checked }.become outside
      broker).resumed.accepted = u.become outside broker := by
    rw [← hu, ← accepted_become]
    rfl
  rw [hcommute]
  exact hafter

theorem StoppedInv.step (h : StoppedInv outside s) {l : RunningStep}
    (hok : KeepsStopped outside config s l) (hstep : Goes outside config parseSerial s l t) :
    StoppedInv outside t := by
  cases hstep with
  | beside _ acme requests signing hrequests =>
    exact h.of_eq rfl rfl rfl rfl rfl rfl hrequests fun _ hc => hc
  | unchanged => exact h.of_eq rfl rfl rfl rfl rfl rfl (fun _ hr => hr) fun _ hc => hc
  | checked hcheck =>
    refine ⟨h.shows, h.read, ?_, h.serving, h.underPause, h.underRevocation⟩
    intro c hc
    rcases List.mem_append.mp hc with hold | hnew
    · exact h.checked c hold
    · rw [List.mem_singleton.mp hnew]
      obtain ⟨-, -, serial, ⟨subordinate, hsubordinate, -⟩, -⟩ := check_ok hcheck
      rw [hsubordinate]
      rfl
  | refused checked =>
    exact h.of_eq rfl rfl rfl rfl rfl rfl (fun _ hr => hr) fun _ hc => List.mem_of_mem_erase hc
  | enrolled hmem hstored => exact h.redeemed hmem hstored hok
  | updated hrenewed hstored =>
    obtain ⟨current, serial, hdisk, hcurrent, hunrevoked, hpaused,
      ⟨subordinate, hsubordinate, -⟩, -⟩ := renewed_ok hrenewed
    have hno := h.not_revoked hdisk hcurrent
    refine StoppedInv.accepted (h.stored hstored (fun hpausing => hpausing) ?_ ?_ ?_)
    · intro hpausing _
      rw [hpaused]
      refine h.shows.pausedDisk hpausing current ?_
      rw [hdisk]
      exact Mode.live_eq_some.mpr ⟨rfl, hcurrent⟩
    · exact fun hne => absurd hno hne
    · rw [hsubordinate]
      rfl
  | revokedAlready hdisk hrevoked =>
    have hdead := live_of_revoked hdisk hrevoked
    refine ⟨⟨h.shows.pausedDisk, h.shows.pausedMode, fun _ => hdead,
      fun _ => hok _ hdisk hrevoked, ?_⟩, h.read, h.checked, h.serving, h.underPause,
      h.underRevocation⟩
    intro _
    show s.broker.enrolment.isSome = true
    rw [hdisk]
    rfl
  | @revoked io current broker revoked hdisk hstored _ =>
    refine h.stored hstored (fun hpausing => hpausing) ?_ (fun _ => rfl) ?_
    · intro _ hunrevoked
      cases hunrevoked
    · exact h.read current hdisk
  | pausedAlready hdisk hunrevoked hpaused =>
    refine ⟨⟨?_, fun _ => hok _ hdisk hpaused, h.shows.revokedDisk, h.shows.revokedMode,
      h.shows.standing⟩, h.read, h.checked, h.serving, ?_, h.underRevocation⟩
    · intro _ e he
      change e ∈ (Mode.of s.broker.enrolment).live at he
      rw [hdisk] at he
      obtain ⟨hsame, -⟩ := Mode.live_eq_some.mp he
      cases hsame
      exact hpaused
    · intro r hr hunder
      exact ⟨rfl, (h.underPause r hr hunder).2⟩
  | @paused io current broker pausing hdisk hunrevoked hstored hpausing =>
    refine h.stored hstored ?_ (fun _ _ => rfl) ?_ ?_
    · intro hstands
      rcases hpausing with hsame | htrue
      · rw [hsame]
        exact hstands
      · exact htrue
    · exact fun hne => absurd (h.not_revoked hdisk hunrevoked) hne
    · exact h.read current hdisk
  | resumedAlready =>
    exact h.resumed.of_eq rfl rfl rfl rfl rfl rfl (fun _ hr => hr) fun _ hc => hc
  | @resumed io current broker hdisk hunrevoked hstored =>
    have hresumed : StoppedInv outside { s.resumed.become outside broker with
        pausing := false, revoked := s.revoked } := by
      refine h.resumed.stored hstored (fun hpausing => hpausing) ?_ ?_ ?_
      · intro hpausing
        cases hpausing
      · exact fun hne => absurd (h.not_revoked hdisk hunrevoked) hne
      · exact h.read current hdisk
    exact hresumed
  | resumedUnanswered hdisk hunread _ =>
    have hread := h.read _ hdisk
    rw [hunread] at hread
    cases hread
  | switched store => exact h.switched store hok
  | restored store hrefreshed =>
    have hreloaded := (h.switched store hok).reloaded hrefreshed
    exact hreloaded.of_eq rfl rfl rfl rfl rfl rfl (fun _ hr => hr) fun _ hc => hc
  | reloaded hrefreshed => exact h.reloaded hrefreshed
  | reopened =>
    have hstands : ∀ revoked : Revoked, (if revoked = .no then Revoked.no else .reopened) ≠ .no →
        revoked ≠ .no := by
      rintro revoked hne rfl
      exact hne rfl
    refine ⟨⟨?_, h.shows.pausedMode, fun _ => rfl, fun hne => h.shows.revokedMode (hstands _ hne),
      ?_⟩, ?_, h.checked, h.serving, h.underPause, h.underRevocation⟩
    · rintro - _ ⟨⟩
    · intro hstanding
      dsimp only at hstanding
      split at hstanding
      · cases hstanding
      · cases hstanding
    · rintro _ ⟨⟩
  | @restarted io opened broker hstart =>
    have hbroker := start_ok hstart
    subst hbroker
    refine ⟨⟨h.shows.pausedDisk, h.shows.pausedDisk, h.shows.revokedDisk, h.shows.revokedDisk,
      h.shows.standing⟩, h.read, ?_, ?_, ?_, ?_⟩
    · rintro _ ⟨⟩
    · intro hserving
      cases hserving
    · rintro _ ⟨⟩
    · rintro _ ⟨⟩
  | refreshed hrefreshed =>
    exact h.refreshed hrefreshed rfl (fun hpausing => hpausing) h.shows h.read
  | received hserving =>
    obtain ⟨e, hlive, hpaused⟩ := h.serving hserving
    have hno : s.revoked = .no := by
      by_contra hne
      rw [h.shows.revokedMode hne] at hlive
      cases hlive
    refine ⟨h.shows, h.read, h.checked, h.serving, ?_, ?_⟩
    · intro r hr hunder
      rcases List.mem_append.mp hr with hold | hnew
      · exact h.underPause r hold hunder
      · rw [List.mem_singleton.mp hnew] at hunder ⊢
        exact ⟨hunder, hpaused.trans (h.shows.pausedMode hunder e hlive), rfl⟩
    · intro r hr
      rcases List.mem_append.mp hr with hold | hnew
      · exact h.underRevocation r hold
      · rw [List.mem_singleton.mp hnew]
        simp [hno]
  | @taken request given hmem hgiven =>
    refine ⟨h.shows, h.read, h.checked, h.serving, ?_, ?_⟩
    · intro r hr hunder
      rcases List.mem_append.mp hr with hold | hnew
      · exact h.underPause r (List.mem_of_mem_erase hold) hunder
      · -- a paused server gives no issuer
        rw [List.mem_singleton.mp hnew] at hunder
        have hpaused := (h.underPause request hmem hunder).2.1
        rw [given_of_paused hpaused] at hgiven
        cases hgiven
    · intro r hr
      rcases List.mem_append.mp hr with hold | hnew
      · exact h.underRevocation r (List.mem_of_mem_erase hold)
      · rw [List.mem_singleton.mp hnew]
        exact h.underRevocation request hmem
  | signed => exact h.of_eq rfl rfl rfl rfl rfl rfl (fun _ hr => hr) fun _ hc => hc

/-! ## Every run -/

theorem stoppedInv_of_init (hs : (running outside config rules signing parseSerial).init s) :
    StoppedInv outside s := by
  obtain ⟨hdisk, hmode, -, hserving, hrequests, henrolling, -, -, -, hpausing, hrevoked⟩ := hs
  refine ⟨⟨?_, ?_, ?_, ?_, ?_⟩, ?_, ?_, ?_, ?_, ?_⟩
  · simp [hpausing]
  · simp [hpausing]
  · simp [hrevoked]
  · simp [hrevoked]
  · simp [hrevoked]
  · simp [hdisk]
  · simp [henrolling]
  · simp [hserving]
  · simp [hrequests]
  · simp [hrequests]

theorem StoppedInv.stays (h : StoppedInv outside s) : StaysStopped s := by
  rintro request hrequest (hpause | hrevocation)
  · exact (h.underPause request hrequest hpause).2.2
  · rw [h.underRevocation request hrequest] at hrevocation
    cases hrevocation

/-- **A broker that was stopped stays stopped**, in every run that restores no enrolment
against a pause and finds on disk what it has in memory. -/
theorem staysStopped_of_keeps (outside : Outside) (config : Config) (rules : NameRules)
    (signing : Signing) (parseSerial : String → Except String Nat) {s : Running}
    (hs : ((running outside config rules signing parseSerial).system.restrict
      (KeepsStopped outside config)).Reachable s) :
    StaysStopped s := by
  have hinv : ((running outside config rules signing parseSerial).system.restrict
      (KeepsStopped outside config)).Invariant (StoppedInv outside) := by
    refine ⟨?_, ?_⟩
    · intro s hinit
      exact stoppedInv_of_init
        (show (running outside config rules signing parseSerial).init s from hinit)
    · rintro s t l h ⟨hok, hnext⟩
      exact h.step hok (goes_of_next hnext)
  exact (hinv.reachable hs).stays

/-- A paused broker is restored to a paused enrolment, and asked to finalise an order. -/
theorem staysStopped_restored :
    ∃ s : Running, (s.requests.map fun r => (r.underPause, r.taken.isSome)) = [(true, false)] ∧
      StaysStopped s := by
  obtain ⟨s, hs, hview⟩ := Machine.exists_reachable_of_exec_guard
    (fun (s : Running) (l : RunningStep)
      (h : decide (KeepsStopped plainOutside plainConfig s l) = true) => of_decide_eq_true h)
    (M := running plainOutside plainConfig plainRules plainSigning decimalSerial) freshBroker_init
    (enrolRun ++ [.pause true (.fine plainConfig),
      .restore (backupOf { plainEnrolled with paused := true }) [enrolmentSection]
        (.fine plainConfig),
      .receive 1 [] [2]])
    (fun s => (s.requests.map fun r => (r.underPause, r.taken.isSome)) = [(true, false)])
    (by decide +kernel)
  exact ⟨s, of_decide_eq_true hview, staysStopped_of_keeps plainOutside plainConfig plainRules
    plainSigning decimalSerial hs⟩

/-- It is restored to an enrolment from before the pause, and issues again. -/
theorem resumed_by_restore :
    ¬ ∀ s, (running plainOutside plainConfig plainRules plainSigning
        decimalSerial).system.Reachable s → StaysStopped s := by
  intro hclaim
  obtain ⟨s, hs, hview⟩ := Machine.exists_reachable_of_exec
    (M := running plainOutside plainConfig plainRules plainSigning decimalSerial) freshBroker_init
    (enrolRun ++ [.pause true (.fine plainConfig),
      .restore (backupOf plainEnrolled) [enrolmentSection] (.fine plainConfig),
      .receive 1 [] [2], .take ⟨1, [], [2], none, true, false⟩])
    (fun s => s.requests.any fun r => r.underPause && r.taken.isSome)
    (by decide +kernel)
  obtain ⟨request, hrequest, hview⟩ := List.any_eq_true.mp hview
  obtain ⟨hunder, htaken⟩ := Bool.and_eq_true_iff.mp hview
  rw [hclaim s hs request hrequest (Or.inl hunder)] at htaken
  cases htaken

end Opca.Acme.Broker
