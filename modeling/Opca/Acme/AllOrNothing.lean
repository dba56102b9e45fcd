/-
  Acme/AllOrNothing.lean --- when a restore that fails leaves the broker as it was, and
  when the enrolment it passes is one the broker starts with (`backup.rs`, `broker.rs`).
-/
import Opca.Acme.Backup

set_option autoImplicit false

namespace Opca.Acme.Broker

open Opca.Foundation

variable (outside : Outside) (config : Config)

/-! ## What a restore promises -/

/-- What a restore may change is as it was. -/
structure Untouched (b t : Broker) : Prop where
  enrolment : t.enrolment = b.enrolment
  store : t.acme.store = b.acme.store
  mode : t.mode = b.mode

/-- A broker with the enrolment on disk takes it up, at a reload and at a start, while
nothing outside fails. -/
def Accepted (enrolled : Enrolled) : Prop :=
  ∀ b : Broker, b.enrolment = some enrolled →
    (reloadLocked outside config b (.fine config)).2 = .ok () ∧
      (start outside config b (.fine config) (.ok ())).isOk = true

structure AllOrNothing (b : Broker) (blob : Blob) (chosen : List String) (io : RestoreIo) :
    Prop where
  untouched : ∀ e, (restore outside config b blob chosen io).2 = .error e →
    Untouched b (restore outside config b blob chosen io).1
  accepted : ∀ enrolled, (checkCapture outside config b blob io).enrolment = some enrolled →
    Accepted outside config enrolled

/-! ## When it keeps that -/

/-- The operator's pin parses, and clients can be made to chain to the last certificate
of the chain. -/
def TakenByTls (enrolled : Enrolled) : Prop :=
  ∃ root pin, rootOf outside enrolled.chainPem = .ok root ∧
    outside.parsePin enrolled.operatorPin = .ok pin ∧ outside.clientAuth root pin = .ok ()

/-- The restore gets to the switch. -/
structure Begins (b : Broker) (blob : Blob) (io : RestoreIo) : Prop where
  lock : io.lock = .ok ()
  unblocked : (checkCapture outside config b blob io).inspection.blocked = []
  before : io.before = .ok ()

/-- The restore writes another enrolment in a transaction that then does not commit. -/
def FailsToCommit (b : Broker) (checked : CheckedCapture) (chosen : List String)
    (io : RestoreIo) : Prop :=
  Uncommitted b (checked.db chosen) (checked.toWrite chosen) io ∧
    (checked.toWrite chosen).or b.enrolment ≠ b.enrolment

/-- The restore switches over an enrolment or a database that is not there already. -/
def SwitchesOver (b : Broker) (checked : CheckedCapture) (chosen : List String)
    (io : RestoreIo) : Prop :=
  ∃ store, Commits b (checked.db chosen) (checked.toWrite chosen) io store ∧
    ((checked.toWrite chosen).or b.enrolment ≠ b.enrolment ∨ store ≠ b.acme.store)

/-- Nothing fails of what comes after the switch, and TLS takes each enrolment that is
passed. -/
structure FailsEarly (b : Broker) (blob : Blob) (chosen : List String) (io : RestoreIo) :
    Prop where
  taken : ∀ enrolled, (checkCapture outside config b blob io).enrolment = some enrolled →
    TakenByTls outside enrolled
  putBack : Begins outside config b blob io →
    FailsToCommit b (checkCapture outside config b blob io) chosen io → io.undo = .ok ()
  takenUp : Begins outside config b blob io →
    SwitchesOver b (checkCapture outside config b blob io) chosen io →
    discard (checkCapture outside config b blob io) io = .ok () ∧
      (loaded outside config
        { b with enrolment :=
          ((checkCapture outside config b blob io).toWrite chosen).or b.enrolment }
        io.reload).isOk = true

variable {outside config} {b t : Broker} {blob : Blob} {chosen : List String} {io : RestoreIo}

/-! ## Starting with what was passed -/

theorem isOk_iff_exists {ε α : Type} {x : Except ε α} : x.isOk = true ↔ ∃ a, x = .ok a := by
  constructor
  · exact exists_of_isOk
  · rintro ⟨a, rfl⟩
    rfl

theorem loaded_fine {enrolled : Enrolled} (hb : b.enrolment = some enrolled) :
    (loaded outside config b (.fine config)).isOk = true ↔ TakenByTls outside enrolled := by
  have hload : load b (.fine config) = .ok (.enrolled enrolled) := by
    unfold load
    rw [hb]
    rfl
  rw [isOk_iff_exists]
  constructor
  · rintro ⟨mode, h⟩
    obtain ⟨⟨⟩, -, h⟩ := bind_eq_ok.mp h
    obtain ⟨read, hread, h⟩ := bind_eq_ok.mp h
    rw [hload] at hread
    cases hread
    obtain ⟨⟨⟩, htls, -⟩ := bind_eq_ok.mp h
    obtain ⟨root, hroot, htls⟩ := bind_eq_ok.mp htls
    obtain ⟨pin, hpin, htls⟩ := bind_eq_ok.mp htls
    obtain ⟨pinned, hpinned, htls⟩ := bind_eq_ok.mp htls
    cases hpinned
    rw [if_neg (not_not.mpr rfl)] at htls
    exact ⟨root, pin, hroot, hpin, htls⟩
  · rintro ⟨root, pin, hroot, hpin, hauth⟩
    refine ⟨.enrolled enrolled, ?_⟩
    have htls : tlsConfig outside config (.fine config) (.enrolled enrolled) = .ok () := by
      refine bind_eq_ok.mpr ⟨root, hroot, bind_eq_ok.mpr ⟨pin, hpin, ?_⟩⟩
      refine bind_eq_ok.mpr ⟨config.pin, rfl, ?_⟩
      rw [if_neg (not_not.mpr rfl)]
      exact hauth
    exact bind_eq_ok.mpr ⟨(), rfl, bind_eq_ok.mpr ⟨_, hload, bind_eq_ok.mpr ⟨(), htls, rfl⟩⟩⟩

theorem reloadLocked_ok {io : Io} :
    (reloadLocked outside config b io).2 = .ok () ↔ (loaded outside config b io).isOk = true := by
  unfold reloadLocked
  cases loaded outside config b io with
  | error e => simp [Except.isOk, Except.toBool]
  | ok mode => simp [Except.isOk, Except.toBool]

theorem reloadLocked_error {io : Io} {e : String}
    (h : reloadLocked outside config b io = (t, .error e)) : t = b := by
  unfold reloadLocked at h
  split at h
  next =>
    cases h
    rfl
  next => cases h

theorem start_isOk {io : Io} :
    (start outside config b io (.ok ())).isOk = (loaded outside config b io).isOk := by
  unfold start
  cases loaded outside config b io with
  | error e => rfl
  | ok mode => rfl

/-- What TLS takes, and no more, a broker starts with. -/
theorem accepted_iff {enrolled : Enrolled} :
    Accepted outside config enrolled ↔ TakenByTls outside enrolled := by
  constructor
  · intro h
    let b : Broker :=
      ⟨some enrolled, "", ⟨.empty, [], [], [], []⟩, "", .enrolling, false, none, false⟩
    have hloaded := reloadLocked_ok.mp (h b rfl).1
    exact (loaded_fine rfl).mp hloaded
  · intro h b hb
    have hloaded : (loaded outside config b (.fine config)).isOk = true := (loaded_fine hb).mpr h
    exact ⟨reloadLocked_ok.mpr hloaded, start_isOk.trans hloaded⟩

/-! ## A restore that fails -/

theorem Untouched.refl : Untouched b b := ⟨rfl, rfl, rfl⟩

theorem untouched_switched {enrolment : Option Enrolled} {store : Store}
    (h : Untouched b (switched b enrolment store)) :
    enrolment.or b.enrolment = b.enrolment ∧ store = b.acme.store :=
  ⟨h.enrolment, h.store⟩

theorem Begins.apply_of_commits (h : Begins outside config b blob io) {store : Store}
    (hcommits : Commits b ((checkCapture outside config b blob io).db chosen)
      ((checkCapture outside config b blob io).toWrite chosen) io store) :
    ∃ applied, apply b (checkCapture outside config b blob io) chosen io =
      (switched b ((checkCapture outside config b blob io).toWrite chosen) store,
        .ok applied) := by
  unfold apply
  rw [if_neg (not_not.mpr h.unblocked), h.before]
  dsimp only
  rw [swap_of_commits hcommits]
  cases ((checkCapture outside config b blob io).toWrite chosen).isSome with
  | false => exact ⟨_, rfl⟩
  | true => exact ⟨_, rfl⟩

theorem Begins.apply_of_uncommitted (h : Begins outside config b blob io)
    (huncommitted : Uncommitted b ((checkCapture outside config b blob io).db chosen)
      ((checkCapture outside config b blob io).toWrite chosen) io)
    {why : String} (hundo : io.undo = .error why) :
    ∃ e, apply b (checkCapture outside config b blob io) chosen io =
      (switched b ((checkCapture outside config b blob io).toWrite chosen) b.acme.store,
        .error e) := by
  obtain ⟨e, hswap⟩ := swap_of_uncommitted huncommitted
  refine ⟨internal why, ?_⟩
  unfold apply
  rw [if_neg (not_not.mpr h.unblocked), h.before]
  dsimp only
  rw [hswap]
  dsimp only
  rw [hundo]

/-- An error from `apply` is one from the restore. -/
theorem restore_of_apply_error (hlock : io.lock = .ok ()) {e : ErrorBody}
    (happly : apply b (checkCapture outside config b blob io) chosen io = (t, .error e)) :
    ∃ e', restore outside config b blob chosen io = (t, .error e') := by
  unfold restore
  rw [hlock]
  dsimp only
  rw [happly]
  cases discard (checkCapture outside config b blob io) io with
  | error why => exact ⟨_, rfl⟩
  | ok _ => exact ⟨_, rfl⟩

/-- So is one from the removal of the staged copy. -/
theorem restore_of_discard_error (hlock : io.lock = .ok ())
    {applied : Except ErrorBody (List String)}
    (happly : apply b (checkCapture outside config b blob io) chosen io = (t, applied))
    {why : String} (hdiscard : discard (checkCapture outside config b blob io) io = .error why) :
    restore outside config b blob chosen io = (t, .error (internal why)) := by
  unfold restore
  rw [hlock]
  dsimp only
  rw [happly, hdiscard]

/-- And one from the reload. -/
theorem restore_of_reload_error (hlock : io.lock = .ok ()) {applied : List String}
    (happly : apply b (checkCapture outside config b blob io) chosen io = (t, .ok applied))
    (hdiscard : discard (checkCapture outside config b blob io) io = .ok ())
    (hreload : (loaded outside config t io.reload).isOk = false) :
    ∃ e, restore outside config b blob chosen io = (t, .error e) := by
  cases hloaded : loaded outside config t io.reload with
  | ok mode =>
    rw [hloaded] at hreload
    cases hreload
  | error why =>
    refine ⟨internal why, ?_⟩
    unfold restore
    rw [hlock]
    dsimp only
    rw [happly, hdiscard]
    dsimp only
    unfold reloadLocked
    rw [hloaded]

/-- A reload reads only what is on disk. -/
theorem loaded_switched {enrolment : Option Enrolled} (store : Store) {io : Io} :
    loaded outside config (switched b enrolment store) io =
      loaded outside config { b with enrolment := enrolment.or b.enrolment } io := rfl

theorem failsEarly_of_allOrNothing (h : AllOrNothing outside config b blob chosen io) :
    FailsEarly outside config b blob chosen io := by
  have hkept : ∀ e store, restore outside config b blob chosen io =
      (switched b ((checkCapture outside config b blob io).toWrite chosen) store, .error e) →
      ((checkCapture outside config b blob io).toWrite chosen).or b.enrolment = b.enrolment ∧
        store = b.acme.store := by
    intro e store hrestore
    have huntouched := h.untouched e (by rw [hrestore])
    rw [hrestore] at huntouched
    exact untouched_switched huntouched
  refine ⟨?_, ?_, ?_⟩
  · intro enrolled henrolled
    exact accepted_iff.mp (h.accepted enrolled henrolled)
  · rintro hbegins ⟨huncommitted, hother⟩
    cases hundo : io.undo with
    | ok _ => rfl
    | error why =>
      obtain ⟨e, happly⟩ := hbegins.apply_of_uncommitted huncommitted hundo
      obtain ⟨e', hrestore⟩ := restore_of_apply_error hbegins.lock happly
      exact absurd (hkept e' _ hrestore).1 hother
  · rintro hbegins ⟨store, hcommits, hother⟩
    obtain ⟨applied, happly⟩ := hbegins.apply_of_commits hcommits
    have hfails : ∀ e, restore outside config b blob chosen io ≠
        (switched b ((checkCapture outside config b blob io).toWrite chosen) store,
          .error e) := by
      intro e hrestore
      obtain ⟨henrolment, hstore⟩ := hkept e store hrestore
      rcases hother with hother | hother
      · exact hother henrolment
      · exact hother hstore
    cases hdiscard : discard (checkCapture outside config b blob io) io with
    | error why =>
      exact absurd (restore_of_discard_error hbegins.lock happly hdiscard) (hfails _)
    | ok _ =>
      refine ⟨rfl, ?_⟩
      rw [← loaded_switched store]
      by_contra hreload
      obtain ⟨e, hrestore⟩ := restore_of_reload_error hbegins.lock happly hdiscard
        (Bool.eq_false_iff.mpr hreload)
      exact hfails e hrestore

/-- Where a restore that fails leaves the broker. -/
inductive Fails (outside : Outside) (config : Config) (b : Broker) (blob : Blob)
    (chosen : List String) (io : RestoreIo) : Broker → Prop
  | unchanged : Fails outside config b blob chosen io b
  | stranded : Begins outside config b blob io →
      Uncommitted b ((checkCapture outside config b blob io).db chosen)
        ((checkCapture outside config b blob io).toWrite chosen) io → io.undo.isOk = false →
      Fails outside config b blob chosen io
        (switched b ((checkCapture outside config b blob io).toWrite chosen) b.acme.store)
  | late (store : Store) : Begins outside config b blob io →
      Commits b ((checkCapture outside config b blob io).db chosen)
        ((checkCapture outside config b blob io).toWrite chosen) io store →
      ¬ (discard (checkCapture outside config b blob io) io = .ok () ∧
        (loaded outside config
          (switched b ((checkCapture outside config b blob io).toWrite chosen) store)
          io.reload).isOk = true) →
      Fails outside config b blob chosen io
        (switched b ((checkCapture outside config b blob io).toWrite chosen) store)

theorem fails_of_restore {e : ErrorBody}
    (h : restore outside config b blob chosen io = (t, .error e)) :
    Fails outside config b blob chosen io t := by
  unfold restore at h
  split at h
  next =>
    cases h
    exact .unchanged
  next hlock =>
    dsimp only at h
    split at h
    next happly hdiscard =>
      cases h
      cases applies_apply happly with
      | refused _ => exact .unchanged
      | stranded _ hblocked hbefore huncommitted hundo =>
        exact .stranded ⟨hlock, hblocked, hbefore⟩ huncommitted hundo
      | applied store hblocked hbefore hcommits =>
        refine .late store ⟨hlock, hblocked, hbefore⟩ hcommits ?_
        rw [hdiscard]
        rintro ⟨hok, -⟩
        cases hok
    next happly _ =>
      cases h
      cases applies_apply happly with
      | refused _ => exact .unchanged
      | stranded _ hblocked hbefore huncommitted hundo =>
        exact .stranded ⟨hlock, hblocked, hbefore⟩ huncommitted hundo
    next happly _ =>
      cases applies_apply happly with
      | applied store hblocked hbefore hcommits =>
        split at h
        next hreload =>
          cases h
          rw [reloadLocked_error hreload]
          refine .late store ⟨hlock, hblocked, hbefore⟩ hcommits ?_
          rintro ⟨-, hloaded⟩
          rw [← reloadLocked_ok, hreload] at hloaded
          cases hloaded
        next => cases h

/-- **A restore is all or nothing**, and leaves a broker that starts, exactly when
nothing fails after the switch and TLS takes the enrolment that it passed. -/
theorem allOrNothing_iff (outside : Outside) (config : Config) (b : Broker) (blob : Blob)
    (chosen : List String) (io : RestoreIo) :
    AllOrNothing outside config b blob chosen io ↔ FailsEarly outside config b blob chosen io := by
  refine ⟨failsEarly_of_allOrNothing, fun h => ⟨?_, ?_⟩⟩
  · intro e hrestore
    generalize hr : restore outside config b blob chosen io = r at hrestore ⊢
    obtain ⟨t, result⟩ := r
    subst hrestore
    cases fails_of_restore hr with
    | unchanged => exact .refl
    | stranded hbegins huncommitted hundo =>
      by_cases hsame : ((checkCapture outside config b blob io).toWrite chosen).or b.enrolment =
          b.enrolment
      · exact ⟨hsame, rfl, rfl⟩
      · rw [h.putBack hbegins ⟨huncommitted, hsame⟩] at hundo
        cases hundo
    | late store hbegins hcommits hlate =>
      by_cases hsame : ((checkCapture outside config b blob io).toWrite chosen).or b.enrolment =
          b.enrolment ∧ store = b.acme.store
      · exact ⟨hsame.1, hsame.2, rfl⟩
      · exact absurd (h.takenUp hbegins ⟨store, hcommits, not_and_or.mp hsame⟩) hlate
  · intro enrolled henrolled
    exact accepted_iff.mpr (h.taken enrolled henrolled)

def plainBroker : Broker :=
  ⟨some plainEnrolled, "key", ⟨.empty, [], [], [], []⟩, "key", .enrolled plainEnrolled, false,
    none, false⟩

/-- A backup of its enrolment, with an operator pin that is none. -/
def pinless : Blob where
  tag := some (captureFormat, captureVersion)
  capture := some ⟨none, some (some { plainEnrolled with operatorPin := "operator" })⟩

/-- The backup passes every check, is switched over, and then refused by the reload: the
restore fails with the backup's enrolment on disk, which no start takes either. -/
theorem restored_unstartable :
    ¬ ∀ b blob chosen io, AllOrNothing plainOutside plainConfig b blob chosen io := by
  intro hclaim
  have h := hclaim plainBroker pinless [enrolmentSection] (.fine plainConfig)
  have hfailed : (restore plainOutside plainConfig plainBroker pinless [enrolmentSection]
      (.fine plainConfig)).2 = .error (internal "not a SHA-256") := by
    decide
  have hother : (restore plainOutside plainConfig plainBroker pinless [enrolmentSection]
      (.fine plainConfig)).1.enrolment ≠ plainBroker.enrolment := by
    decide
  exact hother (h.untouched _ hfailed).enrolment

end Opca.Acme.Broker
