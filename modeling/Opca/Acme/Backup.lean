/-
  Acme/Backup.lean --- a backup taken of the broker while it runs, checked against the
  broker it is to be restored to, and restored: `acme.db` and the enrolment switched
  over together, then taken up (`backup.rs`).
-/
import Opca.Acme.Broker
import Opca.Acme.Restore

set_option autoImplicit false

namespace Opca.Acme.Broker

open Opca.Foundation

/-! ## Captures -/

/-- The newest migration of `acme.db`. -/
def schema : Int := 3

def captureFormat : String := "opca-acme-broker"
def captureVersion : Nat := 1
def acmeSection : String := "acme"
def enrolmentSection : String := "enrolment"

structure AcmeSection where
  schema : Int
  /-- `acme.db`, if it is deflated base64url, and what opening it finds. -/
  db : Option (Except StoreError Store)

/-- The sections of a capture, each with what it parses as. -/
structure Capture where
  acme : Option (Option AcmeSection)
  enrolment : Option (Option Enrolled)

/-- What is sent to be restored. -/
structure Blob where
  /-- Its format and version. -/
  tag : Option (String × Nat)
  capture : Option Capture

/-- The format and version first, so a newer capture is refused as one. -/
def Capture.read (blob : Blob) : Except String Capture :=
  let notOurs := "it is not an opCA ACME broker capture"
  match blob.tag with
  | none => .error notOurs
  | some (format, version) =>
    if format ≠ captureFormat ∨ version = 0 then .error notOurs
    else if captureVersion < version then
      .error (s!"it is capture version {version}, newer than this broker's " ++
        s!"{captureVersion}: update the app first")
    else blob.capture.elim (.error "its sections did not parse") .ok

/-- A capture of what the broker holds. -/
def capture (b : Broker) : Blob where
  tag := some (captureFormat, captureVersion)
  capture := some {
    acme := some (some ⟨schema, some (.ok b.acme.store)⟩)
    enrolment := b.enrolment.map some }

/-- What an inspection of a capture answers. -/
structure Inspection where
  /-- How much there is of each section. -/
  contains : List (String × Nat)
  warnings : List String
  /-- The sections that cannot be restored, and why. -/
  blocked : List (String × String)
  deriving DecidableEq, Repr

/-- A capture checked whole: its `acme.db` staged, and the enrolment to write. -/
structure CheckedCapture where
  inspection : Inspection
  acme : Option Store
  enrolment : Option Enrolled

/-- What the files and the database answer during a restore. -/
structure RestoreIo where
  lock : Except String Unit
  /-- The copy of `acme.db` is staged as `restore.db`. -/
  stage : Except String Unit
  /-- `enrolment.json` is read, to be checked against. -/
  load : Except String Unit
  /-- It is read again, to be put back should the restore fail. -/
  before : Except String Unit
  /-- The transaction begins, with the copy attached. -/
  begin : Except StoreError Unit
  /-- `enrolment.json` is written. -/
  write : Except String Unit
  commit : Except StoreError Unit
  /-- `enrolment.json` is put back. -/
  undo : Except String Unit
  /-- `restore.db` is removed. -/
  discard : Except String Unit
  reload : Io

/-- Nothing fails. -/
def RestoreIo.fine (config : Config) : RestoreIo :=
  ⟨.ok (), .ok (), .ok (), .ok (), .ok (), .ok (), .ok (), .ok (), .ok (), .fine config⟩

structure RestoreReport where
  /-- The sections restored. -/
  applied : List String
  warnings : List String
  deriving DecidableEq, Repr

section Restore

variable (outside : Outside) (config : Config)

/-! ## Checking -/

/-- `acme.db` decoded into the state directory and checked, and its certificates
counted. -/
def stageAcme (section_ : Option AcmeSection) (io : RestoreIo) : Except String (Store × Nat) :=
  match section_ with
  | none => .error "its section did not parse"
  | some acme =>
    if schema < acme.schema then
      .error (s!"its acme.db is at schema {acme.schema}, newer than this broker's {schema}: " ++
        "update the app first")
    else match acme.db with
      | none => .error "its acme.db is not deflated base64url"
      | some opened =>
        let counted : Except String (Store × Nat) := do
          io.stage.mapError fun e => s!"it could not be staged: {e}"
          let copy ← opened.mapError StoreError.text
          let certificates ← copy.restorableBeside.mapError StoreError.text
          .ok (copy, certificates)
        counted.mapError fun why => s!"its acme.db cannot be restored: {why}"

/-- The enrolment, if its chain certifies the key held here, and the warnings; on a
broker not yet enrolled, one for another key is left out with a warning. -/
def enrolmentToRestore (b : Broker) (enrolment : Option Enrolled) (io : RestoreIo) :
    Except String (Option Enrolled × List String) :=
  match enrolment with
  | none => .error "its section did not parse"
  | some restored =>
    match subordinateOf outside restored with
    | none => .error "its chain did not parse"
    | some subordinate =>
      match io.load with
      | .error e => .error e
      | .ok () =>
        if subordinate.spki ≠ b.subordinate then
          if b.enrolment.isSome then .error
            "it is for another subordinate key than the one this broker is enrolled with"
          else .ok (none, ["The backup's enrolment is for another subordinate key than this " ++
            "broker holds, so it is not restored: enrol the broker with opCA again, and " ++
            "revoke the old subordinate, serial " ++ Serial.decimal subordinate.serial ++ ", there."])
        else if b.enrolment.any (·.revoked) && !restored.revoked then
          .error "this broker's subordinate is revoked, which a restore does not undo"
        else .ok (some restored, if restored.apiPin ≠ config.pin then
          ["opCA pinned another API key than this broker serves, so it will refuse the " ++
            "broker until it is enrolled again."] else [])

/-- The `acme` section checked. -/
def checkAcme (capture : Capture) (io : RestoreIo) : CheckedCapture :=
  match capture.acme with
  | none => ⟨⟨[], [], []⟩, none, none⟩
  | some acme =>
    match stageAcme acme io with
    | .ok (db, certificates) => ⟨⟨[(acmeSection, certificates)], [], []⟩, some db, none⟩
    | .error why => ⟨⟨[], [], [(acmeSection, why)]⟩, none, none⟩

/-- The `enrolment` section checked, after the other. -/
def checkEnrolment (b : Broker) (capture : Capture) (io : RestoreIo)
    (checked : CheckedCapture) : CheckedCapture :=
  let inspection := checked.inspection
  match capture.enrolment with
  | some enrolment =>
    let contains := inspection.contains ++ [(enrolmentSection, 1)]
    match enrolmentToRestore outside config b enrolment io with
    | .ok (enrolment, warnings) =>
      { checked with
        inspection := { inspection with contains, warnings := inspection.warnings ++ warnings }
        enrolment }
    | .error why =>
      { checked with
        inspection := { inspection with
          contains, blocked := inspection.blocked ++ [(enrolmentSection, why)] } }
  | none =>
    match b.mode with
    | .enrolled _ =>
      { checked with
        inspection := { inspection with
          warnings := inspection.warnings ++ ["The backup was taken before enrolment, so " ++
            "this broker's enrolment is kept."] } }
    | .enrolling => checked

def checkCapture (b : Broker) (blob : Blob) (io : RestoreIo) : CheckedCapture :=
  match Capture.read blob with
  | .error why =>
    ⟨⟨[], [], [(acmeSection, why), (enrolmentSection, why)]⟩, none, none⟩
  | .ok capture => checkEnrolment outside config b capture io (checkAcme capture io)

/-! ## Restoring -/

/-- `before_commit`: the enrolment, if there is one to restore, takes the place of the
one on disk; and whether it was written. -/
def writeEnrolment (b : Broker) (enrolment : Option Enrolled) (io : RestoreIo) :
    Except String (Broker × Bool) :=
  match enrolment with
  | none => .ok (b, false)
  | some enrolled => io.write.map fun () => ({ b with enrolment := some enrolled }, true)

/-- Every row of `acme.db` replaced by those of the copy, in one transaction that the
enrolment is written in; what is on disk then, whether the enrolment was written, and
the error. -/
def replaceFrom (b : Broker) (copy : Store) (enrolment : Option Enrolled) (io : RestoreIo) :
    Broker × Bool × Except String Unit :=
  match io.begin with
  | .error e => (b, false, .error e.text)
  | .ok () =>
    match b.acme.store.replaced copy with
    | .error e => (b, false, .error e.text)
    | .ok store =>
      match writeEnrolment b enrolment io with
      | .error e => (b, false, .error e)
      | .ok (b, written) =>
        match io.commit with
        | .error e => (b, written, .error e.text)
        | .ok () => ({ b with acme := { b.acme with store } }, written, .ok ())

/-- What is to be restored, switched over. -/
def swap (b : Broker) (db : Option Store) (enrolment : Option Enrolled) (io : RestoreIo) :
    Broker × Bool × Except String Unit :=
  match db with
  | some copy => replaceFrom b copy enrolment io
  | none =>
    match writeEnrolment b enrolment io with
    | .error e => (b, false, .error e)
    | .ok (b, written) => (b, written, .ok ())

/-- The checked sections that were chosen. -/
def CheckedCapture.db (checked : CheckedCapture) (chosen : List String) : Option Store :=
  checked.acme.filter fun _ => acmeSection ∈ chosen

def CheckedCapture.toWrite (checked : CheckedCapture) (chosen : List String) :
    Option Enrolled :=
  checked.enrolment.filter fun _ => enrolmentSection ∈ chosen

/-- The sections that were restored. -/
def restoredSections (db : Option Store) (enrolment : Option Enrolled) : List String :=
  (db.map fun _ => acmeSection).toList ++ (enrolment.map fun _ => enrolmentSection).toList

def apply (b : Broker) (checked : CheckedCapture) (chosen : List String) (io : RestoreIo) :
    Broker × Except ErrorBody (List String) :=
  if checked.inspection.blocked ≠ [] then
    let why := checked.inspection.blocked.map fun (section_, why) => s!"{section_}: {why}"
    (b, .error (badRequest ("not restored: " ++ "; ".intercalate why)))
  else match io.before with
    | .error e => (b, .error (internal e))
    | .ok () =>
      let db := checked.db chosen
      let enrolment := checked.toWrite chosen
      match swap b db enrolment io with
      | (swapped, _, .ok ()) => (swapped, .ok (restoredSections db enrolment))
      | (swapped, false, .error e) => (swapped, .error (internal e))
      | (swapped, true, .error e) =>
        match io.undo with
        | .error undo => (swapped, .error (internal undo))
        | .ok () => ({ swapped with enrolment := b.enrolment }, .error (internal e))

/-- The staged copy is removed. -/
def discard (checked : CheckedCapture) (io : RestoreIo) : Except String Unit :=
  checked.acme.elim (.ok ()) fun _ => io.discard

/-- Under the state lock throughout. -/
def restore (b : Broker) (blob : Blob) (chosen : List String) (io : RestoreIo) :
    Broker × Except ErrorBody RestoreReport :=
  match io.lock with
  | .error e => (b, .error (internal e))
  | .ok () =>
    let checked := checkCapture outside config b blob io
    match apply b checked chosen io, discard checked io with
    | (b, _), .error e => (b, .error (internal e))
    | (b, .error e), .ok () => (b, .error e)
    | (b, .ok applied), .ok () =>
      match reloadLocked outside config b io.reload with
      | (b, .error e) => (b, .error (internal e))
      | (b, .ok ()) => (b, .ok ⟨applied, checked.inspection.warnings⟩)

/-! ## What a restore leaves -/

/-- The store once `db` is switched over. -/
def switchedStore (b : Broker) (db : Option Store) : Except StoreError Store :=
  db.elim (.ok b.acme.store) b.acme.store.replaced

/-- The broker once all that is to be restored is on disk. -/
def switched (b : Broker) (enrolment : Option Enrolled) (store : Store) : Broker :=
  { b with enrolment := enrolment.or b.enrolment, acme := { b.acme with store } }

/-- Nothing fails up to the commit, which leaves `store`. -/
structure Commits (b : Broker) (db : Option Store) (enrolment : Option Enrolled)
    (io : RestoreIo) (store : Store) : Prop where
  begin : db.isSome = true → io.begin = .ok ()
  replaced : switchedStore b db = .ok store
  write : enrolment.isSome = true → io.write = .ok ()
  commit : db.isSome = true → io.commit = .ok ()

/-- The enrolment is written in a transaction that then does not commit. -/
structure Uncommitted (b : Broker) (db : Option Store) (enrolment : Option Enrolled)
    (io : RestoreIo) : Prop where
  staged : db.isSome = true
  written : enrolment.isSome = true
  begin : io.begin = .ok ()
  replaced : (switchedStore b db).isOk = true
  write : io.write = .ok ()
  commit : io.commit.isOk = false

/-- What `apply` can come to. -/
inductive Applies (b : Broker) (checked : CheckedCapture) (chosen : List String)
    (io : RestoreIo) : Broker → Except ErrorBody (List String) → Prop
  | refused (e : ErrorBody) : Applies b checked chosen io b (.error e)
  | stranded (e : ErrorBody) : checked.inspection.blocked = [] → io.before = .ok () →
      Uncommitted b (checked.db chosen) (checked.toWrite chosen) io → io.undo.isOk = false →
      Applies b checked chosen io (switched b (checked.toWrite chosen) b.acme.store) (.error e)
  | applied (store : Store) : checked.inspection.blocked = [] → io.before = .ok () →
      Commits b (checked.db chosen) (checked.toWrite chosen) io store →
      Applies b checked chosen io (switched b (checked.toWrite chosen) store)
        (.ok (restoredSections (checked.db chosen) (checked.toWrite chosen)))

variable {outside config} {b t : Broker} {db : Option Store} {enrolment : Option Enrolled}
  {io : RestoreIo} {written : Bool}

theorem writeEnrolment_of_ok (h : enrolment.isSome = true → io.write = .ok ()) :
    writeEnrolment b enrolment io =
      .ok ({ b with enrolment := enrolment.or b.enrolment }, enrolment.isSome) := by
  cases enrolment with
  | none => rfl
  | some enrolled =>
    unfold writeEnrolment
    rw [h rfl]
    rfl

theorem writeEnrolment_ok (h : writeEnrolment b enrolment io = .ok (t, written)) :
    (enrolment.isSome = true → io.write = .ok ()) ∧
      t = { b with enrolment := enrolment.or b.enrolment } ∧ written = enrolment.isSome := by
  have hwrite : enrolment.isSome = true → io.write = .ok () := by
    intro hsome
    obtain ⟨enrolled, rfl⟩ := Option.isSome_iff_exists.mp hsome
    obtain ⟨⟨⟩, hok, -⟩ := map_eq_ok.mp h
    exact hok
  rw [writeEnrolment_of_ok hwrite] at h
  cases h
  exact ⟨hwrite, rfl, rfl⟩

theorem swap_of_commits {store : Store} (h : Commits b db enrolment io store) :
    swap b db enrolment io = (switched b enrolment store, enrolment.isSome, .ok ()) := by
  have hreplaced := h.replaced
  cases db with
  | none =>
    cases hreplaced
    simp only [swap, writeEnrolment_of_ok h.write]
    rfl
  | some copy =>
    simp only [switchedStore, Option.elim_some] at hreplaced
    simp only [swap, replaceFrom, h.begin rfl, h.commit rfl, hreplaced,
      writeEnrolment_of_ok h.write]
    rfl

theorem swap_of_uncommitted (h : Uncommitted b db enrolment io) :
    ∃ e, swap b db enrolment io =
      (switched b enrolment b.acme.store, true, .error e) := by
  obtain ⟨copy, rfl⟩ := Option.isSome_iff_exists.mp h.staged
  obtain ⟨store, hreplaced⟩ := exists_of_isOk h.replaced
  simp only [switchedStore, Option.elim_some] at hreplaced
  cases hcommit : io.commit with
  | ok u =>
    have hfailed := h.commit
    rw [hcommit] at hfailed
    cases hfailed
  | error e =>
    refine ⟨e.text, ?_⟩
    simp only [swap, replaceFrom, h.begin, hreplaced, writeEnrolment_of_ok fun _ => h.write,
      hcommit, h.written]
    rfl

theorem swap_ok (h : swap b db enrolment io = (t, written, .ok ())) :
    ∃ store, Commits b db enrolment io store ∧ t = switched b enrolment store := by
  cases db with
  | none =>
    simp only [swap] at h
    split at h
    next => cases h
    next u w hwrite =>
      cases h
      obtain ⟨hok, rfl, -⟩ := writeEnrolment_ok hwrite
      refine ⟨b.acme.store, ⟨?_, rfl, hok, ?_⟩, rfl⟩
      · intro hsome
        cases hsome
      · intro hsome
        cases hsome
  | some copy =>
    simp only [swap, replaceFrom] at h
    split at h
    next => cases h
    next hbegin =>
      split at h
      next => cases h
      next store hreplaced =>
        split at h
        next => cases h
        next u w hwrite =>
          split at h
          next => cases h
          next hcommit =>
            cases h
            obtain ⟨hok, rfl, -⟩ := writeEnrolment_ok hwrite
            exact ⟨store, ⟨fun _ => hbegin, hreplaced, hok, fun _ => hcommit⟩, rfl⟩

/-- A switch that fails leaves all as it was, except that a transaction that does not
commit leaves the enrolment that was written in it. -/
theorem swap_error {e : String} (h : swap b db enrolment io = (t, written, .error e)) :
    (written = false ∧ t = b) ∨
      (written = true ∧ Uncommitted b db enrolment io ∧ t = switched b enrolment b.acme.store) := by
  cases db with
  | none =>
    simp only [swap] at h
    split at h
    next =>
      cases h
      exact Or.inl ⟨rfl, rfl⟩
    next => cases h
  | some copy =>
    simp only [swap, replaceFrom] at h
    split at h
    next =>
      cases h
      exact Or.inl ⟨rfl, rfl⟩
    next hbegin =>
      split at h
      next =>
        cases h
        exact Or.inl ⟨rfl, rfl⟩
      next store hreplaced =>
        split at h
        next =>
          cases h
          exact Or.inl ⟨rfl, rfl⟩
        next u w hwrite =>
          split at h
          next why hcommit =>
            cases h
            obtain ⟨hok, rfl, rfl⟩ := writeEnrolment_ok hwrite
            cases enrolment with
            | none => exact Or.inl ⟨rfl, rfl⟩
            | some enrolled =>
              refine Or.inr ⟨rfl, ⟨rfl, rfl, hbegin, ?_, hok rfl, ?_⟩, rfl⟩
              · simp only [switchedStore, Option.elim_some, hreplaced]
                rfl
              · rw [hcommit]
                rfl
          next => cases h

variable {checked : CheckedCapture} {blob : Blob} {chosen : List String}

theorem applies_apply {applied : Except ErrorBody (List String)}
    (h : apply b checked chosen io = (t, applied)) : Applies b checked chosen io t applied := by
  unfold apply at h
  split at h
  next =>
    cases h
    exact .refused _
  next hblocked =>
    rw [ne_eq, not_not] at hblocked
    split at h
    next =>
      cases h
      exact .refused _
    next hbefore =>
      dsimp only at h
      split at h
      next hswap =>
        cases h
        obtain ⟨store, hcommits, rfl⟩ := swap_ok hswap
        exact .applied store hblocked hbefore hcommits
      next hswap =>
        cases h
        rcases swap_error hswap with ⟨-, rfl⟩ | ⟨hwritten, -⟩
        · exact .refused _
        · cases hwritten
      next hswap =>
        rcases swap_error hswap with ⟨hwritten, -⟩ | ⟨-, huncommitted, rfl⟩
        · cases hwritten
        · split at h
          next hundo =>
            cases h
            refine .stranded _ hblocked hbefore huncommitted ?_
            rw [hundo]
            rfl
          next =>
            cases h
            exact .refused _

/-- An enrolment that is passed is for the key in memory, and undoes no revocation. -/
theorem enrolmentToRestore_ok {section_ : Option Enrolled} {enrolled : Enrolled}
    {warnings : List String}
    (h : enrolmentToRestore outside config b section_ io = .ok (some enrolled, warnings)) :
    (∃ serial, Certifies outside enrolled b.subordinate serial) ∧
      ∀ current, b.enrolment = some current → current.revoked = true →
        enrolled.revoked = true := by
  unfold enrolmentToRestore at h
  split at h
  · cases h
  split at h
  · cases h
  next subordinate hsubordinate =>
    split at h
    · cases h
    split at h
    · split at h
      · cases h
      · cases h
    next hspki =>
      split at h
      · cases h
      next hguard =>
        cases h
        refine ⟨⟨_, subordinate, hsubordinate, not_not.mp hspki, rfl⟩, ?_⟩
        intro current hcurrent hrevoked
        rw [hcurrent] at hguard
        simpa [hrevoked] using hguard

theorem checkCapture_ok {enrolled : Enrolled}
    (h : (checkCapture outside config b blob io).enrolment = some enrolled) :
    (∃ serial, Certifies outside enrolled b.subordinate serial) ∧
      ∀ current, b.enrolment = some current → current.revoked = true →
        enrolled.revoked = true := by
  have hacme : ∀ capture, (checkAcme capture io).enrolment = none := by
    intro capture
    unfold checkAcme
    split
    · rfl
    · split
      · rfl
      · rfl
  unfold checkCapture at h
  split at h
  · cases h
  next capture _ =>
    unfold checkEnrolment at h
    dsimp only at h
    split at h
    · split at h
      next hrestore =>
        dsimp only at h
        rw [h] at hrestore
        exact enrolmentToRestore_ok hrestore
      next =>
        rw [hacme] at h
        cases h
    · split at h
      next =>
        rw [hacme] at h
        cases h
      next =>
        rw [hacme] at h
        cases h

theorem mem_of_toWrite {enrolled : Enrolled} (h : checked.toWrite chosen = some enrolled) :
    checked.enrolment = some enrolled := by
  unfold CheckedCapture.toWrite at h
  exact (Option.filter_eq_some_iff.mp h).1

/-- Whatever comes of a restore, it left the broker as it was, or it switched over what
was to be restored, and perhaps took that up. -/
theorem restore_cases (outside : Outside) (config : Config) (b : Broker) (blob : Blob)
    (chosen : List String) (io : RestoreIo) :
    (restore outside config b blob chosen io).1 = b ∨
      ∃ store, ∃ t, t = switched b ((checkCapture outside config b blob io).toWrite chosen) store ∧
        ((restore outside config b blob chosen io).1 = t ∨
          (restore outside config b blob chosen io).1 =
            (reloadLocked outside config t io.reload).1) := by
  generalize hr : restore outside config b blob chosen io = r
  unfold restore at hr
  split at hr
  next =>
    cases hr
    exact Or.inl rfl
  next =>
    dsimp only at hr
    split at hr
    next happly _ =>
      cases hr
      cases applies_apply happly with
      | refused _ => exact Or.inl rfl
      | stranded _ _ _ _ _ => exact Or.inr ⟨_, _, rfl, Or.inl rfl⟩
      | applied store _ _ _ => exact Or.inr ⟨store, _, rfl, Or.inl rfl⟩
    next happly _ =>
      cases hr
      cases applies_apply happly with
      | refused _ => exact Or.inl rfl
      | stranded _ _ _ _ _ => exact Or.inr ⟨_, _, rfl, Or.inl rfl⟩
    next happly _ =>
      cases applies_apply happly with
      | applied store _ _ _ =>
        refine Or.inr ⟨store, _, rfl, Or.inr ?_⟩
        split at hr
        next hreload =>
          cases hr
          rw [hreload]
        next hreload =>
          cases hr
          rw [hreload]

end Restore

end Opca.Acme.Broker
