/-
  Core/Partition.lean --- what a completed scan says of each row: one set, the current
  certificate of its CN, and that a second scan finds nothing to do.
-/
import Opca.Core.Classification

set_option autoImplicit false

namespace Opca.Core

open Opca.Foundation Acme

variable {times : OpensslTimes} {now : Time} {revokeSerial : Option String}

/-! ## A second scan -/

theorem cn_processCert (c : CertRecord) :
    (processCert times now revokeSerial c).cn = c.cn := by
  obtain ⟨_, _, h⟩ := exists_processCert times now revokeSerial c
  rw [h]

theorem ignoredAt_processCert (c : CertRecord) :
    (processCert times now revokeSerial c).ignoredAt = c.ignoredAt := by
  obtain ⟨_, _, h⟩ := exists_processCert times now revokeSerial c
  rw [h]

/-- Of a row that has not expired, the scan leaves revoked what it counts as revoked. -/
theorem isRevoked_processCert {c : CertRecord} {expiry : Time}
    (hexpiry : expiryOf times c.expiryDate = some expiry) (hlive : ¬ expiry < now) :
    (processCert times now revokeSerial c).isRevoked =
      (c.isRevoked || c.isRevoking revokeSerial) := by
  unfold processCert
  rw [hexpiry]
  simp only [if_neg hlive]
  by_cases hrevoking : c.isRevoking revokeSerial = true
  · rw [if_pos hrevoking, hrevoking]
    simp [CertRecord.isRevoked]
  · rw [if_neg hrevoking]
    by_cases hrevoked : c.isRevoked = true
    · rw [if_pos hrevoked, hrevoked]
      simp [CertRecord.isRevoked]
    · rw [if_neg hrevoked]
      simp [hrevoking]

theorem isRevoking_none (c : CertRecord) : c.isRevoking none = false := by
  unfold CertRecord.isRevoking
  simp

theorem replacementCn_processCert (c : CertRecord) :
    replacementCn times now none (processCert times now revokeSerial c) =
      replacementCn times now revokeSerial c := by
  unfold replacementCn
  rw [ignoredAt_processCert, processCert_expiryDate, cn_processCert]
  simp only [reduceCtorEq, if_false]
  by_cases hignored : c.ignoredAt.isSome = true
  · rw [if_pos hignored, if_pos hignored]
  · rw [if_neg hignored, if_neg hignored]
    cases hexpiry : expiryOf times c.expiryDate with
    | none => simp
    | some expiry =>
      by_cases hlive : expiry < now
      · simp [hlive]
      · simp only [if_neg hlive, isRevoked_processCert hexpiry hlive]
        by_cases hserial : revokeSerial = some c.serial
        · have hboth : (c.isRevoked || c.isRevoking revokeSerial) = true := by
            unfold CertRecord.isRevoking
            simp [hserial]
          rw [if_pos hboth, if_pos hserial]
        · have hnone : c.isRevoking revokeSerial = false := by
            unfold CertRecord.isRevoking
            simp [hserial]
          rw [hnone, Bool.or_false, if_neg hserial]

theorem file_processCert (current : String → Option String) (sets : StatusSets)
    (c : CertRecord) :
    sets.file times now none current (processCert times now revokeSerial c) =
      sets.file times now revokeSerial current c := by
  unfold StatusSets.file StatusSets.ignore StatusSets.place
  rw [ignoredAt_processCert, processCert_expiryDate, cn_processCert, processCert_serial]
  cases hexpiry : expiryOf times c.expiryDate with
  | none => rfl
  | some expiry =>
    simp only
    by_cases hlive : expiry < now
    · simp only [if_pos hlive]
    · simp only [if_neg hlive, isRevoked_processCert hexpiry hlive, isRevoking_none,
        Bool.or_false]

/-- A row whose status says already that it is revoked is left as it is. -/
theorem processCert_none_of_live {c : CertRecord} {expiry : Time}
    (hexpiry : expiryOf times c.expiryDate = some expiry) (hlive : ¬ expiry < now)
    (hstatus : c.isRevoked = true → c.status = some "Revoked") :
    processCert times now none c = c := by
  unfold processCert
  rw [hexpiry]
  simp only [if_neg hlive, isRevoking_none, Bool.false_eq_true, if_false]
  split
  next h => rw [← hstatus h]
  next => rfl

theorem processCert_processCert (c : CertRecord) :
    processCert times now none (processCert times now revokeSerial c) =
      processCert times now revokeSerial c := by
  cases hexpiry : expiryOf times c.expiryDate with
  | none => simp [processCert, hexpiry]
  | some expiry =>
    by_cases hlive : expiry < now
    · simp [processCert, hexpiry, hlive]
    · refine processCert_none_of_live ((congrArg _ processCert_expiryDate).trans hexpiry)
        hlive ?_
      rw [isRevoked_processCert hexpiry hlive]
      unfold processCert
      simp only [hexpiry, if_neg hlive]
      intro hboth
      split
      · rfl
      · next hrevoking =>
        rw [if_pos]
        simpa [hrevoking] using hboth

theorem processExternal_processExternal (c : ExternalCertRecord) :
    processExternal times now (processExternal times now c) = processExternal times now c := by
  cases hexpiry : expiryOf times c.expiryDate with
  | none => simp [processExternal, hexpiry]
  | some expiry => by_cases hlive : expiry < now <;> simp [processExternal, hexpiry, hlive]

theorem fileExternal_processExternal (sets : StatusSets) (c : ExternalCertRecord) :
    sets.fileExternal times now (processExternal times now c) =
      sets.fileExternal times now c := by
  cases hexpiry : expiryOf times c.expiryDate with
  | none => simp [processExternal, hexpiry]
  | some expiry =>
    by_cases hlive : expiry < now <;>
      simp [processExternal, StatusSets.fileExternal, hexpiry, hlive]

theorem selectCerts_map {f : CertRecord → CertRecord} (hf : ∀ c, (f c).serial = c.serial)
    (rows : List CertRecord) : selectCerts (rows.map f) = (selectCerts rows).map f := by
  refine (List.map_insertionSort serialLe serialLe f rows fun a _ b _ => ?_).symm
  unfold serialLe
  rw [hf, hf]

theorem currentSerials_processed (certs : List CertRecord) :
    currentSerials times now none (certs.map (processCert times now revokeSerial)) =
      currentSerials times now revokeSerial certs := by
  unfold currentSerials
  rw [List.foldl_map]
  refine List.foldl_ext _ _ _ fun current c _ => ?_
  unfold addReplacement
  rw [replacementCn_processCert, processCert_serial]

/-- The sets are those of the rows that the scan leaves. -/
theorem setsOf_processed (rows : List CertRecord) (externals : List ExternalCertRecord) :
    setsOf times now none (rows.map (processCert times now revokeSerial))
        (externals.map (processExternal times now)) =
      setsOf times now revokeSerial rows externals := by
  unfold setsOf
  rw [selectCerts_map fun c => processCert_serial times now revokeSerial c,
    currentSerials_processed, List.foldl_map, List.foldl_map]
  have hrows := List.foldl_ext
    (fun sets c => StatusSets.file times now none
      (currentSerials times now revokeSerial (selectCerts rows)) sets
      (processCert times now revokeSerial c))
    (StatusSets.file times now revokeSerial
      (currentSerials times now revokeSerial (selectCerts rows)))
    { validCnToSerial := currentSerials times now revokeSerial (selectCerts rows) }
    (l := selectCerts rows) fun sets c _ => file_processCert _ sets c
  rw [hrows]
  exact List.foldl_ext _ _ _ fun sets c _ => fileExternal_processExternal sets c

theorem tablesOf_processed (tables : Tables) :
    tablesOf times now none (tablesOf times now revokeSerial tables) =
      tablesOf times now revokeSerial tables := by
  have hrows : ((tables.certificates.rows.map (processCert times now revokeSerial)).map
      (processCert times now none)) =
        tables.certificates.rows.map (processCert times now revokeSerial) := by
    rw [List.map_map]
    exact List.map_congr_left fun c _ => processCert_processCert c
  have hexternals : ((tables.externals.map (processExternal times now)).map
      (processExternal times now)) = tables.externals.map (processExternal times now) := by
    rw [List.map_map]
    exact List.map_congr_left fun c _ => processExternal_processExternal c
  unfold tablesOf
  congr 1
  exact CaCertificates.ext hrows

/-! ## Where a row goes -/

/-- The sets that no row is to be in two of. -/
inductive Place where
  | expired | superseded | revoked | valid | expiresWarning
  deriving DecidableEq, Repr

def StatusSets.members (sets : StatusSets) : Place → List String
  | .expired => sets.certsExpired
  | .superseded => sets.certsSuperseded
  | .revoked => sets.certsRevoked
  | .valid => sets.certsValid
  | .expiresWarning => sets.certsExpiresWarning

/-- The place of a row. -/
def placeOf (times : OpensslTimes) (now : Time) (revokeSerial : Option String)
    (current : String → Option String) (c : CertRecord) : Option Place :=
  (expiryOf times c.expiryDate).map fun expiry =>
    if expiry < now then if (c.cn.bind current).isSome then .superseded else .expired
    else if c.isRevoked || c.isRevoking revokeSerial then .revoked
    else if expiry < cautionBoundary now then .expiresWarning
    else .valid

theorem warningBoundary_le (now : Time) : warningBoundary now ≤ cautionBoundary now := by
  have hdays : expiryWarningDays * day ≤ expiryCautionDays * day := by decide
  exact Int.add_le_add_left hdays now

theorem members_ignore (sets : StatusSets) (c : CertRecord) (place : Place) :
    (sets.ignore c).members place = sets.members place := by
  unfold StatusSets.ignore
  split
  · cases place <;> rfl
  · rfl

theorem members_file (current : String → Option String) (sets : StatusSets) (c : CertRecord)
    (place : Place) :
    (sets.file times now revokeSerial current c).members place = sets.members place ++
      if placeOf times now revokeSerial current c = some place then [c.serial] else [] := by
  unfold StatusSets.file placeOf
  cases expiryOf times c.expiryDate with
  | none => simp
  | some expiry =>
    rw [← members_ignore sets c place]
    generalize sets.ignore c = ignored
    simp only [Option.map_some, Option.some.injEq]
    unfold StatusSets.place
    by_cases hlive : expiry < now
    · simp only [if_pos hlive]
      cases c.cn.bind current <;> cases place <;> simp [StatusSets.members]
    · simp only [if_neg hlive]
      by_cases hrevoked : (c.isRevoked || c.isRevoking revokeSerial) = true
      · simp only [if_pos hrevoked]
        cases place <;> simp [StatusSets.members]
      · simp only [if_neg hrevoked]
        by_cases hwarning : expiry < warningBoundary now
        · have hcaution := hwarning.trans_le (warningBoundary_le now)
          simp only [if_pos hwarning, if_pos hcaution]
          cases place <;> simp [StatusSets.members]
        · simp only [if_neg hwarning]
          by_cases hcaution : expiry < cautionBoundary now
          · simp only [if_pos hcaution]
            cases place <;> simp [StatusSets.members]
          · simp only [if_neg hcaution]
            cases place <;> simp [StatusSets.members]

theorem members_fileExternal (sets : StatusSets) (c : ExternalCertRecord) (place : Place) :
    (sets.fileExternal times now c).members place = sets.members place := by
  unfold StatusSets.fileExternal
  split
  · rfl
  · split
    · cases place <;> rfl
    · split
      · cases place <;> rfl
      · split <;> cases place <;> rfl

/-- What a turn of each row adds to a set is what its own turn adds. -/
theorem foldl_append_if {ρ σ : Type} (members : σ → List String) {file : σ → ρ → σ}
    {serial : ρ → String} {goes : ρ → Prop} [DecidablePred goes]
    (h : ∀ sets c, members (file sets c) = members sets ++ if goes c then [serial c] else [])
    (certs : List ρ) (sets : σ) :
    members (certs.foldl file sets) = members sets ++ (certs.filter goes).map serial := by
  induction certs generalizing sets with
  | nil => simp
  | cons c certs ih =>
    rw [List.foldl_cons, ih, h]
    by_cases hgoes : goes c
    · simp [hgoes]
    · simp [hgoes]

theorem foldl_same {ρ σ τ : Type} (view : σ → τ) {file : σ → ρ → σ}
    (h : ∀ sets c, view (file sets c) = view sets) (certs : List ρ) (sets : σ) :
    view (certs.foldl file sets) = view sets := by
  induction certs generalizing sets with
  | nil => rfl
  | cons c certs ih => rw [List.foldl_cons, ih, h]

variable {rows : List CertRecord} {externals : List ExternalCertRecord}

/-- A set holds the serials of the rows whose place it is. -/
theorem members_setsOf (place : Place) :
    (setsOf times now revokeSerial rows externals).members place =
      ((selectCerts rows).filter fun c => decide (placeOf times now revokeSerial
        (currentSerials times now revokeSerial (selectCerts rows)) c = some place)).map
        CertRecord.serial := by
  unfold setsOf
  rw [foldl_same (fun sets => StatusSets.members sets place)
      fun sets c => members_fileExternal sets c place,
    foldl_append_if (fun sets => StatusSets.members sets place)
      fun sets c => members_file _ sets c place]
  cases place <;> rfl

theorem mem_members_setsOf {place : Place} {serial : String} :
    serial ∈ (setsOf times now revokeSerial rows externals).members place ↔
      ∃ c ∈ rows, c.serial = serial ∧ placeOf times now revokeSerial
        (currentSerials times now revokeSerial (selectCerts rows)) c = some place := by
  rw [members_setsOf, List.mem_map]
  constructor
  · rintro ⟨c, hc, rfl⟩
    obtain ⟨hmem, hplace⟩ := List.mem_filter.mp hc
    exact ⟨c, mem_selectCerts.mp hmem, rfl, of_decide_eq_true hplace⟩
  · rintro ⟨c, hc, rfl, hplace⟩
    exact ⟨c, List.mem_filter.mpr ⟨mem_selectCerts.mpr hc, decide_eq_true hplace⟩, rfl⟩

/-- A row is in the set of its place, and in no other. -/
theorem serial_mem_members {certificates : CaCertificates} {place : Place} {c : CertRecord}
    (hc : c ∈ certificates.rows) :
    c.serial ∈ (setsOf times now revokeSerial certificates.rows externals).members place ↔
      placeOf times now revokeSerial
        (currentSerials times now revokeSerial (selectCerts certificates.rows)) c =
          some place := by
  rw [mem_members_setsOf]
  constructor
  · rintro ⟨c', hc', hserial, hplace⟩
    rwa [List.inj_on_of_nodup_map certificates.serials_nodup hc' hc hserial] at hplace
  · exact fun hplace => ⟨c, hc, rfl, hplace⟩

/-! ## Replacements -/

theorem replacements_fileExternal (sets : StatusSets) (c : ExternalCertRecord) :
    (sets.fileExternal times now c).replacements = sets.replacements := by
  unfold StatusSets.fileExternal
  split
  · rfl
  · split
    · rfl
    · split
      · rfl
      · split <;> rfl

theorem replacements_file (current : String → Option String) (sets : StatusSets)
    (c : CertRecord) :
    (sets.file times now revokeSerial current c).replacements =
      if placeOf times now revokeSerial current c = some .superseded then
        Function.update sets.replacements c.serial (c.cn.bind current)
      else sets.replacements := by
  have hignore : (sets.ignore c).replacements = sets.replacements := by
    unfold StatusSets.ignore
    split <;> rfl
  unfold StatusSets.file placeOf
  cases expiryOf times c.expiryDate with
  | none => rfl
  | some expiry =>
    rw [← hignore]
    generalize sets.ignore c = ignored
    simp only [Option.map_some, Option.some.injEq]
    unfold StatusSets.place
    by_cases hlive : expiry < now
    · simp only [if_pos hlive]
      cases c.cn.bind current <;> simp
    · simp only [if_neg hlive]
      by_cases hrevoked : (c.isRevoked || c.isRevoking revokeSerial) = true
      · simp only [if_pos hrevoked]
        rfl
      · have hplace : (if expiry < cautionBoundary now then Place.expiresWarning else .valid) ≠
            .superseded := by split <;> decide
        simp only [if_neg hrevoked, if_neg hplace]
        split
        · rfl
        · split <;> rfl

theorem replacements_foldl_of_notMem {current : String → Option String}
    {certs : List CertRecord} {serial : String} (hserial : serial ∉ certs.map CertRecord.serial)
    (sets : StatusSets) :
    (certs.foldl (StatusSets.file times now revokeSerial current) sets).replacements serial =
      sets.replacements serial := by
  induction certs generalizing sets with
  | nil => rfl
  | cons c certs ih =>
    rw [List.map_cons, List.mem_cons, not_or] at hserial
    rw [List.foldl_cons, ih hserial.2, replacements_file]
    split
    · exact Function.update_of_ne hserial.1 _ _
    · rfl

theorem replacements_foldl_of_mem {current : String → Option String}
    {certs : List CertRecord} {c : CertRecord}
    (hnodup : (certs.map CertRecord.serial).Nodup) (hc : c ∈ certs) (sets : StatusSets) :
    (certs.foldl (StatusSets.file times now revokeSerial current) sets).replacements c.serial =
      if placeOf times now revokeSerial current c = some .superseded then c.cn.bind current
      else sets.replacements c.serial := by
  induction certs generalizing sets with
  | nil => cases hc
  | cons first certs ih =>
    rw [List.map_cons, List.nodup_cons] at hnodup
    rw [List.foldl_cons]
    rcases List.mem_cons.mp hc with rfl | hc
    · rw [replacements_foldl_of_notMem hnodup.1, replacements_file]
      split
      · exact Function.update_self _ _ _
      · rfl
    · have hne : c.serial ≠ first.serial := by
        intro heq
        exact hnodup.1 (heq ▸ List.mem_map_of_mem hc)
      rw [ih hnodup.2 hc, replacements_file]
      split
      · rfl
      · split
        · exact Function.update_of_ne hne _ _
        · rfl

/-- What replaces a row: the current certificate of its CN, if it has expired. -/
theorem replacements_setsOf {certificates : CaCertificates} {c : CertRecord}
    (hc : c ∈ certificates.rows) :
    (setsOf times now revokeSerial certificates.rows externals).replacements c.serial =
      if placeOf times now revokeSerial
          (currentSerials times now revokeSerial (selectCerts certificates.rows)) c =
            some .superseded then
        c.cn.bind (currentSerials times now revokeSerial (selectCerts certificates.rows))
      else none := by
  unfold setsOf
  rw [foldl_same StatusSets.replacements replacements_fileExternal,
    replacements_foldl_of_mem (selectCerts_serials_nodup certificates)
      (mem_selectCerts.mpr hc)]

theorem replacements_setsOf_of_notMem {serial : String}
    (hserial : serial ∉ rows.map CertRecord.serial) :
    (setsOf times now revokeSerial rows externals).replacements serial = none := by
  unfold setsOf
  rw [foldl_same StatusSets.replacements replacements_fileExternal,
    replacements_foldl_of_notMem]
  intro hmem
  obtain ⟨c, hc, rfl⟩ := List.mem_map.mp hmem
  exact hserial (List.mem_map_of_mem (mem_selectCerts.mp hc))

/-! ## The current certificate of a CN -/

/-- The serial that is preferred of the one so far and another. -/
def pickSerial (current : Option String) (serial : String) : Option String :=
  if (current.bind parseI64).getD (-2 ^ 63) < (parseI64 serial).getD 0 then some serial
  else current

/-- The rows that may stand for a CN, in the order of the scan. -/
def liveRows (times : OpensslTimes) (now : Time) (revokeSerial : Option String)
    (rows : List CertRecord) (cn : String) : List CertRecord :=
  (selectCerts rows).filter fun c => replacementCn times now revokeSerial c = some cn

theorem preferSerial_self (cn serial : String) (current : String → Option String) :
    preferSerial cn serial current cn = pickSerial (current cn) serial := by
  unfold preferSerial pickSerial
  split
  · exact Function.update_self cn (some serial) current
  · rfl

theorem preferSerial_of_ne {cn other : String} (h : other ≠ cn) (serial : String)
    (current : String → Option String) : preferSerial cn serial current other = current other := by
  unfold preferSerial
  split
  · exact Function.update_of_ne h (some serial) current
  · rfl

theorem foldl_addReplacement (cn : String) (certs : List CertRecord)
    (current : String → Option String) :
    certs.foldl (addReplacement times now revokeSerial) current cn =
      ((certs.filter fun c => replacementCn times now revokeSerial c = some cn).map
        CertRecord.serial).foldl pickSerial (current cn) := by
  induction certs generalizing current with
  | nil => rfl
  | cons c certs ih =>
    have hadd : addReplacement times now revokeSerial current c cn =
        if replacementCn times now revokeSerial c = some cn then pickSerial (current cn) c.serial
        else current cn := by
      unfold addReplacement
      cases replacementCn times now revokeSerial c with
      | none => rfl
      | some other =>
        by_cases hsame : other = cn
        · subst hsame
          exact (preferSerial_self other c.serial current).trans (if_pos rfl).symm
        · rw [if_neg fun heq => hsame (Option.some.inj heq)]
          exact preferSerial_of_ne (Ne.symm hsame) c.serial current
    rw [List.foldl_cons, ih, hadd]
    by_cases hcn : replacementCn times now revokeSerial c = some cn
    · simp [hcn]
    · simp [hcn]

theorem currentSerials_eq (cn : String) :
    currentSerials times now revokeSerial (selectCerts rows) cn =
      ((liveRows times now revokeSerial rows cn).map CertRecord.serial).foldl pickSerial none :=
  foldl_addReplacement cn (selectCerts rows) fun _ => none

theorem mem_of_foldl_pickSerial {serials : List String} {current : Option String}
    {serial : String} (h : serials.foldl pickSerial current = some serial) :
    serial ∈ serials ∨ current = some serial := by
  induction serials generalizing current with
  | nil => exact .inr h
  | cons first serials ih =>
    rcases ih h with hmem | hpick
    · exact .inl (List.mem_cons_of_mem _ hmem)
    · unfold pickSerial at hpick
      split at hpick
      · cases hpick
        exact .inl List.mem_cons_self
      · exact .inr hpick

/-- The current certificate of a CN is one that may stand for it. -/
theorem mem_liveRows_of_currentSerials {cn serial : String}
    (h : currentSerials times now revokeSerial (selectCerts rows) cn = some serial) :
    ∃ c ∈ liveRows times now revokeSerial rows cn, c.serial = serial := by
  rw [currentSerials_eq] at h
  rcases mem_of_foldl_pickSerial h with hmem | hnone
  · exact List.mem_map.mp hmem
  · cases hnone

theorem parseI64_repr (n : Nat) :
    parseI64 (Nat.repr n) = if n < 2 ^ 63 then some (n : Int) else none :=
  parseSigned_repr 64 n

/-- A serial that reads as 64 bits gives way only to a higher one that does too. -/
theorem pickSerial_short {k n : Nat} (hk : k < 2 ^ 63) :
    pickSerial (some (Nat.repr k)) (Nat.repr n) =
      some (Nat.repr (if n < 2 ^ 63 ∧ k < n then n else k)) := by
  unfold pickSerial
  rw [Option.bind_some, parseI64_repr, if_pos hk, parseI64_repr, Option.getD_some]
  by_cases hn : n < 2 ^ 63
  · rw [if_pos hn, Option.getD_some]
    by_cases hlt : k < n
    · rw [if_pos (Int.ofNat_lt.mpr hlt), if_pos ⟨hn, hlt⟩]
    · rw [if_neg fun h => hlt (Int.ofNat_lt.mp h), if_neg fun h => hlt h.2]
  · rw [if_neg hn, Option.getD_none, if_neg (Int.not_lt.mpr (Int.natCast_nonneg k)),
      if_neg fun h => hn h.1]

/-- One that does not, or none, gives way to any. -/
theorem pickSerial_open {current : Option String} {n : Nat}
    (hopen : current.bind parseI64 = none) :
    pickSerial current (Nat.repr n) = some (Nat.repr n) := by
  unfold pickSerial
  rw [hopen, parseI64_repr, if_pos]
  split
  · rw [Option.getD_none, Option.getD_some]
    omega
  · decide

theorem foldl_pickSerial_short (ns : List Nat) {k : Nat} (hk : k < 2 ^ 63) :
    ∃ m, (ns.map Nat.repr).foldl pickSerial (some (Nat.repr k)) = some (Nat.repr m) ∧
      m < 2 ^ 63 ∧ k ≤ m ∧ (m = k ∨ m ∈ ns) ∧ ∀ n ∈ ns, n < 2 ^ 63 → n ≤ m := by
  induction ns generalizing k with
  | nil => exact ⟨k, rfl, hk, Nat.le_refl k, .inl rfl, fun n hn => by cases hn⟩
  | cons n ns ih =>
    rw [List.map_cons, List.foldl_cons, pickSerial_short hk]
    by_cases hn : n < 2 ^ 63 ∧ k < n
    · rw [if_pos hn]
      obtain ⟨m, hfold, hm, hle, hmem, hmax⟩ := ih hn.1
      refine ⟨m, hfold, hm, by omega, ?_, ?_⟩
      · rcases hmem with rfl | hmem
        · exact .inr List.mem_cons_self
        · exact .inr (List.mem_cons_of_mem _ hmem)
      · intro n' hn' hshort
        rcases List.mem_cons.mp hn' with rfl | hn'
        · exact hle
        · exact hmax n' hn' hshort
    · rw [if_neg hn]
      obtain ⟨m, hfold, hm, hle, hmem, hmax⟩ := ih hk
      refine ⟨m, hfold, hm, hle, hmem.imp_right (List.mem_cons_of_mem _), ?_⟩
      intro n' hn' hshort
      rcases List.mem_cons.mp hn' with rfl | hn'
      · omega
      · exact hmax n' hn' hshort

/-- Any serial that reads as 64 bits keeps out those that do not. -/
theorem foldl_pickSerial_of_short {ns : List Nat} {current : Option String}
    (hopen : current.bind parseI64 = none) (hshort : ∃ n ∈ ns, n < 2 ^ 63) :
    ∃ m ∈ ns, (ns.map Nat.repr).foldl pickSerial current = some (Nat.repr m) ∧
      m < 2 ^ 63 ∧ ∀ n ∈ ns, n < 2 ^ 63 → n ≤ m := by
  induction ns generalizing current with
  | nil =>
    obtain ⟨n, hn, -⟩ := hshort
    cases hn
  | cons n ns ih =>
    rw [List.map_cons, List.foldl_cons, pickSerial_open hopen]
    by_cases hn : n < 2 ^ 63
    · obtain ⟨m, hfold, hm, hle, hmem, hmax⟩ := foldl_pickSerial_short ns hn
      refine ⟨m, ?_, hfold, hm, ?_⟩
      · rcases hmem with rfl | hmem
        · exact List.mem_cons_self
        · exact List.mem_cons_of_mem _ hmem
      · intro n' hn' hshort
        rcases List.mem_cons.mp hn' with rfl | hn'
        · exact hle
        · exact hmax n' hn' hshort
    · have hrest : ∃ n ∈ ns, n < 2 ^ 63 := by
        obtain ⟨n', hn', hlt⟩ := hshort
        rcases List.mem_cons.mp hn' with rfl | hn'
        · exact absurd hlt hn
        · exact ⟨n', hn', hlt⟩
      have hlong : (some (Nat.repr n)).bind parseI64 = none := by
        rw [Option.bind_some, parseI64_repr, if_neg hn]
      obtain ⟨m, hmem, hfold, hm, hmax⟩ := ih hlong hrest
      refine ⟨m, List.mem_cons_of_mem _ hmem, hfold, hm, fun n' hn' hlt => ?_⟩
      rcases List.mem_cons.mp hn' with rfl | hn'
      · exact absurd hlt hn
      · exact hmax n' hn' hlt

/-- Where none does, it is the last. -/
theorem foldl_pickSerial_of_long {ns : List Nat} {current : Option String}
    (hopen : current.bind parseI64 = none) (hlong : ∀ n ∈ ns, 2 ^ 63 ≤ n) :
    (ns.map Nat.repr).foldl pickSerial current = (ns.getLast?.map Nat.repr).or current := by
  induction ns generalizing current with
  | nil => simp
  | cons n ns ih =>
    have hn := hlong n List.mem_cons_self
    have hnext : (some (Nat.repr n)).bind parseI64 = none := by
      rw [Option.bind_some, parseI64_repr, if_neg (by omega)]
    rw [List.map_cons, List.foldl_cons, pickSerial_open hopen,
      ih hnext fun n' hn' => hlong n' (List.mem_cons_of_mem _ hn'), List.getLast?_cons]
    cases ns.getLast? <;> rfl

/-! ## The partition -/

/-- The number that a serial is the decimal text of, of any length. -/
def serialNumber (serial : String) : Nat := Nat.ofDigitChars 10 serial.toList 0

/-- Serials are written in decimal. -/
def DecimalSerials (rows : List CertRecord) : Prop :=
  ∀ c ∈ rows, ∃ n : Nat, c.serial = Nat.repr n

def CertRecord.HasExpired (times : OpensslTimes) (now : Time) (c : CertRecord) : Prop :=
  ∃ expiry, expiryOf times c.expiryDate = some expiry ∧ expiry < now

/-- Unexpired, unrevoked, not ignored. -/
structure CertRecord.Live (times : OpensslTimes) (now : Time) (c : CertRecord) : Prop where
  unexpired : ∃ expiry, expiryOf times c.expiryDate = some expiry ∧ now ≤ expiry
  unrevoked : c.isRevoked = false
  unignored : c.ignoredAt = none

/-- The rows with another mark of being ignored on one of them. -/
def markIgnored (rows : List CertRecord) (serial : String) (mark : Option String) :
    List CertRecord :=
  rows.map fun row => if row.serial = serial then { row with ignoredAt := mark } else row

/-- What a completed scan leaves. -/
structure Partitioned (times : OpensslTimes) (now : Time) (t : ScannedDb) : Prop where
  one : ∀ c ∈ t.tables.certificates.rows, (expiryOf times c.expiryDate).isSome →
    ∃! place, c.serial ∈ t.sets.members place
  soon : t.sets.certsExpiresSoon ⊆ t.sets.certsExpiresWarning
  /-- A row goes where it would go, had it another mark of being ignored. -/
  ignored : ∀ c ∈ t.tables.certificates.rows, ∀ mark place,
    (c.serial ∈ (setsOf times now none (markIgnored t.tables.certificates.rows c.serial mark)
      t.tables.externals).members place ↔ c.serial ∈ t.sets.members place)
  replaced : ∀ serial, (t.sets.replacements serial).isSome ↔ serial ∈ t.sets.certsSuperseded
  replacement : ∀ c ∈ t.tables.certificates.rows, ∀ serial,
    t.sets.replacements c.serial = some serial →
      ∃ c' ∈ t.tables.certificates.rows, c'.serial = serial ∧ c'.cn = c.cn ∧
        c'.Live times now ∧ ∀ other ∈ t.tables.certificates.rows, other.cn = c.cn →
          other.Live times now → serialNumber other.serial ≤ serialNumber serial
  again : ∀ answers changed u, classify times now none true answers t = .ok changed u →
    u = t ∧ changed = false

/-- Of the rows that may replace an expired one, all have serials that read as 64 bits, or
none has and the last that is looked at has the highest. -/
def LongSerialsLast (times : OpensslTimes) (now : Time) (revokeSerial : Option String)
    (rows : List CertRecord) : Prop :=
  ∀ c ∈ rows, c.HasExpired times now → ∀ cn, c.cn = some cn →
    (∀ r ∈ liveRows times now revokeSerial rows cn, serialNumber r.serial < 2 ^ 63) ∨
    (∀ r ∈ liveRows times now revokeSerial rows cn, 2 ^ 63 ≤ serialNumber r.serial) ∧
      ∀ last ∈ (liveRows times now revokeSerial rows cn).getLast?,
        ∀ r ∈ liveRows times now revokeSerial rows cn,
          serialNumber r.serial ≤ serialNumber last.serial

theorem serialNumber_repr (n : Nat) : serialNumber (Nat.repr n) = n := by
  unfold serialNumber
  rw [toList_repr, Nat.ofDigitChars_ten_toDigits]

theorem mem_liveRows {cn : String} {c : CertRecord} :
    c ∈ liveRows times now revokeSerial rows cn ↔
      c ∈ rows ∧ replacementCn times now revokeSerial c = some cn := by
  unfold liveRows
  rw [List.mem_filter, mem_selectCerts, decide_eq_true_iff]

theorem replacementCn_none_eq_some {c : CertRecord} {cn : String} :
    replacementCn times now none c = some cn ↔
      c.Live times now ∧ c.cn = some cn ∧ cn ≠ "" := by
  unfold replacementCn
  simp only [reduceCtorEq, if_false]
  by_cases hignored : c.ignoredAt.isSome = true
  · rw [if_pos hignored]
    refine ⟨fun h => (by cases h), fun h => ?_⟩
    rw [h.1.unignored] at hignored
    cases hignored
  · rw [if_neg hignored]
    have hignored : c.ignoredAt = none := by simpa using hignored
    cases hexpiry : expiryOf times c.expiryDate with
    | none =>
      refine ⟨fun h => (by cases h), fun h => ?_⟩
      obtain ⟨expiry, hsome, -⟩ := h.1.unexpired
      rw [hexpiry] at hsome
      cases hsome
    | some expiry =>
      by_cases hlive : expiry < now
      · simp only [if_pos hlive]
        refine ⟨fun h => (by cases h), fun h => ?_⟩
        obtain ⟨expiry', hsome, hle⟩ := h.1.unexpired
        rw [hexpiry] at hsome
        cases hsome
        exact absurd hlive (Int.not_lt.mpr hle)
      · simp only [if_neg hlive]
        by_cases hrevoked : c.isRevoked = true
        · rw [if_pos hrevoked]
          refine ⟨fun h => (by cases h), fun h => ?_⟩
          rw [h.1.unrevoked] at hrevoked
          cases hrevoked
        · rw [if_neg hrevoked, Option.filter_eq_some_iff, decide_eq_true_iff]
          refine ⟨fun h => ⟨⟨⟨expiry, hexpiry, ?_⟩, ?_, hignored⟩, h⟩, fun h => h.2⟩
          · exact Int.not_lt.mp hlive
          · simpa using hrevoked

theorem map_serial_eq (hdecimal : DecimalSerials rows) :
    rows.map CertRecord.serial = (rows.map fun c => serialNumber c.serial).map Nat.repr := by
  rw [List.map_map]
  refine List.map_congr_left fun c hc => ?_
  obtain ⟨n, hn⟩ := hdecimal c hc
  simp [hn, serialNumber_repr]

/-- When the serial that is picked is the highest. -/
theorem foldl_pickSerial_highest_iff (ns : List Nat) :
    (∀ m, (ns.map Nat.repr).foldl pickSerial none = some (Nat.repr m) → ∀ n ∈ ns, n ≤ m) ↔
      (∀ n ∈ ns, n < 2 ^ 63) ∨
        (∀ n ∈ ns, 2 ^ 63 ≤ n) ∧ ∀ last ∈ ns.getLast?, ∀ n ∈ ns, n ≤ last := by
  have hinj {m n : Nat} (h : Nat.repr m = Nat.repr n) : m = n := by
    rw [← serialNumber_repr m, h, serialNumber_repr]
  by_cases hshort : ∃ n ∈ ns, n < 2 ^ 63
  · obtain ⟨m, hm, hfold, hlt, hmax⟩ := @foldl_pickSerial_of_short _ none rfl hshort
    rw [hfold]
    constructor
    · exact fun h => .inl fun n hn => (h m rfl n hn).trans_lt hlt
    · intro h m' hm' n hn
      rw [← hinj (Option.some.inj hm')]
      rcases h with hall | ⟨hlong, -⟩
      · exact hmax n hn (hall n hn)
      · exact absurd hlt (Nat.not_lt.mpr (hlong m hm))
  · have hlong : ∀ n ∈ ns, 2 ^ 63 ≤ n := by
      intro n hn
      by_contra hlt
      exact hshort ⟨n, hn, by omega⟩
    rw [@foldl_pickSerial_of_long _ none rfl hlong, Option.or_none]
    constructor
    · intro h
      refine .inr ⟨hlong, fun last hlast n hn => h last ?_ n hn⟩
      rw [Option.mem_def.mp hlast]
      rfl
    · intro h m hm n hn
      rcases h with hall | ⟨-, hlast⟩
      · exact absurd (hall n hn) (Nat.not_lt.mpr (hlong n hn))
      · obtain ⟨last, hsome, heq⟩ := Option.map_eq_some_iff.mp hm
        rw [← hinj heq]
        exact hlast last hsome n hn

theorem liveRows_decimal (hdecimal : DecimalSerials rows) (cn : String) :
    DecimalSerials (liveRows times now revokeSerial rows cn) :=
  fun c hc => hdecimal c (mem_liveRows.mp hc).1

/-- When the current certificate of a CN is the one with the highest serial. -/
theorem currentSerials_highest_iff (hdecimal : DecimalSerials rows) (cn : String) :
    (∀ serial, currentSerials times now revokeSerial (selectCerts rows) cn = some serial →
      ∀ r ∈ liveRows times now revokeSerial rows cn,
        serialNumber r.serial ≤ serialNumber serial) ↔
    (∀ r ∈ liveRows times now revokeSerial rows cn, serialNumber r.serial < 2 ^ 63) ∨
    (∀ r ∈ liveRows times now revokeSerial rows cn, 2 ^ 63 ≤ serialNumber r.serial) ∧
      ∀ last ∈ (liveRows times now revokeSerial rows cn).getLast?,
        ∀ r ∈ liveRows times now revokeSerial rows cn,
          serialNumber r.serial ≤ serialNumber last.serial := by
  have hnumbers := foldl_pickSerial_highest_iff
    ((liveRows times now revokeSerial rows cn).map fun c => serialNumber c.serial)
  rw [← map_serial_eq (liveRows_decimal hdecimal cn), ← currentSerials_eq] at hnumbers
  simp only [List.forall_mem_map, List.getLast?_map, Option.forall_mem_map] at hnumbers
  refine Iff.trans ⟨fun h m hm r hr => ?_, fun h serial hserial r hr => ?_⟩ hnumbers
  · rw [← serialNumber_repr m]
    exact h _ hm r hr
  · obtain ⟨c, hc, rfl⟩ := mem_liveRows_of_currentSerials hserial
    obtain ⟨n, hn⟩ := liveRows_decimal hdecimal cn c hc
    rw [hn, serialNumber_repr]
    exact h n (hserial.trans (congrArg some hn)) r hr

/-! ## A completed scan -/

variable {answers : ScanAnswers} {s t : ScannedDb} {force changed : Bool}

/-- A scan that is not skipped. -/
theorem of_classify (hkeyed : s.tables.ExternalsKeyed)
    (hfull : (s.dirty || revokeSerial.isSome || force) = true)
    (h : classify times now revokeSerial force answers s = .ok changed t) :
    t = ⟨tablesOf times now revokeSerial s.tables, false,
        setsOf times now revokeSerial s.tables.certificates.rows s.tables.externals, s.given⟩ ∧
      changed = (s.tables.certificates.rows.any
        (fun c => processCert times now revokeSerial c ≠ c) ||
        s.tables.externals.any fun c => processExternal times now c ≠ c) := by
  obtain ⟨_, u, hget, h⟩ := of_bind_ok h
  cases hget
  have hskip : (!s.dirty && revokeSerial.isNone && !force) = false := by
    cases hdirty : s.dirty <;> cases hforce : force <;> cases revokeSerial <;> simp_all
  rw [hskip] at h
  exact of_scanAll hkeyed h

/-- Rows and sets that a scan at this time leaves as they are. -/
structure Classified (times : OpensslTimes) (now : Time) (t : ScannedDb) : Prop where
  sets : t.sets = setsOf times now none t.tables.certificates.rows t.tables.externals
  tables : tablesOf times now none t.tables = t.tables

theorem classified_of_scan (times : OpensslTimes) (now : Time)
    (revokeSerial : Option String) (s : ScannedDb) :
    Classified times now ⟨tablesOf times now revokeSerial s.tables, false,
      setsOf times now revokeSerial s.tables.certificates.rows s.tables.externals,
      s.given⟩ where
  sets := (setsOf_processed s.tables.certificates.rows s.tables.externals).symm
  tables := tablesOf_processed s.tables

theorem Classified.rows_eq (h : Classified times now t) :
    t.tables.certificates.rows.map (processCert times now none) = t.tables.certificates.rows :=
  congrArg (fun tables => tables.certificates.rows) h.tables

theorem Classified.externals_eq (h : Classified times now t) :
    t.tables.externals.map (processExternal times now) = t.tables.externals :=
  congrArg (fun tables => tables.externals) h.tables

/-- A row of a list that a map leaves as it is. -/
theorem eq_of_map_eq {ρ : Type} {f : ρ → ρ} {rows : List ρ} (h : rows.map f = rows) :
    ∀ row ∈ rows, f row = row := by
  induction rows with
  | nil => exact fun _ hrow => by cases hrow
  | cons first rows ih =>
    intro row hrow
    obtain ⟨hfirst, hrows⟩ := List.cons.inj h
    rcases List.mem_cons.mp hrow with rfl | hrow
    · exact hfirst
    · exact ih hrows row hrow

theorem tablesOf_keyed (tables : Tables) (h : tables.ExternalsKeyed) :
    (tablesOf times now revokeSerial tables).ExternalsKeyed := by
  have hserials : (tables.externals.map (processExternal times now)).map
      ExternalCertRecord.serial = tables.externals.map ExternalCertRecord.serial := by
    rw [List.map_map]
    exact List.map_congr_left fun c _ => processExternal_serial times now c
  unfold Tables.ExternalsKeyed
  exact hserials ▸ h

namespace Classified

/-- A second scan changes nothing. -/
theorem again (h : Classified times now t) (hkeyed : t.tables.ExternalsKeyed)
    (hdirty : t.dirty = false) {u : ScannedDb}
    (hscan : classify times now none true answers t = .ok changed u) :
    u = t ∧ changed = false := by
  obtain ⟨hu, hchanged⟩ := of_classify hkeyed (by simp) hscan
  refine ⟨?_, ?_⟩
  · rw [hu, h.tables, ← h.sets, ← hdirty]
  · rw [hchanged]
    have hrows := eq_of_map_eq h.rows_eq
    have hexternals := eq_of_map_eq h.externals_eq
    simp only [Bool.or_eq_false_iff, List.any_eq_false, decide_eq_true_eq, not_not]
    exact ⟨hrows, hexternals⟩

theorem mem_members (h : Classified times now t) (place : Place) {c : CertRecord}
    (hc : c ∈ t.tables.certificates.rows) :
    c.serial ∈ t.sets.members place ↔ placeOf times now none
      (currentSerials times now none (selectCerts t.tables.certificates.rows)) c =
        some place := by
  rw [h.sets]
  exact serial_mem_members hc

theorem one (h : Classified times now t) {c : CertRecord} (hc : c ∈ t.tables.certificates.rows)
    (hexpiry : (expiryOf times c.expiryDate).isSome) :
    ∃! place, c.serial ∈ t.sets.members place := by
  obtain ⟨place, hplace⟩ : ∃ place, placeOf times now none
      (currentSerials times now none (selectCerts t.tables.certificates.rows)) c =
        some place := by
    rw [← Option.isSome_iff_exists]
    unfold placeOf
    rwa [Option.isSome_map]
  refine ⟨place, (h.mem_members _ hc).mpr hplace, fun other hother => ?_⟩
  have hsame := (h.mem_members _ hc).mp hother
  rw [hplace] at hsame
  exact (Option.some.inj hsame).symm

end Classified

theorem file_soon {current : String → Option String} {sets : StatusSets} {c : CertRecord}
    (h : sets.certsExpiresSoon ⊆ sets.certsExpiresWarning) :
    (sets.file times now revokeSerial current c).certsExpiresSoon ⊆
      (sets.file times now revokeSerial current c).certsExpiresWarning := by
  have hignore : (sets.ignore c).certsExpiresSoon ⊆ (sets.ignore c).certsExpiresWarning := by
    unfold StatusSets.ignore
    split <;> exact h
  unfold StatusSets.file StatusSets.place
  split
  · exact h
  · split
    · split <;> exact hignore
    · split
      · exact hignore
      · split
        · exact List.append_subset.mpr ⟨List.Subset.trans hignore (List.subset_append_left _ _),
            List.subset_append_right _ _⟩
        · split
          · exact List.Subset.trans hignore (List.subset_append_left _ _)
          · exact hignore

theorem setsOf_soon :
    (setsOf times now revokeSerial rows externals).certsExpiresSoon ⊆
      (setsOf times now revokeSerial rows externals).certsExpiresWarning := by
  have hrows (certs : List CertRecord) (current : String → Option String) (sets : StatusSets)
      (h : sets.certsExpiresSoon ⊆ sets.certsExpiresWarning) :
      (certs.foldl (StatusSets.file times now revokeSerial current) sets).certsExpiresSoon ⊆
        (certs.foldl (StatusSets.file times now revokeSerial current)
          sets).certsExpiresWarning := by
    induction certs generalizing sets with
    | nil => exact h
    | cons c certs ih => exact ih _ (file_soon h)
  have hexternal (sets : StatusSets) (c : ExternalCertRecord) :
      ((sets.fileExternal times now c).certsExpiresSoon,
        (sets.fileExternal times now c).certsExpiresWarning) =
        (sets.certsExpiresSoon, sets.certsExpiresWarning) := by
    unfold StatusSets.fileExternal
    split
    · rfl
    · split
      · rfl
      · split
        · rfl
        · split <;> rfl
  have hsame := foldl_same
    (fun sets : StatusSets => (sets.certsExpiresSoon, sets.certsExpiresWarning))
    hexternal externals
  unfold setsOf
  rw [(Prod.mk.inj (hsame _)).1, (Prod.mk.inj (hsame _)).2]
  exact hrows _ _ _ (List.nil_subset _)

/-- An expired row stands for no CN, ignored or not. -/
theorem replacementCn_of_expired {c : CertRecord} (h : c.HasExpired times now) :
    replacementCn times now revokeSerial c = none := by
  obtain ⟨expiry, hexpiry, hlt⟩ := h
  unfold replacementCn
  rw [hexpiry]
  simp [hlt]

theorem currentSerials_markIgnored {certificates : CaCertificates} {c : CertRecord}
    {mark : Option String} (hc : c ∈ certificates.rows) (h : c.HasExpired times now) :
    currentSerials times now none (selectCerts (markIgnored certificates.rows c.serial mark)) =
      currentSerials times now none (selectCerts certificates.rows) := by
  unfold markIgnored
  rw [selectCerts_map fun row => by split <;> rfl]
  unfold currentSerials
  rw [List.foldl_map]
  refine List.foldl_ext _ _ _ fun current row hrow => ?_
  split
  next hserial =>
    obtain rfl := List.inj_on_of_nodup_map certificates.serials_nodup
      (mem_selectCerts.mp hrow) hc hserial
    unfold addReplacement
    rw [replacementCn_of_expired h, replacementCn_of_expired]
    exact h
  next => rfl

namespace Classified

theorem ignored (h : Classified times now t) {c : CertRecord}
    (hc : c ∈ t.tables.certificates.rows) (mark : Option String) (place : Place) :
    c.serial ∈ (setsOf times now none
      (markIgnored t.tables.certificates.rows c.serial mark) t.tables.externals).members place ↔
      c.serial ∈ t.sets.members place := by
  have hkeep (row : CertRecord) :
      (if row.serial = c.serial then { row with ignoredAt := mark } else row).serial =
        row.serial := by
    split <;> rfl
  have hmarked : ({ c with ignoredAt := mark } : CertRecord) ∈
      markIgnored t.tables.certificates.rows c.serial mark :=
    List.mem_map.mpr ⟨c, hc, if_pos rfl⟩
  rw [h.mem_members _ hc]
  refine (@serial_mem_members times now none t.tables.externals
    (t.tables.certificates.map _ hkeep) place { c with ignoredAt := mark } hmarked).trans ?_
  have hplace : placeOf times now none
      (currentSerials times now none
        (selectCerts (markIgnored t.tables.certificates.rows c.serial mark)))
      { c with ignoredAt := mark } =
      placeOf times now none
        (currentSerials times now none (selectCerts t.tables.certificates.rows)) c := by
    unfold placeOf
    cases hexpiry : expiryOf times c.expiryDate with
    | none => rfl
    | some expiry =>
      by_cases hlt : expiry < now
      · rw [currentSerials_markIgnored hc ⟨expiry, hexpiry, hlt⟩]
        rfl
      · simp only [Option.map_some, if_neg hlt]
        rfl
  exact Eq.congr_left hplace

theorem replaced (h : Classified times now t) (serial : String) :
    (t.sets.replacements serial).isSome ↔ serial ∈ t.sets.certsSuperseded := by
  by_cases hserial : serial ∈ t.tables.certificates.rows.map CertRecord.serial
  · obtain ⟨c, hc, rfl⟩ := List.mem_map.mp hserial
    refine Iff.trans ?_ (h.mem_members .superseded hc).symm
    rw [h.sets, replacements_setsOf hc]
    split
    next hplace =>
      refine ⟨fun _ => hplace, fun _ => ?_⟩
      unfold placeOf at hplace
      obtain ⟨expiry, -, heq⟩ := Option.map_eq_some_iff.mp hplace
      split at heq
      · split at heq
        · assumption
        · cases heq
      · split at heq
        · cases heq
        · split at heq <;> cases heq
    next hplace => exact ⟨fun hsome => (by cases hsome), fun heq => absurd heq hplace⟩
  · rw [h.sets, replacements_setsOf_of_notMem hserial]
    refine ⟨fun hsome => (by cases hsome), fun hmem => ?_⟩
    obtain ⟨c, hc, rfl, -⟩ := (@mem_members_setsOf _ _ _ _ _ .superseded _).mp hmem
    exact absurd (List.mem_map_of_mem hc) hserial

end Classified

theorem liveRows_processed (cn : String) :
    liveRows times now none (rows.map (processCert times now revokeSerial)) cn =
      (liveRows times now revokeSerial rows cn).map (processCert times now revokeSerial) := by
  unfold liveRows
  rw [selectCerts_map fun c => processCert_serial times now revokeSerial c, List.filter_map]
  refine congrArg _ (List.filter_congr fun c _ => ?_)
  simp only [Function.comp_apply, replacementCn_processCert]

theorem hasExpired_processCert {c : CertRecord} :
    (processCert times now revokeSerial c).HasExpired times now ↔ c.HasExpired times now := by
  unfold CertRecord.HasExpired
  rw [processCert_expiryDate]

/-- The condition is the same of the rows that the scan leaves. -/
theorem longSerialsLast_processed :
    LongSerialsLast times now none (rows.map (processCert times now revokeSerial)) ↔
      LongSerialsLast times now revokeSerial rows := by
  unfold LongSerialsLast
  simp only [List.forall_mem_map, hasExpired_processCert, cn_processCert, liveRows_processed,
    processCert_serial, List.getLast?_map, Option.forall_mem_map]

theorem decimalSerials_processed (h : DecimalSerials rows) :
    DecimalSerials (rows.map (processCert times now revokeSerial)) := by
  intro c hc
  obtain ⟨old, hold, rfl⟩ := List.mem_map.mp hc
  rw [processCert_serial]
  exact h old hold

namespace Classified

theorem replacements_eq (h : Classified times now t) {c : CertRecord}
    (hc : c ∈ t.tables.certificates.rows) (hexpired : c.HasExpired times now) :
    t.sets.replacements c.serial = c.cn.bind
      (currentSerials times now none (selectCerts t.tables.certificates.rows)) := by
  obtain ⟨expiry, hexpiry, hlt⟩ := hexpired
  rw [h.sets, replacements_setsOf hc]
  unfold placeOf
  rw [hexpiry]
  simp only [Option.map_some, if_pos hlt]
  cases c.cn.bind (currentSerials times now none (selectCerts t.tables.certificates.rows)) with
  | none => rfl
  | some serial => rfl

/-- Only an expired row is replaced. -/
theorem hasExpired_of_replacements (h : Classified times now t) {c : CertRecord}
    (hc : c ∈ t.tables.certificates.rows) {serial : String}
    (hreplaced : t.sets.replacements c.serial = some serial) : c.HasExpired times now := by
  rw [h.sets, replacements_setsOf hc] at hreplaced
  split at hreplaced
  next hplace =>
    obtain ⟨expiry, hexpiry, heq⟩ := Option.map_eq_some_iff.mp hplace
    refine ⟨expiry, hexpiry, ?_⟩
    by_contra hlt
    rw [if_neg hlt] at heq
    split at heq
    · cases heq
    · split at heq <;> cases heq
  next => cases hreplaced

/-- What replaces a row is live, and of its CN. -/
theorem replacement (h : Classified times now t) {c : CertRecord}
    (hc : c ∈ t.tables.certificates.rows) {serial : String}
    (hreplaced : t.sets.replacements c.serial = some serial) :
    ∃ cn, c.cn = some cn ∧
      currentSerials times now none (selectCerts t.tables.certificates.rows) cn = some serial ∧
      ∃ c' ∈ t.tables.certificates.rows, c'.serial = serial ∧ c'.cn = c.cn ∧
        c'.Live times now := by
  rw [h.replacements_eq hc (h.hasExpired_of_replacements hc hreplaced)] at hreplaced
  obtain ⟨cn, hcn, hcurrent⟩ := Option.bind_eq_some_iff.mp hreplaced
  obtain ⟨c', hc', hserial⟩ := mem_liveRows_of_currentSerials hcurrent
  obtain ⟨hmem, hstands⟩ := mem_liveRows.mp hc'
  obtain ⟨hlive, hcn', -⟩ := replacementCn_none_eq_some.mp hstands
  exact ⟨cn, hcn, hcurrent, c', hmem, hserial, hcn'.trans hcn.symm, hlive⟩

/-- The partition, but for which certificate is preferred. -/
theorem partitioned_iff (h : Classified times now t) (hkeyed : t.tables.ExternalsKeyed)
    (hdirty : t.dirty = false) (hdecimal : DecimalSerials t.tables.certificates.rows) :
    Partitioned times now t ↔ LongSerialsLast times now none t.tables.certificates.rows := by
  constructor
  · intro hpartitioned c hc hexpired cn hcn
    refine (currentSerials_highest_iff hdecimal cn).mp fun serial hcurrent r hr => ?_
    have hreplaced : t.sets.replacements c.serial = some serial := by
      rw [h.replacements_eq hc hexpired, hcn]
      exact hcurrent
    obtain ⟨-, -, -, -, -, hhighest⟩ := hpartitioned.replacement c hc serial hreplaced
    obtain ⟨hmem, hstands⟩ := mem_liveRows.mp hr
    obtain ⟨hlive, hcn', -⟩ := replacementCn_none_eq_some.mp hstands
    exact hhighest r hmem (hcn'.trans hcn.symm) hlive
  · intro hlong
    refine ⟨fun c hc => h.one hc, ?_, fun c hc => h.ignored hc, h.replaced, ?_,
      fun _ _ _ => h.again hkeyed hdirty⟩
    · rw [h.sets]
      exact setsOf_soon
    · intro c hc serial hreplaced
      obtain ⟨cn, hcn, hcurrent, c', hc', hserial, hcn', hlive⟩ := h.replacement hc hreplaced
      refine ⟨c', hc', hserial, hcn', hlive, fun other hother hothercn hotherlive => ?_⟩
      have hexpired := h.hasExpired_of_replacements hc hreplaced
      refine (currentSerials_highest_iff hdecimal cn).mpr (hlong c hc hexpired cn hcn) serial
        hcurrent other (mem_liveRows.mpr ⟨hother, ?_⟩)
      refine replacementCn_none_eq_some.mpr ⟨hotherlive, hothercn.trans hcn, ?_⟩
      obtain ⟨c'', hc'', -⟩ := mem_liveRows_of_currentSerials hcurrent
      exact (replacementCn_none_eq_some.mp (mem_liveRows.mp hc'').2).2.2

end Classified

/-- A completed scan partitions the rows, with the highest serial of a CN preferred,
exactly where no serial of more than 64 bits is in the way. -/
theorem classify_partitions_iff (hkeyed : s.tables.ExternalsKeyed)
    (hdecimal : DecimalSerials s.tables.certificates.rows)
    (hfull : (s.dirty || revokeSerial.isSome || force) = true)
    (h : classify times now revokeSerial force answers s = .ok changed t) :
    Partitioned times now t ↔
      LongSerialsLast times now revokeSerial s.tables.certificates.rows := by
  obtain ⟨rfl, -⟩ := of_classify hkeyed hfull h
  have hclassified := classified_of_scan times now revokeSerial s
  exact (hclassified.partitioned_iff (tablesOf_keyed s.tables hkeyed) rfl
    (decimalSerials_processed hdecimal)).trans longSerialsLast_processed

/-! ## A long serial -/

def sampledTimes : OpensslTimes where
  parse text :=
    if text = "20200101000000Z" then some (1577836800 * second)
    else if text = "20500101000000Z" then some (2524608000 * second)
    else none
  format _ := "20260101000000Z"

def sampledNow : Time := 1767225600 * second

def sampledRow (serial status expiry : String) : CertRecord :=
  ⟨serial, some "api.example.com", some ("API_" ++ serial), some status, some expiry, none, none,
    none, none, none, none, none, none, none, none, none, none, none, none, none, none⟩

def sampledTables (rows : List CertRecord) (h : (rows.map CertRecord.serial).Nodup) : Tables :=
  ⟨{}, ⟨rows, h⟩, [], none, none, .empty, .empty, fun _ _ => none⟩

/-- An expired certificate, and two for the same name, of which one was imported. -/
def mixedSerials : ScannedDb where
  tables := sampledTables
    [sampledRow "1" "Expired" "20200101000000Z", sampledRow "2" "Valid" "20500101000000Z",
      sampledRow "95367431640625000000000000000001" "Valid" "20500101000000Z"] (by decide)
  dirty := true
  sets := {}
  given := []

def issuedSerials : ScannedDb where
  tables := sampledTables
    [sampledRow "1" "Expired" "20200101000000Z", sampledRow "2" "Valid" "20500101000000Z"]
    (by decide)
  dirty := true
  sets := {}
  given := []

theorem longSerial_not_preferred : ∃ t changed,
    classify sampledTimes sampledNow none false {} mixedSerials = .ok changed t ∧
      ¬ Partitioned sampledTimes sampledNow t := by
  refine ⟨_, _, rfl, fun h => ?_⟩
  obtain ⟨-, -, -, -, -, hhighest⟩ := h.replacement
    (sampledRow "1" "Expired" "20200101000000Z") (by decide) "2" (by decide)
  have hle := hhighest (sampledRow "95367431640625000000000000000001" "Valid" "20500101000000Z")
    (by decide) rfl ⟨⟨2524608000 * second, by decide, by decide⟩, rfl, rfl⟩
  exact absurd hle (by decide)

theorem issuedSerials_decimal : DecimalSerials issuedSerials.tables.certificates.rows := by
  intro c hc
  rcases List.mem_cons.mp hc with rfl | hc
  · exact ⟨1, by decide⟩
  · rw [List.mem_singleton.mp hc]
    exact ⟨2, by decide⟩

theorem classify_issuedSerials : ∃ t,
    classify sampledTimes sampledNow none false {} issuedSerials = .ok false t :=
  ⟨_, rfl⟩

theorem classify_partitions_iff_issued : ∃ t,
    classify sampledTimes sampledNow none false {} issuedSerials = .ok false t ∧
      (Partitioned sampledTimes sampledNow t ↔
        LongSerialsLast sampledTimes sampledNow none
          issuedSerials.tables.certificates.rows) := by
  obtain ⟨t, h⟩ := classify_issuedSerials
  exact ⟨t, h, classify_partitions_iff List.nodup_nil issuedSerials_decimal rfl h⟩

end Opca.Core
