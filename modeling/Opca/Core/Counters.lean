/-
  Core/Counters.lean --- what an operation does to the counters: no serial and no CRL
  number that it gives out was given out before.

  This holds as long as a counter stays within its type.  Of the certificates that an
  operator imports, the counter is past those that the CA takes for its own; the CA's
  other ones, which are out of their validity, are what `own` is about.
-/
import Opca.Core.Authority

set_option autoImplicit false

namespace Opca.Core

open Opca.Foundation Acme

/-! ## What is given out -/

/-- What was given out between two states: numbers from where their counter was to where
it is, and the serials of items below it, if `own` has it that the CA's own certificates
are imported below it. -/
def Given.Within (own : Prop) (before after : CaDatabase) : Given → Prop
  | .serial n => before.tables.config.counter .cert ≤ n ∧ n < after.tables.config.counter .cert
  | .item text => own → ∀ n, parseI64 text = some n → n < after.tables.config.counter .cert
  | .subordinate _ _ => True
  | .crlNumber n => before.tables.config.counter .crl ≤ n ∧ n < after.tables.config.counter .crl
  | .crl n => n < after.tables.config.counter .crl
  | .revoked _ _ => True

/-- What is given out later comes after what was before: no serial is that of an item, and
no number that of a CRL that is out. -/
def Given.Before (own : Prop) : Given → Given → Prop
  | .serial m, .serial n => m < n
  | .item text, .serial n => own → parseI64 text ≠ some n
  | .crlNumber m, .crlNumber n => m < n
  | .crl m, .crlNumber n => m < n
  | _, _ => True

/-- Rows stay, no counter falls, and what is given out is new. -/
structure Grows (own : Prop) (before after : CaDatabase) : Prop where
  keeps : before.tables.Keeps after.tables
  counter : ∀ kind, before.tables.config.counter kind ≤ after.tables.config.counter kind
  given : ∃ more, after.given = before.given ++ more ∧
    (∀ g ∈ more, g.Within own before after) ∧ more.Pairwise (Given.Before own)

variable {own : Prop} {db s t : CaDatabase} {kind : SerialType} {n : Int} {count : Nat}
  {α : Type}

theorem Given.Within.mono {g : Given} {db' t' : CaDatabase} (h : g.Within own db s)
    (hbefore : ∀ kind, db'.tables.config.counter kind ≤ db.tables.config.counter kind)
    (hafter : ∀ kind, s.tables.config.counter kind ≤ t'.tables.config.counter kind) :
    g.Within own db' t' := by
  cases g with
  | serial n => exact ⟨(hbefore .cert).trans h.1, lt_of_lt_of_le h.2 (hafter .cert)⟩
  | item text => exact fun hown n hn => lt_of_lt_of_le (h hown n hn) (hafter .cert)
  | subordinate serial key => trivial
  | crlNumber n => exact ⟨(hbefore .crl).trans h.1, lt_of_lt_of_le h.2 (hafter .crl)⟩
  | crl n => exact lt_of_lt_of_le h (hafter .crl)
  | revoked serial at_ => trivial

/-- The counters are past what was given out. -/
def Given.Below (own : Prop) (db : CaDatabase) : Given → Prop
  | .serial n => n < db.tables.config.counter .cert
  | .item text => own → ∀ n, parseI64 text = some n → n < db.tables.config.counter .cert
  | .subordinate _ _ => True
  | .crlNumber n => n < db.tables.config.counter .crl
  | .crl n => n < db.tables.config.counter .crl
  | .revoked _ _ => True

theorem Given.Within.below {g : Given} (h : g.Within own s t) : g.Below own t := by
  cases g with
  | serial n => exact h.2
  | item text => exact h
  | subordinate serial key => trivial
  | crlNumber n => exact h.2
  | crl n => exact h
  | revoked serial at_ => trivial

/-- What was given out comes before what is given out next. -/
theorem Given.Below.before {g g' : Given} (hg : g.Below own s) (hg' : g'.Within own s t) :
    g.Before own g' := by
  cases g' with
  | serial n =>
    cases g with
    | serial m => exact lt_of_lt_of_le hg hg'.1
    | item text => exact fun hown htext => absurd (hg hown n htext) (not_lt.mpr hg'.1)
    | _ => trivial
  | crlNumber n =>
    cases g with
    | crlNumber m => exact lt_of_lt_of_le hg hg'.1
    | crl m => exact lt_of_lt_of_le hg hg'.1
    | _ => trivial
  | _ => cases g <;> trivial

theorem Given.Below.mono {g : Given} (h : g.Below own s)
    (hcounter : ∀ kind, s.tables.config.counter kind ≤ t.tables.config.counter kind) :
    g.Below own t := by
  cases g with
  | serial n => exact lt_of_lt_of_le h (hcounter .cert)
  | item text => exact fun hown n hn => lt_of_lt_of_le (h hown n hn) (hcounter .cert)
  | subordinate serial key => trivial
  | crlNumber n => exact lt_of_lt_of_le h (hcounter .crl)
  | crl n => exact lt_of_lt_of_le h (hcounter .crl)
  | revoked serial at_ => trivial

theorem Grows.refl (db : CaDatabase) : Grows own db db :=
  ⟨.refl db.tables, fun _ => le_refl _, [], (List.append_nil _).symm,
    fun _ hg => absurd hg List.not_mem_nil, List.Pairwise.nil⟩

theorem Grows.trans {a b c : CaDatabase} (hab : Grows own a b) (hbc : Grows own b c) :
    Grows own a c := by
  obtain ⟨more, hmore, hwithin, hbefore⟩ := hab.given
  obtain ⟨more', hmore', hwithin', hbefore'⟩ := hbc.given
  refine ⟨hab.keeps.trans hbc.keeps, fun kind => (hab.counter kind).trans (hbc.counter kind),
    more ++ more', ?_, ?_, ?_⟩
  · rw [hmore', hmore, List.append_assoc]
  · intro g hg
    rcases List.mem_append.mp hg with hg | hg
    · exact (hwithin g hg).mono (fun _ => le_refl _) hbc.counter
    · exact (hwithin' g hg).mono hab.counter fun _ => le_refl _
  · refine List.pairwise_append.mpr ⟨hbefore, hbefore', ?_⟩
    intro g hg g' hg'
    exact (hwithin g hg).below.before (hwithin' g' hg')

/-- Only what is given out changes. -/
theorem Grows.of_given {more : List Given} (h : ∀ g ∈ more, g.Within own db db)
    (hmore : more.Pairwise (Given.Before own)) :
    Grows own db { db with given := db.given ++ more } :=
  ⟨.refl db.tables, fun _ => le_refl _, more, rfl, h, hmore⟩

theorem KeepsConfig.grows (h : KeepsConfig s t) : Grows own s t := by
  refine ⟨h.keeps, fun kind => by rw [h.config], [], ?_, ?_, List.Pairwise.nil⟩
  · rw [h.given, List.append_nil]
  · exact fun _ hg => absurd hg List.not_mem_nil

/-- The numbers lie between where the counters were and where they are. -/
def GaveOut (before after : CaDatabase) (issued : Issued) : Prop :=
  ∀ kind, (issued.numbers kind).Nodup ∧ ∀ n ∈ issued.numbers kind,
    before.tables.config.counter kind ≤ n ∧ n < after.tables.config.counter kind

/-- `count` numbers from `n` on were taken. -/
structure Took (own : Prop) (kind : SerialType) (n : Int) (count : Nat)
    (before after : CaDatabase) : Prop where
  grows : Grows own before after
  lower : before.tables.config.counter kind ≤ n
  upper : n + count ≤ after.tables.config.counter kind

/-- And nothing has been given out since. -/
structure Taking (own : Prop) (kind : SerialType) (n : Int) (count : Nat)
    (before after : CaDatabase) : Prop extends Took own kind n count before after where
  given : after.given = before.given

theorem Took.of_grows (h : Took own kind n count db s) (hst : Grows own s t) :
    Took own kind n count db t :=
  ⟨h.grows.trans hst, h.lower, h.upper.trans (hst.counter kind)⟩

theorem Taking.keepsConfig (h : Taking own kind n count db s) (hst : KeepsConfig s t) :
    Taking own kind n count db t :=
  ⟨h.toTook.of_grows hst.grows, hst.given.trans h.given⟩

/-- The numbers that were taken are given out. -/
theorem Taking.give (h : Taking own kind n count db s) {more : List Given}
    (hwithin : ∀ g ∈ more, g.Within own db s) (hmore : more.Pairwise (Given.Before own)) :
    Took own kind n count db { s with given := s.given ++ more } :=
  ⟨⟨h.grows.keeps, h.grows.counter, more, by rw [h.given], hwithin, hmore⟩, h.lower, h.upper⟩

theorem gaveOut_nothing : GaveOut s t .nothing := by
  intro kind
  cases kind <;> exact ⟨List.nodup_nil, fun n hn => absurd hn List.not_mem_nil⟩

theorem Took.gaveOut_serial (h : Took own .cert n 1 db s) : GaveOut db s ⟨[n], []⟩ := by
  intro kind
  cases kind with
  | cert =>
    refine ⟨List.nodup_singleton n, ?_⟩
    intro m hm
    rw [List.mem_singleton.mp hm]
    have hlower := h.lower
    have hupper := h.upper
    omega
  | crl => exact ⟨List.nodup_nil, fun n hn => absurd hn List.not_mem_nil⟩

/-- Before a number is taken. -/
theorem ensures_before {m : DbM α} (h : Moves KeepsConfig m) :
    Ensures (KeepsConfig db) m (fun _ => KeepsConfig db) (Grows own db) :=
  (h db).failing fun _ hs => hs.grows

/-- After. -/
theorem ensures_after {m : DbM α} (h : Moves KeepsConfig m) :
    Ensures (Took own kind n count db) m (fun _ => Took own kind n count db) (Grows own db) :=
  (h.keep fun _ _ hs hst => hs.of_grows hst.grows).failing fun _ hs => hs.grows

theorem counter_setCounter (config : CaConfig) (value : Int) (kind other : SerialType) :
    (config.setCounter value kind).counter other =
      if other = kind then value else config.counter other := by
  cases kind <;> cases other <;> rfl

theorem incrementSerial_ensures {given : Option Int}
    (hroom : db.tables.config.current kind given < i64Max) :
    Ensures (KeepsConfig db) (incrementSerial kind given)
      (fun n s => n = db.tables.config.current kind given ∧ Taking own kind n 1 db s)
      (Grows own db) := by
  intro s hs
  have hlower : db.tables.config.counter kind ≤ db.tables.config.current kind given := by
    cases given with
    | none => exact le_refl _
    | some sn => exact le_max_left _ _
  unfold incrementSerial
  dsimp only
  rw [hs.config, wrapI64_of_le (Int.add_one_le_of_lt hroom)]
  refine ⟨rfl, ⟨⟨hs.keeps, ?_, [], ?_, ?_, List.Pairwise.nil⟩, hlower, ?_⟩, hs.given⟩
  · intro other
    rw [counter_setCounter]
    split
    next h =>
      subst h
      omega
    next => exact le_refl _
  · rw [List.append_nil]
    exact hs.given
  · exact fun _ hg => absurd hg List.not_mem_nil
  · rw [counter_setCounter, if_pos rfl]
    rfl

/-! ## Issuing -/

/-- A serial reads back as itself or not at all. -/
theorem eq_of_parseI64_toString {m : Int} (h : parseI64 (toString n) = some m) : m = n := by
  unfold parseI64 at h
  rw [parseSigned_toString] at h
  split at h
  · exact (Option.some.inj h).symm
  · cases h

/-- What an operation does if it returns or fails. -/
abbrev Issues (own : Prop) (db : CaDatabase) (m : DbM Issued) : Prop :=
  Ensures (KeepsConfig db) m (fun issued s => Grows own db s ∧ GaveOut db s issued)
    (Grows own db)

/-- A serial that was taken is given out. -/
theorem giveSerial_ensures {serial : Int} :
    Ensures (Taking own .cert serial 1 db) (give (.serial serial))
      (fun _ => Took own .cert serial 1 db) (Grows own db) := by
  refine .modify fun s hs => hs.give ?_ (List.pairwise_singleton _ _)
  intro g hg
  rw [List.mem_singleton.mp hg]
  exact ⟨hs.lower, Int.lt_of_add_one_le hs.upper⟩

theorem issue_ensures {signed : Except OpcaError Unit}
    (hroom : db.tables.config.counter .cert < i64Max) :
    Ensures (KeepsConfig db) (issue signed) (fun n => Took own .cert n 1 db) (Grows own db) := by
  have hcurrent : db.tables.config.current .cert none < i64Max := hroom
  refine (incrementSerial_ensures hcurrent).bind fun serial => .of_and fun _ => ?_
  refine giveSerial_ensures.bind fun _ => ?_
  exact (ensures_after .outcome).bind fun _ => .pure fun _ hs => hs

/-- An item whose serial is below the counter, and a row. -/
theorem storeCertbundle_ensures {isOwn : Bool} {record : CertRecord}
    {stored : Except OpcaError Unit} {add : DbM Unit} {P : CaDatabase → Prop}
    (hP : ∀ s t, P s → Grows own s t → P t) (hadd : Moves KeepsConfig add)
    (hitem : isOwn = true → ∀ s, P s → Given.Within own s s (.item record.serial)) :
    Ensures P (storeCertbundle isOwn record stored add) (fun _ => P) P := by
  have hkeep : ∀ {α : Type} {m : DbM α}, Moves KeepsConfig m →
      Ensures P m (fun _ => P) P :=
    fun h => h.keep fun s t hs hst => hP s t hs hst.grows
  have hgive : Ensures P (storeCertbundle.giveItem isOwn record) (fun _ => P) P := by
    unfold storeCertbundle.giveItem
    split
    next hown =>
      refine .modify fun s hs => hP s _ hs (.of_given ?_ (List.pairwise_singleton _ _))
      intro g hg
      rw [List.mem_singleton.mp hg]
      exact hitem hown s hs
    next => exact .pure fun _ hs => hs
  exact (hkeep .outcome).bind fun _ => hgive.bind fun _ => hkeep hadd

theorem issueBundle_ensures {times : OpensslTimes} {now : Time} {cert : CertAttribs}
    {title : String → String} {signing : Signing} {andThen : String → DbM Unit}
    (hthen : ∀ serial n, Ensures (Took own .cert n 1 db) (andThen serial)
      (fun _ => Took own .cert n 1 db) (Grows own db))
    (hroom : db.tables.config.counter .cert < i64Max) :
    Issues own db (issueBundle times now cert title signing andThen) := by
  refine (ensures_before .outcome).bind fun _ => ?_
  refine (issue_ensures hroom).bind fun serial => ?_
  have hitem : ∀ s, Took own .cert serial 1 db s →
      Given.Within own s s (.item (toString serial)) := by
    intro s hs _ m hm
    rw [eq_of_parseI64_toString hm]
    exact Int.lt_of_add_one_le hs.upper
  have hdone : ∀ s, Took own .cert serial 1 db s →
      Grows own db s ∧ GaveOut db s ⟨[serial], []⟩ :=
    fun s hs => ⟨hs.grows, hs.gaveOut_serial⟩
  refine Ensures.bind ?_ fun _ => (hthen _ serial).bind fun _ => .pure hdone
  exact (storeCertbundle_ensures (fun _ _ hs hst => hs.of_grows hst) (addCert_moves _)
    fun _ => hitem).failing fun _ hs => hs.grows

/-! ## Operations that issue -/

theorem require_moves {p : Prop} [Decidable p] {error : OpcaError} :
    Moves KeepsConfig (require p error) :=
  .outcome

theorem certificateOf_moves (lookup : CertLookup) (validOnly : Bool) :
    Moves KeepsConfig (certificateOf lookup validOnly) :=
  .of_reads (certificateOf_reads lookup validOnly)

theorem uploadPublished_moves (serial cn : String) (uploaded : Except OpcaError Unit)
    (now : String) : Moves KeepsConfig (uploadPublished serial cn uploaded now) := by
  refine Moves.get.bind fun db => ?_
  refine require_moves.bind fun _ => ?_
  exact Moves.outcome.bind fun _ => markCertPublished_moves serial cn now

theorem logged_moves {m : DbM Unit} (h : Moves KeepsConfig m) :
    Moves KeepsConfig (logged m) := by
  intro s₀ s hs
  unfold logged
  cases hm : m s with
  | ok a t => exact (h s₀).ok hs hm
  | error e t => exact (h s₀).error hs hm

theorem renewCertificateBundle_ensures {times : OpensslTimes} {lookup : CertLookup}
    {cert : CertAttribs} {signing : Signing} {renewing : Renewing}
    (hroom : db.tables.config.counter .cert < i64Max) :
    Issues own db (renewCertificateBundle times lookup cert signing renewing) := by
  refine (ensures_before (certificateOf_moves lookup true)).bind fun old => ?_
  refine (ensures_before require_moves).bind fun _ => ?_
  refine (ensures_before require_moves).bind fun _ => ?_
  refine (ensures_before .outcome).bind fun _ => ?_
  refine issueBundle_ensures (fun newSerial n => ensures_after ?_) hroom
  refine (ignoreCert_moves _ _ _ _ _).bind fun _ => ?_
  split
  · exact logged_moves (uploadPublished_moves _ _ _ _)
  · exact .pure

theorem rekeyCertificateBundle_ensures {times : OpensslTimes} {lookup : CertLookup}
    {cert : CertAttribs} {signing : Signing} {renewing : Renewing}
    (hroom : db.tables.config.counter .cert < i64Max) :
    Issues own db (rekeyCertificateBundle times lookup cert signing renewing) := by
  refine (ensures_before (certificateOf_moves lookup false)).bind fun old => ?_
  refine (ensures_before require_moves).bind fun _ => ?_
  refine (ensures_before .outcome).bind fun _ => ?_
  exact issueBundle_ensures (fun newSerial n => ensures_after (ignoreCert_moves _ _ _ _ _)) hroom

theorem issueSubordinate_ensures {times : OpensslTimes} {cert : CertAttribs}
    {signing : Signing} {now : Time} {andThen : String → DbM Unit}
    (hthen : ∀ serial, Moves KeepsConfig (andThen serial))
    (hroom : db.tables.config.counter .cert < i64Max) :
    Issues own db (issueSubordinate times cert signing now andThen) := by
  refine issueBundle_ensures (fun serial n => ?_) hroom
  have hgive : Ensures (Took own .cert n 1 db) (give (.subordinate serial cert.publicKey))
      (fun _ => Took own .cert n 1 db) (Grows own db) := by
    refine .modify fun s hs => hs.of_grows (.of_given ?_ (List.pairwise_singleton _ _))
    intro g hg
    rw [List.mem_singleton.mp hg]
    trivial
  exact hgive.bind fun _ => ensures_after (hthen serial)

theorem signSubordinate_ensures {times : OpensslTimes} {cert : CertAttribs}
    {signing : Signing} {permittedDomains : Except OpcaError (List String)}
    {endpoint : Option (String × String)} {now : Time}
    (hroom : db.tables.config.counter .cert < i64Max) :
    Issues own db (signSubordinate times cert signing permittedDomains endpoint now) := by
  refine (ensures_before .outcome).bind fun domains => ?_
  refine issueSubordinate_ensures (fun serial => ?_) hroom
  refine (addBroker_moves serial domains _).bind fun id => ?_
  cases endpoint with
  | none => exact .pure
  | some endpoint => exact updateBrokers_moves

theorem brokerOf_moves (id : Int) : Moves KeepsConfig (brokerOf id) :=
  .of_reads (brokerOf_reads id)

theorem activeBroker_moves (id : Int) : Moves KeepsConfig (activeBroker id) :=
  .of_reads (activeBroker_reads id)

theorem renewalDomains_moves {broker : Broker}
    {requested : Option (Except OpcaError (List String))} {changeDomains : Bool} :
    Moves KeepsConfig (renewalDomains broker requested changeDomains) :=
  .of_reads (renewalDomains_reads broker requested changeDomains)

theorem renewSubordinate_ensures {times : OpensslTimes} {id : Int} {cert : CertAttribs}
    {signing : Signing} {requested : Option (Except OpcaError (List String))}
    {changeDomains : Bool} {user : String} {now : Time}
    (hroom : db.tables.config.counter .cert < i64Max) :
    Issues own db (renewSubordinate times id cert signing requested changeDomains user now) := by
  refine (ensures_before (activeBroker_moves id)).bind fun broker => ?_
  refine (ensures_before renewalDomains_moves).bind fun domains => ?_
  refine issueSubordinate_ensures (fun newSerial => ?_) hroom
  exact (ignoreCert_moves _ _ _ _ _).bind fun _ => updateBrokers_moves

/-! ## Operations that take no number -/

/-- What gives out nothing. -/
theorem ensures_nothing {m : DbM α} (h : Moves KeepsConfig m) :
    Issues own db (do let _ ← m; return Issued.nothing) :=
  (ensures_before h).bind fun _ => .pure fun _ hs => ⟨hs.grows, gaveOut_nothing⟩

theorem revokeCertificate_ensures {times : OpensslTimes} {lookup : CertLookup} {now : Time} :
    Ensures (KeepsConfig db) (revokeCertificate times lookup now)
      (fun issued s => issued = .nothing ∧ Grows own db s) (Grows own db) := by
  refine (ensures_before (certificateOf_moves lookup true)).bind fun cert => ?_
  refine (ensures_before (processCaDatabase_moves _ _ _ _)).bind fun _ => ?_
  refine (ensures_before updateBrokers_moves).bind fun _ => ?_
  have hgive : Ensures (KeepsConfig db) (give (.revoked cert.serial now))
      (fun _ => Grows own db) (Grows own db) := by
    refine .modify fun s hs => hs.grows.trans (.of_given ?_ (List.pairwise_singleton _ _))
    intro g hg
    rw [List.mem_singleton.mp hg]
    trivial
  exact hgive.bind fun _ => .pure fun _ hs => ⟨rfl, hs⟩

theorem revokeSubordinate_ensures {times : OpensslTimes} {id : Int} {now : Time} :
    Issues own db (revokeSubordinate times id now) := by
  refine (ensures_before (activeBroker_moves id)).bind fun broker => ?_
  refine revokeCertificate_ensures.bind fun issued => .of_and fun hissued => ?_
  have hbroker : Ensures (Grows own db) (brokerOf id) (fun _ => Grows own db)
      (Grows own db) :=
    (brokerOf_moves id).keep fun _ _ hs hst => hs.trans hst.grows
  refine hbroker.bind fun _ => .pure fun s hs => ?_
  rw [hissued]
  exact ⟨hs, gaveOut_nothing⟩

theorem renameCertbundle_ensures {srcTitle dstTitle : String}
    {renamed : Except OpcaError Unit} :
    Issues own db (renameCertbundle srcTitle dstTitle renamed) := by
  refine (ensures_before (queryCert_moves _ _)).bind fun found => ?_
  cases found with
  | none => exact .throw fun _ hs => hs.grows
  | some record =>
    refine (ensures_before .outcome).bind fun _ => ?_
    exact ensures_nothing (updateCerts_moves fun _ => rfl)

theorem deleteCertificate_ensures {times : OpensslTimes} {serial user : String}
    {archived : Except OpcaError Unit} {now : Time} :
    Issues own db (deleteCertificate times serial archived user now) := by
  refine (ensures_before (processCaDatabase_moves _ _ _ _)).bind fun _ => ?_
  refine (ensures_before (queryCert_moves _ _)).bind fun found => ?_
  cases found.filter (·.deletedAt.isNone) with
  | none => exact .throw fun _ hs => hs.grows
  | some cert =>
    refine (ensures_before require_moves).bind fun _ => ?_
    refine (ensures_before require_moves).bind fun _ => ?_
    refine (ensures_before .outcome).bind fun _ => ?_
    have hignore : Moves KeepsConfig
        (deleteCertificate.ignoreDeleted serial cert user (times.format now)) := by
      unfold deleteCertificate.ignoreDeleted
      split
      · exact ignoreCert_moves _ _ _ _ _
      · exact .pure
    refine (ensures_before hignore).bind fun _ => ?_
    exact ensures_nothing (markCertDeleted_moves _ _)

theorem publishable_moves (lookup : CertLookup) : Moves KeepsConfig (publishable lookup) := by
  have hcandidate : Moves KeepsConfig (publishable.candidate lookup) := by
    cases lookup with
    | serial value => exact queryCert_moves _ _
    | cn value => exact moves_of_ok (fun _ => rfl) fun _ => Std.Refl.refl _
    | title value => exact queryCert_moves _ _
  refine hcandidate.bind fun found => ?_
  cases found with
  | none => exact .throw
  | some cert =>
    refine require_moves.bind fun _ => ?_
    refine require_moves.bind fun _ => ?_
    exact require_moves.bind fun _ => .pure

theorem publishCertificate_ensures {lookup : CertLookup} {retrieved : Except OpcaError Bool}
    {uploaded : Except OpcaError Unit} {now : String} :
    Issues own db (publishCertificate lookup retrieved uploaded now) := by
  refine (ensures_before (publishable_moves lookup)).bind fun cert => ?_
  refine (ensures_before .outcome).bind fun expired => ?_
  refine (ensures_before require_moves).bind fun _ => ?_
  exact ensures_nothing (uploadPublished_moves _ _ _ _)

theorem backfillCert_moves {times : OpensslTimes} {serial : String}
    {bundle : Option CertAttribs} : Moves KeepsConfig (backfillCert times serial bundle) := by
  refine (queryCert_moves _ _).bind fun found => ?_
  cases found with
  | none => exact .throw
  | some record =>
    cases bundle with
    | none => exact .pure
    | some bundle =>
      have hdate : ∀ c, (backfillRecord times bundle c).revocationDate = c.revocationDate :=
        fun _ => rfl
      dsimp only
      split
      · exact (logged_moves (updateCerts_moves hdate)).bind fun _ => .pure
      · exact .pure

/-! ## Operations that move a counter otherwise -/

/-- The CA's own certificate that is imported as another's has a serial below the counter. -/
def Imported.BelowCounter (db : CaDatabase) (cert : Imported) : Prop :=
  cert.verified = true → ∀ n, parseI64 cert.serial = some n →
    n < db.tables.config.counter .cert

theorem storeExternal_ensures {times : OpensslTimes} {cert : Imported} {title : String}
    {stored : Except OpcaError Unit} {now : Time} (hbelow : own → cert.BelowCounter db) :
    Ensures (Grows own db) (storeExternal times cert title stored now)
      (fun _ => Grows own db) (Grows own db) := by
  refine storeCertbundle_ensures (fun _ _ hs hst => hs.trans hst) (addExternalCert_moves _) ?_
  intro hverified s hs hown n hn
  exact lt_of_lt_of_le (hbelow hown hverified n hn) (hs.counter .cert)

theorem importCertificateBundle_ensures {times : OpensslTimes} {cert : Imported}
    {title : String} {read stored : Except OpcaError Unit} {now : Time}
    (hroom : isCertValid cert now = true → ∀ serial, parseI64 cert.serial = some serial →
      db.tables.config.current .cert (some serial) < i64Max)
    (hbelow : own → isCertValid cert now = false → cert.BelowCounter db) :
    Issues own db (importCertificateBundle times cert title read stored now) := by
  have hdone : ∀ s, Grows own db s → Grows own db s ∧ GaveOut db s .nothing :=
    fun s hs => ⟨hs, gaveOut_nothing⟩
  refine (ensures_before .outcome).bind fun _ => ?_
  split
  next hvalid =>
    -- past the serial that is read, and where it was if none is
    have hadvance : Ensures (KeepsConfig db) (advanceSerial cert.serial)
        (fun _ s => Grows own db s ∧ ∀ n, parseI64 cert.serial = some n →
          n < s.tables.config.counter .cert) (Grows own db) := by
      unfold advanceSerial
      split
      next serial hserial =>
        refine (incrementSerial_ensures (hroom hvalid serial hserial)).bind fun n =>
          .of_and fun hn => .pure fun s hs => ⟨hs.grows, ?_⟩
        intro m hm
        rw [hserial] at hm
        cases hm
        have hpast : serial ≤ db.tables.config.current .cert (some serial) :=
          le_max_right _ _
        have hupper := hs.upper
        omega
      next hnone =>
        refine .pure fun s hs => ⟨hs.grows, ?_⟩
        intro n hn
        rw [hnone] at hn
        cases hn
    have hlater : ∀ s t, (Grows own db s ∧ ∀ n, parseI64 cert.serial = some n →
        n < s.tables.config.counter .cert) → Grows own s t →
        Grows own db t ∧ ∀ n, parseI64 cert.serial = some n →
          n < t.tables.config.counter .cert :=
      fun s t hs hst =>
        ⟨hs.1.trans hst, fun n hn => lt_of_lt_of_le (hs.2 n hn) (hst.counter .cert)⟩
    refine hadvance.bind fun _ => ?_
    refine Ensures.bind ?_ fun _ => .pure hdone
    exact (storeCertbundle_ensures hlater (addCert_moves _) fun _ s hs _ n hn => hs.2 n hn).imp
      (fun _ hs => hs) (fun _ _ hs => hs.1) fun _ hs => hs.1
  next hinvalid =>
    refine Ensures.bind ?_ fun _ => .pure hdone
    exact (storeExternal_ensures fun hown => hbelow hown (Bool.eq_false_iff.mpr hinvalid)).imp
      (fun _ hs => hs.grows) (fun _ _ hs => hs) fun _ hs => hs

theorem importCsrCert_ensures {times : OpensslTimes} {cert : Imported} {cn : String}
    {row : Option String} {read stored : Except OpcaError Unit} {now : Time}
    (hbelow : own → cert.BelowCounter db) :
    Issues own db (importCsrCert times cert cn row read stored now) := by
  refine (ensures_before .outcome).bind fun _ => ?_
  have hstore : Ensures (KeepsConfig db) (storeExternal times cert cn stored now)
      (fun _ => Grows own db) (Grows own db) :=
    (storeExternal_ensures hbelow).imp (fun _ hs => hs.grows) (fun _ _ hs => hs) fun _ hs => hs
  refine hstore.bind fun _ => ?_
  have hwrite : Ensures (Grows own db) (writeOther .csr cn row) (fun _ => Grows own db)
      (Grows own db) :=
    (writeOther_moves _ _ _).keep fun _ _ hs hst => hs.trans hst.grows
  exact hwrite.bind fun _ => .pure fun _ hs => ⟨hs, gaveOut_nothing⟩

theorem updateCaConfig_ensures {updates : CaConfig}
    (hraises : ∀ kind, db.tables.config.counter kind ≤
      (db.tables.config.update updates).counter kind) :
    Issues own db (updateCaConfig updates) := by
  refine (ensures_before .get).bind fun _ => ?_
  refine (ensures_before .outcome).bind fun _ => ?_
  have hupdate : Ensures (KeepsConfig db) (updateConfig updates) (fun _ => Grows own db)
      (Grows own db) := by
    intro s hs
    unfold updateConfig
    dsimp only
    rw [hs.config]
    refine ⟨hs.keeps, hraises, [], ?_, ?_, List.Pairwise.nil⟩
    · rw [List.append_nil]
      exact hs.given
    · exact fun _ hg => absurd hg List.not_mem_nil
  exact hupdate.bind fun _ => .pure fun _ hs => ⟨hs, gaveOut_nothing⟩

/-! ## CRLs -/

/-- A batch that fits below the largest number has its numbers one after the other. -/
theorem CrlBatch.number_eq {batch : CrlBatch}
    (hroom : batch.firstNumber + batch.count ≤ i64Max) {i : Nat} (hi : i < batch.count) :
    batch.number i = batch.firstNumber + i :=
  wrapI64_of_le (by omega)

theorem CrlBatch.mem_numbers {batch : CrlBatch}
    (hroom : batch.firstNumber + batch.count ≤ i64Max) {n : Int} :
    n ∈ batch.numbers ↔ ∃ i < batch.count, n = batch.firstNumber + i := by
  unfold CrlBatch.numbers
  simp only [List.mem_map, List.mem_range]
  constructor
  · rintro ⟨i, hi, rfl⟩
    exact ⟨i, hi, CrlBatch.number_eq hroom hi⟩
  · rintro ⟨i, hi, rfl⟩
    exact ⟨i, hi, CrlBatch.number_eq hroom hi⟩

theorem CrlBatch.numbers_increasing {batch : CrlBatch}
    (hroom : batch.firstNumber + batch.count ≤ i64Max) : batch.numbers.Pairwise (· < ·) := by
  unfold CrlBatch.numbers
  refine List.pairwise_map.mpr (List.Pairwise.imp_of_mem ?_ List.pairwise_lt_range)
  intro i j hi hj hij
  rw [CrlBatch.number_eq hroom (List.mem_range.mp hi),
    CrlBatch.number_eq hroom (List.mem_range.mp hj)]
  omega

/-- A batch's CRLs carry its numbers. -/
theorem buildCrls_ok {batch : CrlBatch} {entries : List CrlEntry}
    {signed : Except OpcaError Unit} {crls : List SignedCrl}
    (h : buildCrls batch entries signed = .ok crls) :
    crls = (List.range batch.count).map fun i =>
      ⟨batch.number i, batch.thisUpdate i, batch.nextUpdate i, entries⟩ := by
  unfold buildCrls at h
  split at h
  · cases h
  · cases signed with
    | error e => cases h
    | ok u =>
      cases h
      rfl

theorem numbers_of_buildCrls {batch : CrlBatch} {entries : List CrlEntry}
    {signed : Except OpcaError Unit} {crls : List SignedCrl}
    (h : buildCrls batch entries signed = .ok crls) :
    crls.map SignedCrl.number = batch.numbers := by
  rw [buildCrls_ok h, List.map_map]
  rfl

theorem Took.gaveOut_crl {batch : CrlBatch}
    (hroom : batch.firstNumber + batch.count ≤ i64Max)
    (h : Took own .crl batch.firstNumber batch.count db s) :
    GaveOut db s ⟨[], batch.numbers⟩ := by
  intro kind
  cases kind with
  | cert => exact ⟨List.nodup_nil, fun n hn => absurd hn List.not_mem_nil⟩
  | crl =>
    refine ⟨(CrlBatch.numbers_increasing hroom).imp fun hlt => ne_of_lt hlt, ?_⟩
    intro n hn
    obtain ⟨i, hi, rfl⟩ := (CrlBatch.mem_numbers hroom).mp hn
    have hlower := h.lower
    have hupper := h.upper
    omega

/-- A batch takes the rest of its numbers by the counter's new value. -/
theorem recordBatch_ensures (batchUri : Option String) (batch : CrlBatch)
    (hbatch : batchUri = none → batch.count = 1)
    (hroom : batch.firstNumber + batch.count ≤ i64Max)
    (hfirst : batch.firstNumber = db.tables.config.counter .crl) :
    Ensures (Taking own .crl batch.firstNumber 1 db) (recordBatch batchUri batch)
      (fun _ => Taking own .crl batch.firstNumber batch.count db) (Grows own db) := by
  have hkeep : ∀ {count : Nat} {m : DbM Unit}, Moves KeepsConfig m →
      Ensures (Taking own .crl batch.firstNumber count db) m
        (fun _ => Taking own .crl batch.firstNumber count db) (Grows own db) :=
    fun h => (h.keep fun _ _ hs hst => hs.keepsConfig hst).failing fun _ hs => hs.grows
  cases batchUri with
  | none =>
    rw [hbatch rfl]
    exact hkeep clearCrlBatch_moves
  | some uri =>
    have hupdate : Ensures (Taking own .crl batch.firstNumber 1 db)
        (updateConfig { nextCrlSerial := some (wrapI64 (batch.firstNumber + batch.count)) })
        (fun _ => Taking own .crl batch.firstNumber batch.count db) (Grows own db) := by
      rw [wrapI64_of_le hroom]
      intro s hs
      refine ⟨⟨⟨hs.grows.keeps, ?_, [], ?_, ?_, List.Pairwise.nil⟩, hs.lower, le_refl _⟩,
        hs.given⟩
      · intro kind
        cases kind with
        | cert => exact hs.grows.counter .cert
        | crl =>
          show db.tables.config.counter .crl ≤ batch.firstNumber + batch.count
          omega
      · rw [List.append_nil]
        exact hs.given
      · exact fun _ hg => absurd hg List.not_mem_nil
    exact hupdate.bind fun _ => hkeep (upsertCrlBatch_moves batch)

theorem crlPlan_pos (config : CaConfig) (batchUri : Option String) :
    0 < (crlPlan config batchUri).2 := by
  cases batchUri with
  | none => exact Nat.zero_lt_one
  | some uri => exact Nat.succ_pos 4

/-- The numbers of a batch are given out. -/
theorem giveNumbers_ensures {batch : CrlBatch} {crls : List SignedCrl}
    (hroom : batch.firstNumber + batch.count ≤ i64Max)
    (hnumbers : crls.map SignedCrl.number = batch.numbers) :
    Ensures (Taking own .crl batch.firstNumber batch.count db)
      (giveAll (crls.map (.crlNumber ·.number)))
      (fun _ => Took own .crl batch.firstNumber batch.count db) (Grows own db) := by
  have hgiven : crls.map (Given.crlNumber ·.number) = batch.numbers.map Given.crlNumber := by
    rw [← hnumbers, List.map_map]
    rfl
  rw [hgiven]
  refine .modify fun s hs => hs.give ?_ ?_
  · intro g hg
    obtain ⟨n, hn, rfl⟩ := List.mem_map.mp hg
    obtain ⟨i, hi, rfl⟩ := (CrlBatch.mem_numbers hroom).mp hn
    have hlower := hs.lower
    have hupper := hs.upper
    exact ⟨by omega, by omega⟩
  · exact List.pairwise_map.mpr (CrlBatch.numbers_increasing hroom)

/-- Some of a batch's CRLs are out. -/
theorem giveCrls_ensures {batch : CrlBatch} {out crls : List SignedCrl}
    (hroom : batch.firstNumber + batch.count ≤ i64Max)
    (hnumbers : crls.map SignedCrl.number = batch.numbers) (hout : ∀ crl ∈ out, crl ∈ crls) :
    Ensures (Took own .crl batch.firstNumber batch.count db)
      (giveAll (out.map (.crl ·.number)))
      (fun _ => Took own .crl batch.firstNumber batch.count db) (Grows own db) := by
  refine .modify fun s hs => hs.of_grows (.of_given ?_ ?_)
  · intro g hg
    obtain ⟨crl, hcrl, rfl⟩ := List.mem_map.mp hg
    have hn : crl.number ∈ batch.numbers := by
      rw [← hnumbers]
      exact List.mem_map_of_mem (hout crl hcrl)
    obtain ⟨i, hi, hn⟩ := (CrlBatch.mem_numbers hroom).mp hn
    have hupper := hs.upper
    show crl.number < _
    omega
  · exact List.pairwise_map.mpr (List.pairwise_of_forall fun _ _ => trivial)

theorem publishCrls_ensures {times : OpensslTimes} {batchUri : Option String}
    {batch : CrlBatch} {entries : List CrlEntry} {publishing : Publishing}
    (hbatch : batchUri = none → batch.count = 1)
    (hroom : batch.firstNumber + batch.count ≤ i64Max)
    (hfirst : batch.firstNumber = db.tables.config.counter .crl) :
    Ensures (Taking own .crl batch.firstNumber 1 db)
      (publishCrls times batchUri batch entries publishing)
      (fun crls s => Grows own db s ∧ GaveOut db s ⟨[], crls.map SignedCrl.number⟩)
      (Grows own db) := by
  have hbuild : Ensures (Taking own .crl batch.firstNumber 1 db)
      (outcome (buildCrls batch entries publishing.signed) : DbM (List SignedCrl))
      (fun crls s => buildCrls batch entries publishing.signed = .ok crls ∧
        Taking own .crl batch.firstNumber 1 db s) (Grows own db) :=
    .outcome (fun _ _ h hs => ⟨h, hs⟩) fun _ hs => hs.grows
  refine hbuild.bind fun crls => .of_and fun hcrls => ?_
  have hnumbers := numbers_of_buildCrls hcrls
  refine (recordBatch_ensures batchUri batch hbatch hroom hfirst).bind fun _ => ?_
  refine (giveNumbers_ensures hroom hnumbers).bind fun _ => ?_
  refine (ensures_after .outcome).bind fun issuer => ?_
  refine (ensures_after (upsertCrlMetadata_moves _)).bind fun _ => ?_
  refine (ensures_after .outcome).bind fun _ => ?_
  refine (giveCrls_ensures hroom hnumbers fun _ h => List.mem_of_mem_take h).bind fun _ => ?_
  refine .pure fun s hs => ⟨hs.grows, ?_⟩
  rw [hnumbers]
  exact hs.gaveOut_crl hroom

theorem generateCrl_ensures {times : OpensslTimes} {now : Time} {publishing : Publishing}
    (hroom : ∀ uri, crlBatchUri db.tables.config.read = .ok uri →
      db.tables.config.counter .crl + (crlPlan db.tables.config.read uri).2 ≤ i64Max) :
    Ensures (KeepsConfig db) (generateCrl times now publishing)
      (fun crls s => Grows own db s ∧ GaveOut db s ⟨[], crls.map SignedCrl.number⟩)
      (Grows own db) := by
  refine (ensures_before (processCaDatabase_moves _ _ _ _)).bind fun _ => ?_
  -- the configuration that is read is the one that the room was judged by
  have hget : Ensures (KeepsConfig db) (MonadState.get : DbM CaDatabase)
      (fun read s => read.tables.config = db.tables.config ∧ KeepsConfig db s) (Grows own db) :=
    .get fun s hs => ⟨hs.config, hs⟩
  refine hget.bind fun read => .of_and fun hconfig => ?_
  rw [hconfig]
  have huri : Ensures (KeepsConfig db) (outcome (crlBatchUri db.tables.config.read) : DbM _)
      (fun uri s => crlBatchUri db.tables.config.read = .ok uri ∧ KeepsConfig db s)
      (Grows own db) :=
    .outcome (fun _ _ h hs => ⟨h, hs⟩) fun _ hs => hs.grows
  refine huri.bind fun batchUri => .of_and fun hbatchUri => ?_
  refine (ensures_before Moves.outcome).bind fun _ => ?_
  refine (ensures_before crlEntries_moves).bind fun entries => ?_
  have hfits := hroom batchUri hbatchUri
  have hcount := crlPlan_pos db.tables.config.read batchUri
  have hcurrent : db.tables.config.current .crl none < i64Max := by
    show db.tables.config.counter .crl < i64Max
    omega
  refine (incrementSerial_ensures hcurrent).bind fun firstNumber => .of_and fun hfirst => ?_
  have hfirst' : firstNumber = db.tables.config.counter .crl := hfirst
  rw [← hfirst'] at hfits
  have hbatch : batchUri = none →
      (plannedBatch db.tables.config.read batchUri (wholeSeconds now) firstNumber).count = 1 := by
    intro h
    rw [h]
    rfl
  exact publishCrls_ensures hbatch hfits hfirst'

/-! ## Every operation -/

/-- The CA's own certificates that an operation imports as another's stay below the
counter. -/
def Operation.ImportsBelow (db : CaDatabase) : Operation → Prop
  | .importBundle cert _ _ _ now => isCertValid cert now = false → cert.BelowCounter db
  | .importCsrCert cert _ _ _ _ _ => cert.BelowCounter db
  | _ => True

/-- What a computation that gives out something does as an operation. -/
theorem ensures_some {m : DbM Issued} (h : Issues own db m) :
    Ensures (KeepsConfig db) (some <$> m)
      (fun result s => Grows own db s ∧ ∀ issued ∈ result, GaveOut db s issued)
      (Grows own db) := by
  refine h.map ?_
  rintro issued s ⟨hgrows, hgave⟩
  refine ⟨hgrows, ?_⟩
  rintro _ ⟨⟩
  exact hgave

/-- What changes rows and no counter, and says so or says nothing. -/
theorem ensures_rows {m : DbM α} (h : Moves KeepsConfig m) (result : α → Option Issued)
    (hresult : ∀ a, ∀ issued ∈ result a, issued = .nothing) :
    Ensures (KeepsConfig db) (do let a ← m; return result a)
      (fun result s => Grows own db s ∧ ∀ issued ∈ result, GaveOut db s issued)
      (Grows own db) := by
  refine (ensures_before h).bind fun a => .pure fun s hs => ⟨hs.grows, ?_⟩
  intro issued hissued
  rw [hresult a issued hissued]
  exact gaveOut_nothing

/-- No operation loses a row or takes a counter back, and what it gives out is new. -/
theorem Operation.run_ensures (times : OpensslTimes) {op : Operation}
    (hok : op.RaisesCounters db) (hbelow : own → op.ImportsBelow db) :
    Ensures (KeepsConfig db) (op.run times)
      (fun result s => Grows own db s ∧ ∀ issued ∈ result, GaveOut db s issued)
      (Grows own db) := by
  cases op with
  | generate itemTitle cert signing now =>
    exact ensures_some (issueBundle_ensures (fun _ _ => ensures_after .pure) hok)
  | signCsr cn cert signing now =>
    exact ensures_some (issueBundle_ensures (fun _ _ => ensures_after .pure) hok)
  | renew lookup cert signing renewing =>
    exact ensures_some (renewCertificateBundle_ensures hok)
  | rekey lookup cert signing renewing =>
    exact ensures_some (rekeyCertificateBundle_ensures hok)
  | signSubordinate cert signing permittedDomains endpoint now =>
    exact ensures_some (signSubordinate_ensures hok)
  | renewSubordinate id cert signing requested changeDomains user now =>
    exact ensures_some (renewSubordinate_ensures hok)
  | importBundle cert title read stored now =>
    exact ensures_some (importCertificateBundle_ensures hok hbelow)
  | importCsrCert cert cn row read stored now =>
    exact ensures_some (importCsrCert_ensures hbelow)
  | revoke lookup now =>
    refine ensures_some (revokeCertificate_ensures.imp (fun _ hs => hs) ?_ fun _ hs => hs)
    rintro issued s ⟨rfl, hs⟩
    exact ⟨hs, gaveOut_nothing⟩
  | revokeSubordinate id now => exact ensures_some revokeSubordinate_ensures
  | ignore serial note user now =>
    exact ensures_some (ensures_nothing (ignoreCert_moves _ _ _ _ _))
  | unignore serial => exact ensures_some (ensures_nothing (unignoreCert_moves _))
  | rename srcTitle dstTitle renamed => exact ensures_some renameCertbundle_ensures
  | delete serial archived user now => exact ensures_some deleteCertificate_ensures
  | publish lookup retrieved uploaded now => exact ensures_some publishCertificate_ensures
  | generateCrl now publishing =>
    refine (generateCrl_ensures hok).map ?_
    rintro crls s ⟨hgrows, hgave⟩
    refine ⟨hgrows, ?_⟩
    rintro _ ⟨⟩
    exact hgave
  | updateCaConfig updates => exact ensures_some (updateCaConfig_ensures hok)
  | reported id issuerState certs now =>
    have hmoves : Moves KeepsConfig (do
        Core.reported id issuerState (times.format now)
        recordBrokerCerts certs) :=
      (reported_moves _ _ _).bind fun _ => recordBrokerCerts_moves certs
    exact ensures_rows hmoves (fun _ => some .nothing) (by rintro _ _ ⟨⟩; rfl)
  | writeOther rows =>
    exact ensures_rows (.forM (fun row => writeOther_moves _ _ _) rows)
      (fun _ => some .nothing) (by rintro _ _ ⟨⟩; rfl)
  | rescan now =>
    refine ensures_rows (processCaDatabase_moves _ _ _ _)
      (fun changed => if changed then some .nothing else none) ?_
    intro changed issued hissued
    split at hissued
    · cases hissued
      rfl
    · cases hissued
  | backfill serial bundle =>
    refine ensures_rows backfillCert_moves
      (fun changed => if changed then some .nothing else none) ?_
    intro changed issued hissued
    split at hissued
    · cases hissued
      rfl
    · cases hissued

/-! ## Runs -/

/-- What was given out so far is in order, and the counters are past it. -/
structure InOrder (own : Prop) (db : CaDatabase) : Prop where
  before : db.given.Pairwise (Given.Before own)
  below : ∀ g ∈ db.given, g.Below own db

/-- And stays so. -/
theorem InOrder.grows (hs : InOrder own s) (h : Grows own s t) : InOrder own t := by
  obtain ⟨more, hgiven, hwithin, hbefore⟩ := h.given
  refine ⟨?_, ?_⟩
  · rw [hgiven]
    refine List.pairwise_append.mpr ⟨hs.before, hbefore, ?_⟩
    exact fun g hg g' hg' => (hs.below g hg).before (hwithin g' hg')
  · rw [hgiven]
    intro g hg
    rcases List.mem_append.mp hg with hg | hg
    · exact (hs.below g hg).mono h.counter
    · exact (hwithin g hg).below

end Opca.Core
