/-
  Core/LocalBackup.lean --- rolling local copies of the CA database: the files of one
  vault's directory, which are named by the clock and pruned by name
  (`services/local_backup.rs`).
-/
import Opca.Core.BrokerTimes
import Opca.Foundation.Machine

set_option autoImplicit false

namespace Opca.Core.LocalBackup

open Opca.Foundation Calendar Acme BrokerTimes

/-! ## The files -/

/-- Which vault a backup came from. -/
structure BackupSource where
  vault : String
  vaultId : Option String
  deriving DecidableEq, Repr

/-- The backup file's first line, as a SQL comment. -/
structure Header where
  account : String
  source : BackupSource
  takenAt : Time
  deriving DecidableEq, Repr

def filePrefix : String := "ca-database-"
def headerPrefix : String := "-- opca-backup "

/-- What is taken from `serde_json` and `chrono`. -/
structure Formats where
  encode : Header → String
  decode : String → Option Header
  /-- `%Y%m%dT%H%M%SZ`. -/
  parseStamp : String → Option Time

structure File where
  name : String
  contents : String
  deriving DecidableEq, Repr

/-- The vault's directory, its files in the order in which they were written. -/
structure Dir where
  files : List File
  /-- Every backup that was written, also those gone since. -/
  history : List File
  /-- Whether pruning has stopped short since it last went through. -/
  behind : Bool
  deriving DecidableEq, Repr

structure Store where
  account : String
  keep : Nat
  source : BackupSource

/-- What the file system answers during one call. -/
structure Io where
  list : Except OpcaError Unit
  /-- Whether the newest backup can be read. -/
  readable : Bool
  write : Except OpcaError Unit
  relist : Except OpcaError Unit
  /-- The removal that fails, and how. -/
  remove : Option (Nat × OpcaError)

/-- Nothing fails. -/
def Io.fine : Io := ⟨.ok (), true, .ok (), .ok (), none⟩

/-- One call of `write`, with the dump and the clock's reading. -/
structure Call where
  sql : String
  now : Time
  io : Io

/-! ## Reading a backup -/

/-- What follows the first newline, if there is one. -/
def afterLine : List Char → Option (List Char)
  | [] => none
  | c :: cs => if c = '\n' then some cs else afterLine cs

/-- The dump without the backup header line. -/
def stripHeader (contents : String) : String :=
  match stripPrefix headerPrefix contents with
  | some rest => ((afterLine rest.toList).map String.ofList).getD ""
  | none => contents

/-- `lines().next()`: what comes before the first line break. -/
def firstLine (text : String) : Option String :=
  if text = "" then none
  else
    let line := text.toList.takeWhile (· ≠ '\n')
    some (String.ofList (if line.getLast? = some '\r' then line.dropLast else line))

def readSource (formats : Formats) (contents : String) : Option BackupSource := do
  let line ← firstLine (← stripPrefix headerPrefix contents)
  (formats.decode line).map (·.source)

def stripSuffix (suffix s : String) : Option String :=
  if suffix.toList.isSuffixOf s.toList then
    some (String.ofList (s.toList.take (s.length - suffix.length)))
  else none

/-- When the backup was taken, from its filename. -/
def backupTime (formats : Formats) (name : String) : Option Time := do
  formats.parseStamp (← stripSuffix ".sql" (← stripPrefix filePrefix name))

/-! ## Writing -/

section

variable (formats : Formats) (store : Store)

/-- Regular backup files, in the order in which they were written. -/
def Dir.backups (d : Dir) : List File :=
  d.files.filter fun f => (backupTime formats f.name).isSome

/-- Regular backup files, oldest first. -/
def backupFiles (d : Dir) : List File := (d.backups formats).insertionSort (·.name ≤ ·.name)

/-- `%Y%m%dT%H%M%SZ`. -/
def stamp (m : Moment) : String :=
  padded 4 m.date.year.toNat ++ padded 2 m.date.month ++ padded 2 m.date.day ++ "T" ++
    padded 2 m.hour ++ padded 2 m.minute ++ padded 2 m.second ++ "Z"

def fileName (now : Time) : String := filePrefix ++ stamp (momentOf now) ++ ".sql"

/-- What a call writes. -/
def Call.file (call : Call) : File where
  name := fileName call.now
  contents := headerPrefix ++ formats.encode ⟨store.account, store.source, call.now⟩ ++ "\n" ++
    call.sql

/-- A file is written, in the place of one of its name. -/
def put (f : File) (d : Dir) : Dir :=
  { d with files := d.files.filter (·.name ≠ f.name) ++ [f], history := d.history ++ [f] }

def remove (names : List String) (d : Dir) : Dir :=
  { d with files := d.files.filter (·.name ∉ names) }

/-- The oldest beyond those to keep, by name. -/
def excess (d : Dir) : List String :=
  let files := backupFiles formats d
  (files.take (files.length - store.keep)).map (·.name)

def prune (io : Io) (d : Dir) : Dir × Except OpcaError Unit :=
  match io.relist with
  | .error e => ({ d with behind := true }, .error e)
  | .ok () =>
    let old := excess formats store d
    match io.remove with
    | some (k, e) =>
      if k < old.length then ({ remove (old.take k) d with behind := true }, .error e)
      else ({ remove old d with behind := false }, .ok ())
    | none => ({ remove old d with behind := false }, .ok ())

/-- Whether the newest backup is this dump already. -/
def unchanged (call : Call) (d : Dir) : Bool :=
  (backupFiles formats d).getLast?.any fun newest =>
    call.io.readable && decide (stripHeader newest.contents = call.sql)

/-- Write a backup unless it matches the newest one; returns the new file. -/
def write (call : Call) (d : Dir) : Dir × Except OpcaError (Option String) :=
  match call.io.list with
  | .error e => (d, .error e)
  | .ok () =>
    if unchanged formats call d then (d, .ok none)
    else match call.io.write with
      | .error e => (d, .error e)
      | .ok () =>
        let f := call.file formats store
        let (d, pruned) := prune formats store call.io (put f d)
        (d, pruned.map fun () => some f.name)

/-- Calls one after another, on a directory without backups. -/
def machine : Machine Dir Call where
  init d := d.backups formats = [] ∧ d.history = [] ∧ d.behind = false
  next d call := some (write formats store call d).1

end

/-! ## A file reads back -/

/-- JSON on one line that reads back, and stamps that are read. -/
structure Formats.Sound (formats : Formats) (store : Store) : Prop where
  decode_encode : ∀ now, (formats.decode (formats.encode ⟨store.account, store.source, now⟩)).map
    (·.source) = some store.source
  one_line : ∀ now, ∀ c ∈ (formats.encode ⟨store.account, store.source, now⟩).toList,
    c ≠ '\n' ∧ c ≠ '\r'
  parseStamp_stamp : ∀ m, InRange m → (formats.parseStamp (stamp m)).isSome = true

variable {formats : Formats} {store : Store} {call : Call} {d t : Dir} {f : File}

theorem stripSuffix_append (s suffix : String) : stripSuffix suffix (s ++ suffix) = some s := by
  unfold stripSuffix
  have hsuffix : suffix.toList.isSuffixOf (s ++ suffix).toList = true := by
    rw [String.toList_append, List.isSuffixOf_iff_suffix]
    exact List.suffix_append ..
  have hlength : (s ++ suffix).length - suffix.length = s.toList.length := by
    rw [String.length_append, String.length_toList]
    omega
  rw [if_pos hsuffix, hlength, String.toList_append, List.take_left, String.ofList_toList]

theorem afterLine_append {line : List Char} (h : ∀ c ∈ line, c ≠ '\n') (rest : List Char) :
    afterLine (line ++ '\n' :: rest) = some rest := by
  induction line with
  | nil => simp [afterLine]
  | cons c line ih =>
    have hc := h c (List.mem_cons_self ..)
    rw [List.cons_append, afterLine, if_neg hc]
    exact ih fun c hc => h c (List.mem_cons_of_mem _ hc)

theorem stripHeader_file (h : formats.Sound store) :
    stripHeader (call.file formats store).contents = call.sql := by
  have hline := h.one_line call.now
  rw [stripHeader, Call.file]
  dsimp only
  rw [String.append_assoc, String.append_assoc, stripPrefix_append]
  dsimp only
  have hlist : (formats.encode ⟨store.account, store.source, call.now⟩ ++
      ("\n" ++ call.sql)).toList =
      (formats.encode ⟨store.account, store.source, call.now⟩).toList ++
        '\n' :: call.sql.toList := by simp
  rw [hlist, afterLine_append fun c hc => (hline c hc).1]
  simp

theorem readSource_file (h : formats.Sound store) :
    readSource formats (call.file formats store).contents = some store.source := by
  have hline := h.one_line call.now
  have hdecode := h.decode_encode call.now
  rw [readSource, Call.file]
  dsimp only
  rw [String.append_assoc, String.append_assoc, stripPrefix_append]
  generalize formats.encode ⟨store.account, store.source, call.now⟩ = json at *
  have hlist : (json ++ ("\n" ++ call.sql)).toList =
      json.toList ++ '\n' :: call.sql.toList := by simp
  have hne : json ++ ("\n" ++ call.sql) ≠ "" := by
    intro hempty
    have := congrArg String.toList hempty
    rw [hlist] at this
    simp at this
  have htake : (json.toList ++ '\n' :: call.sql.toList).takeWhile (· ≠ '\n') = json.toList := by
    rw [List.takeWhile_append_of_pos fun c hc => by simpa using (hline c hc).1]
    simp
  have hlast : json.toList.getLast? ≠ some '\r' := fun hlast =>
    (hline '\r' (List.mem_of_getLast? hlast)).2 rfl
  simp only [Option.bind_eq_bind, Option.bind_some, firstLine, if_neg hne, hlist, htake,
    if_neg hlast, String.ofList_toList, hdecode]

theorem backupTime_stamp (text : String) :
    backupTime formats (filePrefix ++ text ++ ".sql") = formats.parseStamp text := by
  have hprefix : stripPrefix filePrefix (filePrefix ++ text ++ ".sql") = some (text ++ ".sql") := by
    rw [String.append_assoc, stripPrefix_append]
  simp only [backupTime, hprefix, stripSuffix_append, Option.bind_eq_bind, Option.bind_some]

theorem backupTime_fileName (h : formats.Sound store) {now : Time}
    (hrange : InRange (momentOf now)) : (backupTime formats (fileName now)).isSome = true := by
  have hread := h.parseStamp_stamp _ hrange
  rwa [← backupTime_stamp] at hread

/-! ## Names in the order of writing -/

/-- A call that makes no backup, as the file system fails it or there is none to make. -/
def Idle (formats : Formats) (d : Dir) (call : Call) : Prop :=
  call.io.list ≠ .ok () ∨ unchanged formats call d = true ∨ call.io.write ≠ .ok ()

/-- The name that the clock gives sorts after every backup's, or the only backup is the
one of that name. -/
def InOrder (formats : Formats) (d : Dir) (call : Call) : Prop :=
  Idle formats d call ∨ InRange (momentOf call.now) ∧
    ∀ f ∈ d.backups formats, f.name < fileName call.now ∨
      d.backups formats = [f] ∧ f.name = fileName call.now

/-- The backups are the last that were written, oldest first by name. -/
structure Kept (formats : Formats) (keep : Nat) (d : Dir) : Prop where
  suffix : d.backups formats <:+ d.history
  ordered : (d.backups formats).Pairwise (·.name < ·.name)
  few : d.behind = false → (d.backups formats).length ≤ keep

theorem Kept.backupFiles_eq {keep : Nat} (h : Kept formats keep d) :
    backupFiles formats d = d.backups formats :=
  (h.ordered.imp fun hlt => le_of_lt hlt).insertionSort_eq

theorem backups_put (hf : (backupTime formats f.name).isSome = true) :
    (put f d).backups formats = (d.backups formats).filter (·.name ≠ f.name) ++ [f] := by
  simp only [Dir.backups, put, List.filter_append, List.filter_filter, List.filter_cons, hf,
    if_true, List.filter_nil, Bool.and_comm]

theorem backups_remove (names : List String) :
    (remove names d).backups formats = (d.backups formats).filter (·.name ∉ names) := by
  simp only [Dir.backups, remove, List.filter_filter, Bool.and_comm]

/-- To take the first names away is to take the first files away. -/
theorem filter_take {files : List File} (h : files.Pairwise (·.name < ·.name)) (k : Nat) :
    files.filter (·.name ∉ (files.take k).map (·.name)) = files.drop k := by
  conv_lhs => rw [← List.take_append_drop k files]
  rw [← List.take_append_drop k files, List.pairwise_append] at h
  obtain ⟨-, -, hcross⟩ := h
  rw [List.filter_append, List.take_append_drop]
  have htake : (files.take k).filter (·.name ∉ (files.take k).map (·.name)) = [] := by
    simp only [List.filter_eq_nil_iff, decide_eq_true_eq, not_not]
    exact fun f hf => List.mem_map_of_mem hf
  have hdrop : (files.drop k).filter (·.name ∉ (files.take k).map (·.name)) = files.drop k := by
    simp only [List.filter_eq_self, decide_eq_true_eq, List.mem_map, not_exists, not_and]
    intro f hf g hg hname
    exact String.lt_irrefl _ (hname ▸ hcross g hg f hf)
  rw [htake, hdrop, List.nil_append]

/-- What pruning leaves of backups that are in order. -/
theorem prune_spec {io : Io} {result : Except OpcaError Unit}
    (hordered : (d.backups formats).Pairwise (·.name < ·.name))
    (h : prune formats store io d = (t, result)) :
    t.history = d.history ∧
      (∃ k ≤ (d.backups formats).length - store.keep,
        t.backups formats = (d.backups formats).drop k) ∧
      (result = .ok () ∨ t.behind = false →
        (t.backups formats).length ≤ store.keep) := by
  have hsorted : backupFiles formats d = d.backups formats :=
    (hordered.imp fun hlt => le_of_lt hlt).insertionSort_eq
  have hexcess : excess formats store d =
      ((d.backups formats).take ((d.backups formats).length - store.keep)).map (·.name) := by
    rw [excess, hsorted]
  have hremove : ∀ k, (remove (((d.backups formats).take k).map (·.name)) d).backups formats =
      (d.backups formats).drop k := fun k => by
    rw [backups_remove, filter_take hordered]
  have hwhole : ((d.backups formats).drop
      ((d.backups formats).length - store.keep)).length ≤ store.keep := by
    rw [List.length_drop]
    omega
  unfold prune at h
  split at h
  · cases h
    exact ⟨rfl, ⟨0, Nat.zero_le _, rfl⟩, by simp⟩
  · rw [hexcess] at h
    dsimp only at h
    split at h
    · next k e hfails =>
      split at h
      · next hlt =>
        cases h
        refine ⟨rfl, ⟨min k ((d.backups formats).length - store.keep), min_le_right .., ?_⟩,
          by simp⟩
        rw [← hremove, ← List.take_take, List.map_take, List.map_take]
        simp only [List.map_take]
        rfl
      · cases h
        exact ⟨rfl, ⟨_, le_rfl, hremove _⟩, fun _ => (congrArg List.length (hremove _)).trans_le
          hwhole⟩
    · cases h
      exact ⟨rfl, ⟨_, le_rfl, hremove _⟩, fun _ => (congrArg List.length (hremove _)).trans_le
        hwhole⟩

/-- A backup that is put in order is the last of those in order. -/
theorem Kept.put {keep : Nat} (h : Kept formats keep d)
    (hf : (backupTime formats f.name).isSome = true)
    (hafter : ∀ g ∈ d.backups formats, g.name < f.name ∨
      d.backups formats = [g] ∧ g.name = f.name) :
    ∃ before, (LocalBackup.put f d).backups formats = before ++ [f] ∧
      before ++ [f] <:+ d.history ++ [f] ∧ (before ++ [f]).Pairwise (·.name < ·.name) := by
  rw [backups_put hf]
  refine ⟨_, rfl, ?_⟩
  by_cases honly : ∃ g, d.backups formats = [g] ∧ g.name = f.name
  · obtain ⟨g, hg, hname⟩ := honly
    have hnone : (d.backups formats).filter (·.name ≠ f.name) = [] := by
      rw [hg]
      simp [hname]
    rw [hnone]
    exact ⟨List.suffix_append .., List.pairwise_singleton ..⟩
  · have hlt : ∀ g ∈ d.backups formats, g.name < f.name := fun g hg =>
      (hafter g hg).resolve_right fun hsame => honly ⟨g, hsame⟩
    have hall : (d.backups formats).filter (·.name ≠ f.name) = d.backups formats := by
      simp only [List.filter_eq_self, decide_eq_true_eq]
      exact fun g hg hname => String.lt_irrefl _ (hname ▸ hlt g hg)
    rw [hall]
    constructor
    · obtain ⟨gone, hgone⟩ := h.suffix
      exact ⟨gone, by rw [← hgone, List.append_assoc]⟩
    · rw [List.pairwise_append]
      refine ⟨h.ordered, List.pairwise_singleton .., fun g hg last hlast => ?_⟩
      rw [List.mem_singleton.mp hlast]
      exact hlt g hg

/-- What a call does that is in order. -/
theorem Kept.write (hformats : formats.Sound store) (hkeep : 1 ≤ store.keep)
    (h : Kept formats store.keep d) (horder : InOrder formats d call)
    {result : Except OpcaError (Option String)}
    (hwrite : LocalBackup.write formats store call d = (t, result)) :
    Kept formats store.keep t ∧
      (∀ path, result = .ok (some path) →
        (t.backups formats).length ≤ store.keep ∧ path = (call.file formats store).name ∧
          (t.backups formats).getLast? = some (call.file formats store) ∧
          t.history.getLast? = some (call.file formats store)) ∧
      (result = .ok none → t = d ∧ ∃ newest, (d.backups formats).getLast? = some newest ∧
        d.history.getLast? = some newest ∧ stripHeader newest.contents = call.sql) := by
  unfold LocalBackup.write at hwrite
  split at hwrite
  · cases hwrite
    exact ⟨h, nofun, nofun⟩
  · next hlist =>
    split at hwrite
    · next hsame =>
      cases hwrite
      refine ⟨h, nofun, fun _ => ⟨rfl, ?_⟩⟩
      rw [unchanged, h.backupFiles_eq, Option.any_eq_true] at hsame
      obtain ⟨newest, hnewest, hsame⟩ := hsame
      rw [Bool.and_eq_true, decide_eq_true_eq] at hsame
      refine ⟨newest, hnewest, ?_, hsame.2⟩
      obtain ⟨gone, hgone⟩ := h.suffix
      rw [← hgone, List.getLast?_append, hnewest]
      rfl
    · next hchanged =>
      split at hwrite
      · cases hwrite
        exact ⟨h, nofun, nofun⟩
      · next hwritten =>
        dsimp only at hwrite
        obtain ⟨hrange, hafter⟩ : InRange (momentOf call.now) ∧
            ∀ f ∈ d.backups formats, f.name < fileName call.now ∨
              d.backups formats = [f] ∧ f.name = fileName call.now := by
          rcases horder with (hidle | hidle | hidle) | horder
          · exact absurd hlist hidle
          · exact absurd hidle hchanged
          · exact absurd hwritten hidle
          · exact horder
        obtain ⟨before, hbackups, hsuffix, hordered⟩ :=
          h.put (f := call.file formats store) (backupTime_fileName hformats hrange) hafter
        rw [← hbackups] at hsuffix hordered
        cases hprune : prune formats store call.io
            (LocalBackup.put (call.file formats store) d) with
        | mk t' pruned =>
        rw [hprune] at hwrite
        cases hwrite
        obtain ⟨hhistory, ⟨k, hk, hdrop⟩, hfew⟩ := prune_spec hordered hprune
        rw [hbackups, List.length_append, List.length_singleton] at hk
        have hlast : (t'.backups formats).getLast? = some (call.file formats store) := by
          rw [hdrop, hbackups, List.drop_append_of_le_length (by omega), List.getLast?_append]
          rfl
        refine ⟨⟨?_, ?_, fun hbehind => hfew (Or.inr hbehind)⟩, fun path hpath => ?_,
          fun hnone => ?_⟩
        · rw [hdrop, hhistory]
          exact (List.drop_suffix ..).trans hsuffix
        · rw [hdrop]
          exact hordered.sublist (List.drop_sublist ..)
        · cases pruned with
          | error e => cases hpath
          | ok u =>
            cases hpath
            refine ⟨hfew (Or.inl rfl), rfl, hlast, ?_⟩
            rw [hhistory]
            exact List.getLast?_concat ..
        · cases pruned with
          | error e => cases hnone
          | ok u => cases hnone

theorem kept_of_reachable (hformats : formats.Sound store) (hkeep : 1 ≤ store.keep)
    (hd : ((machine formats store).system.restrict (InOrder formats)).Reachable d) :
    Kept formats store.keep d := by
  induction hd with
  | init hinit =>
    obtain ⟨hnone, hhistory, -⟩ := hinit
    refine ⟨?_, ?_, fun _ => ?_⟩ <;> rw [hnone]
    · exact List.nil_suffix
    · exact List.Pairwise.nil
    · exact Nat.zero_le _
  | step _ hstep ih =>
    obtain ⟨horder, hstep⟩ := hstep
    obtain rfl := Option.some.inj hstep
    exact (ih.write hformats hkeep horder rfl).1

/-- In every run whose backups are named in the order in which they are made, a call
that gives a path leaves that file, which holds the dump and the source; the backups
are the last that were written, as many as are kept once pruning has gone through; and
a call that gives none has found its dump in the last. -/
theorem keeps_newest (formats : Formats) (store : Store) (hformats : formats.Sound store)
    (hkeep : 1 ≤ store.keep) (d : Dir)
    (hd : ((machine formats store).system.restrict (InOrder formats)).Reachable d)
    (call : Call) (horder : InOrder formats d call) (t : Dir)
    (result : Except OpcaError (Option String))
    (hwrite : write formats store call d = (t, result)) :
    t.backups formats <:+ t.history ∧
      (t.behind = false → (t.backups formats).length ≤ store.keep) ∧
      (∀ path, result = .ok (some path) →
        (t.backups formats).length ≤ store.keep ∧
        ∃ f ∈ t.files, f.name = path ∧ t.history.getLast? = some f ∧
          stripHeader f.contents = call.sql ∧
          readSource formats f.contents = some store.source) ∧
      (result = .ok none → ∃ f ∈ t.files, t.history.getLast? = some f ∧
        stripHeader f.contents = call.sql) := by
  obtain ⟨hkept, hsome, hnone⟩ :=
    (kept_of_reachable hformats hkeep hd).write hformats hkeep horder hwrite
  refine ⟨hkept.suffix, hkept.few, fun path hpath => ?_, fun hresult => ?_⟩
  · obtain ⟨hfew, rfl, hlast, hhistory⟩ := hsome path hpath
    exact ⟨hfew, _, List.mem_of_mem_filter (List.mem_of_getLast? hlast), rfl, hhistory,
      stripHeader_file hformats, readSource_file hformats⟩
  · obtain ⟨rfl, newest, hlast, hhistory, hsame⟩ := hnone hresult
    exact ⟨newest, List.mem_of_mem_filter (List.mem_of_getLast? hlast), hhistory, hsame⟩

/-! ## A clock that steps back -/

/-- `YYYYMMDDTHHMMSSZ`, as the second it names. -/
def stampSeconds : List Char → Option Int
  | [y₁, y₂, y₃, y₄, m₁, m₂, d₁, d₂, 'T', h₁, h₂, n₁, n₂, s₁, s₂, 'Z'] =>
    secondsOf [y₁, y₂, y₃, y₄, '-', m₁, m₂, '-', d₁, d₂, 'T', h₁, h₂, ':', n₁, n₂, ':', s₁, s₂]
  | _ => none

def parseStamp (text : String) : Option Time := (stampSeconds text.toList).map (· * second)

theorem parseStamp_stamp {m : Moment} (h : InRange m) : parseStamp (stamp m) =
    some (m.seconds * second) := by
  have hread := h.secondsOf_plain
  obtain ⟨hyear, hmonth, hday, hhour, hminute, hsecond⟩ := h.lengths
  obtain ⟨y₁, y₂, y₃, y₄, hyear⟩ := List.length_eq_four.mp hyear
  obtain ⟨m₁, m₂, hmonth⟩ := List.length_eq_two.mp hmonth
  obtain ⟨d₁, d₂, hday⟩ := List.length_eq_two.mp hday
  obtain ⟨h₁, h₂, hhour⟩ := List.length_eq_two.mp hhour
  obtain ⟨n₁, n₂, hminute⟩ := List.length_eq_two.mp hminute
  obtain ⟨s₁, s₂, hsecond⟩ := List.length_eq_two.mp hsecond
  have hstamp : (stamp m).toList = [y₁, y₂, y₃, y₄, m₁, m₂, d₁, d₂, 'T', h₁, h₂, n₁, n₂, s₁, s₂,
      'Z'] := by
    simp [stamp, hyear, hmonth, hday, hhour, hminute, hsecond]
  have hplain : (plain m).toList = [y₁, y₂, y₃, y₄, '-', m₁, m₂, '-', d₁, d₂, 'T', h₁, h₂, ':',
      n₁, n₂, ':', s₁, s₂] := by
    simp [plain, hyear, hmonth, hday, hhour, hminute, hsecond]
  rw [parseStamp, hstamp, stampSeconds, ← hplain, hread, Option.map_some]

/-- The header that is written on the second of January 1970. -/
def sampleHeader : Header := ⟨"user", ⟨"CA", some "abc"⟩, 86400 * second⟩

def sampleJson : String :=
  "\x7b\"account\":\"user\",\"vault\":\"CA\",\"vault_id\":\"abc\"," ++
    "\"taken_at\":\"1970-01-02T00:00:00Z\"\x7d"

def sampleFormats : Formats where
  encode _ := sampleJson
  decode text := if text = sampleJson then some sampleHeader else none
  parseStamp := parseStamp

def sampleStore : Store := ⟨"user", 1, ⟨"CA", some "abc"⟩⟩

theorem sampleJson_oneLine :
    (sampleJson.toList.all fun c => decide (c ≠ '\n' ∧ c ≠ '\r')) = true := by decide +kernel

theorem sampleFormats_sound : sampleFormats.Sound sampleStore where
  decode_encode _ := by
    simp only [sampleFormats, if_true, Option.map_some, sampleHeader, sampleStore]
  one_line _ := by
    intro c hc
    exact of_decide_eq_true (List.all_eq_true.mp sampleJson_oneLine c hc)
  parseStamp_stamp m h := by
    have hparse : sampleFormats.parseStamp = parseStamp := rfl
    rw [hparse, parseStamp_stamp h]
    rfl

def emptyDir : Dir := ⟨[], [], false⟩

def afterFirst : Dir :=
  (write sampleFormats sampleStore ⟨"a", 86400 * second, .fine⟩ emptyDir).1

/-- On the next day another dump is written, which the first makes room for. -/
def afterNext : Dir :=
  (write sampleFormats sampleStore ⟨"b", 172800 * second, .fine⟩ afterFirst).1

theorem inOrder_later {call : Call} {d : Dir} (hrange : InRange (momentOf call.now))
    (h : ∀ f ∈ d.backups sampleFormats, f.name < fileName call.now) :
    InOrder sampleFormats d call := .inr ⟨hrange, fun f hf => .inl (h f hf)⟩

theorem reachable_afterFirst :
    ((machine sampleFormats sampleStore).system.restrict (InOrder sampleFormats)).Reachable
      afterFirst :=
  .step (.init (s := emptyDir) ⟨rfl, rfl, rfl⟩) (l := ⟨"a", 86400 * second, .fine⟩)
    ⟨inOrder_later (inRange_momentOf (by decide) (by decide)) nofun, rfl⟩

/-- The first backup is pruned for the second, and the second is not written again. -/
theorem keeps_newest_pruned :
    (write sampleFormats sampleStore ⟨"b", 259200 * second, .fine⟩ afterNext).2 = .ok none ∧
      afterNext.history.length = 2 ∧ (afterNext.backups sampleFormats).length ≤ 1 ∧
      (∃ f ∈ afterNext.files, f.name = "ca-database-19700103T000000Z.sql" ∧
        afterNext.history.getLast? = some f ∧ stripHeader f.contents = "b" ∧
        readSource sampleFormats f.contents = some sampleStore.source) ∧
      ∃ f ∈ (write sampleFormats sampleStore ⟨"b", 259200 * second, .fine⟩ afterNext).1.files,
        stripHeader f.contents = "b" := by
  have hnext : InOrder sampleFormats afterFirst ⟨"b", 172800 * second, .fine⟩ :=
    inOrder_later (inRange_momentOf (by decide) (by decide)) (by decide +kernel)
  have hpath : (write sampleFormats sampleStore ⟨"b", 172800 * second, .fine⟩ afterFirst).2 =
      .ok (some "ca-database-19700103T000000Z.sql") := by decide +kernel
  have hagain : (write sampleFormats sampleStore ⟨"b", 259200 * second, .fine⟩ afterNext).2 =
      .ok none := by decide +kernel
  obtain ⟨-, -, hsome, -⟩ := keeps_newest sampleFormats sampleStore sampleFormats_sound le_rfl
    afterFirst reachable_afterFirst _ hnext afterNext _ rfl
  obtain ⟨-, -, -, hnone⟩ := keeps_newest sampleFormats sampleStore sampleFormats_sound le_rfl
    afterNext (.step reachable_afterFirst ⟨hnext, rfl⟩) ⟨"b", 259200 * second, .fine⟩
    (inOrder_later (inRange_momentOf (by decide) (by decide)) (by decide +kernel)) _ _ rfl
  obtain ⟨hfew, hfile⟩ := hsome _ hpath
  obtain ⟨f, hf, -, hdump⟩ := hnone hagain
  exact ⟨hagain, by decide +kernel, hfew, hfile, f, hf, hdump⟩

def afterSecond : Dir := (write sampleFormats sampleStore ⟨"b", 0, .fine⟩ afterFirst).1

/-- The second backup is made by a clock that was set back, and pruned as the older of
the two; one dump more, which is the first one's, is taken for the last. -/
theorem steppedBack_loses :
    (write sampleFormats sampleStore ⟨"b", 0, .fine⟩ afterFirst).2 =
        .ok (some "ca-database-19700101T000000Z.sql") ∧
      afterSecond.files.all (·.name ≠ "ca-database-19700101T000000Z.sql") = true ∧
      (write sampleFormats sampleStore ⟨"a", 86400 * second, .fine⟩ afterSecond).2 = .ok none ∧
      afterSecond.history.getLast?.all (fun f => stripHeader f.contents ≠ "a") = true := by
  decide +kernel

end Opca.Core.LocalBackup
