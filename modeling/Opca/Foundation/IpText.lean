/-
  Foundation/IpText.lean --- IP addresses as Rust's `std::net` writes them, and that what
  is written is read back.

  A reader stops where a text stops: each lemma leaves what follows open, as far as
  it does not go on with what was read.
-/
import Opca.Foundation.IpAddr
import Mathlib.Data.List.Basic
import Mathlib.Data.Nat.Digits.Defs

set_option autoImplicit false

namespace Opca.Foundation.IpAddr

/-! ## Writing -/

def ipv4Text (a b c d : Nat) : List Char :=
  Nat.toDigits 10 a ++ '.' :: (Nat.toDigits 10 b ++ '.' :: (Nat.toDigits 10 c ++
    '.' :: Nat.toDigits 10 d))

/-- Groups that each come after a colon. -/
def afterColons (groups : List Nat) : List Char :=
  groups.flatMap fun group => ':' :: Nat.toDigits 16 group

/-- `fmt_subslice`. -/
def fmtSubslice : List Nat → List Char
  | [] => []
  | first :: tail => Nat.toDigits 16 first ++ afterColons tail

structure Span where
  start : Nat
  len : Nat
  deriving DecidableEq, Repr

/-- One zero more, of group `i`. -/
def Span.grow (current : Span) (i : Nat) : Span :=
  ⟨if current.len = 0 then i else current.start, current.len + 1⟩

/-- The first longest run of zero groups, going on from the longest and the current one
before group `i`. -/
def longestZeroes (i : Nat) (longest current : Span) : List Nat → Span
  | [] => longest
  | segment :: segments =>
    if segment = 0 then
      longestZeroes (i + 1)
        (if longest.len < (current.grow i).len then current.grow i else longest)
        (current.grow i) segments
    else longestZeroes (i + 1) longest ⟨0, 0⟩ segments

def zeroes (groups : List Nat) : Span := longestZeroes 0 ⟨0, 0⟩ ⟨0, 0⟩ groups

def ipv6Text (groups : List Nat) : List Char :=
  match groups with
  | [0, 0, 0, 0, 0, 0xffff, ab, cd] =>
    "::ffff:".toList ++ ipv4Text (ab / 256) (ab % 256) (cd / 256) (cd % 256)
  | groups =>
    if 1 < (zeroes groups).len then
      fmtSubslice (groups.take (zeroes groups).start) ++ "::".toList ++
        fmtSubslice (groups.drop ((zeroes groups).start + (zeroes groups).len))
    else fmtSubslice groups

/-- `Display`. -/
def text : IpAddr → String
  | .v4 a b c d => String.ofList (ipv4Text a.toNat b.toNat c.toNat d.toNat)
  | .v6 groups => String.ofList (ipv6Text (groups.toList.map UInt16.toNat))

example : text (.v6 #v[0x2001, 0xdb8, 0, 0, 1, 0, 0, 0]) = "2001:db8:0:0:1::" ∧
    text (.v6 #v[0, 0, 0, 0, 0, 0xffff, 0xa00, 1]) = "::ffff:10.0.0.1" := by
  decide

/-! ## Numbers -/

/-- What follows a number does not go on with it. -/
def Stops (radix : Nat) (rest : List Char) : Prop :=
  ∀ c ∈ rest.head?, toDigit radix c = none

theorem stops_nil (radix : Nat) : Stops radix [] := fun _ hc => by cases hc

theorem stops_colon {radix : Nat} {rest : List Char} : Stops radix (':' :: rest) := by
  intro c hc
  cases Option.mem_some.mp hc
  rfl

theorem stops_dot {radix : Nat} {rest : List Char} : Stops radix ('.' :: rest) := by
  intro c hc
  cases Option.mem_some.mp hc
  rfl

theorem toDigit_digitChar {radix d : Nat} (hradix : radix ≤ 16) (hd : d < radix) :
    toDigit radix (Nat.digitChar d) = some d := by
  have hsixteen : ∀ d : Fin 16, toDigit 16 (Nat.digitChar d) = some d.val := by decide
  have hvalue := hsixteen ⟨d, by omega⟩
  unfold toDigit at hvalue ⊢
  rw [Option.filter_eq_some_iff] at hvalue ⊢
  exact ⟨hvalue.1, decide_eq_true hd⟩

theorem digits_append {radix : Nat} {ds : List Nat} {rest : List Char} (hradix : radix ≤ 16)
    (hds : ∀ d ∈ ds, d < radix) (hstop : Stops radix rest) :
    digits radix (ds.map Nat.digitChar ++ rest) = (ds, rest) := by
  induction ds with
  | nil =>
    cases rest with
    | nil => rfl
    | cons c cs =>
      rw [List.map_nil, List.nil_append, digits, hstop c rfl]
  | cons d ds ih =>
    rw [List.map_cons, List.cons_append, digits,
      toDigit_digitChar hradix (hds d List.mem_cons_self),
      ih fun e he => hds e (List.mem_cons_of_mem _ he)]

/-- The digits that a number is written with. -/
structure DigitsOf (radix n : Nat) (ds : List Nat) : Prop where
  text : Nat.toDigits radix n = ds.map Nat.digitChar
  below : ∀ d ∈ ds, d < radix
  value : ds.foldl (fun n d => n * radix + d) 0 = n
  /-- A number of several digits starts with none that is zero. -/
  lead : ds.head? = some 0 → ds.length = 1

theorem exists_digitsOf {radix : Nat} (hradix : 1 < radix) (n : Nat) :
    ∃ ds, DigitsOf radix n ds := by
  induction n using Nat.strongRecOn with
  | ind n ih =>
    by_cases hlt : n < radix
    · refine ⟨[n], Nat.toDigits_of_lt_base hlt, ?_, ?_, fun _ => rfl⟩
      · intro d hd
        rw [List.mem_singleton.mp hd]
        exact hlt
      · simp
    · obtain ⟨ds, hds⟩ := ih (n / radix) (Nat.div_lt_self (by omega) hradix)
      have hquot : n / radix ≠ 0 := by
        rw [Nat.div_ne_zero_iff]
        omega
      refine ⟨ds ++ [n % radix], ?_, ?_, ?_, ?_⟩
      · rw [Nat.toDigits_of_base_le hradix (by omega), hds.text]
        simp
      · intro d hd
        rcases List.mem_append.mp hd with hd | hd
        · exact hds.below d hd
        · rw [List.mem_singleton.mp hd]
          exact Nat.mod_lt n (by omega)
      · rw [List.foldl_append, hds.value]
        exact Nat.div_add_mod' n radix
      · intro hzero
        cases ds with
        | nil =>
          have hvalue := hds.value
          exact absurd hvalue.symm hquot
        | cons d rest =>
          have hone := hds.lead hzero
          have hrest : rest = [] := List.length_eq_zero_iff.mp (Nat.succ_injective hone)
          subst hrest
          have hd : d = 0 := Option.some.inj hzero
          have hvalue := hds.value
          rw [hd] at hvalue
          simp at hvalue
          omega

theorem readNumber_toDigits {radix maxDigits bound n : Nat} {allowZeroPrefix : Bool}
    {rest : List Char} (hbase : 1 < radix) (hradix : radix ≤ 16) (hmax : 0 < maxDigits)
    (hlen : n < radix ^ maxDigits) (hn : n < bound) (hstop : Stops radix rest) :
    readNumber radix maxDigits bound allowZeroPrefix (Nat.toDigits radix n ++ rest) =
      some (n, rest) := by
  obtain ⟨ds, hds⟩ := exists_digitsOf hbase n
  have hfew : ds.length ≤ maxDigits := by
    have := (Nat.length_toDigits_le_iff hbase hmax).mpr hlen
    rwa [hds.text, List.length_map] at this
  have hne : ds ≠ [] := by
    rintro rfl
    exact Nat.toDigits_ne_nil hds.text
  unfold readNumber
  rw [hds.text, digits_append hradix hds.below hstop]
  have hempty : (ds.isEmpty || decide (maxDigits < ds.length)) = false := by
    simp [hne, hfew]
  have hlead : (!allowZeroPrefix && decide (ds.head? = some 0) && decide (1 < ds.length)) =
      false := by
    by_cases hzero : ds.head? = some 0
    · simp [hds.lead hzero]
    · simp [hzero]
  simp only [hempty, hlead, hds.value, hn, if_true]
  rfl

/-! ## IPv4 addresses -/

theorem readIpv4_text {a b c d : Nat} {rest : List Char} (ha : a < 256) (hb : b < 256)
    (hc : c < 256) (hd : d < 256) (hstop : Stops 10 rest) :
    readIpv4 (ipv4Text a b c d ++ rest) = some ((a, b, c, d), rest) := by
  have hoctet {n : Nat} {rest : List Char} (hn : n < 256) (hstop : Stops 10 rest) :
      readNumber 10 3 256 false (Nat.toDigits 10 n ++ rest) = some (n, rest) :=
    readNumber_toDigits (by decide) (by decide) (by decide) (by omega) hn hstop
  unfold readIpv4 ipv4Text
  simp only [readSeparator, List.append_assoc, List.cons_append, readGivenChar, if_true,
    hoctet ha stops_dot, hoctet hb stops_dot, hoctet hc stops_dot, hoctet hd hstop,
    Option.bind_eq_bind, Option.bind_some, reduceIte, one_ne_zero, OfNat.ofNat_ne_zero]

/-- A text whose first dot, if it has one, comes after what is no decimal digit. -/
def DotLater (cs : List Char) : Prop :=
  ∀ taken more, cs = taken ++ '.' :: more → ∃ c ∈ taken, toDigit 10 c = none

theorem digits_eq_append {radix : Nat} (cs : List Char) :
    ∃ taken, cs = taken ++ (digits radix cs).2 ∧ ∀ c ∈ taken, toDigit radix c ≠ none := by
  induction cs with
  | nil => exact ⟨[], rfl, fun _ hc => by cases hc⟩
  | cons c cs ih =>
    cases hdigit : toDigit radix c with
    | none =>
      refine ⟨[], ?_, fun _ hc => by cases hc⟩
      rw [digits, hdigit]
      rfl
    | some d =>
      obtain ⟨taken, hcs, hall⟩ := ih
      refine ⟨c :: taken, ?_, ?_⟩
      · rw [digits, hdigit]
        exact congrArg (c :: ·) hcs
      · intro e he
        rcases List.mem_cons.mp he with rfl | he
        · rw [hdigit]
          exact Option.some_ne_none d
        · exact hall e he

theorem readNumber_rest {radix maxDigits bound n : Nat} {allowZeroPrefix : Bool}
    {cs rest : List Char}
    (h : readNumber radix maxDigits bound allowZeroPrefix cs = some (n, rest)) :
    rest = (digits radix cs).2 := by
  simp only [readNumber] at h
  split at h
  · cases h
  · split at h
    · cases h
    · split at h
      · exact (Prod.mk.inj (Option.some.inj h)).2.symm
      · cases h

theorem readIpv4_eq_none {cs : List Char} (h : DotLater cs) : readIpv4 cs = none := by
  unfold readIpv4
  cases hfirst : readNumber 10 3 256 false cs with
  | none => simp [readSeparator, hfirst]
  | some first =>
    obtain ⟨a, rest⟩ := first
    obtain ⟨taken, hcs, hall⟩ := @digits_eq_append 10 cs
    rw [← readNumber_rest hfirst] at hcs
    have hdot : readGivenChar '.' rest = none := by
      cases rest with
      | nil => rfl
      | cons c more =>
        refine if_neg ?_
        rintro rfl
        obtain ⟨c, hc, hnone⟩ := h taken more hcs
        exact hall c hc hnone
    simp [readSeparator, hfirst, hdot]

/-! ## Groups -/

/-- The text ends, or goes on with a colon. -/
def AtColon (rest : List Char) : Prop := rest = [] ∨ ∃ more, rest = ':' :: more

theorem AtColon.stops {radix : Nat} {rest : List Char} (h : AtColon rest) :
    Stops radix rest := by
  rcases h with rfl | ⟨more, rfl⟩
  · exact stops_nil radix
  · exact stops_colon

theorem ne_dot_of_mem_toDigits {n : Nat} {c : Char} (hc : c ∈ Nat.toDigits 16 n) :
    c ≠ '.' := by
  obtain ⟨ds, hds⟩ := @exists_digitsOf 16 (by decide) n
  rw [hds.text] at hc
  obtain ⟨d, hd, rfl⟩ := List.mem_map.mp hc
  have hall : ∀ d : Fin 16, Nat.digitChar d ≠ '.' := by decide
  exact hall ⟨d, hds.below d hd⟩

/-- What holds no dot up to a colon is no start of an IPv4 address. -/
theorem dotLater_of_ne_dot {g rest : List Char} (hg : ∀ c ∈ g, c ≠ '.') (hrest : AtColon rest) :
    DotLater (g ++ rest) := by
  intro taken more heq
  rcases List.append_eq_append_iff.mp heq with ⟨mid, htaken, hmid⟩ | ⟨mid, hmid, hmore⟩
  · rcases hrest with rfl | ⟨after, rfl⟩
    · cases mid <;> cases hmid
    · cases mid with
      | nil => cases hmid
      | cons c mid =>
        refine ⟨':', ?_, rfl⟩
        rw [htaken, ← (List.cons.inj hmid).1]
        exact List.mem_append_right _ List.mem_cons_self
  · cases mid with
    | nil => rcases hrest with rfl | ⟨after, rfl⟩ <;> cases hmore
    | cons c mid =>
      refine absurd (List.cons.inj hmore).1.symm (hg c ?_)
      rw [hmid]
      exact List.mem_append_right _ List.mem_cons_self

theorem dotLater_group {n : Nat} {rest : List Char} (h : AtColon rest) :
    DotLater (Nat.toDigits 16 n ++ rest) :=
  dotLater_of_ne_dot (fun _ => ne_dot_of_mem_toDigits) h

theorem dotLater_colon (rest : List Char) : DotLater (':' :: rest) := by
  intro taken more heq
  cases taken with
  | nil => cases heq
  | cons c taken =>
    refine ⟨c, List.mem_cons_self, ?_⟩
    rw [← (List.cons.inj heq).1]
    rfl

theorem dotLater_nil : DotLater [] := by
  intro taken more heq
  cases taken <;> cases heq

theorem readNumber_colon {radix maxDigits bound : Nat} {allowZeroPrefix : Bool}
    {rest : List Char} :
    readNumber radix maxDigits bound allowZeroPrefix (':' :: rest) = none := by
  unfold readNumber
  rw [digits, @stops_colon _ rest ':' rfl]
  rfl

theorem afterColons_atColon {groups : List Nat} {rest : List Char} (h : AtColon rest) :
    AtColon (afterColons groups ++ rest) := by
  cases groups with
  | nil => exact h
  | cons group groups => exact .inr ⟨_, rfl⟩

/-- One group, at the start or after a colon. -/
theorem readGroups_group {limit left index group : Nat} {acc : List Nat}
    {cs rest : List Char} (hgroup : group < 65536) (hrest : AtColon rest)
    (hcs : cs = if index = 0 then Nat.toDigits 16 group ++ rest
      else ':' :: (Nat.toDigits 16 group ++ rest)) :
    readGroups limit (left + 1) index acc cs =
      readGroups limit left (index + 1) (acc ++ [group]) rest := by
  have hipv4 : readSeparator ':' index readIpv4 cs = none := by
    unfold readSeparator
    by_cases hindex : index = 0
    · rw [if_pos hindex, hcs, if_pos hindex]
      exact readIpv4_eq_none (dotLater_group hrest)
    · rw [if_neg hindex, hcs, if_neg hindex]
      simp only [readGivenChar, if_true, Option.bind_some]
      exact readIpv4_eq_none (dotLater_group hrest)
  have hnumber : readNumber 16 4 65536 true (Nat.toDigits 16 group ++ rest) =
      some (group, rest) :=
    readNumber_toDigits (by decide) (by decide) (by decide) (by omega) hgroup hrest.stops
  have hread : readSeparator ':' index (readNumber 16 4 65536 true) cs = some (group, rest) := by
    unfold readSeparator
    by_cases hindex : index = 0
    · rw [if_pos hindex, hcs, if_pos hindex, hnumber]
    · rw [if_neg hindex, hcs, if_neg hindex]
      simp only [readGivenChar, if_true, Option.bind_some, hnumber]
  rw [readGroups, hipv4, ite_self, hread]

theorem readGroups_afterColons {limit left index : Nat} {acc groups : List Nat}
    {rest : List Char} (hindex : index ≠ 0) (hgroups : ∀ g ∈ groups, g < 65536)
    (hrest : AtColon rest) :
    readGroups limit (left + groups.length) index acc (afterColons groups ++ rest) =
      readGroups limit left (index + groups.length) (acc ++ groups) rest := by
  induction groups generalizing index acc with
  | nil => simp [afterColons]
  | cons group groups ih =>
    have htext : afterColons (group :: groups) ++ rest =
        ':' :: (Nat.toDigits 16 group ++ (afterColons groups ++ rest)) := by
      simp [afterColons]
    rw [List.length_cons, ← Nat.add_assoc, htext,
      readGroups_group (hgroups group List.mem_cons_self) (afterColons_atColon hrest)
        (if_neg hindex).symm,
      ih (Nat.succ_ne_zero index) fun g hg => hgroups g (List.mem_cons_of_mem _ hg)]
    simp [Nat.add_comm, Nat.add_left_comm]

/-- Groups as they are written at the start of a text. -/
theorem readGroups_fmtSubslice {limit left : Nat} {groups : List Nat} {rest : List Char}
    (hgroups : ∀ g ∈ groups, g < 65536) (hrest : AtColon rest) :
    readGroups limit (left + groups.length) 0 [] (fmtSubslice groups ++ rest) =
      readGroups limit left groups.length groups rest := by
  cases groups with
  | nil => rfl
  | cons group groups =>
    have htext : fmtSubslice (group :: groups) ++ rest =
        Nat.toDigits 16 group ++ (afterColons groups ++ rest) := by
      simp [fmtSubslice]
    rw [List.length_cons, ← Nat.add_assoc, htext,
      readGroups_group (hgroups group List.mem_cons_self) (afterColons_atColon hrest)
        (if_pos rfl).symm,
      readGroups_afterColons (by decide) (fun g hg => hgroups g (List.mem_cons_of_mem _ hg))
        hrest]
    simp [Nat.add_comm]

/-- No more groups are read where there are none, or at a second colon. -/
theorem readGroups_end {limit left index : Nat} {acc : List Nat} {rest : List Char}
    (hrest : rest = [] ∨ ∃ more, rest = ':' :: ':' :: more) :
    readGroups limit left index acc rest = (acc, false, rest) := by
  cases left with
  | zero => rfl
  | succ left =>
    have hipv4 : readSeparator ':' index readIpv4 rest = none := by
      unfold readSeparator
      rcases hrest with rfl | ⟨more, rfl⟩
      · split
        · exact readIpv4_eq_none dotLater_nil
        · rfl
      · split
        · exact readIpv4_eq_none (dotLater_colon _)
        · simp only [readGivenChar, if_true, Option.bind_some]
          exact readIpv4_eq_none (dotLater_colon _)
    have hnumber : readSeparator ':' index (readNumber 16 4 65536 true) rest = none := by
      unfold readSeparator
      rcases hrest with rfl | ⟨more, rfl⟩
      · split <;> rfl
      · split
        · exact readNumber_colon
        · simp only [readGivenChar, if_true, Option.bind_some]
          exact readNumber_colon
    rw [readGroups, hipv4, ite_self, hnumber]

/-! ## IPv6 addresses -/

theorem readIpv6_full {groups : List Nat} (hlen : groups.length = 8)
    (hgroups : ∀ g ∈ groups, g < 65536) :
    readIpv6 (fmtSubslice groups) = some (groups, []) := by
  have hread := @readGroups_fmtSubslice 8 0 _ _ hgroups (.inl rfl)
  rw [List.append_nil, hlen, readGroups_end (.inl rfl)] at hread
  unfold readIpv6
  rw [show 8 = 0 + 8 from rfl, hread]
  simp [hlen]

/-- What `::` stands for is what is missing of the eight groups. -/
theorem readIpv6_compressed {head tail groups : List Nat} {tailText : List Char}
    {ipv4 : Bool} (hlen : head.length < 8) (hhead : ∀ g ∈ head, g < 65536)
    (htail : readGroups (8 - (head.length + 1)) (8 - (head.length + 1)) 0 [] tailText =
      (tail, ipv4, []))
    (hgroups : groups = head ++ List.replicate (8 - head.length - tail.length) 0 ++ tail) :
    readIpv6 (fmtSubslice head ++ "::".toList ++ tailText) = some (groups, []) := by
  have hcolons : fmtSubslice head ++ "::".toList ++ tailText =
      fmtSubslice head ++ ':' :: ':' :: tailText := by simp
  have hread := @readGroups_fmtSubslice 8 (8 - head.length) _ _ hhead
    (.inr ⟨':' :: tailText, rfl⟩)
  rw [Nat.sub_add_cancel hlen.le, readGroups_end (.inr ⟨tailText, rfl⟩)] at hread
  have hne : head.length ≠ 8 := by omega
  unfold readIpv6
  rw [hcolons, hread]
  simp only [hne, if_false, Bool.false_eq_true, readGivenChar, if_true, Option.bind_eq_bind,
    Option.bind_some, htail, ← hgroups]

/-- A span of zeros among the groups. -/
def Span.ZeroesOf (span : Span) (groups : List Nat) : Prop :=
  groups = groups.take span.start ++ List.replicate span.len 0 ++
    groups.drop (span.start + span.len)

/-- Zeros that a longer list begins with are zeros of it. -/
theorem Span.ZeroesOf.append {span : Span} {groups more : List Nat}
    (h : span.ZeroesOf groups) (hle : span.start + span.len ≤ groups.length) :
    span.ZeroesOf (groups ++ more) := by
  unfold Span.ZeroesOf at h ⊢
  rw [List.take_append_of_le_length (by omega), List.drop_append_of_le_length hle,
    ← List.append_assoc, ← h]

/-- A current run is none, or it is of zeros and it ends where the groups so far end. -/
def Span.Current (span : Span) (groups : List Nat) : Prop :=
  span.len = 0 ∨ span.ZeroesOf groups ∧ span.start + span.len = groups.length

theorem Span.Current.grow {span : Span} {groups : List Nat} (h : span.Current groups) :
    (span.grow groups.length).ZeroesOf (groups ++ [0]) ∧
      (span.grow groups.length).start + (span.grow groups.length).len =
        (groups ++ [0]).length := by
  unfold Span.grow
  by_cases hnone : span.len = 0
  · rw [if_pos hnone, hnone]
    exact ⟨by simp [Span.ZeroesOf], by simp⟩
  · obtain ⟨hspan, hend⟩ := h.resolve_left hnone
    have hlength : (groups ++ [0]).length = groups.length + 1 := by simp
    rw [if_neg hnone, hlength]
    refine ⟨?_, congrArg (· + 1) hend⟩
    unfold Span.ZeroesOf at hspan ⊢
    have hdrop : (groups ++ [0]).drop (span.start + (span.len + 1)) = [] :=
      List.drop_eq_nil_iff.mpr (by rw [hlength, ← Nat.add_assoc, hend])
    rw [hend, List.drop_length, List.append_nil] at hspan
    have hstart : span.start ≤ groups.length := by omega
    rw [hdrop, List.append_nil, List.take_append_of_le_length hstart,
      List.replicate_succ', ← List.append_assoc, ← hspan]

theorem longestZeroes_zeroesOf {before segments : List Nat} {longest current : Span}
    (hlongest : longest.ZeroesOf before) (hle : longest.start + longest.len ≤ before.length)
    (hcurrent : current.Current before) :
    (longestZeroes before.length longest current segments).ZeroesOf (before ++ segments) ∧
      (longestZeroes before.length longest current segments).start +
        (longestZeroes before.length longest current segments).len ≤
          (before ++ segments).length := by
  induction segments generalizing before longest current with
  | nil =>
    rw [List.append_nil]
    exact ⟨hlongest, hle⟩
  | cons segment segments ih =>
    have hsplit : before ++ segment :: segments = before ++ [segment] ++ segments := by simp
    have hlength : (before ++ [segment]).length = before.length + 1 := by simp
    rw [hsplit, longestZeroes, ← hlength]
    split
    next hzero =>
      subst hzero
      refine ih ?_ ?_ (.inr hcurrent.grow)
      · split
        · exact hcurrent.grow.1
        · exact hlongest.append hle
      · split
        · exact hcurrent.grow.2.le
        · omega
    next => exact ih (hlongest.append hle) (by omega) (.inl rfl)

theorem zeroes_zeroesOf (groups : List Nat) :
    (zeroes groups).ZeroesOf groups ∧
      (zeroes groups).start + (zeroes groups).len ≤ groups.length := by
  have hspan := @longestZeroes_zeroesOf [] groups ⟨0, 0⟩ ⟨0, 0⟩ rfl (Nat.le_refl 0) (.inl rfl)
  exact hspan

theorem readIpv6_text {groups : List Nat} (hlen : groups.length = 8)
    (hgroups : ∀ g ∈ groups, g < 65536) : readIpv6 (ipv6Text groups) = some (groups, []) := by
  unfold ipv6Text
  split
  next ab cd =>
    -- An IPv4 address after its prefix.
    have hab : ab < 65536 := hgroups ab (by simp)
    have hcd : cd < 65536 := hgroups cd (by simp)
    have htail : readGroups 7 7 0 [] ("ffff:".toList ++
        ipv4Text (ab / 256) (ab % 256) (cd / 256) (cd % 256)) =
          ([0xffff, ab, cd], true, []) := by
      have hsplit : "ffff:".toList ++ ipv4Text (ab / 256) (ab % 256) (cd / 256) (cd % 256) =
          Nat.toDigits 16 0xffff ++
            ':' :: ipv4Text (ab / 256) (ab % 256) (cd / 256) (cd % 256) := by
        rfl
      have hipv4 := readIpv4_text (a := ab / 256) (b := ab % 256) (c := cd / 256)
        (d := cd % 256) (by omega) (by omega) (by omega) (by omega) (stops_nil 10)
      rw [List.append_nil] at hipv4
      rw [hsplit, readGroups_group (by decide) (.inr ⟨_, rfl⟩) (if_pos rfl).symm, readGroups]
      simp only [readSeparator, readGivenChar, hipv4, if_true, Nat.reduceAdd, Nat.reduceLT,
        Option.bind_some, one_ne_zero, if_false, Nat.div_add_mod']
      rfl
    exact @readIpv6_compressed [] _ _ _ _ (by decide) (fun _ hg => by cases hg) htail rfl
  next =>
    obtain ⟨hspan, hle⟩ := zeroes_zeroesOf groups
    split
    next hlong =>
      have hstart : (groups.take (zeroes groups).start).length = (zeroes groups).start := by
        rw [List.length_take]
        omega
      have htailLen : (groups.drop ((zeroes groups).start + (zeroes groups).len)).length =
          8 - ((zeroes groups).start + (zeroes groups).len) := by
        rw [List.length_drop, hlen]
      refine @readIpv6_compressed _
        (groups.drop ((zeroes groups).start + (zeroes groups).len)) _ _ false (by omega)
        (fun g hg => hgroups g (List.mem_of_mem_take hg)) ?_ ?_
      · have hread := @readGroups_fmtSubslice (8 - ((zeroes groups).start + 1))
          ((zeroes groups).len - 1) _ _
          (fun g hg => hgroups g (List.mem_of_mem_drop hg) :
            ∀ g ∈ groups.drop ((zeroes groups).start + (zeroes groups).len), g < 65536)
          (.inl rfl)
        rw [List.append_nil, readGroups_end (.inl rfl), htailLen,
          show (zeroes groups).len - 1 + (8 - ((zeroes groups).start + (zeroes groups).len)) =
            8 - ((zeroes groups).start + 1) by omega] at hread
        rw [hstart, hread]
      · rw [htailLen, hstart,
          show 8 - (zeroes groups).start - (8 - ((zeroes groups).start + (zeroes groups).len)) =
            (zeroes groups).len by omega]
        exact hspan
    next => exact readIpv6_full hlen hgroups

theorem readIpv4_ipv6Text {groups : List Nat} (hlen : groups.length = 8) :
    readIpv4 (ipv6Text groups) = none := by
  have hslice {groups : List Nat} {rest : List Char} (hrest : AtColon rest) :
      DotLater (fmtSubslice groups ++ rest) := by
    cases groups with
    | nil =>
      rcases hrest with rfl | ⟨more, rfl⟩
      · exact dotLater_nil
      · exact dotLater_colon more
    | cons group groups =>
      rw [fmtSubslice, List.append_assoc]
      exact dotLater_group (afterColons_atColon hrest)
  unfold ipv6Text
  split
  · exact readIpv4_eq_none (dotLater_colon _)
  · split
    · rw [List.append_assoc]
      exact readIpv4_eq_none (hslice (.inr ⟨_, rfl⟩))
    · have hdot := @hslice groups [] (.inl rfl)
      rw [List.append_nil] at hdot
      exact readIpv4_eq_none hdot

/-- What is written is read back. -/
theorem parse_text (ip : IpAddr) : parse ip.text = some ip := by
  unfold parse readIpAddr
  cases ip with
  | v4 a b c d =>
    have hread := readIpv4_text a.toNat_lt b.toNat_lt c.toNat_lt d.toNat_lt (stops_nil 10)
    rw [List.append_nil] at hread
    rw [text, String.toList_ofList, hread]
    simp
  | v6 groups =>
    have hlen : (groups.toList.map UInt16.toNat).length = 8 := by simp
    have hbound : ∀ g ∈ groups.toList.map UInt16.toNat, g < 65536 := by
      intro g hg
      obtain ⟨u, -, rfl⟩ := List.mem_map.mp hg
      exact u.toNat_lt
    rw [text, String.toList_ofList, readIpv4_ipv6Text hlen, readIpv6_text hlen hbound]
    simp only [Option.map_some, Option.some.injEq, v6.injEq]
    refine Vector.ext fun i hi => ?_
    simp

end Opca.Foundation.IpAddr
