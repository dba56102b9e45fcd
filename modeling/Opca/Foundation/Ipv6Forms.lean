/-
  Foundation/Ipv6Forms.lean --- the text forms of RFC 4291, as a grammar, and that the
  reader of Rust's `std::net` takes exactly these for an IPv6 address.
-/
import Opca.Foundation.IpText

set_option autoImplicit false

namespace Opca.Foundation.IpAddr

/-! ## The forms -/

def isHexDigit (c : Char) : Bool :=
  ('0' ≤ c && c ≤ '9') || ('a' ≤ c && c ≤ 'f') || ('A' ≤ c && c ≤ 'F')

/-- A group: one to four hexadecimal digits. -/
structure IsGroup (cs : List Char) : Prop where
  nonempty : cs ≠ []
  length : cs.length ≤ 4
  hex : ∀ c ∈ cs, isHexDigit c = true

/-- The value of a text of decimal digits. -/
def decimalValue (cs : List Char) : Nat :=
  cs.foldl (fun n c => n * 10 + (c.toNat - '0'.toNat)) 0

/-- A decimal number below 256, without a leading zero. -/
def isOctet (cs : List Char) : Bool :=
  (match cs with
    | [] => false
    | ['0'] => true
    | c :: cs => '1' ≤ c && c ≤ '9' && cs.length ≤ 2 && cs.all Char.isDigit) &&
    decimalValue cs ≤ 255

/-- A dotted quad. -/
def IsQuad (cs : List Char) : Prop :=
  ∃ a b c d, isOctet a = true ∧ isOctet b = true ∧ isOctet c = true ∧ isOctet d = true ∧
    cs = a ++ '.' :: (b ++ '.' :: (c ++ '.' :: d))

/-- Groups, each after a colon, and how many; the last two may be a dotted quad. -/
inductive Pieces : Bool → Nat → List Char → Prop
  | nil : Pieces false 0 []
  | quad {q : List Char} : IsQuad q → Pieces true 2 (':' :: q)
  | group {quad : Bool} {n : Nat} {g cs : List Char} : IsGroup g → Pieces quad n cs →
      Pieces quad (n + 1) (':' :: (g ++ cs))

/-- Groups with colons between them, or none. -/
def Written (quad : Bool) (n : Nat) (cs : List Char) : Prop :=
  (quad = false ∧ n = 0 ∧ cs = []) ∨ (0 < n ∧ Pieces quad n (':' :: cs))

/-- RFC 4291, 2.2: eight groups, or fewer around a `::`, the last two perhaps as a dotted
quad. -/
def Rfc4291 (cs : List Char) : Prop :=
  (∃ quad, Written quad 8 cs) ∨
    ∃ quad m n head tail, Written false m head ∧ Written quad n tail ∧ m + n ≤ 7 ∧
      cs = head ++ ':' :: ':' :: tail

/-! ## Numbers -/

theorem digits_spec {radix : Nat} : ∀ {cs rest : List Char} {ds : List Nat},
    digits radix cs = (ds, rest) → ∃ taken, cs = taken ++ rest ∧
      taken.map (toDigit radix) = ds.map some ∧ Stops radix rest
  | [], rest, ds, h => by
    cases h
    exact ⟨[], rfl, rfl, stops_nil radix⟩
  | c :: cs, rest, ds, h => by
    rw [digits] at h
    cases hdigit : toDigit radix c with
    | none =>
      rw [hdigit] at h
      cases h
      refine ⟨[], rfl, rfl, fun x hx => ?_⟩
      cases Option.mem_some.mp hx
      exact hdigit
    | some d =>
      rw [hdigit] at h
      cases hmore : digits radix cs with
      | mk ds' rest' =>
        rw [hmore] at h
        cases h
        obtain ⟨taken, rfl, hmap, hstop⟩ := digits_spec hmore
        exact ⟨c :: taken, rfl, by rw [List.map_cons, hdigit, hmap]; rfl, hstop⟩

theorem digits_of_map {radix : Nat} {rest : List Char} (hstop : Stops radix rest) :
    ∀ {taken : List Char} {ds : List Nat}, taken.map (toDigit radix) = ds.map some →
      digits radix (taken ++ rest) = (ds, rest)
  | [], [], _ => by
    cases rest with
    | nil => rfl
    | cons c cs => rw [List.nil_append, digits, hstop c rfl]
  | c :: taken, d :: ds, h => by
    obtain ⟨hdigit, hmap⟩ := List.cons.inj h
    rw [List.cons_append, digits, hdigit, digits_of_map hstop hmap]
  | [], _ :: _, h => by cases h
  | _ :: _, [], h => by cases h

theorem le_iff_toNat_le {c d : Char} : c ≤ d ↔ c.toNat ≤ d.toNat := Iff.rfl

theorem toDigit_sixteen {c : Char} : (toDigit 16 c).isSome = isHexDigit c := by
  rw [Bool.eq_iff_iff]
  simp only [toDigit, isHexDigit, le_iff_toNat_le, Bool.or_eq_true, Bool.and_eq_true,
    decide_eq_true_eq, Option.isSome_filter, Option.any_eq_true]
  have h0 : '0'.toNat = 48 := rfl
  have h9 : '9'.toNat = 57 := rfl
  have ha : 'a'.toNat = 97 := rfl
  have hf : 'f'.toNat = 102 := rfl
  have hz : 'z'.toNat = 122 := rfl
  have hA : 'A'.toNat = 65 := rfl
  have hF : 'F'.toNat = 70 := rfl
  have hZ : 'Z'.toNat = 90 := rfl
  constructor
  · rintro ⟨d, hd, hlt⟩
    split_ifs at hd <;> cases hd <;> omega
  · intro h
    split_ifs
    · exact ⟨_, rfl, by omega⟩
    · exact ⟨_, rfl, by omega⟩
    · exact ⟨_, rfl, by omega⟩
    · omega

theorem toDigit_ten_eq_some {c : Char} {d : Nat} :
    toDigit 10 c = some d ↔ c.isDigit = true ∧ d = c.toNat - '0'.toNat := by
  have hdigit : c.isDigit = true ↔ '0'.toNat ≤ c.toNat ∧ c.toNat ≤ '9'.toNat := by
    unfold Char.isDigit
    rw [Bool.and_eq_true, decide_eq_true_eq, decide_eq_true_eq]
    rfl
  rw [hdigit]
  simp only [toDigit, le_iff_toNat_le, Option.filter_eq_some_iff, decide_eq_true_eq]
  have h0 : '0'.toNat = 48 := rfl
  have h9 : '9'.toNat = 57 := rfl
  have ha : 'a'.toNat = 97 := rfl
  have hA : 'A'.toNat = 65 := rfl
  constructor
  · rintro ⟨hd, hlt⟩
    split_ifs at hd <;> cases hd <;> omega
  · rintro ⟨hrange, rfl⟩
    rw [if_pos hrange]
    exact ⟨rfl, by omega⟩

theorem exists_map_toDigit {radix : Nat} : ∀ {cs : List Char},
    (∀ c ∈ cs, (toDigit radix c).isSome = true) →
      ∃ ds : List Nat, cs.map (toDigit radix) = ds.map some
  | [], _ => ⟨[], rfl⟩
  | c :: cs, h => by
    obtain ⟨ds, hds⟩ := exists_map_toDigit fun c hc => h c (List.mem_cons_of_mem _ hc)
    obtain ⟨d, hd⟩ := Option.isSome_iff_exists.mp (h c List.mem_cons_self)
    exact ⟨d :: ds, by rw [List.map_cons, hd, hds]; rfl⟩

theorem isSome_of_map_toDigit {radix : Nat} {cs : List Char} {ds : List Nat}
    (h : cs.map (toDigit radix) = ds.map some) :
    ∀ c ∈ cs, (toDigit radix c).isSome = true := by
  intro c hc
  have hmem : toDigit radix c ∈ ds.map some := h ▸ List.mem_map_of_mem hc
  obtain ⟨d, -, hd⟩ := List.mem_map.mp hmem
  rw [← hd]
  rfl

theorem toDigit_lt {radix d : Nat} {c : Char} (h : toDigit radix c = some d) : d < radix := by
  unfold toDigit at h
  exact of_decide_eq_true (Option.filter_eq_some_iff.mp h).2

theorem foldl_lt_pow {radix : Nat} : ∀ {ds : List Nat} {n k : Nat}, n < radix ^ k →
    (∀ d ∈ ds, d < radix) →
      ds.foldl (fun n d => n * radix + d) n < radix ^ (k + ds.length)
  | [], n, k, hn, _ => hn
  | d :: ds, n, k, hn, hds => by
    have hd := hds d List.mem_cons_self
    have hnext : n * radix + d < radix ^ (k + 1) := by
      rw [pow_succ]
      have hle : (n + 1) * radix ≤ radix ^ k * radix := Nat.mul_le_mul_right _ hn
      rw [Nat.add_mul, Nat.one_mul] at hle
      omega
    have hrest := foldl_lt_pow hnext fun d hd => hds d (List.mem_cons_of_mem _ hd)
    rw [List.foldl_cons, List.length_cons, Nat.add_comm ds.length, ← Nat.add_assoc]
    exact hrest

/-- A group is read, whatever its digits. -/
theorem readNumber_group {g rest : List Char} (hg : IsGroup g) (hstop : Stops 16 rest) :
    ∃ n, readNumber 16 4 65536 true (g ++ rest) = some (n, rest) := by
  obtain ⟨ds, hds⟩ := exists_map_toDigit fun c hc => by
    rw [toDigit_sixteen]
    exact hg.hex c hc
  have hlength : ds.length = g.length := by
    have hsame := congrArg List.length hds
    rw [List.length_map, List.length_map] at hsame
    exact hsame.symm
  have hvalue : ds.foldl (fun n d => n * 16 + d) 0 < 65536 := by
    have hlt : ∀ d ∈ ds, d < 16 := by
      intro d hd
      have hmem : some d ∈ g.map (toDigit 16) := hds ▸ List.mem_map_of_mem hd
      obtain ⟨c, -, hc⟩ := List.mem_map.mp hmem
      exact toDigit_lt hc
    have hbound := @foldl_lt_pow 16 ds 0 0 (by decide) hlt
    refine hbound.trans_le ?_
    rw [Nat.zero_add, hlength]
    exact Nat.pow_le_pow_right (by decide) hg.length
  have hnonempty : ds.isEmpty = false := by
    cases ds with
    | nil => exact absurd (List.length_eq_zero_iff.mp hlength.symm) hg.nonempty
    | cons d ds => rfl
  have hshort : ¬ 4 < ds.length := by
    rw [hlength]
    exact not_lt.mpr hg.length
  refine ⟨ds.foldl (fun n d => n * 16 + d) 0, ?_⟩
  unfold readNumber
  simp only [digits_of_map hstop hds, hnonempty, hshort, decide_false, Bool.or_false,
    Bool.false_eq_true, if_false, Bool.not_true, Bool.false_and, hvalue, if_true]

theorem group_of_readNumber {cs rest : List Char} {n : Nat}
    (h : readNumber 16 4 65536 true cs = some (n, rest)) :
    ∃ g, cs = g ++ rest ∧ IsGroup g := by
  have hrest := readNumber_rest h
  obtain ⟨g, hcs, hmap, -⟩ := @digits_spec 16 cs _ _ rfl
  rw [← hrest] at hcs
  refine ⟨g, hcs, ?_, ?_, fun c hc => ?_⟩
  · rintro rfl
    unfold readNumber at h
    rw [List.map_nil] at hmap
    simp only [List.map_eq_nil_iff.mp hmap.symm, List.isEmpty_nil, Bool.true_or, if_true] at h
    cases h
  · have hlength : (digits 16 cs).1.length = g.length := by
      have hsame := congrArg List.length hmap
      rw [List.length_map, List.length_map] at hsame
      exact hsame.symm
    unfold readNumber at h
    simp only at h
    split at h
    · cases h
    next hshort =>
      rw [Bool.or_eq_true, not_or, decide_eq_true_eq] at hshort
      rw [← hlength]
      exact not_lt.mp hshort.2
  · rw [← toDigit_sixteen]
    exact isSome_of_map_toDigit hmap c hc

theorem isOctet_iff {cs : List Char} : isOctet cs = true ↔
    cs ≠ [] ∧ cs.length ≤ 3 ∧ (∀ c ∈ cs, c.isDigit = true) ∧
      (cs.head? = some '0' → cs.length = 1) ∧ decimalValue cs < 256 := by
  have hdigit {c : Char} : c.isDigit = true ↔ '0'.toNat ≤ c.toNat ∧ c.toNat ≤ '9'.toNat := by
    unfold Char.isDigit
    rw [Bool.and_eq_true, decide_eq_true_eq, decide_eq_true_eq]
    rfl
  have h0 : '0'.toNat = 48 := rfl
  have h1 : '1'.toNat = 49 := rfl
  have h9 : '9'.toNat = 57 := rfl
  unfold isOctet
  rw [Bool.and_eq_true, decide_eq_true_eq, ← Nat.lt_succ_iff]
  rw [← and_assoc, ← and_assoc, ← and_assoc]
  refine and_congr_left fun _ => ?_
  split
  · simp
  · simp only [ne_eq, List.cons_ne_self, not_false_eq_true, List.length_singleton, true_and,
      List.mem_singleton, forall_eq, List.head?_cons, forall_true_left, and_true]
    decide
  next c cs hzero _ =>
    simp only [Bool.and_eq_true, decide_eq_true_eq, List.all_eq_true, ne_eq, reduceCtorEq,
      not_false_eq_true, List.length_cons, true_and, List.forall_mem_cons, List.head?_cons,
      Option.some.injEq, hdigit, le_iff_toNat_le]
    constructor
    · rintro ⟨⟨⟨hlow, hhigh⟩, hlength⟩, hall⟩
      refine ⟨⟨by omega, ⟨by omega, by omega⟩, hall⟩, ?_⟩
      rintro rfl
      omega
    · rintro ⟨⟨hlength, ⟨hlow, hhigh⟩, hall⟩, hlead⟩
      refine ⟨⟨⟨?_, by omega⟩, by omega⟩, hall⟩
      by_contra hsmall
      have hc : c = '0' := Char.toNat_inj.mp (by omega)
      exact hzero hc (List.length_eq_zero_iff.mp (Nat.succ.inj (hlead hc)))

theorem decimalValue_eq {cs : List Char} {ds : List Nat}
    (h : cs.map (toDigit 10) = ds.map some) :
    decimalValue cs = ds.foldl (fun n d => n * 10 + d) 0 := by
  unfold decimalValue
  generalize 0 = n
  induction cs generalizing ds n with
  | nil =>
    cases ds with
    | nil => rfl
    | cons d ds => cases h
  | cons c cs ih =>
    cases ds with
    | nil => cases h
    | cons d ds =>
      obtain ⟨hd, hds⟩ := List.cons.inj h
      rw [List.foldl_cons, List.foldl_cons, (toDigit_ten_eq_some.mp hd).2]
      exact ih hds _

/-- An octet is read from its text, and from no other. -/
theorem readNumber_octet {cs rest : List Char} {ds : List Nat}
    (hds : cs.map (toDigit 10) = ds.map some) (hstop : Stops 10 rest) :
    (∃ n, readNumber 10 3 256 false (cs ++ rest) = some (n, rest)) ↔ isOctet cs = true := by
  have hlength : ds.length = cs.length := by
    have hsame := congrArg List.length hds
    rw [List.length_map, List.length_map] at hsame
    exact hsame.symm
  have hdigits : ∀ c ∈ cs, c.isDigit = true := by
    intro c hc
    obtain ⟨d, hd⟩ := Option.isSome_iff_exists.mp (isSome_of_map_toDigit hds c hc)
    exact (toDigit_ten_eq_some.mp hd).1
  have hempty : ds.isEmpty = true ↔ cs = [] := by
    rw [List.isEmpty_iff, ← List.length_eq_zero_iff, hlength, List.length_eq_zero_iff]
  have hlead : ds.head? = some 0 ↔ cs.head? = some '0' := by
    cases cs with
    | nil =>
      cases ds with
      | nil => simp
      | cons d ds => cases hds
    | cons c cs =>
      cases ds with
      | nil => cases hds
      | cons d ds =>
        have hd := (toDigit_ten_eq_some.mp (List.cons.inj hds).1)
        rw [List.head?_cons, List.head?_cons, Option.some.injEq, Option.some.injEq, hd.2,
          ← Char.toNat_inj]
        have hlow : '0'.toNat ≤ c.toNat := by
          have hdigit := hd.1
          unfold Char.isDigit at hdigit
          rw [Bool.and_eq_true, decide_eq_true_eq] at hdigit
          exact hdigit.1
        omega
  rw [isOctet_iff, decimalValue_eq hds]
  unfold readNumber
  simp only [digits_of_map hstop hds]
  constructor
  · rintro ⟨n, h⟩
    split at h
    · cases h
    next hshort =>
      rw [Bool.or_eq_true, not_or, decide_eq_true_eq, hlength] at hshort
      split at h
      · cases h
      next hzero =>
        split at h
        next hvalue =>
          refine ⟨fun hnil => hshort.1 (hempty.mpr hnil), not_lt.mp hshort.2, hdigits, ?_, hvalue⟩
          intro hhead
          have hpos : 0 < cs.length := by
            cases cs with
            | nil => cases hhead
            | cons c cs => exact Nat.succ_pos _
          by_contra hmany
          refine hzero ?_
          simp only [Bool.not_false, Bool.true_and, hlead.mpr hhead, decide_true,
            decide_eq_true_eq, hlength]
          omega
        next => cases h
  · rintro ⟨hne, hle, -, hzero, hvalue⟩
    rw [if_neg, if_neg, if_pos hvalue]
    · exact ⟨_, rfl⟩
    · simp only [Bool.not_false, Bool.true_and, Bool.and_eq_true, decide_eq_true_eq, hlead,
        hlength, not_and, not_lt]
      exact fun hhead => (hzero hhead).le
    · rw [Bool.or_eq_true, not_or, decide_eq_true_eq, hlength, hempty]
      exact ⟨hne, not_lt.mpr hle⟩

theorem readNumber_of_octet {cs rest : List Char} (h : isOctet cs = true)
    (hstop : Stops 10 rest) :
    ∃ n, readNumber 10 3 256 false (cs ++ rest) = some (n, rest) := by
  obtain ⟨-, -, hall, -⟩ := isOctet_iff.mp h
  obtain ⟨ds, hds⟩ := exists_map_toDigit fun c hc =>
    Option.isSome_iff_exists.mpr ⟨_, toDigit_ten_eq_some.mpr ⟨hall c hc, rfl⟩⟩
  exact (readNumber_octet hds hstop).mpr h

theorem octet_of_readNumber {cs rest : List Char} {n : Nat}
    (h : readNumber 10 3 256 false cs = some (n, rest)) :
    ∃ taken, cs = taken ++ rest ∧ isOctet taken = true := by
  have hrest := readNumber_rest h
  obtain ⟨taken, hcs, hmap, hstop⟩ := @digits_spec 10 cs _ _ rfl
  rw [← hrest] at hcs hstop
  refine ⟨taken, hcs, (readNumber_octet hmap hstop).mp ⟨n, ?_⟩⟩
  rw [← hcs]
  exact h

theorem readGivenChar_eq_some {c : Char} {cs rest : List Char}
    (h : readGivenChar c cs = some ((), rest)) : cs = c :: rest := by
  cases cs with
  | nil => cases h
  | cons d cs =>
    by_cases heq : d = c
    · rw [readGivenChar, if_pos heq] at h
      cases h
      rw [heq]
    · rw [readGivenChar, if_neg heq] at h
      cases h

/-- A separator, and what comes after it. -/
theorem readSeparator_eq_some {α : Type} {sep : Char} {index : Nat} {inner : Reader α}
    {cs : List Char} {r : α × List Char}
    (h : readSeparator sep (index + 1) inner cs = some r) :
    ∃ more, cs = sep :: more ∧ inner more = some r := by
  unfold readSeparator at h
  rw [if_neg (Nat.succ_ne_zero index)] at h
  obtain ⟨⟨⟨⟩, more⟩, hchar, hinner⟩ := Option.bind_eq_some_iff.mp h
  exact ⟨more, readGivenChar_eq_some hchar, hinner⟩

theorem readSeparator_cons {α : Type} {sep : Char} {index : Nat} {inner : Reader α}
    {cs : List Char} : readSeparator sep (index + 1) inner (sep :: cs) = inner cs := by
  unfold readSeparator
  rw [if_neg (Nat.succ_ne_zero index), readGivenChar, if_pos rfl]
  rfl

theorem readIpv4_of_quad {q rest : List Char} (h : IsQuad q) (hstop : Stops 10 rest) :
    ∃ octets, readIpv4 (q ++ rest) = some (octets, rest) := by
  obtain ⟨a, b, c, d, ha, hb, hc, hd, rfl⟩ := h
  obtain ⟨na, hna⟩ := readNumber_of_octet ha
    (@stops_dot 10 (b ++ '.' :: (c ++ '.' :: (d ++ rest))))
  obtain ⟨nb, hnb⟩ := readNumber_of_octet hb (@stops_dot 10 (c ++ '.' :: (d ++ rest)))
  obtain ⟨nc, hnc⟩ := readNumber_of_octet hc (@stops_dot 10 (d ++ rest))
  obtain ⟨nd, hnd⟩ := readNumber_of_octet hd hstop
  refine ⟨(na, nb, nc, nd), ?_⟩
  have htext : a ++ '.' :: (b ++ '.' :: (c ++ '.' :: d)) ++ rest =
      a ++ '.' :: (b ++ '.' :: (c ++ '.' :: (d ++ rest))) := by simp
  rw [htext]
  refine Option.bind_eq_some_iff.mpr ⟨_, hna, ?_⟩
  refine Option.bind_eq_some_iff.mpr ⟨_, readSeparator_cons.trans hnb, ?_⟩
  refine Option.bind_eq_some_iff.mpr ⟨_, readSeparator_cons.trans hnc, ?_⟩
  exact Option.bind_eq_some_iff.mpr ⟨_, readSeparator_cons.trans hnd, rfl⟩

theorem quad_of_readIpv4 {cs rest : List Char} {octets : Nat × Nat × Nat × Nat}
    (h : readIpv4 cs = some (octets, rest)) : ∃ q, cs = q ++ rest ∧ IsQuad q := by
  obtain ⟨⟨na, afterA⟩, hna, h⟩ := Option.bind_eq_some_iff.mp h
  obtain ⟨⟨nb, afterB⟩, hnb, h⟩ := Option.bind_eq_some_iff.mp h
  obtain ⟨⟨nc, afterC⟩, hnc, h⟩ := Option.bind_eq_some_iff.mp h
  obtain ⟨⟨nd, afterD⟩, hnd, h⟩ := Option.bind_eq_some_iff.mp h
  cases h
  obtain ⟨a, rfl, ha⟩ := octet_of_readNumber hna
  obtain ⟨moreB, rfl, hnb⟩ := readSeparator_eq_some hnb
  obtain ⟨b, rfl, hb⟩ := octet_of_readNumber hnb
  obtain ⟨moreC, rfl, hnc⟩ := readSeparator_eq_some hnc
  obtain ⟨c, rfl, hc⟩ := octet_of_readNumber hnc
  obtain ⟨moreD, rfl, hnd⟩ := readSeparator_eq_some hnd
  obtain ⟨d, rfl, hd⟩ := octet_of_readNumber hnd
  exact ⟨_, by simp, a, b, c, d, ha, hb, hc, hd, rfl⟩

/-! ## Groups -/

/-- A text as it goes on: the first part of one is written without its colon. -/
def continued (index : Nat) (cs : List Char) : List Char :=
  if index = 0 then ':' :: cs else cs

theorem readSeparator_continued {α : Type} {index : Nat} {inner : Reader α}
    {cs more : List Char} (h : continued index cs = ':' :: more) :
    readSeparator ':' index inner cs = inner more := by
  cases index with
  | zero =>
    cases h
    rfl
  | succ index =>
    cases h
    exact readSeparator_cons

theorem continued_of_readSeparator {α : Type} {index : Nat} {inner : Reader α}
    {cs : List Char} {r : α × List Char} (h : readSeparator ':' index inner cs = some r) :
    ∃ more, continued index cs = ':' :: more ∧ inner more = some r := by
  cases index with
  | zero => exact ⟨cs, rfl, h⟩
  | succ index => exact readSeparator_eq_some h

theorem isHexDigit_ne_dot {c : Char} (h : isHexDigit c = true) : c ≠ '.' := by
  rintro rfl
  cases h

/-- A group is no start of a dotted quad. -/
theorem dotLater_of_group {g rest : List Char} (hg : IsGroup g) (hrest : AtColon rest) :
    DotLater (g ++ rest) :=
  dotLater_of_ne_dot (fun c hc => isHexDigit_ne_dot (hg.hex c hc)) hrest

theorem pieces_atColon {quad : Bool} {n : Nat} {cs rest : List Char} (h : Pieces quad n cs)
    (hrest : AtColon rest) : AtColon (cs ++ rest) := by
  cases h with
  | nil => exact hrest
  | quad _ => exact .inr ⟨_, rfl⟩
  | group _ _ => exact .inr ⟨_, rfl⟩

/-- Groups are read as they are written, and reading goes on after them unless they end
with a quad. -/
theorem readGroups_of_pieces {quad : Bool} {n : Nat} {taken : List Char}
    (h : Pieces quad n taken) : ∀ {limit left index : Nat} {acc : List Nat}
    {cs rest : List Char}, index + left = limit → n ≤ left → AtColon rest →
      (0 < n → continued index cs = taken ++ rest) → (n = 0 → cs = rest) →
        ∃ groups : List Nat, groups.length = n ∧
          readGroups limit left index acc cs =
            if quad then (acc ++ groups, true, rest)
            else readGroups limit (left - n) (index + n) (acc ++ groups) rest := by
  induction h with
  | nil =>
    intro limit left index acc cs rest _ _ _ _ hcs
    rw [hcs rfl]
    exact ⟨[], rfl, by simp⟩
  | @quad q hquad =>
    intro limit left index acc cs rest hlimit hle hrest hcs _
    obtain ⟨left, rfl⟩ : ∃ more, left = more + 1 := ⟨left - 1, by omega⟩
    obtain ⟨⟨a, b, c, d⟩, hread⟩ := readIpv4_of_quad hquad hrest.stops
    refine ⟨[a * 256 + b, c * 256 + d], rfl, ?_⟩
    have hcontinued : continued index cs = ':' :: (q ++ rest) := hcs (by decide)
    rw [readGroups, if_pos (by omega), readSeparator_continued hcontinued, hread]
    rfl
  | @group quad n g more hg hpieces ih =>
    intro limit left index acc cs rest hlimit hle hrest hcs _
    obtain ⟨left, rfl⟩ : ∃ less, left = less + 1 := ⟨left - 1, by omega⟩
    have hcontinued : continued index cs = ':' :: (g ++ (more ++ rest)) := by
      rw [hcs (Nat.succ_pos n)]
      simp
    have hmore : AtColon (more ++ rest) := pieces_atColon hpieces hrest
    obtain ⟨value, hvalue⟩ := readNumber_group hg hmore.stops
    obtain ⟨groups, hlength, hgroups⟩ := @ih limit left (index + 1) (acc ++ [value])
      (more ++ rest) rest (by omega) (by omega) hrest (fun _ => rfl) (fun hn => by
        subst hn
        cases hpieces
        rfl)
    refine ⟨value :: groups, by rw [List.length_cons, hlength], ?_⟩
    have hnone : readSeparator ':' index readIpv4 cs = none := by
      rw [readSeparator_continued hcontinued]
      exact readIpv4_eq_none (dotLater_of_group hg hmore)
    rw [readGroups, hnone, ite_self, readSeparator_continued hcontinued, hvalue]
    change readGroups limit left (index + 1) (acc ++ [value]) (more ++ rest) = _
    rw [hgroups]
    cases quad with
    | true => simp
    | false => simp [Nat.add_comm, Nat.add_left_comm]

/-- What is read as groups is written as groups. -/
theorem pieces_of_readGroups {limit left index : Nat} {acc groups : List Nat}
    {cs rest : List Char} {quad : Bool} (hlimit : index + left = limit)
    (h : readGroups limit left index acc cs = (groups, quad, rest)) :
    ∃ n taken, groups.length = acc.length + n ∧ n ≤ left ∧ Pieces quad n taken ∧
      (0 < n → continued index cs = taken ++ rest) ∧ (n = 0 → cs = rest) := by
  have hnothing {left : Nat} : ∃ n taken, acc.length = acc.length + n ∧ n ≤ left ∧
      Pieces false n taken ∧ (0 < n → continued index cs = taken ++ cs) ∧ (n = 0 → cs = cs) :=
    ⟨0, [], rfl, Nat.zero_le _, .nil, fun hpos => absurd hpos (lt_irrefl 0), fun _ => rfl⟩
  induction left generalizing index acc cs with
  | zero =>
    cases h
    exact hnothing
  | succ left ih =>
    rw [readGroups] at h
    split at h
    next a b c d after hipv4 =>
      cases h
      split at hipv4
      next hroom =>
        obtain ⟨more, hcontinued, hread⟩ := continued_of_readSeparator hipv4
        obtain ⟨q, rfl, hquad⟩ := quad_of_readIpv4 hread
        refine ⟨2, ':' :: q, by simp, by omega, .quad hquad, fun _ => ?_,
          fun hzero => absurd hzero two_ne_zero⟩
        rw [hcontinued]
        rfl
      next => cases hipv4
    next =>
      split at h
      next value after hgroup =>
        obtain ⟨more, hcontinued, hread⟩ := continued_of_readSeparator hgroup
        obtain ⟨g, rfl, hg⟩ := group_of_readNumber hread
        obtain ⟨n, taken, hlength, hle, hpieces, hrest, hnone⟩ := ih (by omega) h
          ⟨0, [], rfl, Nat.zero_le _, .nil, fun hpos => absurd hpos (lt_irrefl 0), fun _ => rfl⟩
        refine ⟨n + 1, ':' :: (g ++ taken), ?_, by omega, .group hg hpieces, fun _ => ?_,
          fun hzero => absurd hzero (Nat.succ_ne_zero n)⟩
        · rw [hlength, List.length_append, List.length_singleton]
          omega
        · rw [hcontinued]
          rcases Nat.eq_zero_or_pos n with rfl | hpos
          · cases hpieces
            rw [hnone rfl]
            simp
          · have hafter : after = taken ++ rest := hrest hpos
            rw [hafter]
            simp
      next =>
        cases h
        exact hnothing

/-! ## Addresses -/

theorem Written.pieces {quad : Bool} {n : Nat} {cs : List Char} (h : Written quad n cs) :
    ∃ taken, Pieces quad n taken ∧ (0 < n → ':' :: cs = taken) ∧ (n = 0 → cs = []) := by
  rcases h with ⟨rfl, rfl, rfl⟩ | ⟨hpos, hpieces⟩
  · exact ⟨[], .nil, nofun, fun _ => rfl⟩
  · exact ⟨_, hpieces, fun _ => rfl, fun hzero => absurd hzero hpos.ne'⟩

/-- Written groups are read at the start of a text, up to where no more follow. -/
theorem readGroups_of_written {quad : Bool} {n limit : Nat} {cs rest : List Char}
    (h : Written quad n cs) (hle : n ≤ limit)
    (hrest : rest = [] ∨ ∃ more, rest = ':' :: ':' :: more) :
    ∃ groups : List Nat, groups.length = n ∧
      readGroups limit limit 0 [] (cs ++ rest) = (groups, quad, rest) := by
  obtain ⟨taken, hpieces, hpos, hzero⟩ := h.pieces
  have hcolon : AtColon rest := by
    rcases hrest with rfl | ⟨more, rfl⟩
    · exact .inl rfl
    · exact .inr ⟨_, rfl⟩
  obtain ⟨groups, hlength, hread⟩ := @readGroups_of_pieces quad n taken hpieces limit limit 0 []
    (cs ++ rest) rest (Nat.zero_add _) hle hcolon
    (fun hn => by rw [← hpos hn]; rfl) (fun hn => by rw [hzero hn]; rfl)
  refine ⟨groups, hlength, hread.trans ?_⟩
  cases quad with
  | true => rfl
  | false =>
    rw [if_neg Bool.false_ne_true, readGroups_end hrest]
    rfl

theorem written_of_readGroups {limit : Nat} {groups : List Nat} {cs rest : List Char}
    {quad : Bool} (h : readGroups limit limit 0 [] cs = (groups, quad, rest)) :
    ∃ front, cs = front ++ rest ∧ Written quad groups.length front ∧
      groups.length ≤ limit := by
  obtain ⟨n, taken, hlength, hle, hpieces, hpos, hzero⟩ :=
    pieces_of_readGroups (Nat.zero_add _) h
  rw [List.length_nil, Nat.zero_add] at hlength
  rw [hlength]
  cases hpieces with
  | nil => exact ⟨[], hzero rfl, .inl ⟨rfl, rfl, rfl⟩, hle⟩
  | @quad q hquad =>
    have hcs : ':' :: cs = ':' :: (q ++ rest) := hpos (by decide)
    exact ⟨q, (List.cons.inj hcs).2, .inr ⟨by decide, .quad hquad⟩, hle⟩
  | @group _ n g more hg hmore =>
    have hcs : ':' :: cs = ':' :: (g ++ more ++ rest) := hpos (Nat.succ_pos n)
    exact ⟨g ++ more, (List.cons.inj hcs).2, .inr ⟨Nat.succ_pos n, .group hg hmore⟩, hle⟩

/-- What is read as an IPv6 address, to its end, is what is written as one. -/
theorem readIpv6_iff {cs : List Char} :
    (∃ groups, readIpv6 cs = some (groups, [])) ↔ Rfc4291 cs := by
  constructor
  · rintro ⟨groups, h⟩
    cases hread : readGroups 8 8 0 [] cs with
    | mk head after =>
      obtain ⟨headIpv4, rest⟩ := after
      obtain ⟨front, rfl, hfront, height⟩ := written_of_readGroups hread
      unfold readIpv6 at h
      rw [hread] at h
      dsimp only at h
      split at h
      next hall =>
        cases h
        rw [hall] at hfront
        rw [List.append_nil]
        exact .inl ⟨headIpv4, hfront⟩
      next hsome =>
        split at h
        · cases h
        next hquad =>
          obtain ⟨⟨⟨⟩, afterFirst⟩, hfirst, hrest⟩ := Option.bind_eq_some_iff.mp h
          obtain ⟨⟨⟨⟩, afterSecond⟩, hsecond, hgroups⟩ := Option.bind_eq_some_iff.mp hrest
          cases readGivenChar_eq_some hfirst
          cases readGivenChar_eq_some hsecond
          cases htail : readGroups (8 - (head.length + 1)) (8 - (head.length + 1)) 0 []
            afterSecond with
          | mk tail after =>
            obtain ⟨tailIpv4, rest⟩ := after
            dsimp only at hgroups
            rw [htail] at hgroups
            cases hgroups
            obtain ⟨back, hback, hwritten, hle⟩ := written_of_readGroups htail
            rw [List.append_nil] at hback
            subst hback
            have hplain : headIpv4 = false := by simpa using hquad
            subst hplain
            exact .inr ⟨tailIpv4, _, _, front, _, hfront, hwritten, by omega, rfl⟩
  · rintro (⟨quad, hwritten⟩ | ⟨quad, m, n, head, tail, hhead, htail, hle, rfl⟩)
    · obtain ⟨groups, hlength, hread⟩ := readGroups_of_written hwritten (le_refl 8) (.inl rfl)
      rw [List.append_nil] at hread
      refine ⟨groups, ?_⟩
      unfold readIpv6
      rw [hread]
      exact if_pos hlength
    · obtain ⟨groups, hlength, hread⟩ :=
        @readGroups_of_written _ _ 8 _ (':' :: ':' :: tail) hhead (by omega) (.inr ⟨tail, rfl⟩)
      obtain ⟨more, -, hmore⟩ :=
        @readGroups_of_written _ _ (8 - (m + 1)) _ [] htail (by omega) (.inl rfl)
      rw [List.append_nil] at hmore
      subst hlength
      have hne : groups.length ≠ 8 := by omega
      refine ⟨groups ++ List.replicate (8 - groups.length - more.length) 0 ++ more, ?_⟩
      unfold readIpv6
      rw [hread]
      simp only [hne, if_false, Bool.false_eq_true, readGivenChar, if_true, Option.bind_eq_bind,
        Option.bind_some, hmore]

/-- What an address of either kind is written with. -/
def isAddressChar (c : Char) : Bool := isHexDigit c || c = ':' || c = '.'

theorem isHexDigit_of_isDigit {c : Char} (h : c.isDigit = true) : isHexDigit c = true := by
  rw [← toDigit_sixteen]
  have hten := (toDigit_ten_eq_some.mpr ⟨h, rfl⟩)
  unfold toDigit at hten ⊢
  rw [Option.filter_eq_some_iff] at hten
  rw [hten.1, Option.isSome_filter]
  have hlt := of_decide_eq_true hten.2
  exact decide_eq_true (by omega)

theorem isAddressChar_of_octet {cs : List Char} (h : isOctet cs = true) {c : Char}
    (hc : c ∈ cs) : isAddressChar c = true := by
  unfold isAddressChar
  rw [isHexDigit_of_isDigit ((isOctet_iff.mp h).2.2.1 c hc)]
  rfl

theorem isAddressChar_of_quad {q : List Char} (h : IsQuad q) {x : Char} (hx : x ∈ q) :
    isAddressChar x = true := by
  obtain ⟨a, b, c, d, ha, hb, hc, hd, rfl⟩ := h
  simp only [List.mem_append, List.mem_cons] at hx
  rcases hx with hx | rfl | hx | rfl | hx | rfl | hx
  · exact isAddressChar_of_octet ha hx
  · rfl
  · exact isAddressChar_of_octet hb hx
  · rfl
  · exact isAddressChar_of_octet hc hx
  · rfl
  · exact isAddressChar_of_octet hd hx

theorem isAddressChar_of_pieces {quad : Bool} {n : Nat} {cs : List Char}
    (h : Pieces quad n cs) : ∀ x ∈ cs, isAddressChar x = true := by
  induction h with
  | nil => exact nofun
  | quad hquad =>
    intro x hx
    rcases List.mem_cons.mp hx with rfl | hx
    · rfl
    · exact isAddressChar_of_quad hquad hx
  | group hg _ ih =>
    intro x hx
    rcases List.mem_cons.mp hx with rfl | hx
    · rfl
    rcases List.mem_append.mp hx with hx | hx
    · unfold isAddressChar
      rw [hg.hex x hx]
      rfl
    · exact ih x hx

theorem isAddressChar_of_written {quad : Bool} {n : Nat} {cs : List Char}
    (h : Written quad n cs) : ∀ x ∈ cs, isAddressChar x = true := by
  obtain ⟨taken, hpieces, hpos, hzero⟩ := h.pieces
  intro x hx
  rcases Nat.eq_zero_or_pos n with hn | hn
  · rw [hzero hn] at hx
    cases hx
  · refine isAddressChar_of_pieces hpieces x ?_
    rw [← hpos hn]
    exact List.mem_cons_of_mem _ hx

/-- An IPv6 address is written with hexadecimal digits, colons and dots. -/
theorem Rfc4291.isAddressChar {cs : List Char} (h : Rfc4291 cs) :
    ∀ x ∈ cs, isAddressChar x = true := by
  rcases h with ⟨quad, hwritten⟩ | ⟨quad, m, n, head, tail, hhead, htail, -, rfl⟩
  · exact isAddressChar_of_written hwritten
  · intro x hx
    simp only [List.mem_append, List.mem_cons] at hx
    rcases hx with hx | rfl | rfl | hx
    · exact isAddressChar_of_written hhead x hx
    · rfl
    · rfl
    · exact isAddressChar_of_written htail x hx

/-- More than one group, the first of them no quad. -/
theorem Written.group {quad : Bool} {n : Nat} {cs : List Char} (h : Written quad n cs)
    (hn : 0 < n) (hquad : quad = true → n ≠ 2) :
    ∃ g more, IsGroup g ∧ Pieces quad (n - 1) more ∧ cs = g ++ more := by
  rcases h with ⟨-, rfl, -⟩ | ⟨-, hpieces⟩
  · cases hn
  · cases hpieces with
    | quad _ => exact absurd rfl (hquad rfl)
    | group hg hmore => exact ⟨_, _, hg, hmore, rfl⟩

/-- An IPv6 address has a colon, and does not begin like an IPv4 one. -/
theorem Rfc4291.colon {cs : List Char} (h : Rfc4291 cs) : ':' ∈ cs ∧ readIpv4 cs = none := by
  rcases h with ⟨quad, hwritten⟩ | ⟨quad, m, n, head, tail, hhead, -, -, rfl⟩
  · obtain ⟨g, more, hg, hmore, rfl⟩ := hwritten.group (by decide) (fun _ => by decide)
    have hcolon := pieces_atColon hmore (.inl rfl)
    rw [List.append_nil] at hcolon
    refine ⟨?_, readIpv4_eq_none (dotLater_of_group hg hcolon)⟩
    rcases hcolon with rfl | ⟨after, rfl⟩
    · cases hmore
    · exact List.mem_append_right _ List.mem_cons_self
  · refine ⟨List.mem_append_right _ List.mem_cons_self, readIpv4_eq_none ?_⟩
    rcases Nat.eq_zero_or_pos m with rfl | hpos
    · rcases hhead with ⟨-, -, rfl⟩ | ⟨hpos, -⟩
      · exact dotLater_colon _
      · cases hpos
    · obtain ⟨g, more, hg, hmore, rfl⟩ := hhead.group hpos nofun
      rw [List.append_assoc]
      exact dotLater_of_group hg (pieces_atColon hmore (.inr ⟨_, rfl⟩))

/-- A text is an IPv4 address just when it is a dotted quad. -/
theorem parse_v4_iff {s : String} :
    (∃ a b c d, parse s = some (.v4 a b c d)) ↔ IsQuad s.toList := by
  unfold parse readIpAddr
  constructor
  · rintro ⟨a, b, c, d, h⟩
    split at h
    next address hread =>
      cases h
      cases hipv4 : readIpv4 s.toList with
      | none =>
        rw [hipv4] at hread
        obtain ⟨_, -, heq⟩ := Option.map_eq_some_iff.mp hread
        cases heq
      | some found =>
        obtain ⟨octets, rest⟩ := found
        rw [hipv4] at hread
        obtain ⟨q, hq, hquad⟩ := quad_of_readIpv4 hipv4
        cases hread
        rw [List.append_nil] at hq
        rw [hq]
        exact hquad
    next => cases h
  · intro hquad
    obtain ⟨⟨a, b, c, d⟩, hread⟩ := readIpv4_of_quad hquad (stops_nil 10)
    rw [List.append_nil] at hread
    rw [hread]
    exact ⟨.ofNat a, .ofNat b, .ofNat c, .ofNat d, rfl⟩

/-- A text is an IPv6 address just when it has a form of RFC 4291. -/
theorem parse_v6_iff {s : String} :
    (∃ groups, parse s = some (.v6 groups)) ↔ Rfc4291 s.toList := by
  unfold parse readIpAddr
  constructor
  · rintro ⟨groups, h⟩
    split at h
    next address hread =>
      cases h
      split at hread
      · cases hread
      · obtain ⟨⟨found, rest⟩, hipv6, heq⟩ := Option.map_eq_some_iff.mp hread
        cases heq
        exact readIpv6_iff.mp ⟨found, hipv6⟩
    next => cases h
  · intro hrfc
    obtain ⟨groups, hread⟩ := readIpv6_iff.mpr hrfc
    rw [hrfc.colon.2, hread]
    exact ⟨_, rfl⟩

end Opca.Foundation.IpAddr
