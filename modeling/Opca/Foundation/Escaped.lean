/-
  Foundation/Escaped.lean --- text with escapes: what an escape stands before is taken as it
  is, and everything else may be a mark.
-/
import Mathlib.Data.List.Basic

set_option autoImplicit false

namespace Opca.Foundation.Escaped

variable {α : Type*}

/-- Characters none of which is escaped. -/
def plain (l : List α) : List (α × Bool) :=
  l.map (·, false)

theorem mem_plain {l : List α} {x : α × Bool} : x ∈ plain l ↔ x.1 ∈ l ∧ x.2 = false := by
  unfold plain
  rw [List.mem_map]
  constructor
  · rintro ⟨c, hc, rfl⟩
    exact ⟨hc, rfl⟩
  · rintro ⟨hc, hfalse⟩
    exact ⟨x.1, hc, Prod.ext rfl hfalse.symm⟩

theorem map_fst_plain {l : List α} : (plain l).map Prod.fst = l := by
  unfold plain
  rw [List.map_map]
  exact List.map_id l

variable [DecidableEq α]

/-- The characters before the first stop that is not escaped, each with whether it is
escaped, and what follows the stop. -/
def scan (escape stop : α) : List α → Option (List (α × Bool) × List α)
  | [] => none
  | [c] => if c = stop then some ([], []) else none
  | c :: d :: rest =>
    if c = stop then some ([], d :: rest)
    else if c = escape then
      (scan escape stop rest).map fun found => ((d, true) :: found.1, found.2)
    else (scan escape stop (d :: rest)).map fun found => ((c, false) :: found.1, found.2)

/-- What comes before the first mark that is not escaped, and what comes after it. -/
def cut (mark : α) (l : List (α × Bool)) : List (α × Bool) × Option (List (α × Bool)) :=
  (l.takeWhile (· ≠ (mark, false)), (l.dropWhile (· ≠ (mark, false))).tail?)

variable {escape stop mark c : α} {l rest : List α} {name found : List (α × Bool)}

/-! ## Scanning -/

theorem scan_stop : scan escape stop (stop :: rest) = some ([], rest) := by
  cases rest with
  | nil => simp only [scan, if_pos]
  | cons d rest => simp only [scan, if_pos]

theorem scan_cons (hstop : c ≠ stop) (hescape : c ≠ escape) :
    scan escape stop (c :: l) =
      (scan escape stop l).map fun found => ((c, false) :: found.1, found.2) := by
  cases l with
  | nil => simp only [scan, if_neg hstop, Option.map_none]
  | cons d rest => simp only [scan, if_neg hstop, if_neg hescape]

/-- What has no stop and no escape is scanned as it stands. -/
theorem scan_plain (h : ∀ c ∈ l, c ≠ stop ∧ c ≠ escape) :
    scan escape stop (l ++ stop :: rest) = some (plain l, rest) := by
  induction l with
  | nil => exact scan_stop
  | cons c l ih =>
    obtain ⟨⟨hstop, hescape⟩, hrest⟩ := List.forall_mem_cons.mp h
    rw [List.cons_append, scan_cons hstop hescape, ih hrest]
    rfl

/-- What is scanned stands before the stop.  Each escape in it was escaped itself. -/
theorem scan_eq_some (h : scan escape stop l = some (name, rest)) :
    ∃ before, l = before ++ stop :: rest ∧
      2 * (name.map Prod.fst).count escape ≤ before.count escape ∧
      (escape ∉ before → name = plain before) ∧ (stop, false) ∉ name := by
  induction l using scan.induct escape stop generalizing name with
  | case1 => cases h
  | case2 =>
    rw [scan_stop] at h
    cases h
    exact ⟨[], rfl, Nat.zero_le _, fun _ => rfl, List.not_mem_nil⟩
  | case3 c hstop =>
    rw [scan, if_neg hstop] at h
    cases h
  | case4 d tail =>
    rw [scan_stop] at h
    cases h
    exact ⟨[], rfl, Nat.zero_le _, fun _ => rfl, List.not_mem_nil⟩
  | case5 d tail hstop ih =>
    rw [scan, if_neg hstop, if_pos rfl] at h
    obtain ⟨⟨name', rest'⟩, hfound, heq⟩ := Option.map_eq_some_iff.mp h
    cases heq
    obtain ⟨before, rfl, hcount, -, hnot⟩ := ih hfound
    refine ⟨escape :: d :: before, rfl, ?_, fun hno => absurd List.mem_cons_self hno, ?_⟩
    · simp only [List.map_cons, List.count_cons]
      split <;> simp <;> omega
    · simpa using hnot
  | case6 c d tail hstop hescape ih =>
    rw [scan_cons hstop hescape] at h
    obtain ⟨⟨name', rest'⟩, hfound, heq⟩ := Option.map_eq_some_iff.mp h
    cases heq
    obtain ⟨before, hbefore, hcount, hplain, hnot⟩ := ih hfound
    refine ⟨c :: before, by rw [hbefore]; rfl, ?_, ?_, ?_⟩
    · simpa only [List.map_cons, List.count_cons, beq_iff_eq, if_neg hescape,
        Nat.add_zero] using hcount
    · intro hno
      rw [hplain fun hmem => hno (List.mem_cons_of_mem _ hmem)]
      rfl
    · intro hmem
      rcases List.mem_cons.mp hmem with heq | hmem
      · exact hstop (Prod.mk.inj heq).1.symm
      · exact hnot hmem

/-! ## Marks -/

theorem cut_of_notMem (h : (mark, false) ∉ name) : cut mark name = (name, none) := by
  have hall : ∀ x ∈ name, decide (x ≠ (mark, false)) = true :=
    fun x hx => decide_eq_true fun heq => h (heq ▸ hx)
  unfold cut
  rw [← List.append_nil name, List.takeWhile_append_of_pos hall,
    List.dropWhile_append_of_pos hall, List.takeWhile_nil]
  rfl

theorem cut_append (h : (mark, false) ∉ name) :
    cut mark (name ++ (mark, false) :: found) = (name, some found) := by
  have hall : ∀ x ∈ name, decide (x ≠ (mark, false)) = true :=
    fun x hx => decide_eq_true fun heq => h (heq ▸ hx)
  unfold cut
  rw [List.takeWhile_append_of_pos hall, List.dropWhile_append_of_pos hall,
    List.takeWhile_cons_of_neg (by simp), List.dropWhile_cons_of_neg (by simp),
    List.append_nil]
  rfl

/-- The two parts are what is cut, and the mark is not in the first. -/
theorem cut_spec (mark : α) (name : List (α × Bool)) : (mark, false) ∉ (cut mark name).1 ∧
    name = (cut mark name).1 ++ ((cut mark name).2.elim [] ((mark, false) :: ·)) := by
  by_cases h : (mark, false) ∈ name
  · obtain ⟨before, after, rfl, hnot⟩ := List.eq_append_cons_of_mem h
    rw [cut_append hnot]
    exact ⟨hnot, rfl⟩
  · rw [cut_of_notMem h]
    exact ⟨h, (List.append_nil name).symm⟩

end Opca.Foundation.Escaped
