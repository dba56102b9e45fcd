/-
  Foundation/SqlText.lean --- text in SQLite's language: where a statement ends, and the
  values of a row as they are written in one.

  A statement ends at a semicolon outside of quotes, and the input ends at a NUL character
  wherever it stands. Comments are not looked for.
-/
import Opca.Foundation.Fallible
import Opca.Foundation.Text
import Mathlib.Data.List.TakeWhile

set_option autoImplicit false

namespace Opca.Foundation.SqlText

def nul : Char := Char.ofNat 0

def quote : Char := Char.ofNat 39

def doubleQuote : Char := Char.ofNat 34

def backQuote : Char := Char.ofNat 96

/-! ## Statements -/

/-- What closes what a character opens. -/
def closing (c : Char) : Option Char :=
  if c = quote ∨ c = doubleQuote ∨ c = backQuote then some c
  else if c = '[' then some ']'
  else none

/-- What is yet to be closed. A quote that is written twice closes, and opens again. -/
def next (opened : Option Char) (c : Char) : Option Char :=
  match opened with
  | some close => if c = close then none else some close
  | none => closing c

/-- What is open after a text in which nothing ends a statement. -/
def scan : Option Char → List Char → Option (Option Char)
  | opened, [] => some opened
  | opened, c :: cs =>
    if c = nul ∨ (opened = none ∧ c = ';') then none else scan (next opened c) cs

/-- The text of a statement, and what comes after its semicolon. -/
def statement : Option Char → List Char → List Char × Option (List Char)
  | _, [] => ([], none)
  | opened, c :: cs =>
    if c = nul then ([], none)
    else if opened = none ∧ c = ';' then ([], some cs)
    else
      let (text, rest) := statement (next opened c) cs
      (c :: text, rest)

/-- A text that ends within quotes. -/
def unclosed (text : List Char) : Bool := (scan none text).any Option.isSome

section

variable {opened opened' : Option Char} {cs ds text rest : List Char} {c q : Char}

theorem scan_append : scan opened (cs ++ ds) = (scan opened cs).bind fun opened' =>
    scan opened' ds := by
  induction cs generalizing opened with
  | nil => rfl
  | cons c cs ih =>
    rw [List.cons_append, scan, scan]
    split
    · rfl
    · exact ih

theorem scan_cons (hnul : c ≠ nul) (hsemi : opened = none → c ≠ ';') :
    scan opened (c :: cs) = scan (next opened c) cs := by
  rw [scan, if_neg]
  rintro (h | ⟨h, hc⟩)
  · exact hnul h
  · exact hsemi h hc

/-- A statement is read on from where a text leaves off. -/
theorem statement_append (h : scan opened cs = some opened') :
    statement opened (cs ++ ds) =
      (cs ++ (statement opened' ds).1, (statement opened' ds).2) := by
  induction cs generalizing opened with
  | nil =>
    cases h
    rfl
  | cons c cs ih =>
    rw [scan] at h
    split at h
    · cases h
    · next hc =>
      rw [not_or] at hc
      rw [List.cons_append, statement, if_neg hc.1, if_neg hc.2]
      rw [ih h]
      rfl

theorem statement_semicolon (h : scan none cs = some none) :
    statement none (cs ++ ';' :: rest) = (cs, some rest) := by
  rw [statement_append h, statement, if_neg (by decide), if_pos ⟨rfl, rfl⟩, List.append_nil]

theorem statement_end (h : scan none cs = some opened) : statement none cs = (cs, none) := by
  have happend := @statement_append _ _ cs [] h
  rwa [List.append_nil, statement, List.append_nil] at happend

theorem statement_nul (h : scan none cs = some opened) :
    statement none (cs ++ nul :: rest) = (cs, none) := by
  rw [statement_append h, statement, if_pos rfl, List.append_nil]

theorem length_statement (h : (statement opened cs).2 = some rest) :
    rest.length < cs.length := by
  induction cs generalizing opened with
  | nil => cases h
  | cons c cs ih =>
    rw [statement] at h
    split at h
    · cases h
    · split at h
      · cases h
        exact Nat.lt_succ_self _
      · exact (ih h).trans (Nat.lt_succ_self _)

/-- A character that opens, closes and ends nothing. -/
def plain (c : Char) : Bool := c ≠ nul && c ≠ ';' && (closing c).isNone

theorem scan_plain (h : cs.all plain = true) : scan none (cs ++ rest) = scan none rest := by
  induction cs with
  | nil => rfl
  | cons c cs ih =>
    rw [List.all_cons, Bool.and_eq_true] at h
    obtain ⟨hplain, hall⟩ := h
    simp only [plain, Bool.and_eq_true, decide_eq_true_eq, Option.isNone_iff_eq_none] at hplain
    rw [List.cons_append, scan_cons hplain.1.1 fun _ => hplain.1.2, next, hplain.2]
    exact ih hall

theorem unclosed_of_scan (h : scan none cs = some opened) : unclosed cs = opened.isSome := by
  unfold unclosed
  rw [h]
  rfl

/-- What a text leaves open does not hang on what follows. -/
theorem scan_of_append (h : scan opened (cs ++ ds) = some opened') :
    ∃ between, scan opened cs = some between ∧ scan between ds = some opened' := by
  rw [scan_append] at h
  exact Option.bind_eq_some_iff.mp h

end

/-! ## Statement after statement -/

/-- The characters between words. -/
def isSpace (c : Char) : Bool := c ∈ [' ', '\t', '\n', '\r', Char.ofNat 12]

/-- Each statement is run on what the ones before it made, and nothing after one that is
refused. -/
def batch {σ ε : Type} (run : σ → List Char → Except ε σ) (s : σ) (data : List Char) :
    Except ε σ := do
  let s ← run s ((statement none data).1.dropWhile isSpace)
  match _h : (statement none data).2 with
  | none => return s
  | some rest => batch run s rest
termination_by data.length
decreasing_by exact length_statement _h

section

variable {σ ε : Type} {run : σ → List Char → Except ε σ} {s t : σ} {opened : Option Char}
  {text rest cut : List Char} {texts : List (List Char)}

theorem batch_of_none (h : (statement none text).2 = none) :
    batch run s text = run s ((statement none text).1.dropWhile isSpace) := by
  rw [batch]
  cases run s ((statement none text).1.dropWhile isSpace) with
  | error e => rfl
  | ok s' =>
    show (match _h : (statement none text).2 with
      | none => pure s'
      | some rest => batch run s' rest) = _
    split
    · rfl
    · next h' =>
      rw [h] at h'
      cases h'

theorem batch_of_some (h : (statement none text).2 = some rest) :
    batch run s text = (run s ((statement none text).1.dropWhile isSpace)).bind fun s' =>
      batch run s' rest := by
  rw [batch]
  cases run s ((statement none text).1.dropWhile isSpace) with
  | error e => rfl
  | ok s' =>
    show (match _h : (statement none text).2 with
      | none => pure s'
      | some rest => batch run s' rest) = batch run s' rest
    split
    · next h' =>
      rw [h] at h'
      cases h'
    · next h' =>
      rw [h] at h'
      cases h'
      rfl

/-- The last statement need not end in a semicolon. -/
theorem batch_end (h : scan none text = some opened) :
    batch run s text = run s (text.dropWhile isSpace) := by
  have hend := statement_end h
  rw [batch_of_none (by rw [hend]), hend]

theorem batch_nil : batch run s [] = run s [] := batch_of_none rfl

theorem batch_nul (h : scan none text = some opened) :
    batch run s (text ++ nul :: rest) = run s (text.dropWhile isSpace) := by
  have hnul := @statement_nul _ _ rest h
  rw [batch_of_none (by rw [hnul]), hnul]

theorem batch_semicolon (h : scan none text = some none) :
    batch run s (text ++ ';' :: rest) =
      (run s (text.dropWhile isSpace)).bind fun s' => batch run s' rest := by
  have hsemi := @statement_semicolon _ rest h
  have hrest : (statement none (text ++ ';' :: rest)).2 = some rest := by rw [hsemi]
  rw [batch_of_some hrest, hsemi]

/-- A line's end before a statement does not matter. -/
theorem batch_newline : batch run s ('\n' :: text) = batch run s text := by
  have hcons : statement none ('\n' :: text) =
      ('\n' :: (statement none text).1, (statement none text).2) := by
    rw [statement, if_neg (by decide), if_neg (by simp)]
    rfl
  cases hrest : (statement none text).2 with
  | none =>
    rw [batch_of_none (by rw [hcons, hrest]), batch_of_none hrest, hcons]
    rfl
  | some rest =>
    have hrest' : (statement none ('\n' :: text)).2 = some rest := by rw [hcons, hrest]
    rw [batch_of_some hrest', batch_of_some hrest, hcons]
    rfl

/-- Statements, each on lines of its own. -/
def lines (texts : List (List Char)) : List Char := texts.flatMap fun text => text ++ [';', '\n']

theorem lines_cons : lines (text :: texts) = text ++ ';' :: '\n' :: lines texts := by
  simp [lines]

/-- A statement that is whole: it begins with a word, and nothing in it ends one. -/
structure Whole (text : List Char) : Prop where
  scan : scan none text = some none
  starts : text.dropWhile isSpace = text

theorem starts_cut (hcut : cut <+: text) (h : text.dropWhile isSpace = text) :
    cut.dropWhile isSpace = cut := by
  cases cut with
  | nil => rfl
  | cons c cs =>
    obtain ⟨more, rfl⟩ := hcut
    rw [List.cons_append, List.dropWhile_cons] at h
    split at h
    · have hlength := congrArg List.length h
      have hle := (List.dropWhile_sublist isSpace (l := cs ++ more)).length_le
      rw [List.length_cons] at hlength
      omega
    · next hspace => rw [List.dropWhile_cons, if_neg hspace]

/-- What there is of the last statement is run as it stands. -/
theorem batch_within (h : Whole text) (hcut : cut <+: text) : batch run s cut = run s cut := by
  obtain ⟨more, hmore⟩ := id hcut
  have hscan := h.scan
  rw [← hmore] at hscan
  obtain ⟨opened, hopened, -⟩ := scan_of_append hscan
  rw [batch_end hopened, starts_cut hcut h.starts]

theorem batch_lines (h : ∀ text ∈ texts, Whole text) :
    batch run s (lines texts ++ rest) = (texts.foldlM run s).bind fun s' => batch run s' rest := by
  induction texts generalizing s with
  | nil => rfl
  | cons text texts ih =>
    have hwhole := h text List.mem_cons_self
    have hcons : lines (text :: texts) ++ rest =
        text ++ ';' :: '\n' :: (lines texts ++ rest) := by simp [lines]
    rw [hcons, batch_semicolon hwhole.scan, hwhole.starts, List.foldlM_cons]
    cases run s text with
    | error e => rfl
    | ok s' =>
      show batch run s' ('\n' :: (lines texts ++ rest)) = (texts.foldlM run s').bind _
      rw [batch_newline, ih fun text htext => h text (List.mem_cons_of_mem _ htext)]

theorem prefix_append_cases {α : Type} {cut xs ys : List α} (h : cut <+: xs ++ ys) :
    cut <+: xs ∨ ∃ cut', cut = xs ++ cut' ∧ cut' <+: ys := by
  obtain ⟨more, hmore⟩ := h
  rcases List.append_eq_append_iff.mp hmore with ⟨between, hxs, -⟩ | ⟨cut', hcut, hys⟩
  · exact Or.inl ⟨between, hxs.symm⟩
  · exact Or.inr ⟨cut', hcut, more, hys.symm⟩

/-- A cut falls within the first statement, or after it. -/
theorem batch_cut_cases (run : σ → List Char → Except ε σ) (s : σ) (h : Whole text)
    (hcut : cut <+: text ++ ';' :: '\n' :: rest) :
    (cut <+: text ∧ batch run s cut = run s cut) ∨
      ∃ after, after <+: rest ∧
        batch run s cut = (run s text).bind fun s' => batch run s' after := by
  rcases prefix_append_cases hcut with hbefore | ⟨after, rfl, hafter⟩
  · exact Or.inl ⟨hbefore, batch_within h hbefore⟩
  · cases after with
    | nil =>
      rw [List.append_nil]
      exact Or.inl ⟨List.prefix_refl text, batch_within h (List.prefix_refl text)⟩
    | cons c after =>
      obtain ⟨rfl, hline⟩ := List.cons_prefix_cons.mp hafter
      rw [batch_semicolon h.scan, h.starts]
      cases after with
      | nil => exact Or.inr ⟨[], List.nil_prefix, rfl⟩
      | cons c after =>
        obtain ⟨rfl, hrest⟩ := List.cons_prefix_cons.mp hline
        exact Or.inr ⟨after, hrest, by simp only [batch_newline]⟩

/-- What every statement keeps, wherever it is cut off, statements that are cut off anywhere
keep. -/
theorem batch_cut {I : σ → Prop} (h : ∀ text ∈ texts, Whole text)
    (hkeep : ∀ text ∈ texts, ∀ cut, cut <+: text → ∀ s t, I s → run s cut = .ok t → I t)
    (hempty : ∀ s t, I s → run s [] = .ok t → I t)
    (hcut : cut <+: lines texts) (hs : I s) (hrun : batch run s cut = .ok t) : I t := by
  induction texts generalizing s cut with
  | nil =>
    rw [List.prefix_nil.mp hcut, batch_nil] at hrun
    exact hempty s t hs hrun
  | cons text texts ih =>
    have hkeep' := hkeep text List.mem_cons_self
    rw [lines_cons] at hcut
    rcases batch_cut_cases run s (h text List.mem_cons_self) hcut with
      ⟨hbefore, hbatch⟩ | ⟨after, hafter, hbatch⟩
    · rw [hbatch] at hrun
      exact hkeep' cut hbefore s t hs hrun
    · rw [hbatch] at hrun
      obtain ⟨u, hu, hrun⟩ := bind_eq_ok.mp hrun
      exact ih (fun text htext => h text (List.mem_cons_of_mem _ htext))
        (fun text htext => hkeep text (List.mem_cons_of_mem _ htext)) hafter
        (hkeep' text (List.prefix_refl text) s u hs hu) hrun

/-- A statement that a NUL character ends within quotes. -/
def Broken (text : List Char) : Prop :=
  ∃ cs q rest, text = cs ++ nul :: rest ∧ SqlText.scan none cs = some (some q) ∧
    cs.dropWhile isSpace = cs

/-- Where what is left within quotes is refused, so is all that holds a broken statement. -/
theorem batch_broken (hunclosed : ∀ s text, unclosed text = true → ∃ e, run s text = .error e)
    (h : ∀ text ∈ texts, Whole text ∨ Broken text) (hbroken : ∃ text ∈ texts, Broken text) :
    ∃ e, batch run s (lines texts ++ rest) = .error e := by
  induction texts generalizing s with
  | nil =>
    obtain ⟨text, htext, -⟩ := hbroken
    cases htext
  | cons text texts ih =>
    have hcons : lines (text :: texts) ++ rest =
        text ++ ';' :: '\n' :: (lines texts ++ rest) := by simp [lines]
    rw [hcons]
    rcases h text List.mem_cons_self with hwhole | ⟨cs, q, more, rfl, hscan, hstarts⟩
    · rw [batch_semicolon hwhole.scan]
      cases hrun : run s (text.dropWhile isSpace) with
      | error e => exact ⟨e, rfl⟩
      | ok s' =>
        show ∃ e, batch run s' ('\n' :: (lines texts ++ rest)) = .error e
        rw [batch_newline]
        refine ih (fun text htext => h text (List.mem_cons_of_mem _ htext)) ?_
        obtain ⟨text', htext', cs, q, more, hbroken⟩ := hbroken
        rcases List.mem_cons.mp htext' with rfl | htext'
        · -- what is whole is not broken
          have hscan := hwhole.scan
          rw [hbroken.1, scan_append, hbroken.2.1] at hscan
          cases hscan
        · exact ⟨text', htext', cs, q, more, hbroken⟩
    · rw [List.append_assoc, List.cons_append, batch_nul hscan, hstarts]
      exact hunclosed s cs (by rw [unclosed_of_scan hscan]; rfl)

end

/-! ## Quotes -/

/-- A text with each quote in it written twice. -/
def doubled (q : Char) (s : List Char) : List Char :=
  s.flatMap fun c => if c = q then [q, q] else [c]

/-- What a text holds that was opened before, and what follows it. -/
def readQuoted (q : Char) : List Char → Option (List Char × List Char)
  | [] => none
  | c :: cs =>
    if c = q then
      match cs with
      | [] => some ([], [])
      | c' :: cs' =>
        if c' = q then (readQuoted q cs').map fun (s, rest) => (q :: s, rest)
        else some ([], cs)
    else (readQuoted q cs).map fun (s, rest) => (c :: s, rest)

section

variable {q : Char} {s rest : List Char}

theorem readQuoted_doubled (hrest : rest.head? ≠ some q) :
    readQuoted q (doubled q s ++ q :: rest) = some (s, rest) := by
  induction s with
  | nil =>
    show readQuoted q (q :: rest) = _
    rw [readQuoted.eq_def]
    cases rest with
    | nil => simp
    | cons c rest =>
      have hne : c ≠ q := fun h => hrest (by rw [h]; rfl)
      simp [hne]
  | cons c s ih =>
    by_cases hc : c = q
    · subst hc
      have hcons : doubled c (c :: s) ++ c :: rest = c :: c :: (doubled c s ++ c :: rest) := by
        simp [doubled]
      rw [hcons, readQuoted, if_pos rfl]
      dsimp only
      rw [if_pos rfl, ih]
      rfl
    · have hcons : doubled q (c :: s) ++ q :: rest = c :: (doubled q s ++ q :: rest) := by
        simp [doubled, hc]
      rw [hcons, readQuoted.eq_def]
      dsimp only
      rw [if_neg hc, ih]
      rfl

/-- Quotes that are written twice stay within the quotes around them. -/
theorem scan_doubled (hq : closing q = some q) (hnul : q ≠ nul) (hsemi : q ≠ ';')
    (hs : nul ∉ s) : scan (some q) (doubled q s) = some (some q) := by
  induction s with
  | nil => rfl
  | cons c s ih =>
    have ih := ih fun h => hs (List.mem_cons_of_mem _ h)
    by_cases hc : c = q
    · subst hc
      have hcons : doubled c (c :: s) = c :: c :: doubled c s := by simp [doubled]
      rw [hcons, scan_cons hnul (by simp), next, if_pos rfl, scan_cons hnul fun _ => hsemi, next,
        hq]
      exact ih
    · have hcons : doubled q (c :: s) = c :: doubled q s := by simp [doubled, hc]
      rw [hcons, scan_cons (fun h => hs (h ▸ List.mem_cons_self)) (by simp), next, if_neg hc]
      exact ih

/-- A quoted text is passed over as a whole. -/
theorem scan_quoted (hq : closing q = some q) (hnul : q ≠ nul) (hsemi : q ≠ ';')
    (hs : nul ∉ s) : scan none (q :: (doubled q s ++ q :: rest)) = scan none rest := by
  rw [scan_cons hnul fun _ => hsemi, next, hq, scan_append, scan_doubled hq hnul hsemi hs]
  show scan (some q) (q :: rest) = _
  rw [scan_cons hnul (by simp), next, if_pos rfl]

end

/-! ## Words -/

/-- What follows a text that is expected. -/
def expect : List Char → List Char → Option (List Char)
  | [], cs => some cs
  | _ :: _, [] => none
  | p :: ps, c :: cs => if p = c then expect ps cs else none

theorem expect_append (ps cs : List Char) : expect ps (ps ++ cs) = some cs := by
  induction ps with
  | nil => rfl
  | cons p ps ih =>
    rw [List.cons_append, expect, if_pos rfl]
    exact ih

/-- The keyword that a text begins with. -/
def firstWord (text : List Char) : List Char := (text.takeWhile Char.isAlpha).map Char.toUpper

theorem firstWord_cut {text cut : List Char} (h : cut <+: text) :
    firstWord cut <+: firstWord text := by
  obtain ⟨rest, rfl⟩ := h
  refine List.IsPrefix.map _ ?_
  induction cut with
  | nil => exact List.nil_prefix
  | cons c cut ih =>
    rw [List.cons_append, List.takeWhile_cons, List.takeWhile_cons]
    split
    · exact (List.prefix_cons_inj c).mpr ih
    · exact List.nil_prefix

/-! ## Values -/

/-- What a column holds. No number is kept but a whole one. -/
inductive Value where
  | null
  | integer (n : Int)
  | text (s : String)
  | blob (bytes : List UInt8)
  deriving DecidableEq, Repr

/-- A value that has no NUL character in it, where it is a text. -/
def Value.Clean (v : Value) : Prop := ∀ s, v = .text s → nul ∉ s.toList

def hexDigit (n : Nat) : Char := (Nat.digitChar n).toUpper

def hexValue (c : Char) : Option Nat :=
  if '0' ≤ c ∧ c ≤ '9' then some (c.toNat - 48)
  else if 'A' ≤ c.toUpper ∧ c.toUpper ≤ 'F' then some (c.toUpper.toNat - 55)
  else none

theorem hexValue_hexDigit {n : Nat} (h : n < 16) : hexValue (hexDigit n) = some n := by
  revert n
  decide

def writeHex (bytes : List UInt8) : List Char :=
  bytes.flatMap fun b => [hexDigit (b.toNat / 16), hexDigit (b.toNat % 16)]

def readHex : List Char → Option (List UInt8)
  | [] => some []
  | [_] => none
  | high :: low :: cs => do
    let high ← hexValue high
    let low ← hexValue low
    let bytes ← readHex cs
    return UInt8.ofNat (16 * high + low) :: bytes

theorem readHex_writeHex (bytes : List UInt8) : readHex (writeHex bytes) = some bytes := by
  induction bytes with
  | nil => rfl
  | cons b bytes ih =>
    have hlt := b.toNat_lt
    have hcons : writeHex (b :: bytes) =
        hexDigit (b.toNat / 16) :: hexDigit (b.toNat % 16) :: writeHex bytes := rfl
    rw [hcons, readHex, hexValue_hexDigit (by omega), hexValue_hexDigit (by omega), ih]
    show some (UInt8.ofNat (16 * (b.toNat / 16) + b.toNat % 16) :: bytes) = _
    rw [Nat.div_add_mod, UInt8.ofNat_toNat]

/-- The characters of a number. -/
def numeric (c : Char) : Bool := c.isDigit || c == '-'

/-- A value as it is written, and what follows it. -/
def readValue : List Char → Option (Value × List Char)
  | [] => none
  | c :: cs =>
    if c = quote then
      (readQuoted quote cs).map fun (s, rest) => (.text (String.ofList s), rest)
    else if c = 'X' then do
      let digits ← expect [quote] cs
      let (digits, rest) ← readQuoted quote digits
      let bytes ← readHex digits
      return (.blob bytes, rest)
    else if c = 'N' then (expect ['U', 'L', 'L'] cs).map fun rest => (.null, rest)
    else
      let digits := (c :: cs).takeWhile numeric
      (parseSigned 64 (String.ofList digits)).map fun n =>
        (.integer n, (c :: cs).drop digits.length)

/-- The values of a row, with commas between them and a bracket after them. -/
def readRow : Nat → List Char → Option (List Value)
  | 0, _ => none
  | fuel + 1, cs => do
    let (value, rest) ← readValue cs
    match rest with
    | [] => none
    | c :: rest =>
      if c = ',' then (readRow fuel rest).map (value :: ·)
      else if c = ')' ∧ rest = [] then some [value]
      else none

section

variable {rest cs : List Char} {s : String}

/-- A value ends here. -/
def Ends (rest : List Char) : Prop := ∃ c cs, rest = c :: cs ∧ (c = ',' ∨ c = ')')

theorem Ends.head_ne_quote (h : Ends rest) : rest.head? ≠ some quote := by
  obtain ⟨c, cs, rfl, rfl | rfl⟩ := h <;> simp [quote]

theorem readValue_text (hrest : Ends rest) :
    readValue (quote :: (doubled quote s.toList ++ quote :: rest)) = some (.text s, rest) := by
  rw [readValue, if_pos rfl, readQuoted_doubled hrest.head_ne_quote, Option.map_some]
  dsimp only
  rw [String.ofList_toList]

theorem doubled_of_not_mem {q : Char} (h : q ∉ cs) : doubled q cs = cs := by
  induction cs with
  | nil => rfl
  | cons c cs ih =>
    have hc : c ≠ q := fun hc => h (hc ▸ List.mem_cons_self)
    have hcons : doubled q (c :: cs) = c :: doubled q cs := by simp [doubled, hc]
    rw [hcons, ih fun hq => h (List.mem_cons_of_mem _ hq)]

theorem isAlphanum_hexDigit {n : Nat} (h : n < 16) : (hexDigit n).isAlphanum = true := by
  revert n
  decide

theorem isAlphanum_writeHex (bytes : List UInt8) : ∀ c ∈ writeHex bytes, c.isAlphanum = true := by
  intro c hc
  obtain ⟨b, -, hc⟩ := List.mem_flatMap.mp hc
  have hlt := b.toNat_lt
  rcases List.mem_cons.mp hc with rfl | hc
  · exact isAlphanum_hexDigit (by omega)
  · rw [List.mem_singleton.mp hc]
    exact isAlphanum_hexDigit (by omega)

theorem readValue_blob (bytes : List UInt8) (hrest : Ends rest) :
    readValue ('X' :: quote :: (writeHex bytes ++ quote :: rest)) = some (.blob bytes, rest) := by
  have hnot : quote ∉ writeHex bytes := fun h =>
    absurd (isAlphanum_writeHex bytes quote h) (by decide)
  have hread := @readQuoted_doubled quote (writeHex bytes) rest hrest.head_ne_quote
  rw [doubled_of_not_mem hnot] at hread
  rw [readValue, if_neg (by decide), if_pos rfl, expect, if_pos rfl, expect]
  show (readQuoted quote (writeHex bytes ++ quote :: rest)).bind _ = _
  rw [hread]
  show (readHex (writeHex bytes)).bind _ = _
  rw [readHex_writeHex]
  rfl

theorem readValue_null : readValue ('N' :: 'U' :: 'L' :: 'L' :: rest) = some (.null, rest) := by
  rw [readValue, if_neg (by decide), if_neg (by decide), if_pos rfl]
  rw [show 'U' :: 'L' :: 'L' :: rest = ['U', 'L', 'L'] ++ rest from rfl, expect_append]
  rfl

theorem plain_of_numeric {c : Char} (h : numeric c = true) : plain c = true := by
  have hne (d : Char) (hd : numeric d = false) : c ≠ d := by
    rintro rfl
    rw [h] at hd
    cases hd
  simp [plain, closing, hne _ (show numeric nul = false from rfl),
    hne _ (show numeric ';' = false from rfl), hne _ (show numeric quote = false from rfl),
    hne _ (show numeric doubleQuote = false from rfl),
    hne _ (show numeric backQuote = false from rfl), hne _ (show numeric '[' = false from rfl)]

theorem numeric_toString (n : Int) : ∀ c ∈ (toString n).toList, numeric c = true := by
  have hdigits (k : Nat) : ∀ c ∈ (Nat.repr k).toList, numeric c = true := by
    intro c hc
    rw [toList_repr] at hc
    unfold numeric
    rw [List.all_eq_true.mp (all_isDigit_toDigits k) c hc, Bool.true_or]
  cases n with
  | ofNat k => exact hdigits k
  | negSucc k =>
    have hcons : (toString (Int.negSucc k)).toList = '-' :: (Nat.repr (k + 1)).toList := by
      show ("-" ++ Nat.repr (k + 1)).toList = _
      rw [String.toList_append]
      rfl
    rw [hcons, List.forall_mem_cons]
    exact ⟨rfl, hdigits (k + 1)⟩

theorem readValue_integer {n : Int} (hlow : -2 ^ 63 ≤ n) (hhigh : n < 2 ^ 63)
    (hrest : Ends rest) :
    readValue ((toString n).toList ++ rest) = some (.integer n, rest) := by
  have hnumeric := numeric_toString n
  have htake : ((toString n).toList ++ rest).takeWhile numeric =
      (toString n).toList := by
    rw [List.takeWhile_append_of_pos hnumeric]
    obtain ⟨c, cs, rfl, rfl | rfl⟩ := hrest <;> simp [List.takeWhile_cons] <;> rfl
  have hparse : parseSigned 64 (toString n) = some n := by
    rw [parseSigned_toString, if_pos ⟨hlow, hhigh⟩]
  cases htext : (toString n).toList with
  | nil => exact absurd (String.toList_eq_nil_iff.mp htext) (toString_ne_empty n)
  | cons c digits =>
    have hc := hnumeric c (by rw [htext]; exact List.mem_cons_self)
    have hne (d : Char) (hd : numeric d = false) : c ≠ d := by
      rintro rfl
      rw [hc] at hd
      cases hd
    rw [htext] at htake
    rw [List.cons_append, readValue, if_neg (hne _ (by decide)), if_neg (hne _ (by decide)),
      if_neg (hne _ (by decide))]
    rw [List.cons_append] at htake
    dsimp only
    rw [htake, ← htext, String.ofList_toList, hparse, Option.map_some, htext]
    rw [← List.cons_append, List.drop_left]

end

end Opca.Foundation.SqlText
