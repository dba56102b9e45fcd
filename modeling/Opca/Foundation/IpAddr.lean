/-
  Foundation/IpAddr.lean --- IP addresses and their text forms, as the parser of
  Rust's `std::net` reads them.

  Each reader takes the characters left and gives back what it read and what is
  left after it; one that fails consumes nothing.
-/
import Mathlib.Data.Nat.Basic

set_option autoImplicit false

namespace Opca.Foundation

/-- An IPv4 address by its octets, or an IPv6 one by its eight groups. -/
inductive IpAddr where
  | v4 (a b c d : UInt8)
  | v6 (groups : Vector UInt16 8)
  deriving DecidableEq

namespace IpAddr

/-- What a reader read, and the characters it left. -/
abbrev Reader (α : Type) := List Char → Option (α × List Char)

/-- `char::to_digit`. -/
def toDigit (radix : Nat) (c : Char) : Option Nat :=
  let value :=
    if '0' ≤ c ∧ c ≤ '9' then some (c.toNat - '0'.toNat)
    else if 'a' ≤ c ∧ c ≤ 'z' then some (c.toNat - 'a'.toNat + 10)
    else if 'A' ≤ c ∧ c ≤ 'Z' then some (c.toNat - 'A'.toNat + 10)
    else none
  value.filter (· < radix)

/-- The digits at the front, and what follows them. -/
def digits (radix : Nat) : List Char → List Nat × List Char
  | [] => ([], [])
  | c :: cs =>
    match toDigit radix c with
    | none => ([], c :: cs)
    | some d =>
      let (ds, rest) := digits radix cs
      (d :: ds, rest)

/-- `read_number`: at most `maxDigits` digits, without a leading zero unless that
is allowed, whose value is below `bound`. -/
def readNumber (radix maxDigits bound : Nat) (allowZeroPrefix : Bool) : Reader Nat :=
  fun cs =>
    let (ds, rest) := digits radix cs
    let value := ds.foldl (fun n d => n * radix + d) 0
    if ds.isEmpty || maxDigits < ds.length then none
    else if !allowZeroPrefix && ds.head? = some 0 && 1 < ds.length then none
    else if value < bound then some (value, rest)
    else none

def readGivenChar (c : Char) : Reader Unit
  | [] => none
  | d :: cs => if d = c then some ((), cs) else none

/-- `read_separator`: every part but the first comes after a separator. -/
def readSeparator {α : Type} (sep : Char) (index : Nat) (inner : Reader α) : Reader α :=
  fun cs =>
    if index = 0 then inner cs
    else (readGivenChar sep cs).bind fun (_, rest) => inner rest

/-- `read_ipv4_addr`, as the four octets. -/
def readIpv4 : Reader (Nat × Nat × Nat × Nat) := fun cs => do
  let octet := readNumber 10 3 256 false
  let (a, cs) ← readSeparator '.' 0 octet cs
  let (b, cs) ← readSeparator '.' 1 octet cs
  let (c, cs) ← readSeparator '.' 2 octet cs
  let (d, cs) ← readSeparator '.' 3 octet cs
  some ((a, b, c, d), cs)

/-- `read_groups`: up to `limit` groups of which `index` are read, the last two
perhaps written as an IPv4 address; and whether they were. -/
def readGroups (limit : Nat) : Nat → Nat → List Nat → List Char → List Nat × Bool × List Char
  | 0, _, groups, cs => (groups, false, cs)
  | left + 1, index, groups, cs =>
    let ipv4 := if index + 1 < limit then readSeparator ':' index readIpv4 cs else none
    match ipv4 with
    | some ((a, b, c, d), rest) => (groups ++ [a * 256 + b, c * 256 + d], true, rest)
    | none =>
      match readSeparator ':' index (readNumber 16 4 65536 true) cs with
      | some (group, rest) => readGroups limit left (index + 1) (groups ++ [group]) rest
      | none => (groups, false, cs)

/-- `read_ipv6_addr`, as its eight groups. -/
def readIpv6 : Reader (List Nat) := fun cs =>
  let (head, headIpv4, cs) := readGroups 8 8 0 [] cs
  if head.length = 8 then some (head, cs)
  else if headIpv4 then none
  else do
    let (_, cs) ← readGivenChar ':' cs
    let (_, cs) ← readGivenChar ':' cs
    let limit := 8 - (head.length + 1)
    let (tail, _, cs) := readGroups limit limit 0 [] cs
    some (head ++ List.replicate (8 - head.length - tail.length) 0 ++ tail, cs)

def readIpAddr : Reader IpAddr := fun cs =>
  match readIpv4 cs with
  | some ((a, b, c, d), rest) =>
    some (.v4 (.ofNat a) (.ofNat b) (.ofNat c) (.ofNat d), rest)
  | none =>
    (readIpv6 cs).map fun (groups, rest) =>
      (.v6 (.ofFn fun i => .ofNat (groups.getD i 0)), rest)

/-- `str::parse::<IpAddr>`: an address that takes the whole text. -/
def parse (s : String) : Option IpAddr :=
  match readIpAddr s.toList with
  | some (addr, []) => some addr
  | _ => none

example : parse "10.0.0.255" = some (.v4 10 0 0 255) ∧ parse "10.0.0.01" = none ∧
    (parse "fe80::1:10.0.0.1").isSome ∧ parse "1:2:3:4:5:6:7" = none := by
  decide

end IpAddr

end Opca.Foundation
