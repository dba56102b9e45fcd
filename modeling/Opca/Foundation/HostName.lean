/-
  Foundation/HostName.lean --- host names as RFC 1123 has them: labels of letters, digits
  and inner hyphens between dots, the last one no number.

  A name is described by how it is put together; what is said of its labels as they are
  split off again is derived from that.
-/
import Opca.Foundation.Ipv6Forms
import Opca.Foundation.Text

set_option autoImplicit false

namespace Opca.Foundation

/-- Letters, digits and hyphens, the hyphens between others. -/
structure HostLabel (label : List Char) : Prop where
  ne_nil : label ≠ []
  length_le : label.length ≤ 63
  written : ∀ c ∈ label, c.isAlphanum = true ∨ c = '-'
  inner : ∀ front back, label = front ++ '-' :: back → front ≠ [] ∧ back ≠ []

/-- Labels between dots; a last label of digits alone would make it an address. -/
structure HostName (name : String) : Prop where
  size : name.utf8ByteSize ≤ 253
  dotted : ∃ front last, name.toList = ['.'].intercalate (front ++ [last]) ∧
    (∀ label ∈ front ++ [last], HostLabel label) ∧ ∃ c ∈ last, c.isDigit = false

section

variable {label : List Char} {name : String} {c : Char}

theorem HostLabel.not_mem (h : HostLabel label) (hc : c.isAlphanum = false) (hdash : c ≠ '-') :
    c ∉ label := by
  intro hmem
  rcases h.written c hmem with halpha | heq
  · rw [hc] at halpha
    cases halpha
  · exact hdash heq

/-- Hyphens are inner where none is the first or the last character. -/
theorem inner_iff :
    (∀ front back, label = front ++ '-' :: back → front ≠ [] ∧ back ≠ []) ↔
      label.head? ≠ some '-' ∧ label.getLast? ≠ some '-' := by
  constructor
  · intro h
    constructor
    · intro hhead
      obtain ⟨back, hback⟩ := List.head?_eq_some_iff.mp hhead
      exact (h [] back hback).1 rfl
    · intro hlast
      obtain ⟨front, hfront⟩ := List.getLast?_eq_some_iff.mp hlast
      exact (h front [] hfront).2 rfl
  · rintro ⟨hhead, hlast⟩ front back rfl
    constructor
    · rintro rfl
      exact hhead rfl
    · rintro rfl
      exact hlast (by simp)

theorem labels_ne_nil (name : String) : labels name ≠ [] := by
  unfold labels
  exact List.splitOn_ne_nil '.' name.toList

/-- A host name is known by the labels that it splits into. -/
theorem hostName_iff : HostName name ↔ name.utf8ByteSize ≤ 253 ∧
    (∀ label ∈ labels name, HostLabel label) ∧
    ∃ last, (labels name).getLast? = some last ∧ ∃ c ∈ last, c.isDigit = false := by
  constructor
  · rintro ⟨hsize, front, last, hname, hall, hlast⟩
    have hsplit : labels name = front ++ [last] := by
      unfold labels
      rw [hname]
      exact List.splitOn_intercalate '.' (fun label hlabel =>
        (hall label hlabel).not_mem (by decide) (by decide)) (by simp)
    refine ⟨hsize, by rwa [hsplit], last, ?_, hlast⟩
    rw [hsplit, List.getLast?_append_of_ne_nil _ (List.cons_ne_nil _ _)]
    rfl
  · rintro ⟨hsize, hall, last, hlast, hdigit⟩
    obtain ⟨front, hfront⟩ := List.getLast?_eq_some_iff.mp hlast
    rw [hfront] at hall
    refine ⟨hsize, front, last, ?_, hall, hdigit⟩
    rw [← hfront]
    exact (List.intercalate_splitOn '.').symm

/-- What a host name is written with. -/
theorem HostName.written (h : HostName name) (hc : c ∈ name.toList) :
    c.isAlphanum = true ∨ c = '-' ∨ c = '.' := by
  by_cases hdot : c = '.'
  · exact .inr (.inr hdot)
  · obtain ⟨label, hlabel, hmem⟩ := mem_labels hc hdot
    exact ((hostName_iff.mp h).2.1 label hlabel).written c hmem |>.imp_right .inl

theorem HostName.not_mem (h : HostName name) (hc : c.isAlphanum = false) (hdash : c ≠ '-')
    (hdot : c ≠ '.') : c ∉ name.toList := by
  intro hmem
  rcases h.written hmem with halpha | heq | heq
  · rw [hc] at halpha
    cases halpha
  · exact hdash heq
  · exact hdot heq

/-- No host name is an address: the last number of one is no label of the other, nor is a
colon in a name. -/
theorem HostName.parse_eq_none (h : HostName name) : IpAddr.parse name = none := by
  cases hparse : IpAddr.parse name with
  | none => rfl
  | some address =>
    cases address with
    | v4 a b c d =>
      obtain ⟨first, second, third, last, -, -, -, hlast, hname⟩ :=
        IpAddr.parse_v4_iff.mp ⟨a, b, c, d, hparse⟩
      have hdigits := (IpAddr.isOctet_iff.mp hlast).2.2.1
      have hdot : '.' ∉ last := fun hmem => absurd (hdigits '.' hmem) (by decide)
      have hsplit : labels name =
          (first ++ '.' :: (second ++ '.' :: third)).splitOn '.' ++ [last] := by
        have hjoin : name.toList = (first ++ '.' :: (second ++ '.' :: third)) ++ '.' :: last := by
          rw [hname]
          simp
        unfold labels
        rw [hjoin, List.splitOn_append_cons_self, List.splitOn_eq_singleton hdot]
      obtain ⟨-, -, found, hfound, x, hx, hdigit⟩ := hostName_iff.mp h
      rw [hsplit, List.getLast?_append_of_ne_nil _ (List.cons_ne_nil _ _)] at hfound
      cases hfound
      rw [hdigits x hx] at hdigit
      cases hdigit
    | v6 groups =>
      have hcolon := (IpAddr.parse_v6_iff.mp ⟨groups, hparse⟩).colon.1
      exact absurd hcolon (h.not_mem (by decide) (by decide) (by decide))

end

end Opca.Foundation
