import CadTimeline.Text.Blank
import Mathlib.Data.List.TakeWhile

/-!
# Trimming

What is left of a text without the blanks at its ends.
-/

namespace CadTimeline.Text

theorem trim_sublist (cs : List Char) : (trim cs).Sublist cs := by
  have hright := (List.dropWhile_sublist (p := isBlank) (l := (trimLeft cs).reverse)).reverse
  rw [List.reverse_reverse] at hright
  exact hright.trans (List.dropWhile_sublist _)

theorem trim_subset (cs : List Char) : trim cs ⊆ cs :=
  (trim_sublist cs).subset

theorem isBlank_of_getLast?_trim {cs : List Char} {c : Char} (h : (trim cs).getLast? = some c) :
    isBlank c = false := by
  rw [trim, trimRight, List.getLast?_reverse] at h
  have hhead := List.head?_dropWhile_not isBlank (trimLeft cs).reverse
  rw [h] at hhead
  exact hhead

theorem trim_isInfix (cs : List Char) : trim cs <:+: cs := by
  have hright := List.reverse_prefix.mpr (List.dropWhile_suffix (l := (trimLeft cs).reverse) isBlank)
  rw [List.reverse_reverse] at hright
  exact hright.isInfix.trans (List.dropWhile_suffix isBlank).isInfix

theorem isBlank_of_head?_trim {cs : List Char} {c : Char} (h : (trim cs).head? = some c) :
    isBlank c = false := by
  have hprefix := List.reverse_prefix.mpr (List.dropWhile_suffix (l := (trimLeft cs).reverse) isBlank)
  rw [List.reverse_reverse] at hprefix
  have hleft : (trimLeft cs).head? = some c := by
    obtain ⟨rest, hrest⟩ := hprefix
    obtain ⟨tail, htail⟩ := List.head?_eq_some_iff.mp h
    rw [trim, trimRight] at htail
    rw [← hrest, htail]
    rfl
  have hhead := List.head?_dropWhile_not isBlank cs
  rw [← trimLeft, hleft] at hhead
  exact hhead

/-- A text without blanks at its ends stays as it is. -/
theorem trim_eq_self_of_ends {cs : List Char} (hhead : ∀ c ∈ cs.head?, isBlank c = false)
    (hlast : ∀ c ∈ cs.getLast?, isBlank c = false) : trim cs = cs := by
  have hdrop : ∀ ds : List Char, (∀ c ∈ ds.head?, isBlank c = false) → ds.dropWhile isBlank = ds := by
    intro ds hds
    cases ds with
    | nil => rfl
    | cons d ds => rw [List.dropWhile_cons_of_neg (Bool.eq_false_iff.mp (hds d rfl))]
  rw [trim, trimLeft, hdrop cs hhead, trimRight, hdrop cs.reverse, List.reverse_reverse]
  rw [List.head?_reverse]
  exact hlast

theorem trim_trim (cs : List Char) : trim (trim cs) = trim cs :=
  trim_eq_self_of_ends (fun _ h => isBlank_of_head?_trim h) fun _ h => isBlank_of_getLast?_trim h

/-! ## Blanks at the ends -/

variable {blanks : List Char}

theorem trim_blanks_append (h : ∀ c ∈ blanks, isBlank c = true) (cs : List Char) :
    trim (blanks ++ cs) = trim cs := by
  rw [trim, trimLeft, List.dropWhile_append_of_pos h]
  rfl

theorem trim_append_blanks (h : ∀ c ∈ blanks, isBlank c = true) (cs : List Char) :
    trim (cs ++ blanks) = trim cs := by
  unfold trim trimLeft
  rw [List.dropWhile_append]
  split
  · rename_i hempty
    rw [List.isEmpty_iff.mp hempty, List.dropWhile_eq_nil_iff.mpr h]
  · have hreverse : ∀ c ∈ blanks.reverse, isBlank c = true :=
      fun c hc => h c (List.mem_reverse.mp hc)
    rw [trimRight, trimRight, List.reverse_append, List.dropWhile_append_of_pos hreverse]

theorem trim_eq_nil_iff {cs : List Char} : trim cs = [] ↔ ∀ c ∈ cs, isBlank c = true := by
  constructor
  · intro h c hc
    rw [trim, trimRight, List.reverse_eq_nil_iff, List.dropWhile_eq_nil_iff] at h
    rw [← List.takeWhile_append_dropWhile (p := isBlank) (l := cs), List.mem_append] at hc
    rcases hc with hc | hc
    · exact List.mem_takeWhile_imp hc
    · exact h c (List.mem_reverse.mpr hc)
  · intro h
    have htrim := trim_blanks_append h []
    rwa [List.append_nil] at htrim

theorem trim_ne_nil_iff {cs : List Char} : trim cs ≠ [] ↔ ∃ c ∈ cs, isBlank c = false := by
  simp [trim_eq_nil_iff]

end CadTimeline.Text
