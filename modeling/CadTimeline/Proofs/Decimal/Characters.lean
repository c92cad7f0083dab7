import CadTimeline.Decimal.Plain
import Mathlib.Data.List.Basic

/-!
# Characters of plain numbers

The text of a number consists of letters, digits, points and minus signs.
-/

namespace CadTimeline

/-- A character that can stand in the text of a number. -/
def IsNumeric (c : Char) : Prop :=
  c.isAlphanum = true ∨ c = '.' ∨ c = '-'

theorem isNumeric_of_isDigit {c : Char} (h : c.isDigit = true) : IsNumeric c := by
  refine .inl ?_
  simp [Char.isAlphanum, h]

namespace Decimal

theorem mem_withPoint {digits : List Char} {places : Nat} {c : Char}
    (h : c ∈ withPoint digits places) : c ∈ digits ∨ c = '.' ∨ c = '0' := by
  unfold withPoint at h
  simp only at h
  split at h
  · exact .inl h
  · split at h
    · simp only [List.cons_append, List.mem_cons, List.mem_append] at h
      rcases h with h | h | h | h
      · exact .inr (.inr h)
      · exact .inr (.inl h)
      · exact .inr (.inr (List.eq_of_mem_replicate h))
      · exact .inl h
    · rcases List.mem_append.mp h with h | h
      · exact .inl (List.mem_of_mem_take h)
      · rcases List.mem_cons.mp h with h | h
        · exact .inr (.inl h)
        · exact .inl (List.mem_of_mem_drop h)

theorem isNumeric_of_mem_plain {d : Decimal} {c : Char} (h : c ∈ d.plain) : IsNumeric c := by
  rcases mem_withPoint h with h | rfl | rfl
  · rcases List.mem_append.mp h with h | h
    · exact isNumeric_of_isDigit (Nat.isDigit_of_mem_toDigits (by decide) (by decide) h)
    · rw [List.eq_of_mem_replicate h]
      exact isNumeric_of_isDigit rfl
  · exact .inr (.inl rfl)
  · exact isNumeric_of_isDigit rfl

theorem withPoint_ne_nil {digits : List Char} (h : digits ≠ []) (places : Nat) :
    withPoint digits places ≠ [] := by
  unfold withPoint
  dsimp only
  split
  · exact h
  · split
    · exact List.cons_ne_nil _ _
    · exact List.append_ne_nil_of_right_ne_nil _ (List.cons_ne_nil _ _)

theorem plain_ne_nil (d : Decimal) : d.plain ≠ [] :=
  withPoint_ne_nil (List.append_ne_nil_of_left_ne_nil Nat.toDigits_ne_nil _) _

end Decimal

namespace Number

theorem isNumeric_of_mem_magnitudeText {rank : Nat} {c : Char} (h : c ∈ magnitudeText rank) :
    IsNumeric c := by
  unfold magnitudeText at h
  split at h
  · rw [List.mem_singleton.mp h]
    exact isNumeric_of_isDigit rfl
  · exact Decimal.isNumeric_of_mem_plain h

theorem isNumeric_of_mem_display {x : Float} {c : Char} (h : c ∈ (display x).toList) :
    IsNumeric c := by
  have hletters : ("NaN".toList ++ "inf".toList).all Char.isAlphanum = true := by decide
  have hwords : ∀ c ∈ "NaN".toList ++ "inf".toList, IsNumeric c :=
    fun c hc => .inl (List.all_eq_true.mp hletters c hc)
  unfold display at h
  split at h
  · exact hwords c (List.mem_append_left _ h)
  · have hsize : ∀ c ∈ (if x.isInf then "inf".toList else magnitudeText (Binary64.rank x)),
        IsNumeric c := by
      intro c hc
      split at hc
      · exact hwords c (List.mem_append_right _ hc)
      · exact isNumeric_of_mem_magnitudeText hc
    rw [String.toList_ofList] at h
    split at h
    · rcases List.mem_cons.mp h with rfl | h
      · exact .inr (.inr rfl)
      · exact hsize c h
    · exact hsize c h

theorem isNumeric_of_mem_plain {x : Float} {c : Char} (h : c ∈ (plain x).toList) :
    IsNumeric c := by
  unfold plain at h
  split at h
  · rw [List.mem_singleton.mp h]
    exact isNumeric_of_isDigit rfl
  · exact isNumeric_of_mem_display h

theorem display_ne_empty (x : Float) : (display x).toList ≠ [] := by
  have hmagnitude : magnitudeText (Binary64.rank x) ≠ [] := by
    unfold magnitudeText
    split
    · exact List.cons_ne_nil _ _
    · exact Decimal.plain_ne_nil _
  unfold display
  split
  · decide
  · rw [String.toList_ofList]
    split
    · exact List.cons_ne_nil _ _
    · split
      · decide
      · exact hmagnitude

theorem plain_ne_empty (x : Float) : (plain x).toList ≠ [] := by
  unfold plain
  split
  · decide
  · exact display_ne_empty x

end Number

end CadTimeline
