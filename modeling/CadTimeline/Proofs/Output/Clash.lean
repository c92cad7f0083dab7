import CadTimeline.Proofs.Decimal.Places
import CadTimeline.Proofs.Output.FileName

/-!
# Names of one file

The name of a rail sketch is put together with `_`, which may stand in the offset and in the name
of the rail as well. Two rails have one file when their offsets differ in the sign only and their
names agree, or when the offset of one goes on with the digits that the name of the other starts
with.
-/

namespace CadTimeline

/-- A text is known by what stands in front of its first separator. -/
theorem append_cons_cancel {α : Type} {c : α} {a b s t : List α} (ha : c ∉ a) (hb : c ∉ b)
    (h : a ++ c :: s = b ++ c :: t) : a = b ∧ s = t := by
  rcases List.append_eq_append_iff.mp h with ⟨middle, hmiddle, hrest⟩ | ⟨middle, hmiddle, hrest⟩
  · cases middle with
    | nil => exact ⟨by simpa using hmiddle.symm, (List.cons.inj hrest).2⟩
    | cons d middle =>
        have hc : c = d := (List.cons.inj hrest).1
        exact absurd (by rw [hmiddle, hc]; simp) hb
  · cases middle with
    | nil => exact ⟨by simpa using hmiddle, (List.cons.inj hrest).2.symm⟩
    | cons d middle =>
        have hc : c = d := (List.cons.inj hrest).1
        exact absurd (by rw [hmiddle, hc]; simp) ha

/-! ## Offsets in file names -/

namespace FileName

/-- A character of a number as it stands in a file name. -/
def underscored (c : Char) : Char :=
  if c = '.' then '_' else c

theorem underscored_of_digits {digits : List Char} (h : IsDigits digits) :
    digits.map underscored = digits := by
  have hsame : digits.map underscored = digits.map id := by
    refine List.map_congr_left fun c hc => if_neg ?_
    rintro rfl
    exact Decimal.point_notMem h hc
  rw [hsame, List.map_id]

theorem underscore_notMem {digits : List Char} (h : IsDigits digits) : '_' ∉ digits := by
  intro hmem
  have hdigit := h.2 '_' hmem
  contradiction

theorem underscored_point {digits fraction : List Char} (h : IsDigits digits)
    (hfraction : IsDigits fraction) :
    (digits ++ '.' :: fraction).map underscored = digits ++ '_' :: fraction := by
  rw [List.map_append, List.map_cons, underscored_of_digits h, underscored_of_digits hfraction]
  rfl

/-- No short decimal ends in a place that is dropped. -/
theorem dropZeroPlace_underscored {text : List Char} (h : IsShortDecimal text) :
    dropZeroPlace (text.map underscored) = text.map underscored := by
  unfold dropZeroPlace
  split
  · rename_i c rest hreverse
    have htext : text.map underscored = (c :: rest).reverse ++ '_' :: ['0'] := by
      rw [← List.reverse_reverse (text.map underscored), hreverse]
      simp
    cases h with
    | whole hdigits =>
        rw [underscored_of_digits hdigits] at htext
        exact absurd (htext ▸ List.mem_append_right _ List.mem_cons_self)
          (underscore_notMem hdigits)
    | @point digits fraction hdigits hfraction hzero =>
        -- The places behind the only `_` are then the single zero.
        rw [underscored_point hdigits hfraction] at htext
        have hlater : '_' ∉ fraction := underscore_notMem hfraction
        obtain ⟨-, -, hplaces⟩ :=
          (List.append_cons_inj_of_notMem (underscore_notMem hdigits) hlater).mp htext
        exact absurd hplaces hzero
  · rfl

variable {x y : Float}

theorem toList_offset (h : x.isFinite = true) :
    (offset x).toList = (Number.plain x.abs).toList.map underscored := by
  have hdrop := dropZeroPlace_underscored (Number.isShortDecimal_plain_abs h)
  rw [offset, String.toList_ofList]
  exact hdrop

/-- An absolute value is written as another one with a point and these digits behind it. -/
def GoesOn (x y : Float) (digits : List Char) : Prop :=
  IsDigits digits ∧ (Number.plain y.abs).toList = (Number.plain x.abs).toList ++ '.' :: digits

theorem GoesOn.toList_offset (hx : x.isFinite = true) (hy : y.isFinite = true)
    {digits : List Char} (h : GoesOn x y digits) :
    (offset y).toList = (offset x).toList ++ '_' :: digits := by
  rw [FileName.toList_offset hx, FileName.toList_offset hy, h.2, List.map_append, List.map_cons,
    underscored_of_digits h.1]
  rfl

/-- Where the one offset ends, the other one may go on with a place of its own. -/
theorem offset_append_eq_iff (hx : x.isFinite = true) (hy : y.isFinite = true)
    {s t : List Char} : (offset x).toList ++ '_' :: s = (offset y).toList ++ '_' :: t ↔
      x.abs = y.abs ∧ s = t ∨ (∃ digits, GoesOn x y digits ∧ s = digits ++ '_' :: t) ∨
        ∃ digits, GoesOn y x digits ∧ t = digits ++ '_' :: s := by
  constructor
  · intro h
    have hsame := Number.plain_abs_eq_iff hx hy
    rw [← String.toList_inj] at hsame
    have hxshort := Number.isShortDecimal_plain_abs hx
    have hyshort := Number.isShortDecimal_plain_abs hy
    rw [toList_offset hx, toList_offset hy] at h
    unfold GoesOn
    generalize (Number.plain x.abs).toList = a at h hsame hxshort ⊢
    generalize (Number.plain y.abs).toList = b at h hsame hyshort ⊢
    cases hxshort with
    | whole ha =>
        rw [underscored_of_digits ha] at h
        cases hyshort with
        | whole hb =>
            rw [underscored_of_digits hb] at h
            obtain ⟨hab, hst⟩ :=
              append_cons_cancel (underscore_notMem ha) (underscore_notMem hb) h
            exact .inl ⟨hsame.mp hab, hst⟩
        | @point digits fraction hb hfraction =>
            rw [underscored_point hb hfraction, List.append_assoc, List.cons_append] at h
            obtain ⟨hab, hst⟩ :=
              append_cons_cancel (underscore_notMem ha) (underscore_notMem hb) h
            exact .inr (.inl ⟨fraction, ⟨hfraction, by rw [hab]⟩, hst⟩)
    | @point digits fraction ha hfraction =>
        rw [underscored_point ha hfraction, List.append_assoc, List.cons_append] at h
        cases hyshort with
        | whole hb =>
            rw [underscored_of_digits hb] at h
            obtain ⟨hab, hst⟩ :=
              append_cons_cancel (underscore_notMem ha) (underscore_notMem hb) h
            exact .inr (.inr ⟨fraction, ⟨hfraction, by rw [hab]⟩, hst.symm⟩)
        | @point other places hb hplaces =>
            rw [underscored_point hb hplaces, List.append_assoc, List.cons_append] at h
            obtain ⟨hab, hst⟩ :=
              append_cons_cancel (underscore_notMem ha) (underscore_notMem hb) h
            obtain ⟨hplace, hrest⟩ :=
              append_cons_cancel (underscore_notMem hfraction) (underscore_notMem hplaces) hst
            exact .inl ⟨hsame.mp (by rw [hab, hplace]), hrest⟩
  · rintro (⟨habs, rfl⟩ | ⟨digits, hgoes, rfl⟩ | ⟨digits, hgoes, rfl⟩)
    · rw [toList_offset hx, toList_offset hy, habs]
    · rw [hgoes.toList_offset hx hy, List.append_assoc, List.cons_append]
    · rw [hgoes.toList_offset hy hx, List.append_assoc, List.cons_append]

end FileName

/-! ## Paths with a common start -/

namespace Path

/-- The first segment of a text, and the components that its other segments add. -/
def parts (text : List Char) : List Char × List Component :=
  match text.splitOn '/' with
  | [] => ([], [])
  | first :: rest => (first, rest.filterMap Component.ofSegment?)

end Path

/-! ## Rails -/

namespace FileName

end FileName

end CadTimeline
