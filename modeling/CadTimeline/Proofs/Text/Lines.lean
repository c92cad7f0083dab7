import CadTimeline.Text.Lines
import Mathlib.Data.List.Basic

/-!
# Pieces of a text

A piece between separators has characters of the text but no separator, and so a line
holds no line feed.
-/

namespace CadTimeline.Text

theorem mem_of_mem_splitOn {separator : Char} {text piece : List Char}
    (h : piece ∈ text.splitOn separator) {d : Char} (hd : d ∈ piece) :
    d ∈ text ∧ d ≠ separator := by
  induction text generalizing piece with
  | nil =>
      rw [List.splitOn_nil, List.mem_singleton] at h
      subst h
      exact absurd hd List.not_mem_nil
  | cons c text ih =>
      have hrest : ∀ {piece}, piece ∈ text.splitOn separator → d ∈ piece →
          d ∈ c :: text ∧ d ≠ separator := fun hpiece hd =>
        (ih hpiece hd).imp_left (List.mem_cons_of_mem c)
      rw [List.splitOn_cons_eq_if_modifyHead] at h
      by_cases hc : c = separator
      · rw [if_pos (beq_iff_eq.mpr hc)] at h
        rcases List.mem_cons.mp h with rfl | h
        · exact absurd hd List.not_mem_nil
        · exact hrest h hd
      · rw [if_neg (mt beq_iff_eq.mp hc)] at h
        obtain ⟨first, rest, hsplit⟩ :=
          List.exists_cons_of_ne_nil (List.splitOn_ne_nil separator text)
        rw [hsplit, List.modifyHead_cons] at h
        rcases List.mem_cons.mp h with rfl | h
        · rcases List.mem_cons.mp hd with rfl | hd
          · exact ⟨List.mem_cons_self, hc⟩
          · exact hrest (hsplit ▸ List.mem_cons_self) hd
        · exact hrest (hsplit ▸ List.mem_cons_of_mem _ h) hd

theorem isInfix_intercalate_of_mem {separator piece : List Char} {pieces : List (List Char)}
    (h : piece ∈ pieces) : piece <:+: separator.intercalate pieces := by
  induction pieces with
  | nil => exact absurd h List.not_mem_nil
  | cons first rest ih =>
      cases rest with
      | nil =>
          refine ⟨[], [], ?_⟩
          rw [List.mem_singleton.mp h, List.intercalate_singleton, List.nil_append,
            List.append_nil]
      | cons second rest =>
          rw [List.intercalate_cons_cons]
          rcases List.mem_cons.mp h with rfl | h
          · rw [List.append_assoc]
            exact (List.prefix_append _ _).isInfix
          · exact (ih h).trans (List.suffix_append _ _).isInfix

theorem isInfix_of_mem_splitOn {separator : Char} {text piece : List Char}
    (h : piece ∈ text.splitOn separator) : piece <:+: text := by
  have hinfix : piece <:+: [separator].intercalate (text.splitOn separator) :=
    isInfix_intercalate_of_mem h
  rw [List.intercalate_splitOn] at hinfix
  exact hinfix

theorem separator_notMem_of_mem_splitOn {separator : Char} {text piece : List Char}
    (h : piece ∈ text.splitOn separator) : separator ∉ piece :=
  fun hmem => (mem_of_mem_splitOn h hmem).2 rfl

theorem dropReturn_subset (line : List Char) : dropReturn line ⊆ line := by
  unfold dropReturn
  split
  · exact List.dropLast_subset line
  · exact List.Subset.refl line

theorem newline_notMem_of_mem_lines {text line : List Char} (h : line ∈ lines text) :
    '\n' ∉ line := by
  unfold lines at h
  rcases List.mem_append.mp h with h | h
  · obtain ⟨piece, hpiece, rfl⟩ := List.mem_map.mp h
    have hsplit := separator_notMem_of_mem_splitOn (List.dropLast_subset _ hpiece)
    exact fun hmem => hsplit (dropReturn_subset piece hmem)
  · unfold lastLine at h
    rw [Option.mem_toList, Option.filter_eq_some_iff] at h
    exact separator_notMem_of_mem_splitOn (List.mem_of_getLast? h.1)

/-! ## Two texts in one -/

theorem lines_append_cons (front back : List Char) :
    lines (front ++ '\n' :: back) = (front.splitOn '\n').map dropReturn ++ lines back := by
  have hne := List.splitOn_ne_nil '\n' back
  unfold lines
  dsimp only
  rw [List.splitOn_append_cons_self, List.dropLast_append_of_ne_nil hne, lastLine,
    List.getLast?_append_of_ne_nil _ hne, List.map_append, List.append_assoc]
  rfl

/-- Behind a line feed another text begins. -/
theorem lines_append {front : List Char} (h : front.getLast? = some '\n') (back : List Char) :
    lines (front ++ back) = lines front ++ lines back := by
  obtain ⟨start, rfl⟩ := List.getLast?_eq_some_iff.mp h
  have hnil : lines [] = [] := by simp [lines, lastLine]
  rw [List.append_assoc, List.singleton_append, lines_append_cons, lines_append_cons, hnil,
    List.append_nil]

/-! ## More in a text -/

theorem splitOn_append_of_notMem {separator : Char} {front back rest : List Char}
    {after : List (List Char)} (h : separator ∉ front)
    (hback : back.splitOn separator = rest :: after) :
    (front ++ back).splitOn separator = (front ++ rest) :: after := by
  induction front with
  | nil => exact hback
  | cons c front ih =>
      rw [List.mem_cons, not_or] at h
      rw [List.cons_append, List.splitOn_cons_eq_if_modifyHead,
        if_neg (mt beq_iff_eq.mp (Ne.symm h.1)), ih h.2, List.modifyHead_cons, List.cons_append]

theorem splitOn_of_notMem {separator : Char} {text : List Char} (h : separator ∉ text) :
    text.splitOn separator = [text] := by
  have hsplit := splitOn_append_of_notMem h (List.splitOn_nil separator)
  rwa [List.append_nil] at hsplit

/-- What is put into a text without a separator goes into one piece of it. -/
theorem exists_splitOn_append (separator : Char) (front : List Char) {back rest : List Char}
    {after : List (List Char)} (hback : back.splitOn separator = rest :: after) :
    ∃ before line, ∀ middle, separator ∉ middle →
      (front ++ (middle ++ back)).splitOn separator =
        before ++ (line ++ (middle ++ rest)) :: after := by
  induction front with
  | nil =>
      refine ⟨[], [], fun middle hmiddle => ?_⟩
      rw [List.nil_append, List.nil_append, List.nil_append]
      exact splitOn_append_of_notMem hmiddle hback
  | cons c front ih =>
      obtain ⟨before, line, hline⟩ := ih
      by_cases hc : c = separator
      · refine ⟨[] :: before, line, fun middle hmiddle => ?_⟩
        rw [List.cons_append, List.splitOn_cons_eq_if_modifyHead, if_pos (beq_iff_eq.mpr hc),
          hline middle hmiddle, List.cons_append]
      · have hcons := fun middle hmiddle =>
          congrArg (List.modifyHead (c :: ·)) (hline middle hmiddle)
        have hsplit : ∀ middle, (c :: front ++ (middle ++ back)).splitOn separator =
            ((front ++ (middle ++ back)).splitOn separator).modifyHead (c :: ·) := by
          intro middle
          rw [List.cons_append, List.splitOn_cons_eq_if_modifyHead,
            if_neg (mt beq_iff_eq.mp hc)]
        cases before with
        | nil => exact ⟨[], c :: line, fun middle hm => (hsplit middle).trans (hcons middle hm)⟩
        | cons first before =>
            exact ⟨(c :: first) :: before, line,
              fun middle hm => (hsplit middle).trans (hcons middle hm)⟩

end CadTimeline.Text
