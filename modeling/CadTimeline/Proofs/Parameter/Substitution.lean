import CadTimeline.Parameter.Substitution
import CadTimeline.Parameter.Table
import CadTimeline.Proofs.Decimal.Characters
import CadTimeline.Proofs.Expr.Evaluation
import CadTimeline.Proofs.Expr.Plain

/-!
# Replaced references

Where the values are finite, a text whose references are replaced has no reference left,
and a text without references is replaced by itself.
-/

namespace CadTimeline

open Binary64

/-- All values that the scope has are finite. -/
def Scope.IsFinite (scope : Scope) : Prop :=
  ∀ name x, scope.value? name = some x → x.isFinite = true

/-- The scope without parameters. -/
def Scope.none : Scope :=
  ParameterTable.empty.scope .constantsOnly

namespace Substitution

open Text

/-! ## Texts without references -/

def HasNoReference (cs : List Char) : Prop :=
  pieces cs = cs.map .char

theorem hasNoReference_nil : HasNoReference [] := by
  rw [HasNoReference, pieces, List.map_nil]

theorem pieces_cons {c : Char} {cs : List Char} (h : c ≠ '$' ∨ takeName cs = []) :
    pieces (c :: cs) = .char c :: pieces cs := by
  rw [pieces, if_neg]
  rintro ⟨hc, hcs⟩
  rcases h with h | h
  · exact h hc
  · exact hcs h

theorem hasNoReference_cons {c : Char} {cs : List Char} (h : c ≠ '$' ∨ takeName cs = [])
    (hcs : HasNoReference cs) : HasNoReference (c :: cs) := by
  rw [HasNoReference, pieces_cons h, hcs, List.map_cons]

theorem hasNoReference_append {cs ds : List Char} (hcs : '$' ∉ cs) (hds : HasNoReference ds) :
    HasNoReference (cs ++ ds) := by
  induction cs with
  | nil => exact hds
  | cons c cs ih =>
      rw [List.mem_cons, not_or] at hcs
      exact hasNoReference_cons (.inl (Ne.symm hcs.1)) (ih hcs.2)

theorem hasNoReference_cons_iff {c : Char} {cs : List Char} :
    HasNoReference (c :: cs) ↔ (c ≠ '$' ∨ takeName cs = []) ∧ HasNoReference cs := by
  constructor
  · intro h
    rw [HasNoReference, pieces, List.map_cons] at h
    split at h
    · cases (List.cons.inj h).1
    · rename_i hplain
      exact ⟨Decidable.not_and_iff_not_or_not.mp hplain |>.imp_right Classical.not_not.mp,
        (List.cons.inj h).2⟩
  · rintro ⟨hplain, hcs⟩
    exact hasNoReference_cons hplain hcs

theorem takeName_cons_eq_nil {c : Char} {cs : List Char} :
    takeName (c :: cs) = [] ↔ isNameStart c = false := by
  rw [takeName]
  split <;> simp_all

/-- A part of a text without references has none. -/
theorem HasNoReference.of_isInfix {cs ds : List Char} (h : HasNoReference ds) (hcs : cs <:+: ds) :
    HasNoReference cs := by
  obtain ⟨front, back, rfl⟩ := hcs
  rw [List.append_assoc] at h
  have hsuffix : HasNoReference (cs ++ back) := by
    induction front with
    | nil => exact h
    | cons c front ih => exact ih (hasNoReference_cons_iff.mp h).2
  clear h
  induction cs with
  | nil => exact hasNoReference_nil
  | cons c cs ih =>
      obtain ⟨hplain, hrest⟩ := hasNoReference_cons_iff.mp hsuffix
      refine hasNoReference_cons (hplain.imp_right fun hname => ?_) (ih hrest)
      cases cs with
      | nil => rfl
      | cons d cs => exact takeName_cons_eq_nil.mpr (takeName_cons_eq_nil.mp hname)

/-- No reference goes over a character that no name holds. -/
theorem HasNoReference.append_cons {cs ds : List Char} (hcs : HasNoReference cs) {c : Char}
    (hdollar : c ≠ '$') (hname : isNameStart c = false) (hds : HasNoReference ds) :
    HasNoReference (cs ++ c :: ds) := by
  induction cs with
  | nil => exact hasNoReference_cons (.inl hdollar) hds
  | cons d cs ih =>
      obtain ⟨hplain, hrest⟩ := hasNoReference_cons_iff.mp hcs
      refine hasNoReference_cons (hplain.imp_right fun htake => ?_) (ih hrest)
      cases cs with
      | nil => exact takeName_cons_eq_nil.mpr hname
      | cons e cs => exact takeName_cons_eq_nil.mpr (takeName_cons_eq_nil.mp htake)

theorem mapM_fill_chars (value? : String → Option Float) (cs : List Char) :
    (cs.map Piece.char).mapM (fill value?) = .ok (cs.map fun c => [c]) := by
  rw [mapM_eq_ok, List.forall₂_map_left_iff, List.forall₂_map_right_iff, List.forall₂_same]
  exact fun _ _ => rfl

theorem substitute_of_hasNoReference {text : String} (h : HasNoReference text.toList)
    (value? : String → Option Float) : substitute value? text = .ok text := by
  have hflat : ∀ cs : List Char, (cs.map fun c => [c]).flatten = cs := by
    intro cs
    induction cs with
    | nil => rfl
    | cons c cs ih => rw [List.map_cons, List.flatten_cons, ih, List.singleton_append]
  simp only [substitute, bind_eq_ok, pure_eq_ok]
  refine ⟨text.toList.map fun c => [c], ?_, ?_⟩
  · rw [h]
    exact mapM_fill_chars value? text.toList
  · rw [hflat, String.ofList_toList]

/-! ## What replacing leaves -/

theorem dollar_notMem_plain (x : Float) : '$' ∉ (Number.plain x).toList := by
  intro h
  rcases Number.isNumeric_of_mem_plain h with h | h | h <;> contradiction

/-- No name starts where the text of a finite number stands. -/
theorem takeName_plain {x : Float} (h : x.isFinite = true) (cs : List Char) :
    takeName ((Number.plain x).toList ++ cs) = [] := by
  obtain ⟨n, hspelled, -⟩ := Number.exists_numeral_magnitudeText (isFinite_iff.mp h)
  obtain ⟨c, tail, htext, hc⟩ := Token.head_of_numeral hspelled
  rw [Number.plain_of_finite h, String.toList_ofList]
  split
  · exact takeName_cons_eq_nil.mpr rfl
  · rw [htext, List.cons_append, takeName_cons_eq_nil]
    rcases hc with hc | rfl
    · exact Token.isNameStart_of_isDigit hc
    · rfl

/-- The text that filled pieces leave. A name starts it only where one started the text
that was read. -/
theorem hasNoReference_of_filled {value? : String → Option Float}
    (hfinite : ∀ name x, value? name = some x → x.isFinite = true) {cs : List Char}
    {parts : List (List Char)} (h : (pieces cs).mapM (fill value?) = .ok parts) :
    HasNoReference parts.flatten ∧ (takeName cs = [] → takeName parts.flatten = []) := by
  rw [mapM_eq_ok] at h
  induction cs using pieces.induct generalizing parts with
  | case1 =>
      rw [pieces, List.forall₂_nil_left_iff] at h
      subst h
      exact ⟨hasNoReference_nil, fun _ => rfl⟩
  | case2 c cs hc ih =>
      rw [pieces, if_pos hc, List.forall₂_cons_left_iff] at h
      obtain ⟨part, parts, hpart, hparts, rfl⟩ := h
      rw [fill, map_eq_ok] at hpart
      obtain ⟨x, hx, rfl⟩ := hpart
      have hvalue := hfinite _ x (Expr.resolve_eq_ok.mp hx)
      rw [List.flatten_cons]
      exact ⟨hasNoReference_append (dollar_notMem_plain x) (ih hparts).1,
        fun _ => takeName_plain hvalue _⟩
  | case3 c cs hc ih =>
      rw [pieces, if_neg hc, List.forall₂_cons_left_iff] at h
      obtain ⟨part, parts, hpart, hparts, rfl⟩ := h
      cases hpart
      obtain ⟨hnone, hname⟩ := ih hparts
      rw [List.flatten_cons, List.singleton_append]
      refine ⟨hasNoReference_cons ?_ hnone, ?_⟩
      · by_cases hdollar : c = '$'
        · exact .inr (hname (Classical.not_not.mp fun hcs => hc ⟨hdollar, hcs⟩))
        · exact .inl hdollar
      · intro htake
        exact takeName_cons_eq_nil.mpr (takeName_cons_eq_nil.mp htake)

theorem mem_of_char_mem_pieces {c : Char} {cs : List Char} (h : .char c ∈ pieces cs) : c ∈ cs := by
  induction cs using pieces.induct with
  | case1 => simp [pieces] at h
  | case2 d cs hd ih =>
      rw [pieces, if_pos hd] at h
      rcases List.mem_cons.mp h with h | h
      · contradiction
      · have hmem := List.mem_append_right (takeName cs) (ih h)
        rw [takeName_append_dropName] at hmem
        exact List.mem_cons_of_mem _ hmem
  | case3 d cs hd ih =>
      rw [pieces, if_neg hd] at h
      rcases List.mem_cons.mp h with h | h
      · cases h
        exact List.mem_cons_self
      · exact List.mem_cons_of_mem _ (ih h)

/-- A result has the characters of its text and those of numbers. -/
theorem mem_of_mem_substitute {value? : String → Option Float} {text result : String}
    (h : substitute value? text = .ok result) {c : Char} (hc : c ∈ result.toList) :
    c ∈ text.toList ∨ IsNumeric c := by
  simp only [substitute, bind_eq_ok, pure_eq_ok] at h
  obtain ⟨parts, hparts, rfl⟩ := h
  rw [String.toList_ofList] at hc
  obtain ⟨part, hpart, hc⟩ := List.mem_flatten.mp hc
  obtain ⟨piece, hpiece, hfill⟩ := exists_of_mem_mapM hparts hpart
  cases piece with
  | char d =>
      cases hfill
      rw [List.mem_singleton.mp hc]
      exact .inl (mem_of_char_mem_pieces hpiece)
  | reference name =>
      rw [fill, map_eq_ok] at hfill
      obtain ⟨x, -, rfl⟩ := hfill
      exact .inr (Number.isNumeric_of_mem_plain hc)

theorem newline_notMem_of_substitute {value? : String → Option Float} {text result : String}
    (h : substitute value? text = .ok result) (htext : '\n' ∉ text.toList) :
    '\n' ∉ result.toList := by
  intro hmem
  rcases mem_of_mem_substitute h hmem with hmem | hnumeric
  · exact htext hmem
  · rcases hnumeric with h | h | h <;> contradiction

theorem hasNoReference_of_substitute {scope : Scope} (hscope : scope.IsFinite)
    {text result : String} (h : substitute scope.value? text = .ok result) :
    HasNoReference result.toList := by
  simp only [substitute, bind_eq_ok, pure_eq_ok] at h
  obtain ⟨parts, hparts, rfl⟩ := h
  rw [String.toList_ofList]
  exact (hasNoReference_of_filled hscope hparts).1

/-- Without parameters a text has no result but itself. -/
theorem substitute_none_eq_ok {text result : String}
    (h : substitute Scope.none.value? text = .ok result) : result = text := by
  have hflat : ∀ (cs : List Char) (parts : List (List Char)),
      List.Forall₂ (fun piece part => fill Scope.none.value? piece = .ok part) (pieces cs) parts →
        parts.flatten = cs := by
    intro cs
    induction cs using pieces.induct with
    | case1 =>
        intro parts hparts
        rw [pieces, List.forall₂_nil_left_iff] at hparts
        rw [hparts, List.flatten_nil]
    | case2 c cs hc ih =>
        intro parts hparts
        rw [pieces, if_pos hc, List.forall₂_cons_left_iff] at hparts
        obtain ⟨part, _, hpart, -⟩ := hparts
        cases hpart
    | case3 c cs hc ih =>
        intro parts hparts
        rw [pieces, if_neg hc, List.forall₂_cons_left_iff] at hparts
        obtain ⟨part, rest, hpart, hrest, rfl⟩ := hparts
        cases hpart
        rw [List.flatten_cons, ih rest hrest, List.singleton_append]
  simp only [substitute, bind_eq_ok, pure_eq_ok, mapM_eq_ok] at h
  obtain ⟨parts, hparts, rfl⟩ := h
  rw [hflat _ _ hparts, String.ofList_toList]

end Substitution

end CadTimeline
