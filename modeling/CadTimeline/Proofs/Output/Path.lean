import CadTimeline.Output.Path
import Mathlib.Data.List.Basic

/-!
# Components of joined paths

What joining a piece to a path adds to its components, and when the result is the
path followed by ordinary names.
-/

namespace CadTimeline.Path

/-! ## Splitting at separators -/

/-- Splitting a text put together of two: the last segment of the one and the first of
the other become a single segment. -/
theorem splitOn_append (front back first : List Char) (rest : List (List Char))
    (h : back.splitOn '/' = first :: rest) :
    (front ++ back).splitOn '/' =
      (front.splitOn '/').dropLast ++ ((front.splitOn '/').getLastD [] ++ first) :: rest := by
  induction front with
  | nil => simp [h]
  | cons c front ih =>
      have hne := List.splitOn_ne_nil '/' front
      rw [List.cons_append, List.splitOn_cons_eq_if_modifyHead, List.splitOn_cons_eq_if_modifyHead,
        ih]
      cases hs : front.splitOn '/' with
      | nil => exact absurd hs hne
      | cons s segments =>
          by_cases hc : c == '/'
          · simp [hc]
          · simp only [hc, Bool.false_eq_true, if_false, List.modifyHead_cons]
            cases segments <;> simp

/-- The components that a text adds behind a separator. -/
def added (text : List Char) : List Component :=
  (text.splitOn '/').filterMap Component.ofSegment?

theorem ofSegment?_eq_up {segment : List Char} :
    Component.ofSegment? segment = some .up ↔ segment = ['.', '.'] := by
  unfold Component.ofSegment?
  split <;> simp_all

/-- A segment adds nothing, a step upwards or its name. -/
theorem ofSegment?_of_ne {segment : List Char} (hempty : segment ≠ []) (hhere : segment ≠ ['.'])
    (hup : segment ≠ ['.', '.']) : Component.ofSegment? segment = some (.name segment) := by
  unfold Component.ofSegment?
  split <;> simp_all

theorem mem_added {text : List Char} {component : Component} (h : component ∈ added text) :
    component = .up ∨ ∃ name, component = .name name := by
  obtain ⟨segment, -, hsegment⟩ := List.mem_filterMap.mp h
  unfold Component.ofSegment? at hsegment
  split at hsegment
  · cases hsegment
  · cases hsegment
  · cases hsegment
    exact .inl rfl
  · cases hsegment
    exact .inr ⟨_, rfl⟩

theorem up_mem_added {text : List Char} :
    Component.up ∈ added text ↔ ['.', '.'] ∈ text.splitOn '/' := by
  rw [added, List.mem_filterMap]
  simp only [ofSegment?_eq_up, exists_eq_right]

/-! ## Joining -/

/-- What the first segment of a path adds. -/
def front (segment : List Char) : List Component :=
  if segment = [] then [.root]
  else if segment = ['.'] then [.here]
  else (Component.ofSegment? segment).toList

theorem components_eq {path : Path} (h : path.text ≠ "") {first : List Char}
    {rest : List (List Char)} (hs : path.segments = first :: rest) :
    path.components = front first ++ rest.filterMap Component.ofSegment? := by
  have hempty : path.text.isEmpty = false := by simpa using h
  rw [components, hs]
  simp only [hempty, Bool.false_eq_true, if_false, front]

theorem components_empty : (Path.mk "").components = [] := by
  decide

theorem segments_ne_nil (path : Path) : path.segments ≠ [] :=
  List.splitOn_ne_nil '/' path.text.toList

/-- A separator and a piece behind a path add the inner components of the piece. -/
theorem components_append (path : Path) (h : path.text ≠ "") (piece : String) :
    (Path.mk (path.text ++ "/" ++ piece)).components =
      path.components ++ added piece.toList := by
  have hlonger : path.text ++ "/" ++ piece ≠ "" := by simp
  cases hs : path.segments with
  | nil => exact absurd hs path.segments_ne_nil
  | cons first rest =>
      have hsegments : (Path.mk (path.text ++ "/" ++ piece)).segments =
          first :: (rest ++ piece.toList.splitOn '/') := by
        have hsplit := List.splitOn_append_cons_self (a := '/') path.text.toList piece.toList
        rw [segments] at hs ⊢
        rw [hs] at hsplit
        simpa using hsplit
      rw [components_eq hlonger hsegments, components_eq h hs, List.filterMap_append,
        List.append_assoc, added]

theorem isAbsolute_iff {text : String} :
    (Path.mk text).isAbsolute = true ↔ text.toList.head? = some '/' := by
  simp [isAbsolute]

/-- Joining a relative piece adds its inner components. -/
theorem components_join {path : Path} (h : path.text ≠ "") {piece : String}
    (hpiece : piece.toList.head? ≠ some '/') :
    (path.join piece).components = path.components ++ added piece.toList := by
  have hrelative : (Path.mk piece).isAbsolute = false :=
    Bool.eq_false_iff.mpr (mt isAbsolute_iff.mp hpiece)
  have hempty : path.text.isEmpty = false := by simpa using h
  rw [join, hrelative, hempty]
  simp only [Bool.or_self, Bool.false_eq_true, if_false]
  split
  · rename_i hlast
    -- The separator at the end of the path is the one between the two.
    obtain ⟨before, hbefore⟩ := List.getLast?_eq_some_iff.mp (by simpa using hlast)
    have htext : path.text = String.ofList before ++ "/" ++ "" := by
      rw [← String.toList_inj, hbefore]
      simp
    by_cases hb : String.ofList before = ""
    · have hroot : path = ⟨"/"⟩ := by
        cases path
        simp_all
      subst hroot
      have hsegments : (Path.mk ("/" ++ piece)).segments = [] :: piece.toList.splitOn '/' := by
        simp [segments, List.splitOn_cons_eq_if_modifyHead]
      rw [components_eq (by simp) hsegments]
      rfl
    · have hfront := components_append ⟨String.ofList before⟩ hb
      have hpath : path = ⟨String.ofList before ++ "/" ++ ""⟩ := by
        rw [← htext]
      rw [show path.text ++ piece = String.ofList before ++ "/" ++ piece by rw [htext]; simp,
        hfront, hpath, hfront]
      simp [added, Component.ofSegment?]
  · exact components_append path h piece

private theorem head?_of_splitOn {text : List Char} {rest : List (List Char)}
    (h : text.splitOn '/' = [] :: rest) (hne : text ≠ []) : text.head? = some '/' := by
  cases text with
  | nil => exact absurd rfl hne
  | cons c text =>
      rw [List.splitOn_cons_eq_if_modifyHead] at h
      by_cases hc : c = '/'
      · simp [hc]
      · cases hs : text.splitOn '/' <;> simp [hc, hs] at h

/-- A relative path on its own has the inner components of its text, unless a `.`
stands at its start. -/
theorem components_of_relative {text : String} (hroot : text.toList.head? ≠ some '/')
    (hhere : (text.toList.splitOn '/').head? ≠ some ['.']) :
    (Path.mk text).components = added text.toList := by
  by_cases ht : text = ""
  · subst ht
    decide
  · cases hs : text.toList.splitOn '/' with
    | nil => exact absurd hs (List.splitOn_ne_nil '/' text.toList)
    | cons first rest =>
        have hfirst : first ≠ [] := by
          intro hempty
          subst hempty
          exact hroot (head?_of_splitOn hs (by simpa using ht))
        rw [components_eq ht hs, added, hs, front, if_neg hfirst, if_neg (by simpa [hs] using hhere)]
        cases hc : Component.ofSegment? first <;> simp [hc]

/-- Joining a relative piece adds its inner components, also to the empty path unless a
`.` stands at the start of the piece. -/
theorem components_join_of_relative (path : Path) (piece : String)
    (hroot : piece.toList.head? ≠ some '/')
    (hhere : path.text = "" → (piece.toList.splitOn '/').head? ≠ some ['.']) :
    (path.join piece).components = path.components ++ added piece.toList := by
  by_cases hp : path.text = ""
  · have hpath : path = ⟨""⟩ := congrArg Path.mk hp
    have hjoin : path.join piece = ⟨piece⟩ := by simp [join, hp]
    rw [hjoin, components_of_relative hroot (hhere hp), hpath, components_empty, List.nil_append]
  · exact components_join hp hroot

/-! ## Ordinary names -/

/-- The text is the name of a file or a directory and nothing else. -/
structure IsOrdinary (name : String) : Prop where
  slash : '/' ∉ name.toList
  empty : name ≠ ""
  here : name ≠ "."
  up : name ≠ ".."

/-- The path is the root followed by one or more names. -/
def IsBelow (path root : Path) : Prop :=
  ∃ names : List (List Char), names ≠ [] ∧ path.components = root.components ++ names.map .name

theorem IsOrdinary.added_eq {name : String} (h : IsOrdinary name) :
    added name.toList = [.name name.toList] := by
  have hsegment : Component.ofSegment? name.toList = some (.name name.toList) := by
    apply ofSegment?_of_ne
    · simpa using h.empty
    · intro hn
      exact h.here (String.toList_inj.mp hn)
    · intro hn
      exact h.up (String.toList_inj.mp hn)
  rw [added, List.splitOn_eq_singleton h.slash]
  simp [hsegment]

theorem IsOrdinary.components_join {name : String} (h : IsOrdinary name) (path : Path) :
    (path.join name).components = path.components ++ [.name name.toList] := by
  have hroot : name.toList.head? ≠ some '/' := fun hn => h.slash (List.mem_of_head? hn)
  rw [components_join_of_relative path name hroot, h.added_eq]
  intro _ hn
  rw [List.splitOn_eq_singleton h.slash] at hn
  exact h.here (String.toList_inj.mp (by simpa using hn))

theorem components_joinAll {names : List String} (h : ∀ name ∈ names, IsOrdinary name)
    (path : Path) :
    (path.joinAll names).components =
      path.components ++ names.map fun name => .name name.toList := by
  induction names generalizing path with
  | nil => simp [joinAll]
  | cons name names ih =>
      have hname := h name List.mem_cons_self
      have hrest := ih (fun other hother => h other (List.mem_cons_of_mem _ hother)) (path.join name)
      have hcons : path.joinAll (name :: names) = (path.join name).joinAll names := rfl
      rw [hcons, hrest, hname.components_join]
      simp

theorem join_text_ne_empty {name : String} (h : IsOrdinary name) (path : Path) :
    (path.join name).text ≠ "" := by
  unfold join
  split
  · exact h.empty
  · split <;> simp [h.empty]

end CadTimeline.Path
