import CadTimeline.Axis
import CadTimeline.Output.Destination
import CadTimeline.Output.FileName
import CadTimeline.Proofs.Decimal.Characters
import CadTimeline.Proofs.Except
import CadTimeline.Proofs.Output.Path
import CadTimeline.Proofs.Text.Lines
import CadTimeline.Proofs.Text.Trim

/-!
# Names of folders and files

Checked folders, components and names of blocks are ordinary names, and so are the
names of action files. The name of a rail file can have segments, since neither a rail
name nor the prefix in a `cross_rails` header is checked.
-/

namespace CadTimeline

open CadTimeline.Path

/-! ## Ordinary names -/

/-- A name without a separator that does not consist of dots is ordinary. -/
theorem isOrdinary_of_mem {name : String} (h : '/' ∉ name.toList) {c : Char}
    (hmem : c ∈ name.toList) (hc : c ≠ '.') : IsOrdinary name := by
  refine ⟨h, ?_, ?_, ?_⟩
  all_goals
    rintro rfl
    simp at hmem
  · exact hc hmem
  · exact hc hmem

theorem Path.IsOrdinary.append {name : String} (h : IsOrdinary name) {ending : String}
    (hend : '/' ∉ ending.toList) {c : Char} (hmem : c ∈ ending.toList) (hc : c ≠ '.') :
    IsOrdinary (name ++ ending) := by
  refine isOrdinary_of_mem ?_ (c := c) (by simp [hmem]) hc
  simp [h.slash, hend]

namespace Segments

theorem checkSegment_eq_ok {what path : String} {segment : List Char} {checked : Option String}
    (h : checkSegment what path segment = .ok checked) (hslash : '/' ∉ segment) :
    ∀ name ∈ checked, IsOrdinary name := by
  intro name hname
  rw [Option.mem_def.mp hname] at h
  unfold checkSegment at h
  split at h
  · cases h
  · rename_i hhere
    split at h
    · cases h
    · rename_i hempty
      split at h
      · cases h
      · cases h
        rw [not_or] at hempty
        refine ⟨by simpa using hslash, ?_, ?_, ?_⟩
        · intro hn
          exact hempty.1 (by simpa using hn)
        · intro hn
          exact hhere (by simpa using congrArg String.toList hn)
        · intro hn
          exact hempty.2 (by simpa using congrArg String.toList hn)

theorem eq_of_checkSegment {what path name : String} {segment : List Char}
    (h : checkSegment what path segment = .ok (some name)) : name = String.ofList segment := by
  unfold checkSegment at h
  split at h
  · cases h
  · split at h
    · contradiction
    · split at h
      · contradiction
      · cases h
        rfl

/-- The segments of a folder or a component path are ordinary names. -/
theorem isOrdinary_of_mem_split {what path : String} {names : List String}
    (h : split what path = .ok names) : ∀ name ∈ names, IsOrdinary name := by
  unfold split at h
  split at h
  · cases h
  · simp only [bind_eq_ok, pure_eq_ok] at h
    obtain ⟨segments, hsegments, rfl⟩ := h
    intro name hname
    obtain ⟨checked, hchecked, hid⟩ := List.mem_filterMap.mp hname
    obtain ⟨segment, hsegment, hcheck⟩ := exists_of_mem_mapM hsegments hchecked
    have hslash : '/' ∉ Text.trim segment := fun hs =>
      Text.separator_notMem_of_mem_splitOn hsegment (Text.trim_subset segment hs)
    exact checkSegment_eq_ok hcheck hslash name hid

end Segments

namespace Destination

/-- What a header must name for its file to be placed. -/
structure IsPlaced (destination : Destination) : Prop where
  folder : ∀ name ∈ destination.folder, IsOrdinary name
  component : ∀ name ∈ destination.component, IsOrdinary name
  slash : '/' ∉ destination.name.toList

theorem slash_notMem_of_isStem {name : String} (h : isStem name = true) :
    '/' ∉ name.toList := by
  simp only [isStem, Bool.and_eq_true, Bool.not_eq_true', List.any_eq_false] at h
  intro hmem
  exact h.2 '/' hmem rfl

theorem readComponent_eq_ok {scope : Scope} {text : String} {names : List String} :
    readComponent scope text = .ok names ↔ names ≠ [] ∧ ∃ path, scope.substitute text = .ok path ∧
      Segments.split "component path" path = .ok names := by
  simp only [readComponent, bind_eq_ok]
  constructor
  · rintro ⟨path, hpath, others, hothers, h⟩
    split at h
    · contradiction
    · rename_i hne
      cases h
      exact ⟨fun hnil => hne (List.isEmpty_iff.mpr hnil), path, hpath, hothers⟩
  · rintro ⟨hne, path, hpath, hnames⟩
    refine ⟨path, hpath, names, hnames, ?_⟩
    rw [if_neg (mt List.isEmpty_iff.mp hne)]
    rfl

theorem isOrdinary_of_readComponent {scope : Scope} {text : String} {names : List String}
    (h : readComponent scope text = .ok names) : ∀ name ∈ names, IsOrdinary name := by
  obtain ⟨-, path, -, hsplit⟩ := readComponent_eq_ok.mp h
  exact Segments.isOrdinary_of_mem_split hsplit

/-- What a header holds when its destination can be read. -/
theorem ofHeader_eq_ok {scope : Scope} {header : Line} {destination : Destination} :
    ofHeader scope header = .ok destination ↔
      ∃ keyword folder name rest path, header.fields = keyword :: folder :: name :: rest ∧
        scope.substitute folder.text = .ok path ∧
        Segments.split "folder" path = .ok destination.folder ∧
        scope.substitute name.text = .ok destination.name ∧ isStem destination.name = true ∧
        (rest = [] ∧ destination.component = [] ∨ ∃ component, rest = [component] ∧
          readComponent scope component.text = .ok destination.component) := by
  constructor
  · intro h
    unfold ofHeader at h
    split at h
    · rename_i keyword folder name rest hfields
      by_cases hwidth : rest.length > 1
      · simp only [if_pos hwidth] at h
        split at h <;> cases h
      · simp only [if_neg hwidth, bind_eq_ok] at h
        obtain ⟨path, hpath, segments, hsegments, stem, hstem, h⟩ := h
        split at h
        · cases h
        · rename_i hvalid
          cases rest with
          | nil =>
              cases h
              exact ⟨keyword, folder, name, [], path, hfields, hpath, hsegments, hstem,
                by simpa using hvalid, .inl ⟨rfl, rfl⟩⟩
          | cons component others =>
              have hnil : others = [] := by simpa using hwidth
              subst hnil
              simp only [List.head?_cons, bind_eq_ok, pure_eq_ok] at h
              obtain ⟨names, hnames, rfl⟩ := h
              exact ⟨keyword, folder, name, [component], path, hfields, hpath, hsegments, hstem,
                by simpa using hvalid, .inr ⟨component, rfl, hnames⟩⟩
    · cases h
  · rintro ⟨keyword, folder, name, rest, path, hfields, hpath, hfolder, hname, hstem, hcomponent⟩
    unfold ofHeader
    rw [hfields]
    rcases hcomponent with ⟨rfl, hnone⟩ | ⟨component, rfl, hread⟩
    · simp only [List.length_nil, Nat.not_lt_zero, gt_iff_lt, if_false, hpath, hfolder, hname,
        hstem, bind, Except.bind, ← hnone]
      rfl
    · simp only [List.length_singleton, Nat.lt_irrefl, gt_iff_lt, if_false, hpath, hfolder, hname,
        hstem, List.head?_cons, hread, bind, Except.bind]
      rfl

theorem isPlaced_of_ofHeader {scope : Scope} {header : Line} {destination : Destination}
    (h : ofHeader scope header = .ok destination) : destination.IsPlaced := by
  obtain ⟨_, _, _, _, _, -, -, hfolder, -, hstem, hcomponent⟩ := ofHeader_eq_ok.mp h
  refine ⟨Segments.isOrdinary_of_mem_split hfolder, ?_, slash_notMem_of_isStem hstem⟩
  rcases hcomponent with ⟨-, hnone⟩ | ⟨component, -, hread⟩
  · rw [hnone]
    exact List.forall_mem_nil _
  · exact isOrdinary_of_readComponent hread

end Destination

/-! ## Names of sketch files -/

namespace FileName

theorem dropZeroPlace_subset (text : List Char) : dropZeroPlace text ⊆ text := by
  unfold dropZeroPlace
  split
  · rename_i c rest hreverse
    intro d hd
    rw [← List.mem_reverse, hreverse]
    exact List.mem_cons_of_mem _ (List.mem_cons_of_mem _ (List.mem_reverse.mp hd))
  · exact List.Subset.refl text

theorem slash_notMem_offset (value : Float) : '/' ∉ (offset value).toList := by
  intro hmem
  simp only [offset, String.toList_ofList] at hmem
  obtain ⟨c, hc, hslash⟩ := List.mem_map.mp (dropZeroPlace_subset _ hmem)
  split at hslash
  · cases hslash
  · subst hslash
    rcases Number.isNumeric_of_mem_plain hc with h | h | h <;> revert h <;> decide

/-- The text in a sketch file name in front of the name itself. -/
def sketchFront (axis : String) (value : Float) : String :=
  axis ++ "_" ++ offset value ++ "_"

theorem sketch_eq (axis : String) (value : Float) (name : String) :
    sketch axis value name = sketchFront axis value ++ name ++ ".csv" :=
  rfl

theorem action_eq (name : String) : action name = name ++ ".csv" :=
  rfl

theorem isOrdinary_action {name : String} (h : '/' ∉ name.toList) :
    IsOrdinary (action name) := by
  rw [action_eq]
  refine isOrdinary_of_mem ?_ (c := 'c') (by simp) (by decide)
  simp [h]

theorem slash_notMem_sketchFront (axis : Axis) (value : Float) :
    '/' ∉ (sketchFront axis.word value).toList := by
  have haxis : '/' ∉ axis.word.toList := by cases axis <;> decide
  simp [sketchFront, haxis, slash_notMem_offset]

theorem isOrdinary_sketch (axis : Axis) (value : Float) {name : String}
    (h : '/' ∉ name.toList) : IsOrdinary (sketch axis.word value name) := by
  rw [sketch_eq]
  refine isOrdinary_of_mem ?_ (c := 'c') (by simp) (by decide)
  simp [slash_notMem_sketchFront, h]

/-! ## Names with segments -/

/-- The segments of a text that a separator ends. -/
def closedSegments (text : String) : List (List Char) :=
  (text.toList.splitOn '/').dropLast

/-- The segments of a text between two separators. -/
def innerSegments (text : String) : List (List Char) :=
  (text.toList.splitOn '/').tail.dropLast

private theorem splitOn_ending (text : List Char) :
    (text ++ ".csv".toList).splitOn '/' =
      (text.splitOn '/').dropLast ++ [(text.splitOn '/').getLastD [] ++ ".csv".toList] :=
  splitOn_append text ".csv".toList ".csv".toList [] (by decide)

/-- Behind the first separator of a text that `.csv` follows, the segments that are `..`
are those between two separators of the text. -/
private theorem up_mem_tail_splitOn_ending (text : List Char) :
    ['.', '.'] ∈ ((text ++ ".csv".toList).splitOn '/').tail ↔
      ['.', '.'] ∈ (text.splitOn '/').tail.dropLast := by
  rw [splitOn_ending]
  have hending : ∀ last : List Char, ['.', '.'] ≠ last ++ ".csv".toList := by
    intro last h
    have hv : 'v' ∈ ['.', '.'] := h ▸ List.mem_append_right last (by decide)
    revert hv
    decide
  cases hs : text.splitOn '/' with
  | nil => exact absurd hs (List.splitOn_ne_nil '/' text)
  | cons first rest =>
      cases rest with
      | nil => simp
      | cons second rest =>
          rw [List.dropLast_cons_cons, List.cons_append, List.tail_cons, List.tail_cons,
            List.mem_append, List.mem_singleton]
          exact or_iff_left (hending _)

/-- The name of a rail file splits into the closed segments of its front, a segment that
is a name, and what the rail name adds. -/
theorem splitOn_railFile (front middle rail : String) (hm : '/' ∉ middle.toList) :
    ∃ first rest, (front ++ middle ++ rail ++ ".csv").toList.splitOn '/' =
        closedSegments front ++ (first ++ middle.toList ++ rest) ::
          ((rail.toList ++ ".csv".toList).splitOn '/').tail := by
  have hmiddle : middle.toList.splitOn '/' = [middle.toList] := List.splitOn_eq_singleton hm
  cases hr : (rail.toList ++ ".csv".toList).splitOn '/' with
  | nil => exact absurd hr (List.splitOn_ne_nil '/' _)
  | cons first rest =>
      have hback := splitOn_append middle.toList (rail.toList ++ ".csv".toList) first rest hr
      rw [hmiddle] at hback
      have hall := splitOn_append front.toList
        (middle.toList ++ (rail.toList ++ ".csv".toList)) _ _ hback
      refine ⟨(front.toList.splitOn '/').getLastD [], first, ?_⟩
      simpa [closedSegments] using hall

private theorem ne_of_underscore_mem {segment dots : List Char} (h : '_' ∈ segment)
    (hdots : ∀ c ∈ dots, c = '.') : segment ≠ dots := by
  rintro rfl
  have := hdots '_' h
  contradiction

variable {front middle rail : String}

theorem up_mem_added_railFile (hm : '/' ∉ middle.toList) (hc : '_' ∈ middle.toList) :
    Component.up ∈ added (front ++ middle ++ rail ++ ".csv").toList ↔
      ['.', '.'] ∈ closedSegments front ∨ ['.', '.'] ∈ innerSegments rail := by
  obtain ⟨first, rest, hsplit⟩ := splitOn_railFile front middle rail hm
  have hname : first ++ middle.toList ++ rest ≠ ['.', '.'] :=
    ne_of_underscore_mem (by simp [hc]) (by simp)
  rw [up_mem_added, hsplit, List.mem_append, List.mem_cons, up_mem_tail_splitOn_ending]
  simp only [hname.symm, false_or, innerSegments]

theorem added_railFile_ne_nil (hm : '/' ∉ middle.toList) (hc : '_' ∈ middle.toList) :
    added (front ++ middle ++ rail ++ ".csv").toList ≠ [] := by
  obtain ⟨first, rest, hsplit⟩ := splitOn_railFile front middle rail hm
  have hname : Component.ofSegment? (first ++ middle.toList ++ rest) =
      some (.name (first ++ middle.toList ++ rest)) := by
    apply ofSegment?_of_ne
    all_goals exact ne_of_underscore_mem (by simp [hc]) (by simp)
  apply List.ne_nil_of_mem (a := .name (first ++ middle.toList ++ rest))
  rw [added, hsplit, List.mem_filterMap]
  exact ⟨_, List.mem_append_right _ List.mem_cons_self, hname⟩

theorem head?_splitOn_railFile (hm : '/' ∉ middle.toList) (hc : '_' ∈ middle.toList) :
    ((front ++ middle ++ rail ++ ".csv").toList.splitOn '/').head? = some ['.'] ↔
      (closedSegments front).head? = some ['.'] := by
  obtain ⟨first, rest, hsplit⟩ := splitOn_railFile front middle rail hm
  have hname : first ++ middle.toList ++ rest ≠ ['.'] :=
    ne_of_underscore_mem (by simp [hc]) (by simp)
  rw [hsplit]
  cases closedSegments front with
  | nil => simpa using hname
  | cons segment segments => simp

end FileName

end CadTimeline
