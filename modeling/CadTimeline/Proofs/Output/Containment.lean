import CadTimeline.Proofs.Compile.Session
import CadTimeline.Proofs.Output.FileName
import CadTimeline.Proofs.Rails.Definition
import CadTimeline.Proofs.Reading

/-!
# Containment of the outputs

Action files always lie below the output root. A rail file lies below it exactly when
neither its rail name nor the prefix of its block leads out of its directory.
-/

namespace CadTimeline

open CadTimeline.Path FileName

/-! ## Paths below a root -/

namespace Path

theorem isBelow_of_names {path root : Path} (names : List String) (hne : names ≠ [])
    (h : path.components = root.components ++ names.map fun name => .name name.toList) :
    path.IsBelow root := by
  refine ⟨names.map String.toList, by simpa using hne, ?_⟩
  rw [h, List.map_map]
  rfl

private theorem exists_names {components : List Component}
    (h : ∀ component ∈ components, ∃ name, component = .name name) :
    ∃ names : List (List Char), components = names.map .name := by
  induction components with
  | nil => exact ⟨[], rfl⟩
  | cons component components ih =>
      obtain ⟨name, rfl⟩ := h component List.mem_cons_self
      obtain ⟨names, rfl⟩ := ih fun other hother => h other (List.mem_cons_of_mem _ hother)
      exact ⟨name :: names, rfl⟩

/-- A path that goes on from names with inner components stays below the root unless one
of them is a step upwards. -/
theorem isBelow_iff {path root : Path} {names : List String} {text : List Char}
    (h : path.components = root.components ++ (names.map fun name => .name name.toList) ++
      added text) (hne : added text ≠ []) : path.IsBelow root ↔ Component.up ∉ added text := by
  constructor
  · rintro ⟨below, -, hbelow⟩ hup
    rw [h, List.append_assoc] at hbelow
    have hmem : Component.up ∈ below.map Component.name := by
      rw [← List.append_cancel_left hbelow]
      exact List.mem_append_right _ hup
    simp at hmem
  · intro hup
    obtain ⟨rest, hrest⟩ := exists_names fun component hmem =>
      (mem_added hmem).resolve_left fun hc => hup (hc ▸ hmem)
    refine ⟨names.map String.toList ++ rest, ?_, ?_⟩
    · intro hnil
      rw [List.append_eq_nil_iff] at hnil
      exact hne (by rw [hrest, hnil.2, List.map_nil])
    · rw [h, hrest]
      simp

theorem joinAll_text_ne_empty {names : List String} (hne : names ≠ [])
    (h : ∀ name ∈ names, IsOrdinary name) (root : Path) : (root.joinAll names).text ≠ "" := by
  induction names generalizing root with
  | nil => exact absurd rfl hne
  | cons name names ih =>
      have hname := join_text_ne_empty (h name List.mem_cons_self) root
      cases names with
      | nil => exact hname
      | cons other names =>
          exact ih (by simp) (fun n hn => h n (List.mem_cons_of_mem _ hn)) (root.join name)

theorem isBelow_join {names : List String} (h : ∀ name ∈ names, IsOrdinary name) {file : String}
    (hfile : IsOrdinary file) (root : Path) : ((root.joinAll names).join file).IsBelow root := by
  apply isBelow_of_names (names ++ [file]) (by simp)
  rw [hfile.components_join, components_joinAll h]
  simp

end Path

/-! ## Action files -/

namespace Destination

variable {destination : Destination}

theorem IsPlaced.segments (h : destination.IsPlaced) :
    ∀ name ∈ destination.segments, IsOrdinary name := by
  intro name hname
  rcases List.mem_append.mp hname with hname | hname
  · exact h.folder name hname
  · exact h.component name hname

/-- The directory of the co rails is the root followed by names. -/
theorem IsPlaced.railsDirectory_eq (h : destination.IsPlaced) (root : Path) :
    ∃ names, names ≠ [] ∧ (∀ name ∈ names, IsOrdinary name) ∧
      destination.railsDirectory root = root.joinAll names := by
  unfold railsDirectory
  cases hlast : destination.segments.getLast? with
  | none => exact ⟨["rails"], by simp, by simpa using ⟨by decide, by decide, by decide, by decide⟩, rfl⟩
  | some last =>
      refine ⟨destination.segments.dropLast ++ [last ++ "_rails"], by simp, ?_, rfl⟩
      intro name hname
      rcases List.mem_append.mp hname with hname | hname
      · exact h.segments name (List.dropLast_subset _ hname)
      · rw [List.mem_singleton.mp hname]
        have hlast := h.segments last (List.mem_of_getLast? hlast)
        exact hlast.append (by decide) (c := '_') (by decide) (by decide)

end Destination

namespace Analysis

variable {analysis : Analysis} {root : Path}

theorem isOrdinary_fileName {action : Action} (h : action.destination.IsPlaced) :
    IsOrdinary (analysis.fileName root action) := by
  unfold fileName
  split
  · split
    · exact isOrdinary_sketch _ _ h.slash
    · exact isOrdinary_action h.slash
  · exact isOrdinary_action h.slash

theorem isBelow_actionOutput {action : Action} (h : action.destination.IsPlaced) :
    (analysis.actionOutput root action).path.IsBelow root :=
  isBelow_join h.segments (isOrdinary_fileName h) root

end Analysis

/-! ## Rail files -/

/-- No step upwards stands between two separators of a rail name. -/
def RailStays (rail : String) : Prop :=
  ['.', '.'] ∉ innerSegments rail

private theorem head?_sketchFront (axis : Axis) (value : Float) :
    ∃ c, c ≠ '/' ∧ (sketchFront axis.word value).toList.head? = some c := by
  cases axis
  · exact ⟨'x', by decide, by simp [sketchFront, Axis.word]⟩
  · exact ⟨'y', by decide, by simp [sketchFront, Axis.word]⟩
  · exact ⟨'z', by decide, by simp [sketchFront, Axis.word]⟩

private theorem underscore_mem_sketchFront (axis : String) (value : Float) :
    '_' ∈ (sketchFront axis value).toList := by
  simp [sketchFront]

/-- A rail file in a directory below the root or at it. -/
theorem isBelow_railFile {path directory root : Path} {names : List String}
    {front middle rail : String}
    (hdirectory : directory.components = root.components ++ names.map fun name => .name name.toList)
    (hm : '/' ∉ middle.toList) (hc : '_' ∈ middle.toList)
    (hpath : path.components = directory.components ++
      added (front ++ middle ++ rail ++ ".csv").toList) :
    path.IsBelow root ↔ ['.', '.'] ∉ closedSegments front ∧ RailStays rail := by
  rw [hdirectory] at hpath
  rw [isBelow_iff hpath (added_railFile_ne_nil hm hc), up_mem_added_railFile hm hc, not_or,
    RailStays]

/-- A co rail of an action lies below the root exactly when its name stays. -/
theorem isBelow_coRail {action : Action} (h : action.destination.IsPlaced) (root : Path)
    (axis : Axis) (offset : Float) (rail : String) :
    ((action.destination.railsDirectory root).join
      (FileName.sketch axis.word offset s!"{action.destination.name}_{rail}")).IsBelow root ↔
      RailStays rail := by
  obtain ⟨names, hne, hnames, hdirectory⟩ := h.railsDirectory_eq root
  obtain ⟨c, hc, hhead⟩ := head?_sketchFront axis offset
  have hfile : FileName.sketch axis.word offset s!"{action.destination.name}_{rail}" =
      "" ++ (sketchFront axis.word offset ++ action.destination.name ++ "_") ++ rail ++ ".csv" := by
    change sketchFront axis.word offset ++ (action.destination.name ++ "_" ++ rail) ++ ".csv" = _
    simp only [String.empty_append, String.append_assoc]
  have hrelative : (FileName.sketch axis.word offset
      s!"{action.destination.name}_{rail}").toList.head? ≠ some '/' := by
    rw [hfile]
    simp [hhead, hc]
  have hpath := components_join (joinAll_text_ne_empty hne hnames root) hrelative
  rw [hdirectory]
  rw [hfile] at hpath ⊢
  rw [isBelow_railFile (components_joinAll hnames root) ?_ ?_ hpath]
  · simp [closedSegments]
  · simp [slash_notMem_sketchFront, h.slash]
  · simp

/-- A prefix that does not lead out of the directory; `bare` says that the directory is
the empty path. -/
structure PrefixStays (bare : Prop) (namePrefix : String) : Prop where
  up : ['.', '.'] ∉ closedSegments namePrefix
  here : bare → (closedSegments namePrefix).head? ≠ some ['.']

namespace CrossRails

/-- The rail file of this name does not lead out of the output root. A file name that is an
absolute path takes the place of the root, so it must itself lie below it. -/
def Stays (rails : CrossRails) (root : Path) (offset : Float) (rail : String) : Prop :=
  match rails.namePrefix with
  | none => RailStays rail
  | some namePrefix =>
    if namePrefix.toList.head? = some '/' then
      (Path.mk (FileName.rail (some namePrefix) rails.railNormal.word offset rail)).IsBelow root
    else PrefixStays (root.text = "" ∧ rails.folder = []) namePrefix ∧ RailStays rail

/-- What a header holds when it can be read. -/
theorem readHeader_eq_ok {scope : Scope} {header : Line} {folder : List String}
    {namePrefix : Option String} (h : readHeader scope header = .ok (folder, namePrefix)) :
    ∃ keyword first rest path, header.fields = keyword :: first :: rest ∧
      scope.substitute first.text = .ok path ∧ Segments.split "folder" path = .ok folder ∧
      (rest = [] ∧ namePrefix = none ∨ ∃ field text, rest = [field] ∧
        scope.substitute field.text = .ok text ∧ namePrefix = some text) := by
  unfold readHeader at h
  split at h
  · rename_i keyword first rest hfields
    by_cases hwidth : rest.length > 1
    · simp only [if_pos hwidth] at h
      split at h <;> cases h
    · simp only [if_neg hwidth] at h
      cases rest with
      | nil =>
          simp only [List.head?_nil, bind_eq_ok, pure_eq_ok] at h
          obtain ⟨path, hpath, segments, hsegments, hpair⟩ := h
          cases hpair
          exact ⟨keyword, first, [], path, hfields, hpath, hsegments, .inl ⟨rfl, rfl⟩⟩
      | cons field others =>
          have hnil : others = [] := by simpa using hwidth
          subst hnil
          simp only [List.head?_cons, bind_eq_ok, pure_eq_ok] at h
          obtain ⟨path, hpath, segments, hsegments, text, htext, hpair⟩ := h
          cases hpair
          exact ⟨keyword, first, [field], path, hfields, hpath, hsegments,
            .inr ⟨field, text, rfl, htext, rfl⟩⟩
  · cases h

theorem isOrdinary_of_readHeader {scope : Scope} {header : Line} {folder : List String}
    {namePrefix : Option String} (h : readHeader scope header = .ok (folder, namePrefix)) :
    ∀ name ∈ folder, IsOrdinary name := by
  obtain ⟨_, _, _, _, -, -, hsegments, -⟩ := readHeader_eq_ok h
  exact Segments.isOrdinary_of_mem_split hsegments

theorem isOrdinary_folder {scope : Scope} {block : Block} {rails : CrossRails}
    (h : ofBlock scope block = .ok rails) : ∀ name ∈ rails.folder, IsOrdinary name :=
  isOrdinary_of_readHeader (ofBlock_eq_ok.mp h).1

theorem directory_text_eq_empty {rails : CrossRails} {root : Path}
    (hfolder : ∀ name ∈ rails.folder, IsOrdinary name) :
    (rails.directory root).text = "" ↔ root.text = "" ∧ rails.folder = [] := by
  unfold directory
  by_cases hnil : rails.folder = []
  · simp [hnil, joinAll]
  · simp [hnil, joinAll_text_ne_empty hnil hfolder]

theorem rail_eq (namePrefix axis : String) (offset : Float) (rail : String) :
    FileName.rail (some namePrefix) axis offset rail =
      namePrefix ++ ("_" ++ sketchFront axis offset) ++ rail ++ ".csv" := by
  change namePrefix ++ "_" ++ (sketchFront axis offset ++ rail ++ ".csv") = _
  simp only [String.append_assoc]

/-- Behind a relative prefix the name of the rail file is relative too. -/
theorem head?_railFile {namePrefix middle rest : String} (h : namePrefix.toList.head? ≠ some '/') :
    (namePrefix ++ ("_" ++ middle) ++ rest ++ ".csv").toList.head? ≠ some '/' := by
  cases hp : namePrefix.toList with
  | nil => simp [hp]
  | cons c text => simpa [hp] using h

/-- The empty path with `.` at the start of the file name is below nothing. -/
theorem not_isBelow_of_here {file : String} (h : (file.toList.splitOn '/').head? = some ['.']) :
    ¬ (Path.mk file).IsBelow ⟨""⟩ := by
  rintro ⟨names, -, hnames⟩
  obtain ⟨rest, hs⟩ := List.head?_eq_some_iff.mp h
  have hfile : file ≠ "" := by
    rintro rfl
    simp at h
  rw [components_eq hfile hs, components_empty] at hnames
  cases names with
  | nil => simp [front] at hnames
  | cons name names => simp [front] at hnames

/-- Without a prefix, a rail file lies below the root exactly when the name of its rail stays. -/
theorem isBelow_unprefixed {rails : CrossRails} (hfolder : ∀ name ∈ rails.folder, IsOrdinary name)
    (root : Path) (offset : Float) (rail : String) :
    ((rails.directory root).join
      (FileName.rail none rails.railNormal.word offset rail)).IsBelow root ↔ RailStays rail := by
  have hslash := slash_notMem_sketchFront rails.railNormal offset
  have hunderscore := underscore_mem_sketchFront rails.railNormal.word offset
  have hfile : FileName.rail none rails.railNormal.word offset rail =
      "" ++ sketchFront rails.railNormal.word offset ++ rail ++ ".csv" := by
    change sketchFront rails.railNormal.word offset ++ rail ++ ".csv" = _
    rw [String.empty_append]
  obtain ⟨c, hc, hhead⟩ := head?_sketchFront rails.railNormal offset
  rw [hfile]
  have hpath := components_join_of_relative (rails.directory root)
    ("" ++ sketchFront rails.railNormal.word offset ++ rail ++ ".csv") (by simp [hhead, hc])
    (fun _ hdot => by
      simpa [closedSegments] using (head?_splitOn_railFile hslash hunderscore).mp hdot)
  rw [isBelow_railFile (components_joinAll hfolder root) hslash hunderscore hpath]
  simp [closedSegments]

/-- Behind a relative prefix, the prefix must stay as well. -/
theorem isBelow_prefixed {rails : CrossRails} (hfolder : ∀ name ∈ rails.folder, IsOrdinary name)
    (root : Path) (offset : Float) (rail : String) {namePrefix : String}
    (hrelative : namePrefix.toList.head? ≠ some '/') :
    ((rails.directory root).join
      (FileName.rail (some namePrefix) rails.railNormal.word offset rail)).IsBelow root ↔
      PrefixStays (root.text = "" ∧ rails.folder = []) namePrefix ∧ RailStays rail := by
  have hslash : '/' ∉ ("_" ++ sketchFront rails.railNormal.word offset).toList := by
    simp [slash_notMem_sketchFront]
  have hunderscore : '_' ∈ ("_" ++ sketchFront rails.railNormal.word offset).toList := by
    simp
  rw [rail_eq]
  by_cases hhere : (rails.directory root).text = "" ∧
      (closedSegments namePrefix).head? = some ['.']
  · obtain ⟨hempty, hdot⟩ := hhere
    have hroot := (directory_text_eq_empty hfolder).mp hempty
    have hjoin : ∀ file, (rails.directory root).join file = ⟨file⟩ := by
      intro file
      simp [join, hempty]
    rw [hjoin, show root = ⟨""⟩ from congrArg Path.mk hroot.1]
    refine iff_of_false (not_isBelow_of_here ?_) fun h => h.1.here ⟨rfl, hroot.2⟩ hdot
    exact (head?_splitOn_railFile hslash hunderscore).mpr hdot
  · have hpath := components_join_of_relative (rails.directory root)
      (namePrefix ++ ("_" ++ sketchFront rails.railNormal.word offset) ++ rail ++ ".csv")
      (head?_railFile hrelative)
      (fun hempty hdot => hhere ⟨hempty, (head?_splitOn_railFile hslash hunderscore).mp hdot⟩)
    rw [isBelow_railFile (components_joinAll hfolder root) hslash hunderscore hpath]
    refine and_congr_left fun _ => ⟨fun hup => ⟨hup, ?_⟩, fun h => h.up⟩
    intro hbare hdot
    exact hhere ⟨(directory_text_eq_empty hfolder).mpr hbare, hdot⟩

/-- An absolute prefix takes the place of the directory. -/
theorem join_absolute {namePrefix : String} (habsolute : namePrefix.toList.head? = some '/')
    (directory : Path) (axis : String) (offset : Float) (rail : String) :
    directory.join (FileName.rail (some namePrefix) axis offset rail) =
      ⟨FileName.rail (some namePrefix) axis offset rail⟩ := by
  have hhead : (Path.mk (FileName.rail (some namePrefix) axis offset rail)).isAbsolute = true := by
    rw [isAbsolute_iff, rail_eq]
    simp [habsolute]
  rw [join, hhead, Bool.true_or, if_pos rfl]

theorem isBelow_crossRail {rails : CrossRails} (hfolder : ∀ name ∈ rails.folder, IsOrdinary name)
    (root : Path) (offset : Float) (rail : String) :
    ((rails.directory root).join
      (FileName.rail rails.namePrefix rails.railNormal.word offset rail)).IsBelow root ↔
      rails.Stays root offset rail := by
  unfold Stays
  cases rails.namePrefix with
  | none => exact isBelow_unprefixed hfolder root offset rail
  | some namePrefix =>
      dsimp only
      split
      · rename_i habsolute
        rw [join_absolute habsolute]
      · rename_i hrelative
        exact isBelow_prefixed hfolder root offset rail hrelative

end CrossRails

/-! ## Whole plans -/

namespace Analysis

/-- No name of a rail that gets a file leads out of the output root. -/
structure NamesStay (analysis : Analysis) (root : Path) : Prop where
  coRails : ∀ action ∈ analysis.actions, action.plane?.isSome = true →
    ∀ segment ∈ action.segments, ∀ rail ∈ segment.coRail?, RailStays rail
  crossRails : ∀ rails ∈ analysis.crossRails, ∀ offset ∈ rails.1.offsets,
    ∀ rail ∈ rails.1.railNames, 2 ≤ (rails.1.points analysis.sketches rail offset).length →
      rails.1.Stays root offset rail

variable {file source : String} {unit : LengthUnit} {analysis : Analysis}

theorem isPlaced_of_mem_actions (h : ofSource file source unit = .ok analysis) {action : Action}
    (hmem : action ∈ analysis.actions) : action.destination.IsPlaced := by
  obtain ⟨_, block, _, here, kind, -, -, -, haction⟩ := exists_block_of_mem_actions h hmem
  obtain ⟨-, -, -, hdestination, -⟩ := Action.ofBlock_eq_ok.mp haction
  exact Destination.isPlaced_of_ofHeader hdestination

theorem isOrdinary_of_mem_crossRails (h : ofSource file source unit = .ok analysis)
    {rails : CrossRails × LengthUnit} (hmem : rails ∈ analysis.crossRails) :
    ∀ name ∈ rails.1.folder, IsOrdinary name := by
  obtain ⟨_, block, _, here, -, -, -, -, hrails⟩ := exists_block_of_mem_crossRails h hmem
  exact CrossRails.isOrdinary_folder hrails

theorem isBelow_actionOutputs_iff {action : Action} (h : action.destination.IsPlaced)
    (root : Path) :
    (∀ output ∈ analysis.actionOutputs root action, output.path.IsBelow root) ↔
      (action.plane?.isSome = true →
        ∀ segment ∈ action.segments, ∀ rail ∈ segment.coRail?, RailStays rail) := by
  rw [actionOutputs, List.forall_mem_cons, and_iff_right (isBelow_actionOutput h),
    List.forall_mem_map]
  unfold Action.coRails
  cases action.plane? with
  | none => simp
  | some plane =>
      obtain ⟨axis, offset⟩ := plane
      simp only [List.forall_mem_filterMap, Option.isSome_some, true_imp_iff, railOutput]
      refine forall₂_congr fun segment _ => ?_
      cases segment.coRail? with
      | none => simp
      | some rail =>
          simp only [Option.map_some, Option.some.injEq, forall_eq', Option.mem_some_iff]
          exact isBelow_coRail h root axis offset rail

theorem isBelow_crossRailOutputs_iff {rails : CrossRails × LengthUnit}
    (h : ∀ name ∈ rails.1.folder, IsOrdinary name) (root : Path) :
    (∀ output ∈ analysis.crossRailOutputs root rails, output.path.IsBelow root) ↔
      ∀ offset ∈ rails.1.offsets, ∀ rail ∈ rails.1.railNames,
        2 ≤ (rails.1.points analysis.sketches rail offset).length →
          rails.1.Stays root offset rail := by
  rw [crossRailOutputs, List.forall_mem_map, CrossRails.sketches, List.forall_mem_flatMap]
  refine forall₂_congr fun offset _ => ?_
  rw [List.forall_mem_filterMap]
  refine forall₂_congr fun rail _ => ?_
  rw [← CrossRails.isBelow_crossRail h root offset rail]
  unfold CrossRails.sketch?
  dsimp only
  by_cases hfew : (rails.1.points analysis.sketches rail offset).length < 2
  · rw [if_pos hfew]
    exact ⟨fun _ hmany => absurd hfew (Nat.not_lt.mpr hmany), fun _ _ hnone => by cases hnone⟩
  · rw [if_neg hfew]
    simp only [Option.some.injEq, forall_eq', railOutput]
    exact ⟨fun hbelow _ => hbelow, fun hbelow => hbelow (Nat.not_lt.mp hfew)⟩

/-- All files of a timeline lie below the output root exactly when no rail name leads
out of it. -/
theorem isBelow_plan_iff (h : ofSource file source unit = .ok analysis) (root : Path) :
    (∀ output ∈ analysis.plan root, output.path.IsBelow root) ↔ analysis.NamesStay root := by
  have hactions : (∀ action ∈ analysis.actions, ∀ output ∈ analysis.actionOutputs root action,
      output.path.IsBelow root) ↔ _ :=
    forall₂_congr fun action hmem => isBelow_actionOutputs_iff (isPlaced_of_mem_actions h hmem) root
  have hrails : (∀ rails ∈ analysis.crossRails, ∀ output ∈ analysis.crossRailOutputs root rails,
      output.path.IsBelow root) ↔ _ :=
    forall₂_congr fun rails hmem =>
      isBelow_crossRailOutputs_iff (isOrdinary_of_mem_crossRails h hmem) root
  constructor
  · intro hplan
    refine ⟨hactions.mp ?_, hrails.mp ?_⟩
    · intro action hmem output hout
      exact hplan output (List.mem_append_left _ (List.mem_flatMap.mpr ⟨action, hmem, hout⟩))
    · intro rails hmem output hout
      exact hplan output (List.mem_append_right _ (List.mem_flatMap.mpr ⟨rails, hmem, hout⟩))
  · intro hstay output hout
    rcases List.mem_append.mp hout with hout | hout
    · obtain ⟨action, hmem, hout⟩ := List.mem_flatMap.mp hout
      exact hactions.mpr hstay.coRails action hmem output hout
    · obtain ⟨rails, hmem, hout⟩ := List.mem_flatMap.mp hout
      exact hrails.mpr hstay.crossRails rails hmem output hout

end Analysis

/-! ## Calls of a compiler -/

namespace Session

/-- A call reserves and writes only paths below the output root when no rail name leads out
of it, and a call that succeeds has not if one does. Action files are below it in any
case. -/
theorem compile_isBelow_iff_namesStay (files : List Path.Component → Option ByteArray)
    (faults : List (Option Disk.Interruption)) (root : Path) (unit : LengthUnit) (calls : List Call)
    (call : Call) :
    let session := (start files faults).run root unit calls
    let result := (session.compile root unit call).1
    let later := (session.compile root unit call).2
    match Analysis.ofSource call.file call.source unit with
    | .error _ => later = session
    | .ok analysis =>
      (∀ action ∈ analysis.actions, (analysis.actionOutput root action).path.IsBelow root) ∧
      ∃ claimed written, later.reserved.entries = session.reserved.entries ++ claimed ∧
        later.disk.log = session.disk.log ++ written ∧
        (analysis.NamesStay root →
          (∀ entry ∈ claimed, entry.1.IsBelow root) ∧ ∀ path ∈ written, path.IsBelow root) ∧
        (result.isOk = true → (∀ entry ∈ claimed, entry.1.IsBelow root) →
          analysis.NamesStay root) := by
  intro session result later
  have htidy : session.Tidy := tidy_run (tidy_start files faults) root unit calls
  cases h : Analysis.ofSource call.file call.source unit with
  | error complaint =>
      have hsame : session.compile root unit call = _ := compile_of_complaint h
      exact congrArg Prod.snd hsame
  | ok analysis =>
      refine ⟨fun action hmem => Analysis.isBelow_actionOutput
        (Analysis.isPlaced_of_mem_actions h hmem), ?_⟩
      obtain ⟨outcome, hends, hresult, -⟩ := compile_ends htidy h
      obtain ⟨done, written, hfront, hall, hclaimed, hwritten, hsubset⟩ := hends.exists_done
      refine ⟨_, written, hclaimed, hwritten, fun hstay => ?_, fun hok hbelow => ?_⟩
      · have hplan := (Analysis.isBelow_plan_iff h root).mpr hstay
        have hdone : ∀ output ∈ done, output.path.IsBelow root :=
          fun output hmem => hplan output (hfront.subset hmem)
        refine ⟨List.forall_mem_map.mpr hdone, fun path hpath => ?_⟩
        obtain ⟨output, hmem, rfl⟩ := List.mem_map.mp (hsubset hpath)
        exact hdone output hmem
      · have hfull : done = analysis.plan root := by
          apply hall
          change (session.compile root unit call).1.isOk = true at hok
          rw [hresult] at hok
          cases outcome with
          | error failure => cases hok
          | ok files => rfl
        rw [hfull] at hbelow
        refine (Analysis.isBelow_plan_iff h root).mp fun output hmem => ?_
        exact hbelow (output.path, output.producer) (List.mem_map_of_mem hmem)

end Session

/-! ## A prefix that leads out of the output root -/

/-- A timeline whose rail file goes above the output root. -/
def strayTimeline : String :=
  "sketch, s, a\noffset_plane, z, 0\nline, cross_rails, r\n0, 0\n0, 5\n" ++
    "cross_rails, rails, ../../evil\nrail_names, r\nprofile_plane_normal, z\n" ++
    "rail_plane_normal, x\nrail_plane_offsets, 0\nrail_segment_type, line\n"

theorem not_isBelow_of_up {path root : Path} (h : Component.up ∈ path.components)
    (hroot : Component.up ∉ root.components) : ¬ path.IsBelow root := by
  rintro ⟨names, -, hnames⟩
  rw [hnames, List.mem_append] at h
  rcases h with h | h
  · exact hroot h
  · simp at h

/-- Not every path that is written lies below the output root. -/
theorem exists_log_not_isBelow :
    ∃ path ∈ ((Session.start (fun _ => none) []).compile ⟨"out"⟩ .mm
      ⟨"t.txt", strayTimeline⟩).2.disk.log, ¬ path.IsBelow ⟨"out"⟩ := by
  have hup : ∃ path ∈ ((Session.start (fun _ => none) []).compile ⟨"out"⟩ .mm
      ⟨"t.txt", strayTimeline⟩).2.disk.log, Component.up ∈ path.components := by
    decide +kernel
  obtain ⟨path, hmem, hpath⟩ := hup
  exact ⟨path, hmem, not_isBelow_of_up hpath (by decide)⟩

end CadTimeline
