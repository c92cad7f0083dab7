import CadTimeline.Proofs.Output.Segments

/-!
# Headers of destinations

The fields in which a header can name a destination: folder, name and component, all between
quotes. The folder is led by `.`, so that it never looks absolute; a component path is not.
-/

namespace CadTimeline

open Segments Substitution

theorem Scope.substitute_of_hasNoReference {text : String} (h : HasNoReference text.toList)
    (scope : Scope) : scope.substitute text = .ok text := by
  rw [Scope.substitute, Substitution.substitute_of_hasNoReference h]
  rfl

namespace Destination

/-- The folder as a path: `.`, and the segments behind it. -/
def folderPath (destination : Destination) : String :=
  joined ("." :: destination.folder)

def componentPath (destination : Destination) : String :=
  joined destination.component

/-- The fields behind the keyword of a header that names the destination. -/
def fields (destination : Destination) : List Field :=
  ⟨destination.folderPath, true⟩ :: ⟨destination.name, true⟩ ::
    if destination.component = [] then [] else [⟨destination.componentPath, true⟩]

theorem quoted_of_mem_fields {destination : Destination} :
    ∀ field ∈ destination.fields, field.quoted = true := by
  unfold fields
  split <;> simp

theorem newline_notMem_fields {destination : Destination}
    (hfolder : ∀ name ∈ destination.folder, '\n' ∉ name.toList)
    (hname : '\n' ∉ destination.name.toList)
    (hcomponent : ∀ name ∈ destination.component, '\n' ∉ name.toList) :
    ∀ field ∈ destination.fields, '\n' ∉ field.text.toList := by
  have hjoined : ∀ names : List String, (∀ name ∈ names, '\n' ∉ name.toList) →
      '\n' ∉ (joined names).toList := by
    intro names hnames hmem
    rcases mem_joined hmem with hslash | ⟨name, hname, hmem⟩
    · contradiction
    · exact hnames name hname hmem
  have hpath := hjoined ("." :: destination.folder)
    (List.forall_mem_cons.mpr ⟨by decide, hfolder⟩)
  refine List.forall_mem_cons.mpr ⟨hpath, List.forall_mem_cons.mpr ⟨hname, ?_⟩⟩
  split
  · exact List.forall_mem_nil _
  · exact List.forall_mem_singleton.mpr (hjoined _ hcomponent)

/-- What a header can name: checked segments and a name, with no reference left in them. -/
structure IsNamed (destination : Destination) : Prop where
  folder : ∀ name ∈ destination.folder, IsSegment name ∧ HasNoReference name.toList
  name : HasNoReference destination.name.toList
  stem : isStem destination.name = true
  component : ∀ name ∈ destination.component, IsSegment name ∧ HasNoReference name.toList

theorem hasNoReference_of_split {scope : Scope} (hscope : scope.IsFinite) {text path what : String}
    {names : List String} (hpath : scope.substitute text = .ok path)
    (h : split what path = .ok names) :
    ∀ name ∈ names, IsSegment name ∧ HasNoReference name.toList := by
  intro name hname
  rw [Scope.substitute, mapError_eq_ok] at hpath
  exact ⟨isSegment_of_mem_split h name hname,
    (hasNoReference_of_substitute hscope hpath).of_isInfix (isInfix_of_mem_split h name hname)⟩

theorem isNamed_of_ofHeader {scope : Scope} (hscope : scope.IsFinite) {header : Line}
    {destination : Destination} (h : ofHeader scope header = .ok destination) :
    destination.IsNamed := by
  obtain ⟨_, _, _, _, _, -, hpath, hfolder, hname, hstem, hcomponent⟩ := ofHeader_eq_ok.mp h
  rw [Scope.substitute, mapError_eq_ok] at hname
  refine ⟨hasNoReference_of_split hscope hpath hfolder, hasNoReference_of_substitute hscope hname,
    hstem, ?_⟩
  rcases hcomponent with ⟨-, hnone⟩ | ⟨component, -, hread⟩
  · rw [hnone]
    exact List.forall_mem_nil _
  · obtain ⟨-, path, hpath, hsplit⟩ := readComponent_eq_ok.mp hread
    exact hasNoReference_of_split hscope hpath hsplit

namespace IsNamed

variable {destination other : Destination}

theorem substitute_folderPath (h : destination.IsNamed) (scope : Scope) :
    scope.substitute destination.folderPath = .ok destination.folderPath := by
  apply Scope.substitute_of_hasNoReference
  apply hasNoReference_joined
  refine List.forall_mem_cons.mpr ⟨?_, fun name hname => (h.folder name hname).2⟩
  exact hasNoReference_cons (.inl (by decide)) hasNoReference_nil

theorem split_folderPath (h : destination.IsNamed) :
    split "folder" destination.folderPath = .ok destination.folder := by
  have hsegments : ∀ name ∈ "." :: destination.folder, name = "." ∨ IsSegment name :=
    List.forall_mem_cons.mpr ⟨.inl rfl, fun name hname => .inr (h.folder name hname).1⟩
  refine (split_joined_eq_ok_iff (List.cons_ne_nil _ _) hsegments).mpr ⟨?_, ?_⟩
  · rw [toList_joined]
    cases destination.folder with
    | nil => rfl
    | cons name names =>
        rw [List.map_cons, List.map_cons, List.intercalate_cons_cons]
        rfl
  · exact (filterMap_kept fun name hname => (h.folder name hname).1).symm

theorem split_componentPath_iff (h : destination.IsNamed) (hne : destination.component ≠ [])
    {names : List String} :
    split "component path" destination.componentPath = .ok names ↔
      looksAbsolute destination.componentPath.toList = false ∧ names = destination.component := by
  rw [componentPath, split_joined_eq_ok_iff hne fun name hname => .inr (h.component name hname).1,
    filterMap_kept fun name hname => (h.component name hname).1]

theorem readComponent_iff (h : destination.IsNamed) (hne : destination.component ≠ [])
    (scope : Scope) {names : List String} :
    readComponent scope destination.componentPath = .ok names ↔
      looksAbsolute destination.componentPath.toList = false ∧ names = destination.component := by
  have hpath := Scope.substitute_of_hasNoReference
    (hasNoReference_joined fun name hname => (h.component name hname).2) scope
  rw [readComponent_eq_ok, ← h.split_componentPath_iff hne, componentPath, hpath]
  simp only [Except.ok.injEq, exists_eq_left']
  refine and_iff_right_of_imp fun hsplit => ?_
  rw [((h.split_componentPath_iff hne).mp hsplit).2]
  exact hne

/-- A header with these fields names the destination again exactly when the component path does
not look absolute. -/
theorem ofHeader_iff (h : destination.IsNamed) (scope : Scope) {header : Line} {keyword : Field}
    (hheader : header.fields = keyword :: destination.fields) :
    ofHeader scope header = .ok other ↔
      looksAbsolute destination.componentPath.toList = false ∧ other = destination := by
  have hstem := Scope.substitute_of_hasNoReference h.name scope
  have hempty : destination.component = [] →
      looksAbsolute destination.componentPath.toList = false := by
    intro hnil
    rw [componentPath, hnil]
    rfl
  rw [fields] at hheader
  constructor
  · intro hread
    obtain ⟨_, folder, name, rest, path, hother, hpath, hfolder, hname, -, hcomponent⟩ :=
      ofHeader_eq_ok.mp hread
    rw [hheader] at hother
    obtain ⟨otherFolder, otherName, otherComponent⟩ := other
    cases hother
    cases (h.substitute_folderPath scope).symm.trans hpath
    cases h.split_folderPath.symm.trans hfolder
    cases hstem.symm.trans hname
    by_cases hnil : destination.component = []
    · rw [if_pos hnil] at hcomponent
      rcases hcomponent with ⟨-, hnone⟩ | ⟨component, hcons, -⟩
      · have hsame : otherComponent = destination.component := hnone.trans hnil.symm
        rw [hsame]
        exact ⟨hempty hnil, rfl⟩
      · contradiction
    · rw [if_neg hnil] at hcomponent
      rcases hcomponent with ⟨hcons, -⟩ | ⟨component, hcons, hread⟩
      · contradiction
      · cases hcons
        obtain ⟨habsolute, rfl⟩ := (h.readComponent_iff hnil scope).mp hread
        exact ⟨habsolute, rfl⟩
  · rintro ⟨habsolute, rfl⟩
    refine ofHeader_eq_ok.mpr ⟨keyword, _, _, _, _, hheader, h.substitute_folderPath scope,
      h.split_folderPath, hstem, h.stem, ?_⟩
    by_cases hnil : other.component = []
    · exact .inl ⟨if_pos hnil, hnil⟩
    · exact .inr ⟨_, if_neg hnil, (h.readComponent_iff hnil scope).mpr ⟨habsolute, rfl⟩⟩

end IsNamed

end Destination

end CadTimeline
