import CadTimeline.Action.File
import CadTimeline.Proofs.Output.Segments
import CadTimeline.Proofs.Record.Texts
import CadTimeline.Proofs.Timeline.Source

/-!
# Action files as rows

An action file is a list of rows of texts: those that its schema prescribes, then those of
its records.
-/

namespace CadTimeline

open CadTimeline.Field

/-! ## Rows of a file -/

namespace Record

/-- The texts of the line of a record as they are shown. -/
def shownHead (record : Record) : List String :=
  (if record.keyShown then record.key else []) ++ record.values.map Value.display

/-- The rows of a record as they are shown. -/
def shown (record : Record) : List (List String) :=
  if record.shownHead.isEmpty then record.rowTexts else record.shownHead :: record.rowTexts

end Record

namespace Action

/-- The rows that the schema prescribes. -/
def front (action : Action) : List (List String) :=
  File.preamble action.kind.schema.preamble action.kind.word action.destination.name
    action.destination.group? ++ if action.kind.schema.unitLine then [[action.unit.word]] else []

/-- The rows of the records. -/
def shown (action : Action) : List (List String) :=
  action.records.flatMap Record.shown

end Action

/-- The characters of rows in a file. -/
def fileText (rows : List (List String)) : List Char :=
  rows.flatMap fun row => rowText row ++ ['\n']

namespace File

theorem toList_row (texts : List String) :
    (row (texts.map Text.quoted)).toList = rowText texts ++ ['\n'] := by
  rw [row, String.toList_append]
  rfl

theorem toList_rows (rows : List (List String)) :
    (String.join (rows.map fun texts => row (texts.map Text.quoted))).toList = fileText rows := by
  rw [String.toList_join, List.flatMap_map]
  simp only [toList_row]
  rfl

theorem map_written (values : List Value) :
    values.map Value.written = (values.map Value.display).map Text.quoted := by
  rw [List.map_map]
  exact List.map_congr_left fun v _ => v.written_eq

theorem toList_record (r : Record) : (record r).toList = fileText r.shown := by
  have hfields : (if r.keyShown then r.key.map Text.quoted else []) ++ r.values.map Value.written =
      r.shownHead.map Text.quoted := by
    rw [map_written, Record.shownHead, List.map_append]
    split
    · rfl
    · rfl
  have hrows : (String.join (r.rows.map fun values => row (values.map Value.written))).toList =
      fileText r.rowTexts := by
    rw [← toList_rows, Record.rowTexts, List.map_map]
    simp only [map_written]
    rfl
  unfold record Record.shown
  dsimp only
  rw [hfields, String.toList_append, hrows, List.isEmpty_map]
  split
  · rfl
  · rw [toList_row]
    rfl

theorem toList_records (rs : List Record) :
    (records rs).toList = fileText (rs.flatMap Record.shown) := by
  rw [records, String.toList_join, List.flatMap_map]
  simp only [toList_record, fileText, List.flatMap_assoc]

theorem preamble_quoted (shape : Preamble) {keyword : String} (hkeyword : Text.quoted keyword = keyword)
    (name : String) (group : Option String) :
    preamble shape keyword (Text.quoted name) (group.map Text.quoted) =
      (preamble shape keyword name group).map fun row => row.map Text.quoted := by
  cases shape with
  | keyword => simp [preamble, hkeyword]
  | keywordName => simp [preamble, hkeyword]
  | keywordNameGroup => cases group <;> simp [preamble, hkeyword]
  | keywordThenName => simp [preamble, hkeyword]
  | keywordThenGroup => cases group <;> simp [preamble, hkeyword]

theorem mem_preamble {shape : Preamble} {keyword name : String} {group : Option String}
    {row : List String} (hrow : row ∈ preamble shape keyword name group) {text : String}
    (htext : text ∈ row) : text = keyword ∨ text = name ∨ group = some text := by
  cases shape with
  | keyword =>
      rw [preamble, List.mem_singleton] at hrow
      rw [hrow, List.mem_singleton] at htext
      exact .inl htext
  | keywordName =>
      rw [preamble, List.mem_singleton] at hrow
      rw [hrow, List.mem_pair] at htext
      exact htext.imp_right .inl
  | keywordNameGroup =>
      rw [preamble, List.mem_singleton] at hrow
      rw [hrow, List.mem_cons, List.mem_cons, Option.mem_toList] at htext
      exact htext
  | keywordThenName =>
      rw [preamble, List.mem_pair] at hrow
      rcases hrow with rfl | rfl
      · exact .inl (List.mem_singleton.mp htext)
      · exact .inr (.inl (List.mem_singleton.mp htext))
  | keywordThenGroup =>
      rw [preamble, List.mem_pair] at hrow
      rcases hrow with rfl | rfl
      · exact .inl (List.mem_singleton.mp htext)
      · rw [List.mem_singleton] at htext
        cases group with
        | none => exact .inr (.inl htext)
        | some group => exact .inr (.inr (congrArg some htext.symm))

theorem preamble_cases {shape : Preamble} {keyword name : String} {group : Option String}
    {row : List String} (hrow : row ∈ preamble shape keyword name group) :
    (∃ text, row = [text]) ∨ ∃ rest, row = keyword :: rest := by
  cases shape with
  | keyword => exact .inr ⟨[], List.mem_singleton.mp hrow⟩
  | keywordName => exact .inr ⟨[name], List.mem_singleton.mp hrow⟩
  | keywordNameGroup => exact .inr ⟨_, List.mem_singleton.mp hrow⟩
  | keywordThenName =>
      rcases List.mem_pair.mp hrow with rfl | rfl
      · exact .inl ⟨keyword, rfl⟩
      · exact .inl ⟨name, rfl⟩
  | keywordThenGroup =>
      rcases List.mem_pair.mp hrow with rfl | rfl
      · exact .inl ⟨keyword, rfl⟩
      · exact .inl ⟨group.getD name, rfl⟩

end File

theorem ActionKind.quoted_word (kind : ActionKind) : Text.quoted kind.word = kind.word := by
  cases kind <;> decide +kernel

theorem LengthUnit.quoted_word (unit : LengthUnit) : Text.quoted unit.word = unit.word := by
  cases unit <;> decide +kernel

/-- An action file consists of its rows. -/
theorem Action.toList_file (action : Action) :
    action.file.toList = fileText (action.front ++ action.shown) := by
  have hunit : (if action.kind.schema.unitLine then [[action.unit.word]] else []) =
      (if action.kind.schema.unitLine then [[action.unit.word]] else []).map
        fun texts => texts.map Text.quoted := by
    split
    · rw [List.map_singleton, List.map_singleton, LengthUnit.quoted_word]
    · rfl
  have hfront : File.preamble action.kind.schema.preamble action.kind.word
        (Text.quoted action.destination.name) (action.destination.group?.map Text.quoted) ++
      (if action.kind.schema.unitLine then [[action.unit.word]] else []) =
        action.front.map fun texts => texts.map Text.quoted := by
    rw [File.preamble_quoted _ (ActionKind.quoted_word _), hunit, ← List.map_append]
    rfl
  rw [file, fileBy, hfront, String.toList_append, List.map_map, File.toList_records]
  have hrows : (String.join (action.front.map
      (File.row ∘ fun texts => texts.map Text.quoted))).toList = fileText action.front :=
    File.toList_rows action.front
  rw [hrows, fileText, fileText, fileText, List.flatMap_append]
  rfl

/-! ## Line feeds -/

namespace Destination

theorem newline_notMem_split {scope : Scope} {text path what : String} {names : List String}
    (hpath : scope.substitute text = .ok path) (h : Segments.split what path = .ok names)
    (htext : '\n' ∉ text.toList) : ∀ name ∈ names, '\n' ∉ name.toList := by
  rw [Scope.substitute, mapError_eq_ok] at hpath
  have hnone := Substitution.newline_notMem_of_substitute hpath htext
  exact fun name hname hmem => hnone ((Segments.isInfix_of_mem_split h name hname).subset hmem)

/-- What is named in a single line holds no line feed. -/
theorem newline_notMem {scope : Scope} {header : Line} {destination : Destination}
    (h : ofHeader scope header = .ok destination) (hsingle : header.IsSingle) :
    (∀ name ∈ destination.folder, '\n' ∉ name.toList) ∧ '\n' ∉ destination.name.toList ∧
      ∀ name ∈ destination.component, '\n' ∉ name.toList := by
  obtain ⟨_, folder, name, rest, _, hfields, hpath, hfolder, hname, -, hcomponent⟩ :=
    ofHeader_eq_ok.mp h
  have hmem : ∀ f ∈ folder :: name :: rest, '\n' ∉ f.text.toList := by
    intro f hf
    apply hsingle f
    rw [hfields]
    exact List.mem_cons_of_mem _ hf
  rw [List.forall_mem_cons, List.forall_mem_cons] at hmem
  rw [Scope.substitute, mapError_eq_ok] at hname
  refine ⟨newline_notMem_split hpath hfolder hmem.1,
    Substitution.newline_notMem_of_substitute hname hmem.2.1, ?_⟩
  rcases hcomponent with ⟨-, hnone⟩ | ⟨component, rfl, hread⟩
  · rw [hnone]
    exact List.forall_mem_nil _
  · obtain ⟨-, path, hpath, hnames⟩ := readComponent_eq_ok.mp hread
    exact newline_notMem_split hpath hnames (hmem.2.2 _ List.mem_cons_self)

end Destination

theorem ActionKind.newline_notMem_word (kind : ActionKind) : '\n' ∉ kind.word.toList := by
  cases kind <;> decide

theorem Action.newline_notMem_front {scope : Scope} {header : Line} {action : Action}
    (h : Destination.ofHeader scope header = .ok action.destination) (hsingle : header.IsSingle) :
    ∀ row ∈ action.front, ∀ text ∈ row, '\n' ∉ text.toList := by
  obtain ⟨-, hname, hcomponent⟩ := Destination.newline_notMem h hsingle
  have hunit : '\n' ∉ action.unit.word.toList := by
    cases action.unit <;> decide
  intro row hrow text htext
  rcases List.mem_append.mp hrow with hrow | hrow
  · rcases File.mem_preamble hrow htext with rfl | rfl | hgroup
    · exact action.kind.newline_notMem_word
    · exact hname
    · exact hcomponent text (List.mem_of_getLast? hgroup)
  · split at hrow
    · rw [List.mem_singleton] at hrow
      rw [hrow, List.mem_singleton] at htext
      exact htext ▸ hunit
    · exact absurd hrow List.not_mem_nil

end CadTimeline
