import CadTimeline.Proofs.Output.Containment
import CadTimeline.Proofs.Parameter.Definitions
import CadTimeline.Proofs.Record.Known

/-!
# Names that a block can use

A block is read only if every parameter that it refers to is defined by a block before it, or
for a definition by a line before it.
-/

namespace CadTimeline

open Substitution

/-! ## Headers -/

theorem Destination.knows_of_ofHeader {scope : Scope} {header : Line} {destination : Destination}
    (h : ofHeader scope header = .ok destination) :
    ∀ field ∈ header.fields.tail, scope.Knows field := by
  obtain ⟨_, folder, name, rest, _, hfields, hfolder, -, hname, -, hrest⟩ := ofHeader_eq_ok.mp h
  rw [hfields, List.tail_cons, List.forall_mem_cons, List.forall_mem_cons]
  refine ⟨Scope.knows_of_substitute hfolder, Scope.knows_of_substitute hname, ?_⟩
  rcases hrest with ⟨rfl, -⟩ | ⟨component, rfl, hcomponent⟩
  · exact List.forall_mem_nil _
  · obtain ⟨-, path, hpath, -⟩ := readComponent_eq_ok.mp hcomponent
    exact List.forall_mem_singleton.mpr (Scope.knows_of_substitute hpath)

theorem CrossRails.knows_of_readHeader {scope : Scope} {header : Line} {folder : List String}
    {namePrefix : Option String} (h : readHeader scope header = .ok (folder, namePrefix)) :
    ∀ field ∈ header.fields.tail, scope.Knows field := by
  obtain ⟨_, first, rest, _, hfields, hfirst, -, hrest⟩ := readHeader_eq_ok h
  rw [hfields, List.tail_cons, List.forall_mem_cons]
  refine ⟨Scope.knows_of_substitute hfirst, ?_⟩
  rcases hrest with ⟨rfl, -⟩ | ⟨field, text, rfl, htext, -⟩
  · exact List.forall_mem_nil _
  · exact List.forall_mem_singleton.mpr (Scope.knows_of_substitute htext)

namespace Reading

theorem knows_of_readUnit {scope : Scope} {header : Line} {unit : LengthUnit}
    (h : readUnit scope header = .ok unit) : ∀ field ∈ header.fields.tail, scope.Knows field := by
  unfold readUnit at h
  split at h
  · rename_i keyword field hfields
    obtain ⟨word, hword, -⟩ := bind_eq_ok.mp h
    rw [hfields]
    exact List.forall_mem_singleton.mpr (Scope.knows_of_substitute hword)
  · contradiction

theorem knows_of_readEcho {scope : Scope} {header : Line} {message : String}
    (h : readEcho scope header = .ok message) :
    ∀ field ∈ header.fields.tail, scope.Knows field := by
  simp only [readEcho, bind_eq_ok, mapM_eq_ok, List.drop_one] at h
  obtain ⟨parts, hparts, -⟩ := h
  intro field hfield
  obtain ⟨part, -, hpart⟩ := exists_of_mem_forall₂ hparts hfield
  exact Scope.knows_of_substitute hpart

end Reading

/-! ## Blocks -/

/-- The fields of a block behind its keyword. -/
def Block.fields (block : Block) : List Field :=
  block.header.fields.tail ++ block.body.flatMap Line.fields

theorem Block.forall_mem_fields {block : Block} {p : Field → Prop} :
    (∀ field ∈ block.fields, p field) ↔
      (∀ field ∈ block.header.fields.tail, p field) ∧
        ∀ line ∈ block.body, ∀ field ∈ line.fields, p field := by
  simp only [fields, List.forall_mem_append, List.forall_mem_flatMap]

namespace Reading

variable {reading later : Reading} {block : Block}

/-- A block that defines nothing is read in the scope of the blocks before it. -/
theorem Step.knows (h : Step reading block later) (hword : block.keyword ≠ .parameters) :
    ∀ field ∈ block.fields, reading.scope.Knows field := by
  rw [Block.forall_mem_fields]
  cases h with
  | parameters hparameters => exact absurd hparameters hword
  | units _ hbody h =>
      rw [hbody]
      exact ⟨knows_of_readUnit h, List.forall_mem_nil _⟩
  | echo _ hbody h =>
      rw [hbody]
      exact ⟨knows_of_readEcho h, List.forall_mem_nil _⟩
  | crossRails _ h =>
      obtain ⟨hheader, -, -, records, hbody, -⟩ := CrossRails.ofBlock_eq_ok.mp h
      exact ⟨CrossRails.knows_of_readHeader hheader,
        Body.knows_of_read Schema.crossRails_hasPlainKeys hbody⟩
  | @action kind _ _ h =>
      obtain ⟨-, -, -, hheader, hbody⟩ := Action.ofBlock_eq_ok.mp h
      exact ⟨Destination.knows_of_ofHeader hheader,
        Body.knows_of_read kind.schema_hasPlainKeys hbody⟩

end Reading

/-! ## Definitions -/

/-- The names of the parameters. -/
def ParameterTable.names (table : ParameterTable) : List String :=
  table.entries.map Parameter.name

/-- The names that a block defines. -/
def Block.defines (block : Block) : List String :=
  if block.keyword = .parameters then block.body.map Line.firstWord else []

theorem ParameterTable.mem_names_of_get? {table : ParameterTable} {name : String} {x : Float}
    (h : table.get? name = some x) : name ∈ table.names := by
  obtain ⟨parameter, hfind, -⟩ := Option.map_eq_some_iff.mp h
  obtain ⟨hmem, rfl⟩ := find?_eq_some hfind
  exact List.mem_map_of_mem hmem

/-- An expression names a parameter, with or without a `$`. -/
def Expr.Mentions (text name : String) : Prop :=
  .reference name ∈ pieces text.toList ∨
    ∃ e, parse? text.toList = some e ∧ name ∈ e.references ∧ constant? name = none

theorem Expr.exists_of_mentions {scope : Scope} {text : String} {x : Float}
    (h : evalText scope text = .ok x) {name : String} (hname : Mentions text name) :
    ∃ y, scope.value? name = some y := by
  rcases hname with hname | ⟨e, hparse, hname, hconstant⟩
  · exact exists_of_evalText h hname
  · obtain ⟨other, hother, heval, -⟩ := evalText_eq_ok.mp h
    cases hparse.symm.trans hother
    exact exists_of_mem_references heval hname hconstant

namespace Reading

variable {table next : ParameterTable}

theorem defineLine_eq_ok {line : Line} (h : defineLine table line = .ok next) :
    ∃ name expression value, line.fields = [name, expression] ∧
      Expr.evalText (table.scope .parameters) expression.text = .ok value ∧
      next = ⟨table.entries ++ [⟨name.text, value, expression.text, line.number⟩]⟩ := by
  unfold defineLine at h
  split at h
  · rename_i name expression hfields
    obtain ⟨value, -, -, hvalue, rfl⟩ := ParameterTable.define_eq_ok.mp (mapError_eq_ok.mp h)
    exact ⟨name, expression, value, hfields, hvalue, rfl⟩
  · contradiction

theorem names_of_foldlM {lines : List Line} (h : lines.foldlM defineLine table = .ok next) :
    next.names = table.names ++ lines.map Line.firstWord := by
  induction h using foldlM_induction with
  | nil => exact (List.append_nil _).symm
  | @cons table line middle lines hmiddle _ ih =>
      obtain ⟨name, expression, value, hfields, -, rfl⟩ := defineLine_eq_ok hmiddle
      have hword : line.firstWord = name.text := by
        simp [Line.firstWord, Line.text?, hfields]
      rw [ih, List.map_cons, hword]
      simp [ParameterTable.names]

theorem Step.names_eq (h : Step reading block later) :
    later.parameters.names = reading.parameters.names ++ block.defines := by
  have hnone : block.keyword ≠ .parameters →
      reading.parameters.names = reading.parameters.names ++ block.defines := by
    intro hword
    rw [Block.defines, if_neg hword, List.append_nil]
  cases h with
  | parameters hword htable =>
      rw [Block.defines, if_pos hword]
      exact names_of_foldlM (foldlM_of_readParameters htable)
  | units hword => exact hnone (by simp [hword])
  | echo hword => exact hnone (by simp [hword])
  | crossRails hword => exact hnone (by simp [hword])
  | action hword => exact hnone (by simp [hword])

/-- The parameters are those that the blocks define, in their order. -/
theorem Reads.names_eq {file : String} {blocks : List Block} (h : Reads file reading blocks later) :
    later.parameters.names = reading.parameters.names ++ blocks.flatMap Block.defines := by
  induction h using Reads.head_induction with
  | nil => exact (List.append_nil _).symm
  | cons hstep _ ih =>
      rw [ih, (step_eq_ok hstep).names_eq, List.flatMap_cons, List.append_assoc]

end Reading

/-- A place of a block refers to a parameter, and these names are defined in the block before
that place. -/
inductive Block.Refers (block : Block) (name : String) : List String → Prop
  | field {field : Field} (hword : block.keyword ≠ .parameters) (hfield : field ∈ block.fields)
      (h : .reference name ∈ pieces field.text.toList) : Refers block name []
  | definition {front rest : List Line} {line : Line} {own expression : Field}
      (hword : block.keyword = .parameters) (hbody : block.body = front ++ line :: rest)
      (hline : line.fields = [own, expression]) (h : Expr.Mentions expression.text name) :
      Refers block name (front.map Line.firstWord)

namespace Reading

/-- A block is read only if what it refers to is defined before. -/
theorem Step.mem_names (h : Step reading block later) {name : String} {own : List String}
    (hrefers : block.Refers name own) : name ∈ reading.parameters.names ++ own := by
  cases hrefers with
  | field hword hfield hname =>
      obtain ⟨x, hx⟩ := h.knows hword _ hfield name hname
      rw [List.append_nil]
      exact ParameterTable.mem_names_of_get? hx
  | @definition front rest line own expression hword hbody hline hname =>
      obtain ⟨table, htable, -⟩ := h.of_parameters hword
      have hlines := foldlM_of_readParameters htable
      rw [hbody, List.foldlM_append, bind_eq_ok] at hlines
      obtain ⟨middle, hmiddle, hrest⟩ := hlines
      obtain ⟨next, hnext, -⟩ := foldlM_cons_eq_ok.mp hrest
      obtain ⟨_, other, value, hfields, hvalue, -⟩ := defineLine_eq_ok hnext
      cases hline.symm.trans hfields
      obtain ⟨x, hx⟩ := Expr.exists_of_mentions hvalue hname
      rw [← names_of_foldlM hmiddle]
      exact ParameterTable.mem_names_of_get? hx

end Reading

end CadTimeline
