import CadTimeline.Proofs.Reading
import CadTimeline.Proofs.Record.Rowless

/-!
# The steps of an assembly

An assembly needs a line, but `echo` lines count as well. So it performs a step exactly when one
of its lines is not an `echo` line.
-/

namespace CadTimeline

/-- The record of a line that performs a step. -/
def Record.IsStep (record : Record) : Prop :=
  record.word ∈ Schema.assemblyWords

instance (record : Record) : Decidable record.IsStep :=
  inferInstanceAs (Decidable (record.word ∈ Schema.assemblyWords))

namespace Schema

theorem assembly_isRowless : assembly.IsRowless :=
  ⟨rfl, by decide⟩

theorem key_of_mem_assembly : ∀ kind ∈ assembly.kinds,
    kind.key ≠ [] ∧ (kind.key.headD "" ∈ assemblyWords ∨ kind.key.headD "" = "echo") := by
  decide

theorem echo_notMem_assemblyWords : "echo" ∉ assemblyWords := by
  decide

end Schema

namespace Body

variable {schema : Schema} {scope : Scope} {block : Block} {records : List Record}

/-- A key line starts with its key. -/
theorem Section.Of.firstWord_eq {part : Section} (h : part.Of schema)
    (hkey : part.found.kind.key ≠ []) : part.line.firstWord = part.found.kind.key.headD "" := by
  obtain ⟨word, words, hwords⟩ := List.exists_cons_of_ne_nil hkey
  rw [Line.firstWord, Line.text?, h.fields, hwords]
  rfl

/-- Where no line owns rows, the records have the first words of the lines. -/
theorem AreParts.words_eq {body : List Line} {parts : List Section}
    (h : AreParts schema scope body parts records)
    (hkeys : ∀ kind ∈ schema.kinds, kind.key ≠ []) :
    records.map Record.word = body.map Line.firstWord := by
  rw [← h.lines, List.map_map, eq_comm, ← List.forall₂_eq_eq_eq, List.forall₂_map_left_iff,
    List.forall₂_map_right_iff]
  refine ((List.forall₂_and_left _ _).mpr ⟨h.sections, h.becomes⟩).imp ?_
  rintro part record ⟨hpart, hbecomes⟩
  rw [Function.comp_apply, hpart.firstWord_eq (hkeys _ (Schema.kind_mem_of_recognise? hpart.found)),
    Record.word, hbecomes.key]

/-- The records of an assembly are those of its lines, one at least, and each performs a step or
is an `echo`. It performs a step exactly when a line of its body starts with another word than
`echo`. -/
theorem steps_of_assembly (h : read Schema.assembly scope block = .ok records) :
    records.map Record.word = block.body.map Line.firstWord ∧ records ≠ [] ∧
      (∀ record ∈ records, record.IsStep ∨ record.word = "echo") ∧
      ((∃ record ∈ records, record.IsStep) ↔ ∃ line ∈ block.body, line.firstWord ≠ "echo") := by
  obtain ⟨parts, hparts⟩ := exists_areParts Schema.assembly_isRowless h
  have hwords := hparts.words_eq fun kind hkind => (Schema.key_of_mem_assembly kind hkind).1
  have hstep : ∀ record ∈ records, record.IsStep ∨ record.word = "echo" := by
    intro record hrecord
    obtain ⟨part, hpart, hbecomes⟩ := exists_of_mem_right_forall₂ hparts.becomes hrecord
    rw [Record.IsStep, Record.word, hbecomes.key]
    exact (Schema.key_of_mem_assembly _
      (Schema.kind_mem_of_recognise? (hparts.sections part hpart).found)).2
  have hne : records ≠ [] := by
    rintro rfl
    have hnone := hparts.becomes
    rw [List.forall₂_nil_right_iff] at hnone
    have hoccurs := hparts.declared.occurs (_, 0) List.mem_cons_self
    rw [hnone] at hoccurs
    contradiction
  refine ⟨hwords, hne, hstep, ?_⟩
  have hiff : (∃ record ∈ records, record.IsStep) ↔
      ∃ word ∈ records.map Record.word, word ≠ "echo" := by
    simp only [List.mem_map, exists_exists_and_eq_and]
    refine exists_congr fun record => and_congr_right fun hrecord => ⟨?_, ?_⟩
    · rintro hmem hecho
      rw [Record.IsStep, hecho] at hmem
      exact Schema.echo_notMem_assemblyWords hmem
    · exact (hstep record hrecord).resolve_right
  rw [hiff, hwords]
  simp only [List.mem_map, exists_exists_and_eq_and]

end Body

namespace Analysis

/-- An assembly with these lines. -/
def assemblyWith (lines : String) : String :=
  "assembly, f, a\n" ++ lines

theorem exists_steps_among_echoes : ∃ analysis action,
    ofSource "t.txt" (assemblyWith "echo, start\ncreate_sketch, f\necho\n") .mm = .ok analysis ∧
      analysis.actions = [action] ∧ action.kind = .assembly ∧
      action.records.map Record.word = ["echo", "create_sketch", "echo"] ∧
      ∃ record ∈ action.records, record.IsStep := by
  have hwords : ((ofSource "t.txt" (assemblyWith "echo, start\ncreate_sketch, f\necho\n")
      .mm).toOption.any fun analysis => analysis.actions.map (fun action =>
        (action.kind, action.records.map Record.word)) ==
          [(.assembly, ["echo", "create_sketch", "echo"])]) = true := by
    decide +kernel
  obtain ⟨analysis, hsource, heq⟩ := exists_of_toOption_any hwords
  obtain ⟨action, hactions, hboth⟩ := List.map_eq_singleton_iff.mp (beq_iff_eq.mp heq)
  obtain ⟨hkind, hrecords⟩ := Prod.mk.inj hboth
  obtain ⟨_, block, _, here, kind, -, -, -, hof⟩ :=
    exists_block_of_mem_actions hsource (hactions ▸ List.mem_singleton_self action)
  obtain ⟨rfl, -, -, -, hread⟩ := Action.ofBlock_eq_ok.mp hof
  rw [hkind] at hread
  obtain ⟨hlines, -, -, hiff⟩ := Body.steps_of_assembly hread
  have hline : "create_sketch" ∈ block.body.map Line.firstWord := by
    rw [← hlines, hrecords]
    decide
  obtain ⟨line, hmem, hword⟩ := List.mem_map.mp hline
  refine ⟨analysis, action, hsource, hactions, hkind, hrecords, hiff.mpr ⟨line, hmem, ?_⟩⟩
  rw [hword]
  decide

/-- An assembly may do nothing but `echo`. -/
theorem exists_assembly_without_steps : ∃ analysis action,
    ofSource "t.txt" (assemblyWith "echo, hi\n") .mm = .ok analysis ∧
      action ∈ analysis.actions ∧ action.kind = .assembly ∧
      ∀ record ∈ action.records, ¬record.IsStep := by
  have hnone : ((ofSource "t.txt" (assemblyWith "echo, hi\n") .mm).toOption.any fun analysis =>
      analysis.actions.any fun action => decide (action.kind = .assembly) &&
        action.records.all fun record => !decide record.IsStep) = true := by
    decide +kernel
  obtain ⟨analysis, hsource, hany⟩ := exists_of_toOption_any hnone
  obtain ⟨action, hmem, hboth⟩ := List.any_eq_true.mp hany
  simp only [Bool.and_eq_true, decide_eq_true_eq, List.all_eq_true, Bool.not_eq_true',
    decide_eq_false_iff_not] at hboth
  exact ⟨analysis, action, hsource, hmem, hboth.1, hboth.2⟩

end Analysis

end CadTimeline
