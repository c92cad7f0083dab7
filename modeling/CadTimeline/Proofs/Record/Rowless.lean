import CadTimeline.Proofs.Record.Acceptance

/-!
# Bodies without data rows

Where no line of a schema owns data rows, every line of a body is a key line and becomes a record.
If, moreover, each slot is to be filled once and in order, the key lines are those of the slots.
-/

namespace CadTimeline

/-- No line owns data rows. -/
structure Schema.IsRowless (schema : Schema) : Prop where
  leading : schema.leadingRows = none
  kinds : ∀ kind ∈ schema.kinds, kind.rows = none

/-- The slots come one after the other, each with one line of one kind. -/
structure Schema.IsSequence (schema : Schema) : Prop where
  ordered : schema.ordered = true
  occurs : ∀ slot ∈ schema.slots, slot.occurs = .once
  kinds : ∀ slot ∈ schema.slots, ∃ kind, slot.kinds = [kind]

namespace Body

variable {schema : Schema} {scope : Scope} {block : Block} {records : List Record}

/-- The sections of a body that consists of key lines. -/
structure AreParts (schema : Schema) (scope : Scope) (body : List Line) (parts : List Section)
    (records : List Record) : Prop where
  lines : parts.map Section.line = body
  sections : ∀ part ∈ parts, part.Of schema
  declared : (Outline.mk [] parts).Declared schema
  becomes : List.Forall₂ (Section.Becomes scope) parts records

theorem exists_areParts (hschema : schema.IsRowless) (h : read schema scope block = .ok records) :
    ∃ parts, AreParts schema scope block.body parts records := by
  obtain ⟨⟨leading, parts⟩, hof⟩ : ∃ outline, Outline.Of schema block.body outline :=
    ⟨_, outlineOf_of schema block.body⟩
  obtain ⟨hdeclared, front, rest, rfl, hfront, hrest⟩ := (read_eq_ok_iff hof).mp h
  have hleading := hdeclared.leading
  rw [hschema.leading] at hleading hfront
  have hnil : leading = [] := hleading
  subst hnil
  have hrows : ∀ part ∈ parts, part.line :: part.rows = [part.line] := by
    intro part hpart
    have hdeclares := (hdeclared.sections part hpart).rows
    rw [hschema.kinds _ (Schema.kind_mem_of_recognise? (hof.sections part hpart).found)] at hdeclares
    exact congrArg (part.line :: ·) hdeclares
  have hlines : parts.map Section.line = block.body := by
    rw [← hof.lines, Outline.lines, List.nil_append, List.flatMap_congr hrows,
      List.map_eq_flatMap]
  cases hfront with
  | none => exact ⟨parts, hlines, hof.sections, hdeclared, hrest⟩

/-- A list that never decreases and has each number below a bound once. -/
theorem eq_range_of_counts {indices : List Nat} {n : Nat} (hsorted : indices.Pairwise (· ≤ ·))
    (hlt : ∀ i ∈ indices, i < n) (hcount : ∀ i < n, indices.count i = 1) :
    indices = List.range n := by
  have hperm : indices.Perm (List.range n) := by
    rw [List.perm_iff_count]
    intro i
    by_cases hi : i < n
    · rw [hcount i hi, List.count_range, if_pos hi]
    · rw [List.count_range, if_neg hi, List.count_eq_zero]
      exact fun hmem => hi (hlt i hmem)
  exact hperm.eq_of_pairwise (fun _ _ _ _ => Nat.le_antisymm) hsorted List.pairwise_le_range

variable {body : List Line} {parts : List Section}

/-- The lines of a sequence fill its slots one by one. -/
theorem AreParts.slots_eq (hschema : schema.IsSequence)
    (h : AreParts schema scope body parts records) :
    (parts.map fun part => part.found.slot) = schema.slots := by
  have hslot : ∀ part ∈ parts, schema.slots[part.found.index]? = some part.found.slot := by
    intro part hpart
    exact List.mem_zipIdx_iff_getElem?.mp (Schema.slot_of_recognise? (h.sections part hpart).found).1
  have hindices : (parts.map fun part => part.found.index) = List.range schema.slots.length := by
    refine eq_range_of_counts (h.declared.order hschema.ordered) ?_ ?_
    · intro i hi
      obtain ⟨part, hpart, rfl⟩ := List.mem_map.mp hi
      exact (List.getElem?_eq_some_iff.mp (hslot part hpart)).1
    · intro i hi
      have hallows := h.declared.occurs (schema.slots[i], i)
        (List.mem_zipIdx_iff_getElem?.mpr (List.getElem?_eq_getElem hi))
      rw [hschema.occurs _ (List.getElem_mem hi)] at hallows
      exact beq_iff_eq.mp hallows
  have hsome : (parts.map fun part => part.found.slot).map some = schema.slots.map some := by
    calc (parts.map fun part => part.found.slot).map some
        = (parts.map fun part => part.found.index).map (schema.slots[·]?) := by
          rw [List.map_map, List.map_map]
          exact List.map_congr_left fun part hpart => (hslot part hpart).symm
      _ = schema.slots.map some := by
          rw [hindices]
          exact List.ext_getElem (by simp) fun i _ _ => by simp
  exact List.map_injective_iff.mpr (fun _ _ => Option.some.inj) hsome

theorem AreParts.kinds_eq (hschema : schema.IsSequence)
    (h : AreParts schema scope body parts records) :
    (parts.map fun part => part.found.kind) = schema.kinds := by
  have hkind : ∀ part ∈ parts, part.found.slot.kinds = [part.found.kind] := by
    intro part hpart
    obtain ⟨hslot, hfind⟩ := Schema.slot_of_recognise? (h.sections part hpart).found
    obtain ⟨kind, hkinds⟩ := hschema.kinds _ (List.fst_mem_of_mem_zipIdx hslot)
    have hmem := List.mem_of_find?_eq_some hfind
    rw [hkinds, List.mem_singleton] at hmem
    rw [hkinds, hmem]
  rw [Schema.kinds, ← h.slots_eq hschema, List.flatMap_map, List.flatMap_congr hkind,
    List.map_eq_flatMap]

/-- The record of a line of this kind. -/
def Yields (scope : Scope) (kind : LineKind) (record : Record) : Prop :=
  ∃ part : Section, part.found.kind = kind ∧ part.Declared ∧ part.Becomes scope record

theorem Yields.key {kind : LineKind} {record : Record} (h : Yields scope kind record) :
    record.key = kind.key := by
  obtain ⟨part, rfl, -, hbecomes⟩ := h
  exact hbecomes.key

theorem AreParts.yields (h : AreParts schema scope body parts records) :
    List.Forall₂ (fun part record => Yields scope part.found.kind record) parts records := by
  refine ((List.forall₂_and_left _ _).mpr ⟨h.declared.sections, h.becomes⟩).imp ?_
  rintro part record ⟨hdeclared, hbecomes⟩
  exact ⟨part, rfl, hdeclared, hbecomes⟩

/-- A sequence is read as one record of each of its kinds. -/
theorem yields_of_read (hrowless : schema.IsRowless) (hsequence : schema.IsSequence)
    (h : read schema scope block = .ok records) :
    List.Forall₂ (Yields scope) schema.kinds records := by
  obtain ⟨parts, hparts⟩ := exists_areParts hrowless h
  rw [← hparts.kinds_eq hsequence, List.forall₂_map_left_iff]
  exact hparts.yields

end Body

end CadTimeline
