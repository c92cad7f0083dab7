import CadTimeline.Proofs.Action.File
import CadTimeline.Proofs.Record.Order

/-!
# The key that is not shown

All keys are shown in action files but the one of the plane of a sketch, whose line is
always the first one behind the unit.
-/

namespace CadTimeline

open Body CadTimeline.Field Text

namespace Record

variable {record : Record}

theorem shown_of_keyShown (h : record.keyShown = true ∨ record.key = []) :
    record.shown = record.texts := by
  have hhead : record.shownHead = record.head := by
    unfold shownHead head
    rcases h with h | h
    · rw [if_pos h]
    · rw [h, ite_self]
  rw [shown, hhead, texts]

end Record

theorem flatMap_shown {records : List Record}
    (h : ∀ record ∈ records, record.keyShown = true ∨ record.key = []) :
    records.flatMap Record.shown = textsOf records :=
  List.flatMap_congr fun record hrecord => Record.shown_of_keyShown (h record hrecord)

/-! ## Actions that are no sketches -/

theorem Schema.keyShown_of_mem_kinds {kind : ActionKind} (hkind : kind ≠ .sketch) :
    ∀ line ∈ kind.schema.kinds, line.keyShown = true := by
  cases kind <;> first | exact absurd rfl hkind | decide

theorem flatMap_shown_of_read {kind : ActionKind} (hkind : kind ≠ .sketch) {scope : Scope}
    {block : Block} {records : List Record} (h : Body.read kind.schema scope block = .ok records) :
    records.flatMap Record.shown = textsOf records := by
  apply flatMap_shown
  intro record hrecord
  rcases fromSlot_of_mem kind.schema_isReadable h hrecord with hhead | ⟨index, hfrom⟩
  · exact .inr (List.append_eq_nil_iff.mp hhead).1
  · obtain ⟨slot, line, hslot, hline, -, hshown⟩ := hfrom.exists_kind
    rw [hshown]
    refine .inl (Schema.keyShown_of_mem_kinds hkind line ?_)
    exact List.mem_flatMap.mpr ⟨slot, List.fst_mem_of_mem_zipIdx hslot, hline⟩

/-! ## Sketches -/

namespace Schema

def planeKind : LineKind :=
  { bare ["offset_plane"] (.fixed [.choice "axis" axisWords, .number "offset"]) with
    keyShown := false }

theorem plane_mem : (slot "offset_plane" .once [planeKind], 0) ∈ Schema.sketch.slots.zipIdx :=
  List.mem_cons_self

theorem eq_planeKind :
    ∀ entry ∈ Schema.sketch.slots.zipIdx, entry.2 = 0 → ∀ kind ∈ entry.1.kinds, kind = planeKind := by
  decide

theorem keyShown_of_index_ne_zero :
    ∀ entry ∈ Schema.sketch.slots.zipIdx, entry.2 ≠ 0 →
      ∀ kind ∈ entry.1.kinds, kind.keyShown = true := by
  decide

end Schema

/-- The values of a plane start with an axis. -/
theorem exists_axis_of_convert {scope : Scope} {own : List Field} {values : List Value}
    (h : Schema.planeKind.fields.convert scope own = .ok values)
    (hwidth : Schema.planeKind.fields.accepts values.length = true) :
    ∃ axis rest, values = .text axis :: rest ∧ axis ∈ Schema.axisWords := by
  cases values with
  | nil => contradiction
  | cons v rest =>
      have hvalues := Fields.convert_eq_ok.mp h
      cases own with
      | nil => cases hvalues
      | cons f own =>
          rw [List.zipIdx_cons, List.forall₂_cons] at hvalues
          obtain ⟨⟨spec, hspec, hconverted⟩, -⟩ := hvalues
          cases hspec
          cases hconverted with
          | choice hkind _ hmem =>
              cases hkind
              exact ⟨_, rest, rfl, hmem⟩
          | number hkind => cases hkind
          | integer hkind => cases hkind
          | text hkind => cases hkind

/-- The first row of a sketch lacks the key. -/
theorem exists_shown_of_read {scope : Scope} {block : Block} {records : List Record}
    (h : Body.read Schema.sketch scope block = .ok records) :
    ∃ head tail, records.flatMap Record.shown = head :: tail ∧
      textsOf records = ("offset_plane" :: head) :: tail ∧ head ≠ [] ∧ ¬IsMarkedRow head := by
  obtain ⟨first, rest, rfl, hfirst, hrest⟩ :=
    exists_first ActionKind.sketch.schema_isReadable rfl rfl Schema.plane_mem rfl h
  have hshown : rest.flatMap Record.shown = textsOf rest := by
    apply flatMap_shown
    intro record hrecord
    obtain ⟨index, hindex, hfrom⟩ := hrest record hrecord
    obtain ⟨slot, kind, hslot, hkind, -, hshown⟩ := hfrom.exists_kind
    rw [hshown]
    exact .inl (Schema.keyShown_of_index_ne_zero _ hslot hindex kind hkind)
  obtain ⟨slot, kind, line, read, hslot, hkind, hof, hkey, hvalues, hhidden⟩ := hfirst
  cases Schema.eq_planeKind _ hslot rfl kind hkind
  cases hof with
  | tags htags => cases htags
  | values _ hwidth hconvert =>
      obtain ⟨axis, others, rfl, haxis⟩ := exists_axis_of_convert hconvert hwidth
      have hhead : first.shownHead = axis :: others.map Value.display := by
        rw [Record.shownHead, hhidden, hvalues]
        rfl
      have htexts : first.head = "offset_plane" :: first.shownHead := by
        rw [hhead, Record.head, hkey, hvalues]
        rfl
      refine ⟨first.shownHead, first.rowTexts ++ textsOf rest, ?_, ?_, ?_, ?_⟩
      · rw [List.flatMap_cons, hshown, Record.shown, hhead]
        rfl
      · rw [textsOf, List.flatMap_cons, Record.texts, htexts]
        rfl
      · rw [hhead]
        exact List.cons_ne_nil _ _
      · have hwords : ∀ word ∈ Schema.axisWords, word.toList.head? ≠ some '\uFEFF' := by decide
        rw [hhead]
        exact fun hmark => hwords axis haxis hmark.1

end CadTimeline
