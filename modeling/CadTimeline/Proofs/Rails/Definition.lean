import CadTimeline.Proofs.Action.Sketch
import CadTimeline.Proofs.Record.Rowless
import CadTimeline.Rails.Cross

/-!
# The definition of cross rails

The schema of a `cross_rails` block asks for each of its five lines once and in order. So every
part of a definition is what a line of the block says; nothing is left to be filled in.
-/

namespace CadTimeline

open Body

namespace Schema

theorem crossRails_isRowless : crossRails.IsRowless :=
  ⟨rfl, by decide⟩

theorem crossRails_isSequence : crossRails.IsSequence := by
  refine ⟨rfl, by decide, fun slot hslot => ?_⟩
  simp only [crossRails, List.mem_cons, List.not_mem_nil, or_false] at hslot
  rcases hslot with rfl | rfl | rfl | rfl | rfl <;> exact ⟨_, rfl⟩

/-- The words of segments are the keys of their kinds. -/
theorem exists_segment_iff {word : String} :
    (∃ kind ∈ segments, kind.key = [word]) ↔ word ∈ segmentWords := by
  have hkeys : segments.map LineKind.key = segmentWords.map ([·]) := by decide
  rw [← List.mem_map, hkeys, List.mem_map_of_injective fun _ _ h => (List.cons.inj h).1]

end Schema

/-! ## Values of one form -/

theorem exists_map_of_forall {α β : Type} {f : α → β} {P : α → Prop} {ys : List β}
    (h : ∀ y ∈ ys, ∃ x, y = f x ∧ P x) : ∃ xs : List α, ys = xs.map f ∧ ∀ x ∈ xs, P x := by
  induction ys with
  | nil => exact ⟨[], rfl, List.forall_mem_nil _⟩
  | cons y ys ih =>
      rw [List.forall_mem_cons] at h
      obtain ⟨⟨x, rfl, hx⟩, hys⟩ := h
      obtain ⟨xs, rfl, hxs⟩ := ih hys
      exact ⟨x :: xs, rfl, List.forall_mem_cons.mpr ⟨hx, hxs⟩⟩

namespace FieldSpec.Converted

variable {spec : FieldSpec} {scope : Scope} {field : Field} {v : Value}

theorem exists_text (h : spec.Converted scope field v) (hkind : spec.kind = .text) :
    ∃ text, v = .text text := by
  cases h with
  | number hother => cases hkind.symm.trans hother
  | integer hother => cases hkind.symm.trans hother
  | text => exact ⟨_, rfl⟩
  | choice hother => cases hkind.symm.trans hother

theorem exists_word {words : List String} (h : spec.Converted scope field v)
    (hkind : spec.kind = .choice words) : ∃ word ∈ words, v = .text word := by
  cases h with
  | number hother => cases hkind.symm.trans hother
  | integer hother => cases hkind.symm.trans hother
  | text hother => cases hkind.symm.trans hother
  | choice hother _ hmem =>
      cases hkind.symm.trans hother
      exact ⟨_, hmem, rfl⟩

end FieldSpec.Converted

namespace Body.Yields

variable {scope : Scope} {kind : LineKind} {record : Record} {spec : FieldSpec}

/-- A line of one repeated field has values of one form, at least one. -/
theorem exists_repeated {α : Type} {f : α → Value} {P : α → Prop} (h : Yields scope kind record)
    (hfields : kind.fields = .repeating [] spec 1)
    (hform : ∀ {field v}, spec.Converted scope field v → ∃ x, v = f x ∧ P x) :
    ∃ xs : List α, xs ≠ [] ∧ record.values = xs.map f ∧ ∀ x ∈ xs, P x := by
  obtain ⟨part, rfl, hpart, hbecomes⟩ := h
  have hwidth := hpart.width
  have hvalues := hbecomes.values
  rw [hfields] at hwidth hvalues
  obtain ⟨xs, hrecord, hxs⟩ : ∃ xs : List α, record.values = xs.map f ∧ ∀ x ∈ xs, P x := by
    refine exists_map_of_forall fun v hv => ?_
    obtain ⟨⟨field, _⟩, -, other, hother, hconverted⟩ := exists_of_mem_right_forall₂ hvalues hv
    cases hother
    exact hform hconverted
  refine ⟨xs, ?_, hrecord, hxs⟩
  rintro rfl
  rw [Fields.Becomes, hrecord, List.map_nil, List.forall₂_nil_right_iff] at hvalues
  rw [List.zipIdx_eq_nil_iff.mp hvalues] at hwidth
  contradiction

/-- A line of one word has a word of its choice. -/
theorem exists_word {name : String} {words : List String} (h : Yields scope kind record)
    (hfields : kind.fields = .fixed [.choice name words]) :
    ∃ word ∈ words, record.values = [.text word] := by
  obtain ⟨part, rfl, hpart, hbecomes⟩ := h
  have hwidth := hpart.width
  have hvalues := hbecomes.values
  rw [hfields] at hwidth hvalues
  obtain ⟨field, hown⟩ := List.length_eq_one_iff.mp (Fields.accepts_fixed_iff.mp hwidth)
  rw [hown, Fields.Becomes, List.zipIdx_singleton] at hvalues
  obtain ⟨v, _, ⟨other, hother, hconverted⟩, hnil, hrecord⟩ := List.forall₂_cons_left_iff.mp hvalues
  cases hother
  obtain ⟨word, hmem, rfl⟩ := hconverted.exists_word rfl
  rw [List.forall₂_nil_left_iff.mp hnil] at hrecord
  exact ⟨word, hmem, hrecord⟩

theorem exists_axis {name : String} (h : Yields scope kind record)
    (hfields : kind.fields = .fixed [.choice name Schema.axisWords]) :
    ∃ axis : Axis, record.values = [.text axis.word] := by
  obtain ⟨word, hmem, hvalues⟩ := h.exists_word hfields
  obtain ⟨axis, rfl⟩ := Schema.exists_axis_of_mem_axisWords hmem
  exact ⟨axis, hvalues⟩

end Body.Yields

namespace CrossRails

/-- What a definition is made from: the five lines of its block and what they hold. -/
structure IsDefinedBy (rails : CrossRails) (records : List Record) : Prop where
  keys : records.map Record.key = [["rail_names"], ["profile_plane_normal"],
    ["rail_plane_normal"], ["rail_plane_offsets"], ["rail_segment_type"]]
  values : records.map Record.values = [rails.railNames.map .text,
    [.text rails.profileNormal.word], [.text rails.railNormal.word],
    rails.offsets.map .number, [.text rails.segmentWord]]
  railNames : rails.railNames ≠ []
  offsets : rails.offsets ≠ []
  finite : ∀ offset ∈ rails.offsets, offset.isFinite = true
  segment : ∃ kind ∈ Schema.segments, kind.key = [rails.segmentWord]

variable {rails : CrossRails} {records : List Record} {word : String}

theorem textsOf_eq {texts : List String} (h : valuesOf records word = texts.map .text) :
    textsOf records word = texts := by
  rw [textsOf, h, List.filterMap_map]
  exact List.filterMap_some

theorem textOf_eq {text : String} (h : valuesOf records word = [.text text]) :
    textOf records word = text := by
  have htexts : textsOf records word = [text] := textsOf_eq h
  rw [textOf, htexts]
  rfl

/-- Such records make up the definition, and only equal normals are refused. -/
theorem IsDefinedBy.ofRecords_eq (h : rails.IsDefinedBy records) :
    ofRecords rails.folder rails.namePrefix rails.line records =
      if rails.profileNormal = rails.railNormal then
        .error (.equalNormals rails.profileNormal.word) else .ok rails := by
  have hkeys := h.keys
  have hvalues := h.values
  simp only [List.map_eq_cons_iff, List.map_eq_nil_iff] at hkeys
  obtain ⟨names, _, rfl, hnames, profile, _, rfl, hprofile, rail, _, rfl, hrail,
    offset, _, rfl, hoffset, segment, _, rfl, hsegment, rfl⟩ := hkeys
  simp only [List.map_cons, List.map_nil, List.cons.injEq, and_true] at hvalues
  obtain ⟨hnameValues, hprofileValues, hrailValues, hoffsetValues, hsegmentValues⟩ := hvalues
  generalize hall : [names, profile, rail, offset, segment] = all
  have hfound : valuesOf all "rail_names" = rails.railNames.map .text ∧
      valuesOf all "profile_plane_normal" = [.text rails.profileNormal.word] ∧
      valuesOf all "rail_plane_normal" = [.text rails.railNormal.word] ∧
      valuesOf all "rail_plane_offsets" = rails.offsets.map .number ∧
      valuesOf all "rail_segment_type" = [.text rails.segmentWord] := by
    simp [← hall, valuesOf, Record.word, hnames, hprofile, hrail, hoffset, hsegment, hnameValues,
      hprofileValues, hrailValues, hoffsetValues, hsegmentValues]
  obtain ⟨hrailNames, hprofileNormal, hrailNormal, hoffsets, hsegmentWord⟩ := hfound
  have hnumbers : (rails.offsets.map Value.number).filterMap Value.toFloat? = rails.offsets := by
    rw [List.filterMap_map]
    exact List.filterMap_some
  rw [ofRecords, textOf_eq hprofileNormal, textOf_eq hrailNormal, textOf_eq hsegmentWord,
    textsOf_eq hrailNames, hoffsets, hnumbers, Axis.ofWord?_word, Axis.ofWord?_word]
  by_cases hnormals : rails.profileNormal = rails.railNormal
  · rw [if_pos hnormals]
    exact if_pos (congrArg Axis.word hnormals)
  · rw [if_neg hnormals]
    exact if_neg (mt Axis.word_injective hnormals)

/-- What the schema admits is a definition. -/
theorem exists_isDefinedBy {scope : Scope} {block : Block}
    (h : read Schema.crossRails scope block = .ok records) (folder : List String)
    (namePrefix : Option String) (line : Nat) :
    ∃ rails : CrossRails, rails.folder = folder ∧ rails.namePrefix = namePrefix ∧
      rails.line = line ∧ rails.IsDefinedBy records := by
  have hkinds := yields_of_read Schema.crossRails_isRowless Schema.crossRails_isSequence h
  obtain ⟨names, _, hnames, hfour, rfl⟩ := List.forall₂_cons_left_iff.mp hkinds
  obtain ⟨profile, _, hprofile, hthree, rfl⟩ := List.forall₂_cons_left_iff.mp hfour
  obtain ⟨rail, _, hrail, htwo, rfl⟩ := List.forall₂_cons_left_iff.mp hthree
  obtain ⟨offset, _, hoffset, hone, rfl⟩ := List.forall₂_cons_left_iff.mp htwo
  obtain ⟨segment, _, hsegment, hnil, rfl⟩ := List.forall₂_cons_left_iff.mp hone
  rw [List.forall₂_nil_left_iff.mp hnil]
  obtain ⟨railNames, hrailNames, hnameValues, -⟩ := hnames.exists_repeated rfl
    fun hv => (hv.exists_text rfl).imp fun _ htext => ⟨htext, trivial⟩
  obtain ⟨profileNormal, hprofileValues⟩ := hprofile.exists_axis rfl
  obtain ⟨railNormal, hrailValues⟩ := hrail.exists_axis rfl
  obtain ⟨offsets, hoffsets, hoffsetValues, hfinite⟩ := hoffset.exists_repeated rfl
    fun hv => hv.exists_number rfl
  obtain ⟨segmentWord, hword, hsegmentValues⟩ := hsegment.exists_word rfl
  refine ⟨⟨folder, namePrefix, railNames, profileNormal, railNormal, offsets, segmentWord, line⟩,
    rfl, rfl, rfl, ?_, ?_, hrailNames, hoffsets, hfinite,
    Schema.exists_segment_iff.mpr hword⟩
  · simp only [List.map_cons, List.map_nil, hnames.key, hprofile.key, hrail.key, hoffset.key,
      hsegment.key]
    rfl
  · simp only [List.map_cons, List.map_nil, hnameValues, hprofileValues, hrailValues,
      hoffsetValues, hsegmentValues]

/-- A block is read as a definition exactly when its header and its lines make it up and its
normals are different. -/
theorem ofBlock_eq_ok {scope : Scope} {block : Block} :
    ofBlock scope block = .ok rails ↔
      readHeader scope block.header = .ok (rails.folder, rails.namePrefix) ∧
        rails.line = block.number ∧ rails.profileNormal ≠ rails.railNormal ∧
        ∃ records, read Schema.crossRails scope block = .ok records ∧
          rails.IsDefinedBy records := by
  simp only [ofBlock_eq, bind_eq_ok, mapError_eq_ok]
  constructor
  · rintro ⟨⟨folder, namePrefix⟩, hheader, records, hread, hrecords⟩
    obtain ⟨other, rfl, rfl, hline, hdefined⟩ :=
      exists_isDefinedBy hread folder namePrefix block.number
    rw [← hline, hdefined.ofRecords_eq] at hrecords
    split at hrecords
    · contradiction
    · rename_i hnormals
      cases hrecords
      exact ⟨hheader, hline, hnormals, records, hread, hdefined⟩
  · rintro ⟨hheader, hline, hnormals, records, hread, hdefined⟩
    refine ⟨_, hheader, records, hread, ?_⟩
    rw [← hline, hdefined.ofRecords_eq, if_neg hnormals]

end CrossRails

end CadTimeline
