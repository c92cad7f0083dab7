import CadTimeline.Action.File
import CadTimeline.Proofs.Action.Sketch
import CadTimeline.Proofs.Record.Acceptance
import CadTimeline.Proofs.Record.Tail

/-!
# Sketches with tags

Tails behind the segments of a sketch add their tags to the records and change nothing else, so
the file of the sketch stays the same. A sketch with a tail that spells no tags is refused, at the
line of this tail.
-/

namespace CadTimeline

open CadTimeline.Field

/-- The record with these tags. -/
def Record.withTags (record : Record) (tags : List Tag) : Record :=
  { record with tags }

/-- Tags are not written to a file. -/
theorem File.records_withTags (first : Record) {rest : List Record} {lists : List (List Tag)}
    (hlength : lists.length = rest.length) :
    records (first :: List.zipWith Record.withTags rest lists) = records (first :: rest) := by
  have hrest : (List.zipWith Record.withTags rest lists).map record = rest.map record := by
    induction rest generalizing lists with
    | nil => rfl
    | cons segment rest ih =>
        cases lists with
        | nil => contradiction
        | cons tags lists =>
            rw [List.zipWith_cons_cons, List.map_cons, List.map_cons, ih (Nat.succ.inj hlength)]
            rfl
  rw [records, records, List.map_cons, List.map_cons, hrest]

namespace Body

/-- The line may end in tags. -/
def takesTags (schema : Schema) (line : Line) : Bool :=
  (schema.recognise? line).any fun found => found.kind.railTags

/-- The lines, each one that may end in tags with the next tail behind it. -/
def withTails (schema : Schema) : List Line → List (List Field) → List Line
  | [], _ => []
  | line :: lines, tails =>
    if takesTags schema line then
      { line with fields := line.fields ++ tails.headD [] } :: withTails schema lines tails.tail
    else line :: withTails schema lines tails

variable {schema : Schema} {scope : Scope} {part : Section} {record : Record} {tail : List Field}
  {tags : List Tag} {progress : Progress}

/-! ## One section -/

/-- A section as it is declared, whose line may end in tags but has none. -/
structure Section.IsUntagged (schema : Schema) (part : Section) : Prop where
  of : part.Of schema
  takes : part.found.kind.railTags = true
  tagged : part.tagged = []
  declared : part.Declared

/-- The section with a tail behind its line. -/
def Section.withTail (part : Section) (tail : List Field) : Section :=
  { part with
    line := { part.line with fields := part.line.fields ++ tail }
    tagged := (Tag.groups tail).2 }

namespace Section

theorem fields_withTail (part : Section) (tail : List Field) :
    (part.withTail tail).line.fields = part.line.fields ++ tail :=
  rfl

theorem IsUntagged.of_withTail (hreadable : schema.IsReadable) (h : part.IsUntagged schema)
    (htail : Tag.IsTail tail) : (part.withTail tail).Of schema := by
  obtain ⟨hspread, -, hwords⟩ := Tag.groups_eq_iff.mp (Tag.groups_of_isTail htail)
  have hfields : (part.withTail tail).line.fields =
      (part.found.kind.key.map fun word => ⟨word, false⟩) ++
        (part.own ++ Tag.spread (Tag.groups tail).2) := by
    have hline := h.of.fields
    rw [h.tagged, Tag.spread, List.flatMap_nil, List.append_nil] at hline
    rw [fields_withTail, hline, List.append_assoc, ← List.nil_append (Tag.spread _), ← hspread]
  exact ⟨hreadable.recognise?_of_key h.of.found hfields, hfields,
    fun hfalse => absurd (h.takes.symm.trans hfalse) (by decide), h.of.own, hwords, h.of.rows⟩

theorem Becomes.withTail (h : part.Becomes scope record)
    (htags : List.Forall₂ (Tag.Becomes scope) (Tag.groups tail).2 tags) :
    (part.withTail tail).Becomes scope (record.withTags tags) :=
  ⟨h.key, h.keyShown, h.line, h.values, htags, h.rows⟩

theorem Declared.withTail (h : part.Declared)
    (htags : List.Forall₂ (Tag.Becomes scope) (Tag.groups tail).2 tags) :
    (part.withTail tail).Declared := by
  refine ⟨h.width, fun group hgroup => ?_, h.rows⟩
  obtain ⟨tag, -, htag⟩ := exists_of_mem_forall₂ htags hgroup
  exact htag.admits

theorem IsUntagged.takesTags (h : part.IsUntagged schema) : takesTags schema part.line = true := by
  rw [Body.takesTags, h.of.found]
  exact h.takes

/-- A line that may end in tags but has none is its key. -/
theorem IsUntagged.fields_eq (hreadable : schema.IsReadable) (h : part.IsUntagged schema) :
    part.line.fields = part.found.kind.key.map fun word => ⟨word, false⟩ := by
  have hwidth := h.declared.width
  rw [hreadable.tags _ (Schema.kind_mem_of_recognise? h.of.found) h.takes] at hwidth
  have hown : part.own = [] :=
    List.length_eq_zero_iff.mp (Record.eq_zero_of_none_accepts hwidth)
  rw [h.of.fields, h.tagged, hown]
  exact List.append_nil _

theorem exists_of_mem_zipWith {parts : List Section} {tails : List (List Field)}
    (h : part ∈ List.zipWith withTail parts tails) :
    ∃ own ∈ parts, ∃ tail ∈ tails, part = own.withTail tail := by
  rw [← List.map_uncurry_zip_eq_zipWith] at h
  obtain ⟨⟨own, tail⟩, hentry, rfl⟩ := List.mem_map.mp h
  obtain ⟨hown, htail⟩ := List.of_mem_zip hentry
  exact ⟨own, hown, tail, htail, rfl⟩

end Section

/-! ## The lines of a body -/

section Lines

variable {lines : List Line} {tails : List (List Field)} {head : Section} {parts : List Section}

theorem withTails_append (h : ∀ line ∈ lines, takesTags schema line = false) (rest : List Line) :
    withTails schema (lines ++ rest) tails = lines ++ withTails schema rest tails := by
  induction lines with
  | nil => rfl
  | cons line lines ih =>
      rw [List.forall_mem_cons] at h
      rw [List.cons_append, withTails, if_neg (Bool.eq_false_iff.mp h.1), ih h.2]
      rfl

theorem takesTags_rows (hof : part.Of schema) :
    ∀ line ∈ part.rows, takesTags schema line = false := by
  intro line hline
  rw [takesTags, hof.rows line hline]
  rfl

theorem withTails_flatMap (h : ∀ part ∈ parts, part.IsUntagged schema)
    (hlength : tails.length = parts.length) :
    withTails schema (parts.flatMap fun part => part.line :: part.rows) tails =
      (List.zipWith Section.withTail parts tails).flatMap fun part => part.line :: part.rows := by
  induction parts generalizing tails with
  | nil =>
      rw [List.length_nil, List.length_eq_zero_iff] at hlength
      rw [hlength]
      rfl
  | cons part parts ih =>
      rw [List.forall_mem_cons] at h
      cases tails with
      | nil => contradiction
      | cons tail tails =>
          rw [List.flatMap_cons, List.cons_append, withTails, if_pos h.1.takesTags,
            withTails_append (takesTags_rows h.1.of), List.tail_cons,
            ih h.2 (Nat.succ.inj hlength), List.zipWith_cons_cons, List.flatMap_cons]
          rfl

/-- With tails behind the lines that may end in tags, the outline has the tags of the tails. -/
theorem Outline.Of.withTails {body : List Line} (hreadable : schema.IsReadable)
    (hof : (Outline.mk [] (head :: parts)).Of schema body)
    (hhead : head.found.kind.railTags = false) (hparts : ∀ part ∈ parts, part.IsUntagged schema)
    (hlength : tails.length = parts.length) (htails : ∀ tail ∈ tails, Tag.IsTail tail) :
    (Outline.mk [] (head :: List.zipWith Section.withTail parts tails)).Of schema
      (withTails schema body tails) := by
  obtain ⟨rfl, -, hsections⟩ := hof
  rw [List.forall_mem_cons] at hsections
  have hlines : ∀ line ∈ head.line :: head.rows, takesTags schema line = false := by
    refine List.forall_mem_cons.mpr ⟨?_, takesTags_rows hsections.1⟩
    rw [takesTags, hsections.1.found]
    exact hhead
  refine ⟨?_, List.forall_mem_nil _, List.forall_mem_cons.mpr ⟨hsections.1, ?_⟩⟩
  · rw [Outline.lines, Outline.lines, List.nil_append, List.nil_append, List.flatMap_cons,
      List.flatMap_cons, withTails_append hlines, withTails_flatMap hparts hlength]
  · intro other hother
    obtain ⟨part, hpart, tail, htail, rfl⟩ := Section.exists_of_mem_zipWith hother
    exact (hparts part hpart).of_withTail hreadable (htails tail htail)

theorem map_index_withTail (hlength : tails.length = parts.length) :
    (List.zipWith Section.withTail parts tails).map (fun part => part.found.index) =
      parts.map fun part => part.found.index := by
  have hfst := List.map_fst_zip hlength.ge
  conv_rhs => rw [← hfst]
  rw [← List.map_uncurry_zip_eq_zipWith, List.map_map, List.map_map]
  rfl

end Lines

/-! ## Tails that are tags -/

section Accepted

variable {tails : List (List Field)} {head : Section} {parts : List Section}
  {lists : List (List Tag)} {rest : List Record}

theorem groups_become (h : Tag.Spelled scope tail tags) :
    List.Forall₂ (Tag.Becomes scope) (Tag.groups tail).2 tags :=
  Tag.readAll_eq_ok_iff_becomes.mp ((Tag.readAll_eq_ok_iff h.isTail).mpr h)

theorem Outline.Declared.withTails (h : (Outline.mk [] (head :: parts)).Declared schema)
    (hlength : tails.length = parts.length)
    (htails : List.Forall₂ (Tag.Spelled scope) tails lists) :
    (Outline.mk [] (head :: List.zipWith Section.withTail parts tails)).Declared schema := by
  obtain ⟨hleading, hsections, hoccurs, horder⟩ := h
  rw [List.forall_mem_cons] at hsections
  have hindices : (Outline.mk [] (head :: List.zipWith Section.withTail parts tails)).indices =
      (Outline.mk [] (head :: parts)).indices :=
    congrArg (head.found.index :: ·) (map_index_withTail hlength)
  refine ⟨hleading, List.forall_mem_cons.mpr ⟨hsections.1, ?_⟩, ?_, ?_⟩
  · intro other hother
    obtain ⟨part, hpart, tail, htail, rfl⟩ := Section.exists_of_mem_zipWith hother
    obtain ⟨tags, -, htags⟩ := exists_of_mem_forall₂ htails htail
    exact (hsections.2 part hpart).withTail (groups_become htags)
  · rwa [hindices]
  · rwa [hindices]

theorem forall₂_becomes_withTails (h : List.Forall₂ (Section.Becomes scope) parts rest)
    (htails : List.Forall₂ (Tag.Spelled scope) tails lists) :
    List.Forall₂ (Section.Becomes scope) (List.zipWith Section.withTail parts tails)
      (List.zipWith Record.withTags rest lists) := by
  induction h generalizing tails lists with
  | nil => exact .nil
  | cons hbecomes _ ih =>
      cases htails with
      | nil => exact .nil
      | cons htail htails => exact .cons (hbecomes.withTail (groups_become htail)) (ih htails)

end Accepted

/-! ## Tails that are not -/

section Refused

variable {tails : List (List Field)} {parts : List Section} {rest : List Record}

/-- The tags of a line are read before anything else of it. -/
theorem ofLine_eq_error (hpart : part.Of schema) {issue : Issue}
    (h : (part.tagged.mapM fun (word, names) => Tag.read scope word names) = .error issue) :
    Record.ofLine part.found.kind scope part.line = .error issue := by
  simp only [Record.ofLine, hpart.cut_eq, h]
  rfl

/-- A section whose tail cannot be read is not read. -/
theorem step_withTail_error (hreadable : schema.IsReadable) (h : part.IsUntagged schema)
    (hlast : progress.checkLast = .ok ())
    (hslot : checkSlot schema progress.filled part.found = .ok ()) (htail : Tag.IsTail tail)
    {issue : Issue} (hissue : Tag.readAll scope tail = .error issue) :
    step schema scope progress (part.withTail tail).line = .error ⟨part.line.number, issue⟩ := by
  have hof := h.of_withTail hreadable htail
  have hrecord : Record.ofLine part.found.kind scope (part.withTail tail).line = .error issue :=
    ofLine_eq_error hof hissue
  have hfound : schema.recognise? (part.withTail tail).line = some part.found := hof.found
  simp only [step, hfound, hlast, hslot, hrecord]
  rfl

/-- If some tail cannot be read, the run fails at the line of such a tail. -/
theorem exists_foldlM_error (hreadable : schema.IsReadable)
    (hparts : ∀ part ∈ parts, part.IsUntagged schema)
    (hbecome : List.Forall₂ (Section.Becomes scope) parts rest)
    (hlast : progress.checkLast = .ok ()) (hfit : SlotsFit schema progress.filled parts)
    (hlength : tails.length = parts.length) (htails : ∀ tail ∈ tails, Tag.IsTail tail)
    (hnone : ¬∃ lists, List.Forall₂ (Tag.Spelled scope) tails lists) :
    ∃ segment tail issue, (segment, tail) ∈ rest.zip tails ∧
      Tag.readAll scope tail = .error issue ∧
      ((List.zipWith Section.withTail parts tails).flatMap fun part =>
        part.line :: part.rows).foldlM (step schema scope) progress =
          .error ⟨segment.line, issue⟩ := by
  induction hbecome generalizing tails progress with
  | nil =>
      rw [List.length_nil, List.length_eq_zero_iff] at hlength
      exact absurd ⟨[], hlength ▸ .nil⟩ hnone
  | @cons part segment parts rest hpart _ ih =>
      cases tails with
      | nil => contradiction
      | cons tail tails =>
          rw [List.forall_mem_cons] at hparts htails
          obtain ⟨hslot, hfit⟩ := hfit
          rw [List.zipWith_cons_cons, List.flatMap_cons, List.foldlM_append]
          cases htags : Tag.readAll scope tail with
          -- The sections before this one are read, so this is the first tail at fault.
          | error issue =>
              have hstep := step_withTail_error hreadable hparts.1 hlast hslot htails.1 htags
              refine ⟨segment, tail, issue, List.mem_cons_self, htags, ?_⟩
              rw [List.foldlM_cons, hstep, hpart.line]
              rfl
          | ok tags =>
              have hspelled := (Tag.readAll_eq_ok_iff htails.1).mp htags
              have hrun := (foldlM_section_iff (hparts.1.of_withTail hreadable htails.1)).mpr
                ⟨hlast, hslot, hparts.1.declared.withTail (groups_become hspelled), _,
                  hpart.withTail (groups_become hspelled), rfl⟩
              have hrest : ¬∃ lists, List.Forall₂ (Tag.Spelled scope) tails lists :=
                fun ⟨lists, hlists⟩ => hnone ⟨tags :: lists, .cons hspelled hlists⟩
              obtain ⟨found, other, issue, hmem, hissue, herror⟩ :=
                ih hparts.2 hrun.2 hfit (Nat.succ.inj hlength) htails.2 hrest
              refine ⟨found, other, issue, List.mem_cons_of_mem _ hmem, hissue, ?_⟩
              rw [hrun.1]
              exact herror

end Refused

/-! ## Written tails -/

theorem exists_section_of_takesTags {outline : Outline} {body : List Line}
    (hof : outline.Of schema body) {line : Line} (hline : line ∈ body)
    (htakes : takesTags schema line = true) :
    ∃ part ∈ outline.sections, line = part.line := by
  rw [← hof.lines, Outline.lines, List.mem_append, List.mem_flatMap] at hline
  rcases hline with hline | ⟨part, hpart, hline⟩
  · rw [takesTags, hof.leading line hline] at htakes
    contradiction
  · rcases List.mem_cons.mp hline with rfl | hline
    · exact ⟨part, hpart, rfl⟩
    · rw [takesTags_rows (hof.sections part hpart) line hline] at htakes
      contradiction

/-- A line that ends in written tags can be written. -/
theorem Section.IsUntagged.isSourceLine (hreadable : schema.IsReadable)
    (h : part.IsUntagged schema) (htags : ∀ tag ∈ tags, tag.IsPlain) :
    IsSourceLine (part.withTail (Tag.tailOf tags)).line.fields := by
  rw [Section.fields_withTail, h.fields_eq hreadable]
  refine hreadable.isSourceLine (Schema.kind_mem_of_recognise? h.of.found) fun field hfield => ?_
  obtain ⟨hwritable, hsingle, -⟩ := Tag.writable_tailOf htags field hfield
  exact ⟨hwritable, hsingle⟩

end Body

/-! ## Sketches -/

/-- The sketch with these tails behind its segments. -/
def Block.withTails (block : Block) (tails : List (List Field)) : Block :=
  { block with body := Body.withTails Schema.sketch block.body tails }

namespace Body

theorem railTags_of_mem_segments : ∀ kind ∈ Schema.segments, kind.railTags = true := by
  decide

section Sketches

variable {block : Block} {records : List Record} {plane : Section} {parts : List Section}
  {first : Record} {rest : List Record} {tails : List (List Field)} {lists : List (List Tag)}

/-- The sections of a sketch without tags. -/
structure IsUntaggedSketch (scope : Scope) (block : Block) (plane : Section)
    (parts : List Section) (first : Record) (rest : List Record) : Prop where
  of : (Outline.mk [] (plane :: parts)).Of Schema.sketch block.body
  declared : (Outline.mk [] (plane :: parts)).Declared Schema.sketch
  noTags : plane.found.kind.railTags = false
  untagged : ∀ part ∈ parts, part.IsUntagged Schema.sketch
  head : plane.Becomes scope first
  segments : List.Forall₂ (Section.Becomes scope) parts rest

theorem exists_isUntaggedSketch (hread : read Schema.sketch scope block = .ok records)
    (huntagged : ∀ record ∈ records, record.tags = []) :
    ∃ plane parts first rest, records = first :: rest ∧
      IsUntaggedSketch scope block plane parts first rest := by
  obtain ⟨plane, parts, first, rest, hof, hbody, hdeclared, rfl, hfirst, hrest⟩ :=
    exists_records_of_sketch hread
  refine ⟨plane, parts, first, rest, rfl, hof, hdeclared, ?_, fun part hpart => ?_, hfirst, hrest⟩
  · rw [hbody.planeKind]
    rfl
  · obtain ⟨record, hrecord, hbecomes⟩ := exists_of_mem_forall₂ hrest hpart
    have htags := hbecomes.tags
    rw [huntagged record (List.mem_cons_of_mem _ hrecord)] at htags
    exact ⟨hof.sections part (List.mem_cons_of_mem _ hpart),
      railTags_of_mem_segments _ (hbody.kinds part hpart), List.forall₂_nil_right_iff.mp htags,
      hdeclared.sections part (List.mem_cons_of_mem _ hpart)⟩

namespace IsUntaggedSketch

variable (h : IsUntaggedSketch scope block plane parts first rest)
include h

theorem of_withTails (hlength : tails.length = parts.length)
    (htails : ∀ tail ∈ tails, Tag.IsTail tail) :
    (Outline.mk [] (plane :: List.zipWith Section.withTail parts tails)).Of Schema.sketch
      (block.withTails tails).body :=
  h.of.withTails (ActionKind.schema_isReadable .sketch) h.noTags h.untagged hlength htails

theorem read_eq_ok (hlength : tails.length = parts.length)
    (htails : List.Forall₂ (Tag.Spelled scope) tails lists) :
    read Schema.sketch scope (block.withTails tails) =
      .ok (first :: List.zipWith Record.withTags rest lists) := by
  have htail : ∀ tail ∈ tails, Tag.IsTail tail := by
    intro tail hmem
    obtain ⟨tags, -, htags⟩ := exists_of_mem_forall₂ htails hmem
    exact htags.isTail
  refine (read_eq_ok_iff (h.of_withTails hlength htail)).mpr
    ⟨h.declared.withTails hlength htails, [], _, rfl, .none, ?_⟩
  exact .cons h.head (forall₂_becomes_withTails h.segments htails)

theorem exists_read_eq_error (hlength : tails.length = parts.length)
    (htails : ∀ tail ∈ tails, Tag.IsTail tail)
    (hnone : ¬∃ lists, List.Forall₂ (Tag.Spelled scope) tails lists) :
    ∃ segment tail issue, (segment, tail) ∈ rest.zip tails ∧ Tag.IsTailIssue scope tail issue ∧
      read Schema.sketch scope (block.withTails tails) = .error ⟨segment.line, issue⟩ := by
  have hsections := h.of.sections
  obtain ⟨⟨hslot, hfit⟩, -⟩ := (checkSlots_iff hsections).mpr ⟨h.declared.occurs, h.declared.order⟩
  have hplane := (@foldlM_section_iff _ scope ⟨[], []⟩ _ _
    (hsections plane List.mem_cons_self)).mpr
      ⟨rfl, hslot, h.declared.sections plane List.mem_cons_self, first, h.head, rfl⟩
  obtain ⟨segment, tail, issue, hmem, hissue, herror⟩ :=
    exists_foldlM_error (ActionKind.schema_isReadable .sketch) h.untagged h.segments hplane.2 hfit
      hlength htails hnone
  refine ⟨segment, tail, issue, hmem, Tag.isTailIssue_of_readAll hissue, ?_⟩
  have hbody := (h.of_withTails hlength htails).lines
  rw [Outline.lines, List.nil_append, List.flatMap_cons] at hbody
  have hrun : (block.withTails tails).body.foldlM (step Schema.sketch scope)
      (start Schema.sketch block.number) = .error ⟨segment.line, issue⟩ := by
    have hstart : start Schema.sketch block.number = ⟨[], []⟩ := rfl
    rw [← hbody, List.foldlM_append, hstart, hplane.1]
    exact herror
  rw [read]
  exact bind_eq_error.mpr (.inl hrun)

theorem read_line (hlists : lists.length = parts.length)
    (hplain : ∀ tags ∈ lists, ∀ tag ∈ tags, tag.IsPlain) {line : Line}
    (hline : line ∈ (block.withTails (lists.map Tag.tailOf)).body)
    (htakes : takesTags Schema.sketch line = true) :
    Line.read line.number (lineText line.fields) = some (.ok line) := by
  have hreadable := ActionKind.schema_isReadable .sketch
  have hlength : (lists.map Tag.tailOf).length = parts.length := by
    rw [List.length_map, hlists]
  have htails : ∀ tail ∈ lists.map Tag.tailOf, Tag.IsTail tail :=
    List.forall_mem_map.mpr fun tags htags =>
      (Tag.spelled_tailOf (hplain tags htags) : Tag.Spelled scope _ _).isTail
  obtain ⟨part, hpart, rfl⟩ :=
    exists_section_of_takesTags (h.of_withTails hlength htails) hline htakes
  rcases List.mem_cons.mp hpart with rfl | hpart
  · have hfound := (h.of.sections part List.mem_cons_self).found
    rw [takesTags, hfound, Option.any_some, h.noTags] at htakes
    contradiction
  · obtain ⟨own, hown, _, htail, rfl⟩ := Section.exists_of_mem_zipWith hpart
    obtain ⟨tags, htags, rfl⟩ := List.mem_map.mp htail
    exact ((h.untagged own hown).isSourceLine hreadable (hplain tags htags)).read _

end IsUntaggedSketch

/-- Tags behind the segments of a sketch that has none, with names in quotes where they need
them, are read as these tags and change nothing else; nor does the file of the sketch change. Any
tails that start with tag words are read as the tags that they spell. If one of them spells none,
the sketch is refused at its line, by its schema or for a name in it that has no value. -/
theorem read_withTails (hread : read Schema.sketch scope block = .ok records)
    (huntagged : ∀ record ∈ records, record.tags = []) :
    ∃ plane segments, records = plane :: segments ∧
      (∀ lists : List (List Tag), lists.length = segments.length →
        (∀ tags ∈ lists, ∀ tag ∈ tags, tag.IsPlain) →
          (∀ line ∈ (block.withTails (lists.map Tag.tailOf)).body,
            takesTags Schema.sketch line = true →
              Line.read line.number (lineText line.fields) = some (.ok line)) ∧
          read Schema.sketch scope (block.withTails (lists.map Tag.tailOf)) =
            .ok (plane :: List.zipWith Record.withTags segments lists)) ∧
      (∀ lists : List (List Tag), lists.length = segments.length → ∀ action : Action,
        ({ action with records := plane :: List.zipWith Record.withTags segments lists } :
          Action).file = ({ action with records } : Action).file) ∧
      ∀ tails : List (List Field), tails.length = segments.length →
        (∀ tail ∈ tails, Tag.IsTail tail) →
          (∀ lists, List.Forall₂ (Tag.Spelled scope) tails lists →
            read Schema.sketch scope (block.withTails tails) =
              .ok (plane :: List.zipWith Record.withTags segments lists)) ∧
          ((¬∃ lists, List.Forall₂ (Tag.Spelled scope) tails lists) →
            ∃ segment tail issue, (segment, tail) ∈ segments.zip tails ∧
              Tag.IsTailIssue scope tail issue ∧
                read Schema.sketch scope (block.withTails tails) =
                  .error ⟨segment.line, issue⟩) := by
  obtain ⟨plane, parts, first, rest, rfl, h⟩ := exists_isUntaggedSketch hread huntagged
  have hcount := h.segments.length_eq.symm
  refine ⟨first, rest, rfl, fun lists hlength hplain => ⟨?_, ?_⟩, fun lists hlength action => ?_,
    fun tails hlength htails => ⟨fun lists hspelled => h.read_eq_ok (hlength.trans hcount) hspelled,
      h.exists_read_eq_error (hlength.trans hcount) htails⟩⟩
  · exact fun line => h.read_line (hlength.trans hcount) hplain
  · refine h.read_eq_ok ?_ ?_
    · rw [List.length_map, hlength, hcount]
    · rw [List.forall₂_map_left_iff, List.forall₂_same]
      exact fun tags htags => Tag.spelled_tailOf (hplain tags htags)
  · simp only [Action.file, Action.fileBy, File.records_withTags first hlength]

/-- A sketch with one segment, a line. -/
def lineSketch : Block where
  keyword := .action .sketch
  header := ⟨1, [⟨"sketch", false⟩, ⟨"s", false⟩, ⟨"a", false⟩]⟩
  body :=
    [⟨2, [⟨"offset_plane", false⟩, ⟨"z", false⟩, ⟨"0", false⟩]⟩, ⟨3, [⟨"line", false⟩]⟩,
      ⟨4, [⟨"0", false⟩, ⟨"0", false⟩]⟩, ⟨5, [⟨"1", false⟩, ⟨"1", false⟩]⟩]

/-- A name that is a tag word, and one with a comma. -/
def quotedTags : List Tag :=
  [.coRail "co_rail", .crossRails ["left, top", "r"]]

theorem exists_read_withTails : ∃ plane segment issue,
    read Schema.sketch Scope.none lineSketch = .ok [plane, segment] ∧
      (∀ record ∈ [plane, segment], record.tags = []) ∧
      read Schema.sketch Scope.none (lineSketch.withTails [Tag.tailOf quotedTags]) =
        .ok [plane, segment.withTags quotedTags] ∧
      read Schema.sketch Scope.none (lineSketch.withTails [[⟨"co_rail", false⟩]]) =
        .error ⟨segment.line, issue⟩ := by
  have hsketch : ((read Schema.sketch Scope.none lineSketch).toOption.any fun records =>
      records.map Record.tags == [[], []]) = true := by
    decide +kernel
  obtain ⟨records, hread, htags⟩ := exists_of_toOption_any hsketch
  rw [beq_iff_eq] at htags
  obtain ⟨plane, rest, rfl, hplane, hrest⟩ := List.map_eq_cons_iff.mp htags
  obtain ⟨segment, _, rfl, hsegment, hnil⟩ := List.map_eq_cons_iff.mp hrest
  obtain rfl := List.map_eq_nil_iff.mp hnil
  have huntagged : ∀ record ∈ [plane, segment], record.tags = [] :=
    List.forall_mem_cons.mpr ⟨hplane, List.forall_mem_singleton.mpr hsegment⟩
  have hplain : ∀ tag ∈ quotedTags, tag.IsPlain := by
    have hname : ∀ name ∈ ["co_rail", "left, top", "r"], Tag.IsPlainText name := by
      have hchars : ∀ name ∈ ["co_rail", "left, top", "r"],
          '\n' ∉ name.toList ∧ '$' ∉ name.toList := by
        decide
      exact fun name hname => Tag.isPlainText_of_notMem (hchars name hname).1 (hchars name hname).2
    rw [List.forall_mem_cons] at hname
    exact List.forall_mem_cons.mpr ⟨hname.1, List.forall_mem_singleton.mpr ⟨by decide, hname.2⟩⟩
  have htail : Tag.IsTail [⟨"co_rail", false⟩] := by
    rintro _ ⟨⟩
    rfl
  have hnone : ¬∃ lists, List.Forall₂ (Tag.Spelled Scope.none) [[⟨"co_rail", false⟩]] lists := by
    rintro ⟨_, _ | ⟨hspelled, -⟩⟩
    have hok := (Tag.readAll_eq_ok_iff htail).mpr hspelled
    have hfails : (Tag.readAll Scope.none [⟨"co_rail", false⟩]).isOk = false := by
      decide +kernel
    rw [hok] at hfails
    contradiction
  obtain ⟨_, _, heq, hwritten, -, htails⟩ := read_withTails hread huntagged
  cases heq
  have haccepted := (hwritten [quotedTags] rfl (List.forall_mem_singleton.mpr hplain)).2
  obtain ⟨_, _, issue, hmem, -, hrefused⟩ := (htails [[⟨"co_rail", false⟩]] rfl
    (List.forall_mem_singleton.mpr htail)).2 hnone
  cases List.mem_singleton.mp hmem
  exact ⟨plane, segment, issue, hread, huntagged, haccepted, hrefused⟩

/-- A scope with one parameter. -/
def boltScope : Scope :=
  ParameterTable.scope ⟨[⟨"r", 10, "10", 1⟩]⟩ .constantsOnly

/-- A name that is none of a plain tag may be a tag all the same. -/
theorem exists_reference_read : ∃ records later tail,
    read Schema.sketch boltScope lineSketch = .ok records ∧
      (∀ record ∈ records, record.tags = []) ∧
      (∃ fields, tail = ⟨"co_rail", false⟩ :: fields) ∧
      (∀ tags, (∀ tag ∈ tags, tag.IsPlain) →
        tail.map Field.text ≠ (Tag.tailOf tags).map Field.text) ∧
      read Schema.sketch boltScope (lineSketch.withTails [tail]) = .ok later ∧
      later.map Record.tags = [[], [.coRail "10"]] := by
  have hsketch : ((read Schema.sketch boltScope lineSketch).toOption.any fun records =>
      records.map Record.tags == [[], []]) = true := by
    decide +kernel
  have hreference : ((read Schema.sketch boltScope
      (lineSketch.withTails [[⟨"co_rail", false⟩, ⟨"$r", false⟩]])).toOption.any fun records =>
        records.map Record.tags == [[], [.coRail "10"]]) = true := by
    decide +kernel
  obtain ⟨records, hread, htags⟩ := exists_of_toOption_any hsketch
  obtain ⟨later, hlater, hfound⟩ := exists_of_toOption_any hreference
  rw [beq_iff_eq] at htags hfound
  refine ⟨records, later, _, hread, fun record hrecord => ?_, ⟨_, rfl⟩,
    fun tags hplain htexts => ?_, hlater, hfound⟩
  · have hmem : record.tags ∈ [[], []] := htags ▸ List.mem_map_of_mem hrecord
    simpa using hmem
  · have hmem : "$r" ∈ (Tag.tailOf tags).map Field.text := by
      rw [← htexts]
      exact List.mem_cons_of_mem _ List.mem_cons_self
    obtain ⟨field, hfield, htext⟩ := List.mem_map.mp hmem
    have hplain := (Tag.writable_tailOf hplain field hfield).2.2
    rw [htext] at hplain
    exact hplain.not_isInfix (by decide) (List.infix_refl ['$', 'r'])

end Sketches

end Body

end CadTimeline
