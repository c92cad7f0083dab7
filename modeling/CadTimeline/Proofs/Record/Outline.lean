import CadTimeline.Proofs.Schema.Keys
import CadTimeline.Record.Body

/-!
# The outline of a body

A body is cut in front of each line that a kind of its schema accepts, and such a line is
cut into its key, its own fields and its rail tags. Every body has exactly one outline.
-/

namespace CadTimeline

/-! ## Rail tags -/

theorem TagWord.ofField?_eq_some {field : Field} {word : TagWord} :
    ofField? field = some word ↔ field = ⟨word.word, false⟩ := by
  obtain ⟨text, quoted⟩ := field
  constructor
  · intro h
    unfold ofField? at h
    split at h
    · contradiction
    · rename_i hquoted
      rw [Bool.not_eq_true] at hquoted
      simp only at hquoted
      subst hquoted
      split at h
      · rename_i htext
        cases h
        exact congrArg (Field.mk · false) (beq_iff_eq.mp htext)
      · split at h
        · rename_i htext
          cases h
          exact congrArg (Field.mk · false) (beq_iff_eq.mp htext)
        · contradiction
  · intro h
    rw [h]
    cases word <;> decide

namespace Tag

/-- The fields of tags: every tag word with its names. -/
def spread (groups : List (TagWord × List Field)) : List Field :=
  groups.flatMap fun group => ⟨group.1.word, false⟩ :: group.2

theorem groups_append {own : List Field} (h : ∀ field ∈ own, TagWord.ofField? field = none)
    (rest : List Field) : groups (own ++ rest) = (own ++ (groups rest).1, (groups rest).2) := by
  induction own with
  | nil => rfl
  | cons field own ih =>
      rw [List.forall_mem_cons] at h
      rw [List.cons_append, groups, ih h.2, h.1]
      rfl

theorem groups_spread {tagged : List (TagWord × List Field)}
    (h : ∀ group ∈ tagged, ∀ field ∈ group.2, TagWord.ofField? field = none) :
    groups (spread tagged) = ([], tagged) := by
  induction tagged with
  | nil => rfl
  | cons group tagged ih =>
      rw [List.forall_mem_cons] at h
      have hspread : spread (group :: tagged) =
          ⟨group.1.word, false⟩ :: (group.2 ++ spread tagged) := rfl
      rw [hspread, groups, groups_append h.1, ih h.2, TagWord.ofField?_eq_some.mpr rfl,
        List.append_nil]

/-- The groups of fields are the only way to see them as fields without a tag word, and
then tag words with such fields each. -/
theorem groups_eq_iff {fields own : List Field} {tagged : List (TagWord × List Field)} :
    groups fields = (own, tagged) ↔ fields = own ++ spread tagged ∧
      (∀ field ∈ own, TagWord.ofField? field = none) ∧
      ∀ group ∈ tagged, ∀ field ∈ group.2, TagWord.ofField? field = none := by
  constructor
  · intro h
    induction fields generalizing own tagged with
    | nil =>
        cases h
        exact ⟨rfl, List.forall_mem_nil _, List.forall_mem_nil _⟩
    | cons field fields ih =>
        obtain ⟨hfields, hown, htagged⟩ := ih rfl
        rw [groups] at h
        cases hword : TagWord.ofField? field with
        | none =>
            rw [hword] at h
            cases h
            exact ⟨congrArg (field :: ·) hfields, List.forall_mem_cons.mpr ⟨hword, hown⟩, htagged⟩
        | some word =>
            rw [hword] at h
            cases h
            refine ⟨?_, List.forall_mem_nil _, List.forall_mem_cons.mpr ⟨hown, htagged⟩⟩
            rw [TagWord.ofField?_eq_some.mp hword]
            exact congrArg (_ :: ·) hfields
  · rintro ⟨rfl, hown, htagged⟩
    rw [groups_append hown, groups_spread htagged, List.append_nil]

end Tag

namespace Body

/-- A key line of a body with the lines after it that are none. -/
structure Section where
  found : Schema.Recognised
  line : Line
  /-- The fields between the key and the tags. -/
  own : List Field
  tagged : List (TagWord × List Field)
  rows : List Line

structure Outline where
  /-- The lines before the first key line. -/
  leading : List Line
  sections : List Section

/-- The lines of the body that has this outline. -/
def Outline.lines (outline : Outline) : List Line :=
  outline.leading ++ outline.sections.flatMap fun part => part.line :: part.rows

variable {schema : Schema}

/-- A key line is its key, its own fields and, where its kind takes them, the tags. -/
structure Section.Of (schema : Schema) (part : Section) : Prop where
  found : schema.recognise? part.line = some part.found
  fields : part.line.fields = (part.found.kind.key.map fun word => ⟨word, false⟩) ++
    (part.own ++ Tag.spread part.tagged)
  untagged : part.found.kind.railTags = false → part.tagged = []
  own : part.found.kind.railTags = true → ∀ field ∈ part.own, TagWord.ofField? field = none
  names : ∀ group ∈ part.tagged, ∀ field ∈ group.2, TagWord.ofField? field = none
  rows : ∀ line ∈ part.rows, schema.recognise? line = none

/-- The body is cut in front of its key lines. -/
structure Outline.Of (schema : Schema) (body : List Line) (outline : Outline) : Prop where
  lines : outline.lines = body
  leading : ∀ line ∈ outline.leading, schema.recognise? line = none
  sections : ∀ part ∈ outline.sections, part.Of schema

/-! ## The outline of a body -/

def sectionOf (found : Schema.Recognised) (line : Line) (rows : List Line) : Section :=
  let fields := line.fields.drop found.kind.key.length
  let cut := if found.kind.railTags then Tag.groups fields else (fields, [])
  ⟨found, line, cut.1, cut.2, rows⟩

def outlineOf (schema : Schema) : List Line → Outline
  | [] => ⟨[], []⟩
  | line :: lines =>
    let rest := outlineOf schema lines
    match schema.recognise? line with
    | none => ⟨line :: rest.leading, rest.sections⟩
    | some found => ⟨[], sectionOf found line rest.leading :: rest.sections⟩

theorem key_append_drop {line : Line} {found : Schema.Recognised}
    (h : schema.recognise? line = some found) :
    (found.kind.key.map fun word => Field.mk word false) ++
      line.fields.drop found.kind.key.length = line.fields := by
  have haccepts := Schema.accepts_of_recognise? h
  rw [LineKind.accepts, List.isPrefixOf_iff_prefix] at haccepts
  have hdrop := List.prefix_iff_eq_append.mp haccepts
  rw [List.length_map] at hdrop
  exact hdrop

theorem sectionOf_of {line : Line} {found : Schema.Recognised}
    (h : schema.recognise? line = some found) {rows : List Line}
    (hrows : ∀ row ∈ rows, schema.recognise? row = none) :
    (sectionOf found line rows).Of schema := by
  have hkey := key_append_drop h
  unfold sectionOf
  cases htags : found.kind.railTags with
  | false =>
      refine ⟨h, ?_, fun _ => rfl, fun htrue => ?_, List.forall_mem_nil _, hrows⟩
      · simp only [Bool.false_eq_true, if_false, Tag.spread, List.flatMap_nil, List.append_nil]
        exact hkey.symm
      · rw [htags] at htrue
        contradiction
  | true =>
      obtain ⟨hfields, hown, hnames⟩ := Tag.groups_eq_iff.mp
        (rfl : Tag.groups (line.fields.drop found.kind.key.length) = (_, _))
      refine ⟨h, ?_, fun hfalse => ?_, fun _ => hown, hnames, hrows⟩
      · simp only [if_true]
        rw [← hfields]
        exact hkey.symm
      · rw [htags] at hfalse
        contradiction

theorem Section.Of.eq {part : Section} (h : part.Of schema) :
    part = sectionOf part.found part.line part.rows := by
  have hdrop : part.line.fields.drop part.found.kind.key.length =
      part.own ++ Tag.spread part.tagged := by
    rw [h.fields, List.drop_left' (List.length_map _)]
  obtain ⟨found, line, own, tagged, rows⟩ := part
  unfold sectionOf
  simp only at hdrop ⊢
  rw [hdrop]
  cases htags : found.kind.railTags with
  | false =>
      have hnil : tagged = [] := h.untagged htags
      subst hnil
      simp [Tag.spread]
  | true =>
      rw [if_pos rfl, Tag.groups_eq_iff.mpr ⟨rfl, h.own htags, h.names⟩]

/-- The fields behind the key are cut into the own fields and the tags. -/
theorem Section.Of.cut_eq {part : Section} (h : part.Of schema) :
    (if part.found.kind.railTags then
      Tag.groups (part.line.fields.drop part.found.kind.key.length)
      else (part.line.fields.drop part.found.kind.key.length, [])) = (part.own, part.tagged) :=
  (congrArg (fun other => (other.own, other.tagged)) h.eq).symm

theorem outlineOf_of (schema : Schema) (body : List Line) :
    (outlineOf schema body).Of schema body := by
  induction body with
  | nil => exact ⟨rfl, List.forall_mem_nil _, List.forall_mem_nil _⟩
  | cons line lines ih =>
      obtain ⟨hlines, hleading, hsections⟩ := ih
      rw [outlineOf]
      cases hline : schema.recognise? line with
      | none =>
          refine ⟨?_, List.forall_mem_cons.mpr ⟨hline, hleading⟩, hsections⟩
          exact congrArg (line :: ·) hlines
      | some found =>
          refine ⟨?_, List.forall_mem_nil _,
            List.forall_mem_cons.mpr ⟨sectionOf_of hline hleading, hsections⟩⟩
          exact congrArg (line :: ·) hlines

/-- There is no other outline. -/
theorem Outline.Of.eq {body : List Line} {outline : Outline} (h : outline.Of schema body) :
    outline = outlineOf schema body := by
  induction body generalizing outline with
  | nil =>
      obtain ⟨leading, sections⟩ := outline
      obtain ⟨hleading, hsections⟩ := List.append_eq_nil_iff.mp h.lines
      cases sections with
      | nil => exact congrArg (Outline.mk · []) hleading
      | cons part sections => contradiction
  | cons line lines ih =>
      obtain ⟨leading, sections⟩ := outline
      obtain ⟨hlines, hleading, hsections⟩ := h
      rw [outlineOf]
      cases leading with
      | cons first leading =>
          obtain ⟨hfirst, hrest⟩ := List.cons.inj hlines
          simp only at hleading hfirst
          rw [List.forall_mem_cons, hfirst] at hleading
          have hlater : Outline.Of schema lines ⟨leading, sections⟩ :=
            ⟨hrest, hleading.2, hsections⟩
          rw [hleading.1, ← ih hlater, hfirst]
      | nil =>
          cases sections with
          | nil => contradiction
          | cons part sections =>
              obtain ⟨hfirst, hrest⟩ := List.cons.inj hlines
              simp only at hsections hfirst
              rw [List.forall_mem_cons] at hsections
              obtain ⟨hpart, hsections⟩ := hsections
              have hfound := hpart.found
              rw [hfirst] at hfound
              have hlater : Outline.Of schema lines ⟨part.rows, sections⟩ :=
                ⟨hrest, hpart.rows, hsections⟩
              rw [hfound, ← ih hlater]
              simp only
              rw [← hfirst, ← hpart.eq]

theorem outline_of_iff {body : List Line} {outline : Outline} :
    outline.Of schema body ↔ outline = outlineOf schema body := by
  constructor
  · exact Outline.Of.eq
  · rintro rfl
    exact outlineOf_of schema body

end Body

end CadTimeline
