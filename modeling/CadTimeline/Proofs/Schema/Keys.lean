import CadTimeline.Proofs.Timeline.Row
import CadTimeline.Schema.Catalogue
import Mathlib.Data.List.Find

/-!
# Keys of a schema

A line belongs to the kind whose key words it starts with. In every schema no key starts
another, so the key decides; but a data row that happens to start with the words of a key
begins a line of its kind.
-/

namespace CadTimeline

open CadTimeline.Field Text

namespace Schema

/-- All kinds of line, in the order in which they are tried. -/
def kinds (schema : Schema) : List LineKind :=
  schema.slots.flatMap Slot.kinds

/-- Whether texts written bare start with the key words of a line. -/
def opens (schema : Schema) (texts : List String) : Bool :=
  schema.kinds.any fun kind => kind.key.isPrefixOf texts

/-- Key words can be written bare, and no key starts another one. -/
structure IsReadable (schema : Schema) : Prop where
  bare : ∀ kind ∈ schema.kinds, ∀ word ∈ kind.key, needsQuotes word.toList = false
  line : ∀ kind ∈ schema.kinds, ∀ word ∈ kind.key, '\n' ∉ word.toList
  unmarked : ∀ kind ∈ schema.kinds, ∀ word ∈ kind.key, '\uFEFF' ∉ word.toList
  key : ∀ kind ∈ schema.kinds, kind.key ≠ []
  apart : ∀ kind ∈ schema.kinds, ∀ other ∈ schema.kinds, kind.key <+: other.key →
    kind.key = other.key
  tags : ∀ kind ∈ schema.kinds, kind.railTags = true → kind.fields = Fields.none

/-! ## Recognised lines -/

variable {schema : Schema} {line other : Line} {found : Recognised}

theorem slot_of_recognise? (h : schema.recognise? line = some found) :
    (found.slot, found.index) ∈ schema.slots.zipIdx ∧
      found.slot.kinds.find? (·.accepts line) = some found.kind := by
  obtain ⟨⟨slot, index⟩, hmem, hfind⟩ := List.exists_of_findSome?_eq_some h
  obtain ⟨kind, hkind, rfl⟩ := Option.map_eq_some_iff.mp hfind
  exact ⟨hmem, hkind⟩

theorem kind_mem_of_recognise? (h : schema.recognise? line = some found) :
    found.kind ∈ schema.kinds := by
  obtain ⟨hslot, hkind⟩ := slot_of_recognise? h
  refine List.mem_flatMap.mpr ⟨found.slot, ?_, List.mem_of_find?_eq_some hkind⟩
  exact List.fst_mem_of_mem_zipIdx hslot

theorem accepts_of_recognise? (h : schema.recognise? line = some found) :
    found.kind.accepts line = true := by
  have hfind := (slot_of_recognise? h).2
  rw [List.find?_eq_some_iff_append] at hfind
  exact hfind.1

theorem isSome_recognise?_iff :
    (schema.recognise? line).isSome = true ↔ ∃ kind ∈ schema.kinds, kind.accepts line = true := by
  simp only [recognise?, List.findSome?_isSome_iff, Option.isSome_map, List.find?_isSome]
  constructor
  · rintro ⟨⟨slot, index⟩, hslot, kind, hkind, haccepts⟩
    exact ⟨kind, List.mem_flatMap.mpr ⟨slot, List.fst_mem_of_mem_zipIdx hslot, hkind⟩, haccepts⟩
  · rintro ⟨kind, hmem, haccepts⟩
    obtain ⟨slot, hslot, hkind⟩ := List.mem_flatMap.mp hmem
    rw [← List.zipIdx_map_fst 0 schema.slots] at hslot
    obtain ⟨entry, hentry, rfl⟩ := List.mem_map.mp hslot
    exact ⟨entry, hentry, kind, hkind, haccepts⟩

/-- What is recognised depends on the kinds that accept the line alone. -/
theorem recognise?_congr
    (h : ∀ kind ∈ schema.kinds, kind.accepts line = kind.accepts other) :
    schema.recognise? line = schema.recognise? other := by
  have hcongr : ∀ {f g : Slot × Nat → Option Recognised} (entries : List (Slot × Nat)),
      (∀ entry ∈ entries, f entry = g entry) → entries.findSome? f = entries.findSome? g := by
    intro f g entries hentries
    induction entries with
    | nil => rfl
    | cons entry entries ih =>
        rw [List.forall_mem_cons] at hentries
        rw [List.findSome?_cons, List.findSome?_cons, hentries.1, ih hentries.2]
  apply hcongr
  rintro ⟨slot, index⟩ hentry
  have hkinds : ∀ kind ∈ slot.kinds, kind.accepts line = kind.accepts other := by
    intro kind hkind
    exact h kind (List.mem_flatMap.mpr ⟨slot, List.fst_mem_of_mem_zipIdx hentry, hkind⟩)
  dsimp only
  rw [List.find?_congr hkinds]

/-! ## Written lines -/

theorem opens_append {kind : LineKind} (hkind : kind ∈ schema.kinds) (rest : List String) :
    schema.opens (kind.key ++ rest) = true := by
  refine List.any_eq_true.mpr ⟨kind, hkind, ?_⟩
  exact List.isPrefixOf_iff_prefix.mpr (List.prefix_append _ _)

theorem ofText_injective : Function.Injective ofText :=
  fun _ _ h => congrArg Field.text h

namespace IsReadable

theorem map_key (h : schema.IsReadable) {kind : LineKind} (hkind : kind ∈ schema.kinds) :
    (kind.key.map fun word => Field.mk word false) = kind.key.map ofText := by
  refine List.map_congr_left fun word hword => ?_
  rw [ofText, h.bare kind hkind word hword]

theorem accepts_iff (h : schema.IsReadable) {kind : LineKind} (hkind : kind ∈ schema.kinds)
    {texts : List String} (hline : line.fields = texts.map ofText) :
    kind.accepts line = true ↔ kind.key <+: texts := by
  rw [LineKind.accepts, h.map_key hkind, hline, List.isPrefixOf_iff_prefix,
    List.prefix_map_iff_of_injective ofText_injective]

/-- A written line is recognised by its texts. -/
theorem isSome_recognise? (h : schema.IsReadable) {texts : List String}
    (hline : line.fields = texts.map ofText) :
    (schema.recognise? line).isSome = schema.opens texts := by
  rw [Bool.eq_iff_iff, isSome_recognise?_iff, opens, List.any_eq_true]
  refine exists_congr fun kind => and_congr_right fun hkind => ?_
  rw [h.accepts_iff hkind hline, List.isPrefixOf_iff_prefix]

/-- The kinds that accept a line have one key. -/
theorem accepts_iff_key (h : schema.IsReadable) {kind other : LineKind}
    (hkind : kind ∈ schema.kinds) (hother : other ∈ schema.kinds)
    (haccepts : other.accepts line = true) :
    kind.accepts line = true ↔ kind.key = other.key := by
  constructor
  · intro hline
    rw [LineKind.accepts, h.map_key hkind, List.isPrefixOf_iff_prefix] at hline
    rw [LineKind.accepts, h.map_key hother, List.isPrefixOf_iff_prefix] at haccepts
    rcases List.prefix_or_prefix_of_prefix hline haccepts with hle | hle
    · rw [List.prefix_map_iff_of_injective ofText_injective] at hle
      exact h.apart kind hkind other hother hle
    · rw [List.prefix_map_iff_of_injective ofText_injective] at hle
      exact (h.apart other hother kind hkind hle).symm
  · intro hkey
    rw [LineKind.accepts, hkey]
    exact haccepts

/-- A line with a key is recognised as the line was that the key came from. -/
theorem recognise?_of_key (h : schema.IsReadable) (hfound : schema.recognise? line = some found)
    {rest : List Field}
    (hother : other.fields = (found.kind.key.map fun word => ⟨word, false⟩) ++ rest) :
    schema.recognise? other = some found := by
  have hmem := kind_mem_of_recognise? hfound
  have haccepts : found.kind.accepts other = true := by
    rw [LineKind.accepts, hother, List.isPrefixOf_iff_prefix]
    exact List.prefix_append _ _
  rw [← hfound]
  apply recognise?_congr
  intro kind hkind
  rw [Bool.eq_iff_iff, h.accepts_iff_key hkind hmem haccepts,
    h.accepts_iff_key hkind hmem (accepts_of_recognise? hfound)]

/-- No key starts with a byte order mark. -/
theorem opens_of_isMarkedRow (h : schema.IsReadable) {row : List String}
    (hmark : IsMarkedRow row) : schema.opens row = false := by
  cases row with
  | nil => exact absurd hmark id
  | cons text texts =>
      rw [opens, List.any_eq_false]
      intro kind hkind hstarts
      obtain ⟨word, words, hkey⟩ := List.exists_cons_of_ne_nil (h.key kind hkind)
      rw [hkey, List.isPrefixOf_iff_prefix, List.cons_prefix_cons] at hstarts
      have hword := h.unmarked kind hkind word (hkey ▸ List.mem_cons_self)
      rw [hstarts.1] at hword
      exact hword (List.mem_of_mem_head? hmark.1)

theorem not_isMarkedRow (h : schema.IsReadable) {kind : LineKind} (hkind : kind ∈ schema.kinds)
    (rest : List String) : ¬IsMarkedRow (kind.key ++ rest) := by
  intro hmark
  have hopens := opens_append hkind rest
  rw [h.opens_of_isMarkedRow hmark] at hopens
  contradiction

end IsReadable

end Schema

theorem ActionKind.schema_isReadable (kind : ActionKind) : kind.schema.IsReadable := by
  cases kind <;>
    exact ⟨by decide +kernel, by decide +kernel, by decide +kernel, by decide +kernel,
      by decide +kernel, by decide +kernel⟩

end CadTimeline
