import CadTimeline.Proofs.Parameter.Scan
import CadTimeline.Proofs.Record.Source

/-!
# Tails of tags

The tags of a line have no delimiters of their own: its tail is cut in front of each bare tag
word. A tail is read as tags exactly when it spells them. Otherwise a tag word has a wrong number
of names, or a name refers to a parameter that there is not.
-/

namespace CadTimeline

open CadTimeline.Field Text

namespace Tag

/-! ## The grammar of a tail -/

/-- The fields spell the tags one behind the other: each tag word with the names of its rails, in
quotes where they would be tag words, and perhaps with references. -/
inductive Spelled (scope : Scope) : List Field → List Tag → Prop
  | nil : Spelled scope [] []
  | coRail {field : Field} {name : String} {rest : List Field} {tags : List Tag}
      (hword : TagWord.ofField? field = none) (hname : scope.Names field name)
      (h : Spelled scope rest tags) :
      Spelled scope (⟨"co_rail", false⟩ :: field :: rest) (.coRail name :: tags)
  | crossRails {fields : List Field} {names : List String} {rest : List Field} {tags : List Tag}
      (hne : fields ≠ []) (hwords : ∀ field ∈ fields, TagWord.ofField? field = none)
      (hnames : List.Forall₂ scope.Names fields names) (h : Spelled scope rest tags) :
      Spelled scope (⟨"cross_rails", false⟩ :: (fields ++ rest)) (.crossRails names :: tags)

/-- There is no field, or the first one is a bare tag word. -/
def IsTail (tail : List Field) : Prop :=
  ∀ field ∈ tail.head?, (TagWord.ofField? field).isSome = true

variable {scope : Scope} {tail : List Field} {tags : List Tag} {issue : Issue}

theorem Spelled.isTail (h : Spelled scope tail tags) : IsTail tail := by
  cases h with
  | nil => exact nofun
  | coRail =>
      rintro _ ⟨⟩
      rfl
  | crossRails =>
      rintro _ ⟨⟩
      rfl

theorem spread_cons (group : TagWord × List Field) (groups : List (TagWord × List Field)) :
    spread (group :: groups) = ⟨group.1.word, false⟩ :: (group.2 ++ spread groups) :=
  rfl

theorem spelled_iff_groups : Spelled scope tail tags ↔
    ∃ tagged, groups tail = ([], tagged) ∧ List.Forall₂ (Becomes scope) tagged tags := by
  simp only [groups_eq_iff, List.nil_append]
  constructor
  · intro h
    induction h with
    | nil => exact ⟨[], ⟨rfl, List.forall_mem_nil _, List.forall_mem_nil _⟩, .nil⟩
    | @coRail field name rest tags hword hname _ ih =>
        obtain ⟨tagged, ⟨rfl, hnil, hwords⟩, hbecome⟩ := ih
        exact ⟨(.coRail, [field]) :: tagged,
          ⟨rfl, hnil, List.forall_mem_cons.mpr ⟨List.forall_mem_singleton.mpr hword, hwords⟩⟩,
          .cons (.coRail hname) hbecome⟩
    | @crossRails fields names rest tags hne hfields hnames _ ih =>
        obtain ⟨tagged, ⟨rfl, hnil, hwords⟩, hbecome⟩ := ih
        exact ⟨(.crossRails, fields) :: tagged,
          ⟨rfl, hnil, List.forall_mem_cons.mpr ⟨hfields, hwords⟩⟩,
          .cons (.crossRails hne hnames) hbecome⟩
  · rintro ⟨tagged, ⟨rfl, -, hwords⟩, hbecome⟩
    induction hbecome with
    | nil => exact .nil
    | @cons group tag tagged tags htag _ ih =>
        rw [List.forall_mem_cons] at hwords
        have hrest := ih hwords.2
        rw [spread_cons]
        cases htag with
        | coRail hname => exact .coRail (hwords.1 _ List.mem_cons_self) hname hrest
        | crossRails hne hnames => exact .crossRails hne hwords.1 hnames hrest

/-! ## Reading a tail -/

/-- The tags of a tail. -/
def readAll (scope : Scope) (tail : List Field) : Except Issue (List Tag) :=
  (groups tail).2.mapM fun (word, names) => read scope word names

theorem groups_of_isTail (h : IsTail tail) : groups tail = ([], (groups tail).2) := by
  cases tail with
  | nil => rfl
  | cons field fields =>
      obtain ⟨word, hword⟩ := Option.isSome_iff_exists.mp (h field rfl)
      rw [groups, hword]

theorem readAll_eq_ok_iff_becomes :
    readAll scope tail = .ok tags ↔ List.Forall₂ (Becomes scope) (groups tail).2 tags := by
  simp only [readAll, mapM_eq_ok, read_eq_ok]

/-- A tail is read as the tags that it spells. -/
theorem readAll_eq_ok_iff (h : IsTail tail) :
    readAll scope tail = .ok tags ↔ Spelled scope tail tags := by
  rw [readAll_eq_ok_iff_becomes, spelled_iff_groups, groups_of_isTail h]
  simp only [Prod.mk.injEq, true_and, exists_eq_left']

/-! ## Tails that are refused -/

/-- The issue is one of the schema, or that a field refers to a parameter that there is not. -/
def IsTailIssue (scope : Scope) (tail : List Field) (issue : Issue) : Prop :=
  issue.kind = "SchemaValidationError" ∨
    ∃ field ∈ tail, ∃ name, .reference name ∈ Substitution.pieces field.text.toList ∧
      scope.value? name = none ∧ issue = .evaluation field.text (.undefined name)

theorem isTailIssue_of_read {word : TagWord} {fields : List Field}
    (h : read scope word fields = .error issue) : IsTailIssue scope fields issue := by
  rw [read, bind_eq_error] at h
  rcases h with h | ⟨names, -, h⟩
  · obtain ⟨field, hfield, hissue⟩ := exists_of_mapM_eq_error h
    obtain ⟨fault, hfault, rfl⟩ := mapError_eq_error.mp hissue
    obtain ⟨name, hname, hvalue, rfl⟩ := Substitution.exists_of_substitute_eq_error hfault
    exact .inr ⟨field, hfield, name, hname, hvalue, rfl⟩
  · split at h
    · contradiction
    · cases h
      exact .inl rfl

theorem isTailIssue_of_readAll (h : readAll scope tail = .error issue) :
    IsTailIssue scope tail issue := by
  obtain ⟨⟨word, fields⟩, hgroup, hread⟩ := exists_of_mapM_eq_error h
  have hsubset : fields ⊆ tail := by
    intro field hfield
    obtain ⟨htail, -, -⟩ := groups_eq_iff.mp (rfl : groups tail = (_, _))
    rw [htail]
    exact List.mem_append_right _ (mem_spread.mpr ⟨_, hgroup, .inr hfield⟩)
  rcases isTailIssue_of_read hread with hkind | ⟨field, hfield, hrest⟩
  · exact .inl hkind
  · exact .inr ⟨field, hsubset hfield, hrest⟩

/-! ## Writing a tail -/

/-- The text stands for itself in a line: it holds no line feed and no reference. -/
def IsPlainText (text : String) : Prop :=
  '\n' ∉ text.toList ∧ Substitution.HasNoReference text.toList

theorem isPlainText_of_notMem {text : String} (hline : '\n' ∉ text.toList)
    (hdollar : '$' ∉ text.toList) : IsPlainText text := by
  have hnone := Substitution.hasNoReference_append hdollar Substitution.hasNoReference_nil
  rw [List.append_nil] at hnone
  exact ⟨hline, hnone⟩

/-- A tag with names that stand for themselves, at least one. -/
def IsPlain : Tag → Prop
  | coRail name => IsPlainText name
  | crossRails names => names ≠ [] ∧ ∀ name ∈ names, IsPlainText name

/-- The field of the name of a rail, in quotes where it needs them or would be a tag word. -/
def nameField (name : String) : Field :=
  ⟨name, needsQuotes name.toList || (TagWord.ofField? ⟨name, false⟩).isSome⟩

def fields : Tag → List Field
  | coRail name => [⟨"co_rail", false⟩, nameField name]
  | crossRails names => ⟨"cross_rails", false⟩ :: names.map nameField

/-- The tail that is written for these tags. -/
def tailOf (tags : List Tag) : List Field :=
  tags.flatMap fields

theorem ofField?_nameField (name : String) : TagWord.ofField? (nameField name) = none := by
  by_contra hword
  obtain ⟨word, hword⟩ := Option.ne_none_iff_exists'.mp hword
  have hfield := TagWord.ofField?_eq_some.mp hword
  have hname : name = word.word := congrArg Field.text hfield
  have hquoted : (needsQuotes name.toList || (TagWord.ofField? ⟨name, false⟩).isSome) = false :=
    congrArg Field.quoted hfield
  rw [hname, TagWord.ofField?_eq_some.mpr rfl, Option.isSome_some, Bool.or_true] at hquoted
  contradiction

theorem names_nameField {name : String} (h : IsPlainText name) :
    scope.Names (nameField name) name :=
  Substitution.substitute_of_hasNoReference h.2 scope.value?

theorem spelled_tailOf (h : ∀ tag ∈ tags, tag.IsPlain) : Spelled scope (tailOf tags) tags := by
  induction tags with
  | nil => exact .nil
  | cons tag tags ih =>
      rw [List.forall_mem_cons] at h
      have hrest := ih h.2
      cases tag with
      | coRail name => exact .coRail (ofField?_nameField name) (names_nameField h.1) hrest
      | crossRails names =>
          obtain ⟨⟨hne, hnames⟩, -⟩ := h
          refine .crossRails (mt List.map_eq_nil_iff.mp hne) ?_ ?_ hrest
          · exact List.forall_mem_map.mpr fun name _ => ofField?_nameField name
          · rw [List.forall₂_map_left_iff, List.forall₂_same]
            exact fun name hname => names_nameField (hnames name hname)

/-- Each field of a written tail can be written as it is. -/
theorem writable_tailOf (h : ∀ tag ∈ tags, tag.IsPlain) :
    ∀ field ∈ tailOf tags, field.IsWritable ∧ IsPlainText field.text := by
  have hwords : ∀ word : TagWord, IsWritable ⟨word.word, false⟩ ∧ IsPlainText word.word := by
    intro word
    cases word <;> exact ⟨fun _ => by decide, isPlainText_of_notMem (by decide) (by decide)⟩
  have hname : ∀ {name}, IsPlainText name →
      (nameField name).IsWritable ∧ IsPlainText (nameField name).text :=
    fun hname => ⟨fun hbare => (Bool.or_eq_false_iff.mp hbare).1, hname⟩
  rw [tailOf, List.forall_mem_flatMap]
  intro tag htag
  cases tag with
  | coRail name =>
      exact List.forall_mem_cons.mpr
        ⟨hwords .coRail, List.forall_mem_singleton.mpr (hname (h _ htag))⟩
  | crossRails names =>
      refine List.forall_mem_cons.mpr ⟨hwords .crossRails, List.forall_mem_map.mpr ?_⟩
      exact fun name hmem => hname ((h _ htag).2 name hmem)

end Tag

end CadTimeline
