import CadTimeline.Proofs.Except
import CadTimeline.Record.Body
import CadTimeline.Schema.Catalogue

/-!
# Surplus fields

How wide a line may be is checked before its fields are read, so each field has its place in
the layout of the line.
-/

namespace CadTimeline

theorem Bounds.lt_of_accepts {bounds : Bounds} {count : Nat} (h : bounds.accepts count = true)
    {least : Nat} (hless : least < count) : ∀ most ∈ bounds.most, least < most := by
  intro most hmost
  simp only [Bounds.accepts, Bool.and_eq_true] at h
  have hcount := h.2
  rw [Option.mem_def.mp hmost, Option.all_some, decide_eq_true_eq] at hcount
  omega

/-- A line of required fields only has just as many. -/
theorem Fields.accepts_fixed_iff {required : List FieldSpec} {count : Nat} :
    (Fields.fixed required).accepts count = true ↔ count = required.length := by
  have hbounds : (Fields.fixed required).bounds = ⟨required.length, some required.length⟩ := rfl
  simp only [accepts, hbounds, Bounds.accepts, Option.all_some, Bool.and_eq_true, decide_eq_true_eq]
  omega

variable {position : Nat} {text : String}

theorem Fields.exists_spec?_of_accepts {fields : Fields} {count : Nat}
    (h : fields.accepts count = true) {index : Nat} (hindex : index < count) :
    ∃ spec, fields.spec? index = some spec := by
  rw [← Option.isSome_iff_exists, spec?, Option.isSome_or]
  cases hrepeated : fields.repeated with
  | some entry => simp
  | none =>
      have hmost : fields.bounds.most = some (fields.required.length + fields.optional.length) := by
        simp [bounds, hrepeated]
      have hlt := Bounds.lt_of_accepts h hindex _ hmost
      simpa using hlt

theorem FieldSpec.convert_ne_surplusField {spec : FieldSpec} {scope : Scope} {field : Field} :
    spec.convert scope field ≠ .error (.surplusField position text) := by
  have hevaluate : scope.evaluate field.text ≠ .error (.surplusField position text) :=
    mapError_ne_error fun _ _ => nofun
  have hsubstitute : scope.substitute field.text ≠ .error (.surplusField position text) :=
    mapError_ne_error fun _ _ => nofun
  unfold convert
  split
  · exact bind_ne_error hevaluate nofun
  · refine bind_ne_error hevaluate fun value => ?_
    exact check_ne_error nofun fun _ => check_ne_error nofun fun _ => nofun
  · exact bind_ne_error hsubstitute nofun
  · refine bind_ne_error hsubstitute fun word => ?_
    split
    · exact nofun
    · exact nofun

/-- Every field of a line of accepted width has its place in the layout. -/
theorem Fields.convert_ne_surplusField {fields : Fields} {scope : Scope} {line : List Field}
    (h : fields.accepts line.length = true) :
    fields.convert scope line ≠ .error (.surplusField position text) := by
  refine mapM_ne_error fun entry hentry => ?_
  obtain ⟨spec, hspec⟩ := exists_spec?_of_accepts h (List.snd_lt_of_mem_zipIdx hentry)
  simp only [convertAt, hspec]
  exact FieldSpec.convert_ne_surplusField

theorem Tag.read_ne_surplusField {scope : Scope} {word : TagWord} {fields : List Field} :
    read scope word fields ≠ .error (.surplusField position text) := by
  refine bind_ne_error (mapM_ne_error fun _ _ => mapError_ne_error fun _ _ => nofun) fun names => ?_
  split
  · exact nofun
  · exact nofun

theorem Record.ofLine_ne_surplusField {kind : LineKind} {scope : Scope} {line : Line} :
    ofLine kind scope line ≠ .error (.surplusField position text) := by
  unfold ofLine
  refine bind_ne_error (mapM_ne_error fun _ _ => Tag.read_ne_surplusField) fun tags => ?_
  refine check_ne_error nofun fun hwidth => ?_
  rw [Bool.not_eq_false'] at hwidth
  exact bind_ne_error (Fields.convert_ne_surplusField hwidth) nofun

namespace Body

variable {schema : Schema} {scope : Scope} {number : Nat}

theorem readRow_ne_surplusField {record : Record} {rows : Rows} {line : Line} :
    readRow scope record rows line ≠ .error (.surplusField position text) := by
  unfold readRow
  refine check_ne_error nofun fun _ => check_ne_error nofun fun hwidth => ?_
  rw [Bool.not_eq_false'] at hwidth
  exact Fields.convert_ne_surplusField hwidth

theorem mapError_ne_surplusField {α : Type} {x : Except Issue α}
    (h : x ≠ .error (.surplusField position text)) (line : Nat) :
    x.mapError (LineIssue.mk line) ≠ .error ⟨number, .surplusField position text⟩ := by
  refine mapError_ne_error fun issue hissue heq => h ?_
  rw [hissue, (LineIssue.mk.inj heq).2]

theorem checkLast_ne_surplusField {progress : Progress} :
    progress.checkLast ≠ .error ⟨number, .surplusField position text⟩ := by
  unfold Progress.checkLast
  split
  · exact nofun
  · unfold Owner.check
    split
    · exact nofun
    · split
      · exact nofun
      · exact nofun

theorem checkSlot_ne_surplusField {filled : List Nat} {found : Schema.Recognised} :
    checkSlot schema filled found ≠ .error (.surplusField position text) := by
  unfold checkSlot
  split
  · exact nofun
  · split
    · split
      · exact nofun
      · exact nofun
    · exact nofun

theorem checkSlots_ne_surplusField {filled : List Nat} :
    checkSlots schema filled ≠ .error (.surplusField position text) := by
  unfold checkSlots
  split
  · exact nofun
  · exact nofun

theorem step_ne_surplusField {progress : Progress} {line : Line} :
    step schema scope progress line ≠ .error ⟨number, .surplusField position text⟩ := by
  unfold step
  split
  · refine bind_ne_error checkLast_ne_surplusField fun _ => ?_
    refine bind_ne_error (mapError_ne_surplusField checkSlot_ne_surplusField _) fun _ => ?_
    exact bind_ne_error (mapError_ne_surplusField Record.ofLine_ne_surplusField _) nofun
  · split
    · exact bind_ne_error (mapError_ne_surplusField readRow_ne_surplusField _) nofun
    · exact nofun

theorem read_ne_surplusField {block : Block} :
    read schema scope block ≠ .error ⟨number, .surplusField position text⟩ := by
  refine bind_ne_error (foldlM_ne_error fun _ _ => step_ne_surplusField) fun progress => ?_
  refine bind_ne_error checkLast_ne_surplusField fun _ => ?_
  exact bind_ne_error (mapError_ne_surplusField checkSlots_ne_surplusField _) nofun

end Body

end CadTimeline
