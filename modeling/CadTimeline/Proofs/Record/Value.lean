import CadTimeline.Proofs.Parameter.Table
import CadTimeline.Proofs.Timeline.Row
import CadTimeline.Record.Value

/-!
# Values read back

A value that was read in a scope of finite values and is written out is read as the same
value where there are no parameters.
-/

namespace CadTimeline

open Binary64 Text

/-! ## The texts of numbers -/

theorem isBlank_of_isNumeric {c : Char} (h : IsNumeric c) : isBlank c = false := by
  have hcode : 45 ≤ c.toNat ∧ c.toNat ≤ 122 := by
    rcases h with h | rfl | rfl
    · have hclass : (decide (c.val ≥ 'A'.val ∧ c.val ≤ 'Z'.val) ||
          (decide (c.val ≥ 'a'.val) && decide (c.val ≤ 'z'.val)) ||
          (decide (c.val ≥ '0'.val) && decide (c.val ≤ '9'.val))) = true := h
      have hval : c.val.toNat = c.toNat := rfl
      simp only [Bool.or_eq_true, Bool.and_eq_true, decide_eq_true_eq, ge_iff_le,
        UInt32.le_iff_toNat_le] at hclass
      simp at hclass
      omega
    · decide
    · decide
  simp only [isBlank, Ranges.holds, blankRanges, List.any_cons, List.any_nil, Bool.or_false,
    Bool.or_eq_false_iff, Bool.and_eq_false_iff, decide_eq_false_iff_not]
  omega

theorem isDelimiter_of_isNumeric {c : Char} (h : IsNumeric c) : Field.isDelimiter c = false := by
  refine Bool.eq_false_iff.mpr fun hc => ?_
  simp only [Field.isDelimiter, Bool.or_eq_true, beq_iff_eq] at hc
  rcases hc with (rfl | rfl) | rfl <;> rcases h with h | h | h <;> contradiction

theorem trim_of_isNumeric {cs : List Char} (h : ∀ c ∈ cs, IsNumeric c) : trim cs = cs := by
  apply trim_eq_self_of_ends
  · exact fun c hc => isBlank_of_isNumeric (h c (List.mem_of_mem_head? hc))
  · exact fun c hc => isBlank_of_isNumeric (h c (List.mem_of_getLast? hc))

/-- The text of a number stands bare. -/
theorem needsQuotes_of_isNumeric {cs : List Char} (hne : cs ≠ []) (h : ∀ c ∈ cs, IsNumeric c) :
    needsQuotes cs = false := by
  have hany : cs.any Field.isDelimiter = false := by
    rw [List.any_eq_false]
    intro c hc
    rw [isDelimiter_of_isNumeric (h c hc)]
    exact Bool.false_ne_true
  have hempty : cs.isEmpty = false := by simpa using hne
  have hshape : needsQuotes cs = (cs.isEmpty || cs.any Field.isDelimiter || trim cs != cs) := rfl
  rw [hshape, hany, hempty, trim_of_isNumeric h, bne_self_eq_false]
  rfl

theorem Number.isNumeric_of_mem_integer {n : Int} {c : Char} (h : c ∈ (toString n).toList) :
    IsNumeric c := by
  have hdigits : ∀ {c}, c ∈ Nat.toDigits 10 n.natAbs → IsNumeric c :=
    fun hc => isNumeric_of_isDigit (Decimal.isDigit_of_mem_toDigits _ hc)
  rw [Number.toString_integer, String.toList_ofList] at h
  split at h
  · rcases List.mem_cons.mp h with rfl | h
    · exact .inr (.inr rfl)
    · exact hdigits h
  · exact hdigits h

/-! ## Values -/

namespace Value

/-- Two values are the same; the sign of a zero is not looked at. -/
inductive Agrees : Value → Value → Prop
  | number {x y : Float} (h : x = y ∨ x == 0 ∧ y == 0) : Agrees (.number x) (.number y)
  | integer (n : Int) : Agrees (.integer n) (.integer n)
  | text (s : String) : Agrees (.text s) (.text s)

/-- Values that agree are shown alike. -/
theorem Agrees.display_eq {v w : Value} (h : v.Agrees w) : v.display = w.display := by
  cases h with
  | number h =>
      rcases h with rfl | ⟨hx, hy⟩
      · rfl
      · simp only [display, Number.plain, hx, hy, if_true]
  | integer n => rfl
  | text s => rfl

theorem isNumeric_of_mem_display {v : Value} (hv : v.toText? = none) {c : Char}
    (hc : c ∈ v.display.toList) : IsNumeric c := by
  cases v with
  | number x => exact Number.isNumeric_of_mem_plain hc
  | integer n => exact Number.isNumeric_of_mem_integer hc
  | text s => contradiction

theorem display_ne_empty {v : Value} (hv : v.toText? = none) : v.display.toList ≠ [] := by
  cases v with
  | number x => exact Number.plain_ne_empty x
  | integer n =>
      rw [display, Number.toString_integer, String.toList_ofList]
      split
      · exact List.cons_ne_nil _ _
      · exact Nat.toDigits_ne_nil
  | text s => contradiction

/-- A value is written as its text is: no number needs quotes. -/
theorem written_eq (v : Value) : v.written = quoted v.display := by
  have hbare : v.toText? = none → quoted v.display = v.display := by
    intro hv
    have hquotes := needsQuotes_of_isNumeric (display_ne_empty hv)
      fun c hc => isNumeric_of_mem_display hv hc
    rw [quoted, hquotes]
    rfl
  cases v with
  | number x => exact (hbare rfl).symm
  | integer n => exact (hbare rfl).symm
  | text s => rfl

end Value

/-! ## Fields -/

namespace FieldSpec

/-- What a field can be converted to. -/
inductive Converted (spec : FieldSpec) (scope : Scope) (field : Field) : Value → Prop
  | number {x : Float} (hkind : spec.kind = .number)
      (h : Expr.evalText scope field.text = .ok x) : Converted spec scope field (.number x)
  | integer {x : Float} (hkind : spec.kind = .integer)
      (h : Expr.evalText scope field.text = .ok x) (hwhole : Binary64.isWhole x = true)
      (hrange : isInt64 (Binary64.toInt x) = true) :
      Converted spec scope field (.integer (Binary64.toInt x))
  | text {s : String} (hkind : spec.kind = .text)
      (h : Substitution.substitute scope.value? field.text = .ok s) :
      Converted spec scope field (.text s)
  | choice {words : List String} {s : String} (hkind : spec.kind = .choice words)
      (h : Substitution.substitute scope.value? field.text = .ok s) (hmem : s ∈ words) :
      Converted spec scope field (.text s)

variable {spec : FieldSpec} {scope : Scope} {field : Field} {v : Value}

theorem convert_eq_ok : spec.convert scope field = .ok v ↔ spec.Converted scope field v := by
  constructor
  · intro h
    unfold convert at h
    split at h
    · rename_i hkind
      simp only [Scope.evaluate, bind_eq_ok, mapError_eq_ok, pure_eq_ok] at h
      obtain ⟨x, hx, rfl⟩ := h
      exact .number hkind hx
    · rename_i hkind
      simp only [Scope.evaluate, bind_eq_ok, mapError_eq_ok, check_eq_ok, pure_eq_ok,
        Bool.not_eq_false'] at h
      obtain ⟨x, hx, hwhole, hrange, rfl⟩ := h
      exact .integer hkind hx hwhole hrange
    · rename_i hkind
      simp only [Scope.substitute, bind_eq_ok, mapError_eq_ok, pure_eq_ok] at h
      obtain ⟨s, hs, rfl⟩ := h
      exact .text hkind hs
    · rename_i words hkind
      simp only [Scope.substitute, bind_eq_ok, mapError_eq_ok] at h
      obtain ⟨s, hs, h⟩ := h
      split at h
      · rename_i hmem
        cases h
        exact .choice hkind hs (List.contains_iff_mem.mp hmem)
      · contradiction
  · intro h
    cases h with
    | number hkind h =>
        simp only [convert, hkind, Scope.evaluate, h]
        rfl
    | integer hkind h hwhole hrange =>
        simp only [convert, hkind, Scope.evaluate, h, bind_eq_ok, mapError_eq_ok, check_eq_ok,
          pure_eq_ok, Bool.not_eq_false']
        exact ⟨_, rfl, hwhole, hrange, rfl⟩
    | text hkind h =>
        simp only [convert, hkind, Scope.substitute, h]
        rfl
    | choice hkind h hmem =>
        simp only [convert, hkind, Scope.substitute, h, bind_eq_ok, mapError_eq_ok]
        exact ⟨_, rfl, if_pos (List.contains_iff_mem.mpr hmem)⟩

/-- A value has characters of its field and those of numbers. -/
theorem Converted.mem_of_mem_display (h : spec.Converted scope field v) {c : Char}
    (hc : c ∈ v.display.toList) : c ∈ field.text.toList ∨ IsNumeric c := by
  cases h with
  | number => exact .inr (Number.isNumeric_of_mem_plain hc)
  | integer => exact .inr (Number.isNumeric_of_mem_integer hc)
  | text _ h => exact Substitution.mem_of_mem_substitute h hc
  | choice _ h _ => exact Substitution.mem_of_mem_substitute h hc

/-- Without parameters, a value has no character more often than its field, but for those
of numbers. -/
theorem Converted.count_display_le (h : spec.Converted Scope.none field v) {c : Char} (hc : ¬IsNumeric c) :
    v.display.toList.count c ≤ field.text.toList.count c := by
  have hnumber : v.toText? = none → v.display.toList.count c = 0 := by
    intro hv
    exact List.count_eq_zero_of_not_mem fun hmem => hc (Value.isNumeric_of_mem_display hv hmem)
  cases h with
  | number => exact (hnumber rfl).trans_le (Nat.zero_le _)
  | integer => exact (hnumber rfl).trans_le (Nat.zero_le _)
  | text _ h => rw [Value.display, Substitution.substitute_none_eq_ok h]
  | choice _ h _ => rw [Value.display, Substitution.substitute_none_eq_ok h]

/-- A value that was written is read back. -/
theorem Converted.exists_readBack (hscope : scope.IsFinite) (h : spec.Converted scope field v) :
    ∃ w, spec.Converted Scope.none (Field.ofText v.display) w ∧ v.Agrees w := by
  have htext : ∀ {s : String}, Substitution.substitute scope.value? field.text = .ok s →
      Substitution.substitute Scope.none.value? s = .ok s := fun hs =>
    Substitution.substitute_of_hasNoReference (Substitution.hasNoReference_of_substitute hscope hs) _
  cases h with
  | number hkind h =>
      have hfinite := Expr.isFinite_of_evalText h
      exact ⟨_, .number hkind (Number.evalText_plain hfinite Scope.none),
        .number (Number.eq_unsignedZero_or hfinite)⟩
  | integer hkind h hwhole hrange =>
      rename_i x
      obtain ⟨y, hy, hy', hint⟩ :=
        Number.exists_evalText_toInt (Expr.isFinite_of_evalText h) hwhole Scope.none
      refine ⟨.integer (toInt y), .integer hkind hy hy' (hint ▸ hrange), ?_⟩
      rw [hint]
      exact .integer _
  | text hkind h => exact ⟨_, .text hkind (htext h), .text _⟩
  | choice hkind h hmem => exact ⟨_, .choice hkind (htext h) hmem, .text _⟩

end FieldSpec

/-! ## Fields of a line -/

namespace Fields

open CadTimeline.Field

/-- A field with its index has been converted. -/
def ConvertedAt (fields : Fields) (scope : Scope) (entry : Field × Nat) (v : Value) : Prop :=
  ∃ spec, fields.spec? entry.2 = some spec ∧ spec.Converted scope entry.1 v

variable {fields : Fields} {scope : Scope} {line : List Field} {values : List Value}

theorem convertAt_eq_ok {entry : Field × Nat} {v : Value} :
    fields.convertAt scope entry.1 entry.2 = .ok v ↔ fields.ConvertedAt scope entry v := by
  unfold convertAt ConvertedAt
  cases fields.spec? entry.2 with
  | none => simp
  | some spec => simp [FieldSpec.convert_eq_ok]

theorem convert_eq_ok : fields.convert scope line = .ok values ↔
    List.Forall₂ (fields.ConvertedAt scope) line.zipIdx values := by
  rw [convert, mapM_eq_ok]
  simp only [convertAt_eq_ok]

theorem length_of_convert (h : fields.convert scope line = .ok values) :
    values.length = line.length := by
  rw [← (convert_eq_ok.mp h).length_eq, List.length_zipIdx]

theorem mem_of_mem_convert (h : fields.convert scope line = .ok values) {v : Value}
    (hv : v ∈ values) {c : Char} (hc : c ∈ v.display.toList) :
    (∃ f ∈ line, c ∈ f.text.toList) ∨ IsNumeric c := by
  obtain ⟨entry, hentry, hat⟩ := exists_of_mem_mapM h hv
  obtain ⟨spec, -, hconverted⟩ := convertAt_eq_ok.mp hat
  have hfield : entry.1 ∈ line := by
    have hmap := List.mem_map_of_mem (f := Prod.fst) hentry
    rwa [List.zipIdx_map_fst] at hmap
  exact (hconverted.mem_of_mem_display hc).imp_left fun h => ⟨entry.1, hfield, h⟩

theorem newline_notMem_of_convert (h : fields.convert scope line = .ok values)
    (hsingle : ∀ f ∈ line, '\n' ∉ f.text.toList) : ∀ v ∈ values, '\n' ∉ v.display.toList := by
  intro v hv hmem
  rcases mem_of_mem_convert h hv hmem with ⟨f, hf, hmem⟩ | hnumeric
  · exact hsingle f hf hmem
  · rcases hnumeric with h | h | h <;> contradiction

theorem marks_convert_le (h : fields.convert Scope.none line = .ok values) :
    marks (values.map Value.display) ≤ marks (line.map Field.text) := by
  have hmark : ¬IsNumeric '\uFEFF' := by
    rintro (h | h | h) <;> contradiction
  have hfrom : ∀ n, List.Forall₂ (fields.ConvertedAt Scope.none) (line.zipIdx n) values →
      marks (values.map Value.display) ≤ marks (line.map Field.text) := by
    clear h
    intro n hvalues
    induction line generalizing n values with
    | nil =>
        cases hvalues
        exact Nat.le_refl _
    | cons f line ih =>
        rw [List.zipIdx_cons, List.forall₂_cons_left_iff] at hvalues
        obtain ⟨v, rest, ⟨spec, -, hv⟩, hrest, rfl⟩ := hvalues
        rw [List.map_cons, List.map_cons, marks_cons, marks_cons]
        exact Nat.add_le_add (hv.count_display_le hmark) (ih _ hrest)
  exact hfrom 0 (convert_eq_ok.mp h)

/-- The values of a line that were written are read back. -/
theorem exists_readBack (hscope : scope.IsFinite) (h : fields.convert scope line = .ok values) :
    ∃ later, fields.convert Scope.none ((values.map Value.display).map ofText) = .ok later ∧
      List.Forall₂ Value.Agrees values later := by
  have hfrom : ∀ n, List.Forall₂ (fields.ConvertedAt scope) (line.zipIdx n) values →
      ∃ later, List.Forall₂ (fields.ConvertedAt Scope.none)
          (((values.map Value.display).map ofText).zipIdx n) later ∧
        List.Forall₂ Value.Agrees values later := by
    clear h
    intro n hvalues
    induction line generalizing n values with
    | nil =>
        cases hvalues
        exact ⟨[], .nil, .nil⟩
    | cons f line ih =>
        rw [List.zipIdx_cons, List.forall₂_cons_left_iff] at hvalues
        obtain ⟨v, rest, ⟨spec, hspec, hv⟩, hrest, rfl⟩ := hvalues
        obtain ⟨w, hw, hagree⟩ := hv.exists_readBack hscope
        obtain ⟨later, hlater, hagrees⟩ := ih _ hrest
        exact ⟨w :: later, .cons ⟨spec, hspec, hw⟩ hlater, .cons hagree hagrees⟩
  obtain ⟨later, hlater, hagrees⟩ := hfrom 0 (convert_eq_ok.mp h)
  exact ⟨later, convert_eq_ok.mpr hlater, hagrees⟩

end Fields

end CadTimeline
