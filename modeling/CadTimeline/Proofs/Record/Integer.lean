import CadTimeline.Proofs.Binary64.Order
import CadTimeline.Proofs.Record.Value

/-!
# Integer fields

An integer field takes the doubles that are integers of 64 bits, each as the integer that it is,
and refuses the others.
-/

namespace CadTimeline

open Binary64

theorem isInt64_iff {n : Int} : isInt64 n = true ↔ -2 ^ 63 ≤ n ∧ n < 2 ^ 63 := by
  unfold isInt64
  rw [Bool.and_eq_true, decide_eq_true_iff, decide_eq_true_iff]
  rfl

/-- An integer of 64 bits is between their limits as a double. -/
theorem isInt64_toInt_iff {x : Float} (hx : x.isFinite = true) (hwhole : isWhole x = true) :
    isInt64 (toInt x) = true ↔ -2 ^ 63 ≤ toRat x ∧ toRat x < 2 ^ 63 := by
  rw [isInt64_iff, toRat_toInt hx hwhole]
  norm_cast

namespace FieldSpec

/-- What an integer field with this text makes of a double. The limits are the doubles nearest to
those of 64 bits, and the conversion to 64 bits would clamp. -/
def ofDouble (spec : FieldSpec) (text : String) (x : Float) : Except Issue Value :=
  if !isWhole x then .error (.notWhole spec.name x)
  else if x < ofInt Int64.minValue.toInt ∨ ofInt Int64.maxValue.toInt ≤ x then
    .error (.integerRange spec.name text)
  else .ok (.integer x.toModel.toInt64.toInt)

variable {spec : FieldSpec} {scope : Scope} {field : Field} {x : Float}

section

variable (hkind : spec.kind = .integer) (hx : Expr.evalText scope field.text = .ok x)

include hkind hx

theorem convert_integer : spec.convert scope field =
    if !isWhole x then .error (.notWhole spec.name x)
    else if !isInt64 (toInt x) then .error (.integerRange spec.name field.text)
    else .ok (.integer (toInt x)) := by
  have hvalue : scope.evaluate field.text = pure x := by
    rw [Scope.evaluate, hx]
    rfl
  simp only [convert, hkind, hvalue, pure_bind]
  cases isWhole x <;> cases isInt64 (toInt x) <;> rfl

/-- Rounded limits refuse the same doubles as exact ones, and nothing is clamped. -/
theorem convert_eq_ofDouble : spec.convert scope field = spec.ofDouble field.text x := by
  have hfinite := Expr.isFinite_of_evalText hx
  rw [convert_integer hkind hx, ofDouble]
  cases hwhole : isWhole x with
  | false => rfl
  | true =>
      have hlimits : (x < ofInt Int64.minValue.toInt ∨ ofInt Int64.maxValue.toInt ≤ x) ↔
          (!isInt64 (toInt x)) = true := by
        rw [Bool.not_eq_true', ← Bool.not_eq_true, isInt64_toInt_iff hfinite hwhole,
          lt_least_iff hfinite, greatest_le_iff hfinite, not_and_or, not_le, not_lt]
      simp only [hlimits]
      cases hrange : isInt64 (toInt x) with
      | false => rfl
      | true =>
          obtain ⟨hleast, hgreatest⟩ := isInt64_iff.mp hrange
          rw [toInt_toInt64 hfinite hleast hgreatest]

/-- A field has an integer exactly when its double is that integer and is in the range. -/
theorem convert_eq_integer_iff {n : Int} : spec.convert scope field = .ok (.integer n) ↔
    toRat x = n ∧ -2 ^ 63 ≤ toRat x ∧ toRat x < 2 ^ 63 := by
  have hfinite := Expr.isFinite_of_evalText hx
  constructor
  · intro h
    rcases convert_eq_ok.mp h with _ | ⟨-, hy, hwhole, hrange⟩
    cases hx.symm.trans hy
    exact ⟨toRat_toInt hfinite hwhole, (isInt64_toInt_iff hfinite hwhole).mp hrange⟩
  · rintro ⟨hn, hrange⟩
    have hwhole := (isWhole_iff hfinite).mpr ⟨n, hn⟩
    have hint : (toInt x : ℚ) = n := (toRat_toInt hfinite hwhole).symm.trans hn
    rw [convert_eq_ok, ← Int.cast_inj.mp hint]
    exact .integer hkind hx hwhole ((isInt64_toInt_iff hfinite hwhole).mpr hrange)

theorem exists_convert_eq_error
    (h : ¬((∃ n : Int, toRat x = n) ∧ -2 ^ 63 ≤ toRat x ∧ toRat x < 2 ^ 63)) :
    ∃ issue, spec.convert scope field = .error issue ∧ issue.kind = "SchemaValidationError" := by
  have hfinite := Expr.isFinite_of_evalText hx
  rw [convert_integer hkind hx]
  cases hwhole : isWhole x with
  | false => exact ⟨_, rfl, rfl⟩
  | true =>
      cases hrange : isInt64 (toInt x) with
      | false => exact ⟨_, rfl, rfl⟩
      | true =>
          have hexact := (isWhole_iff hfinite).mp hwhole
          exact absurd ⟨hexact, (isInt64_toInt_iff hfinite hwhole).mp hrange⟩ h

end

/-- The text of an integer that was converted is converted to it again. -/
theorem convert_written {n : Int} (h : spec.convert scope field = .ok (.integer n)) (later : Scope)
    {again : Field} (htext : again.text = (Value.integer n).written) :
    spec.convert later again = .ok (.integer n) := by
  rcases convert_eq_ok.mp h with _ | ⟨hkind, hx, hwhole, hrange⟩
  obtain ⟨y, hy, hwhole', hint⟩ :=
    Number.exists_evalText_toInt (Expr.isFinite_of_evalText hx) hwhole later
  rw [convert_eq_ok, ← hint]
  exact .integer hkind (htext ▸ hy) hwhole' (hint ▸ hrange)

/-- An integer field is exact or refused: rounded limits decide as exact ones do and nothing is
clamped, a double has an integer exactly when it is that integer and is in the range, all others
are refused by the schema, and what is written is read as the same integer. -/
theorem convert_integer_exact (hkind : spec.kind = .integer)
    (hx : Expr.evalText scope field.text = .ok x) :
    spec.convert scope field = spec.ofDouble field.text x ∧
    (∀ n : Int, spec.convert scope field = .ok (.integer n) ↔
      toRat x = n ∧ -2 ^ 63 ≤ toRat x ∧ toRat x < 2 ^ 63) ∧
    (¬((∃ n : Int, toRat x = n) ∧ -2 ^ 63 ≤ toRat x ∧ toRat x < 2 ^ 63) →
      ∃ issue, spec.convert scope field = .error issue ∧ issue.kind = "SchemaValidationError") ∧
    ∀ n : Int, spec.convert scope field = .ok (.integer n) →
      ∀ (later : Scope) (again : Field), again.text = (Value.integer n).written →
        spec.convert later again = .ok (.integer n) :=
  ⟨convert_eq_ofDouble hkind hx, fun _ => convert_eq_integer_iff hkind hx,
    exists_convert_eq_error hkind hx, fun _ h later _ htext => convert_written h later htext⟩

/-- The least integer of 64 bits is taken. The greatest one is refused, since its text stands for
`2 ^ 63`. -/
theorem exists_convert_integer_exact :
    FieldSpec.convert ⟨"count", .integer⟩ Scope.none ⟨"-9223372036854775808", false⟩ =
      .ok (.integer (-2 ^ 63)) ∧
    ∃ issue,
      FieldSpec.convert ⟨"count", .integer⟩ Scope.none ⟨"9223372036854775807", false⟩ =
        .error issue ∧ issue.kind = "SchemaValidationError" := by
  have hleast : Expr.evalText Scope.none "-9223372036854775808" =
      .ok (ofInt Int64.minValue.toInt) :=
    Number.evalText_integer (n := Int64.minValue.toInt) (by decide +kernel) Scope.none
  have hgreatest : Expr.evalText Scope.none "9223372036854775807" =
      .ok (ofInt Int64.maxValue.toInt) :=
    Number.evalText_integer (n := Int64.maxValue.toInt) (by decide +kernel) Scope.none
  constructor
  · obtain ⟨-, htaken, -, -⟩ :=
      @convert_integer_exact ⟨"count", .integer⟩ Scope.none ⟨"-9223372036854775808", false⟩ _ rfl
        hleast
    rw [toRat_least] at htaken
    exact (htaken (-2 ^ 63)).mpr ⟨by norm_cast, le_rfl, neg_lt_self (pow_pos two_pos 63)⟩
  · obtain ⟨-, -, hrefused, -⟩ :=
      @convert_integer_exact ⟨"count", .integer⟩ Scope.none ⟨"9223372036854775807", false⟩ _ rfl
        hgreatest
    rw [toRat_greatest] at hrefused
    exact hrefused fun h => lt_irrefl _ h.2.2

end FieldSpec

end CadTimeline
