import CadTimeline.Proofs.Expr.Plain

/-!
# Plain decimals and finite numbers

A number is written as a plain decimal exactly when it is finite. The other numbers are written
as words.
-/

namespace CadTimeline

/-- Digits, at least one. -/
def IsDigits (cs : List Char) : Prop :=
  cs ≠ [] ∧ ∀ c ∈ cs, c.isDigit = true

/-- Digits, perhaps with a point between them. -/
inductive IsUnsignedDecimal : List Char → Prop
  | whole {digits : List Char} (h : IsDigits digits) : IsUnsignedDecimal digits
  | point {digits fraction : List Char} (h : IsDigits digits) (hfraction : IsDigits fraction) :
      IsUnsignedDecimal (digits ++ '.' :: fraction)

/-- A decimal number without an exponent. There is no minus before a zero. -/
inductive IsPlainDecimal : List Char → Prop
  | unsigned {cs : List Char} (h : IsUnsignedDecimal cs) : IsPlainDecimal cs
  | minus {cs : List Char} (h : IsUnsignedDecimal cs)
      (hne : ∃ c ∈ cs, c.isDigit = true ∧ c ≠ '0') : IsPlainDecimal ('-' :: cs)

theorem IsUnsignedDecimal.mem {cs : List Char} (h : IsUnsignedDecimal cs) {c : Char}
    (hc : c ∈ cs) : c.isDigit = true ∨ c = '.' := by
  cases h with
  | whole h => exact .inl (h.2 c hc)
  | point h hfraction =>
      rcases List.mem_append.mp hc with hc | hc
      · exact .inl (h.2 c hc)
      · rcases List.mem_cons.mp hc with rfl | hc
        · exact .inr rfl
        · exact .inl (hfraction.2 c hc)

theorem IsPlainDecimal.mem {cs : List Char} (h : IsPlainDecimal cs) {c : Char} (hc : c ∈ cs) :
    c.isDigit = true ∨ c = '.' ∨ c = '-' := by
  cases h with
  | unsigned h => exact (h.mem hc).imp_right .inl
  | minus h _ =>
      rcases List.mem_cons.mp hc with rfl | hc
      · exact .inr (.inr rfl)
      · exact (h.mem hc).imp_right .inl

/-! ## Finite numbers -/

namespace Decimal

theorem isDigits_toDigits (n : Nat) : IsDigits (Nat.toDigits 10 n) :=
  ⟨Nat.toDigits_ne_nil, isDigit_of_mem_toDigits⟩

theorem isUnsignedDecimal_withPoint {digits : List Char} (h : IsDigits digits) (places : Nat) :
    IsUnsignedDecimal (withPoint digits places) := by
  obtain ⟨hne, hdigits⟩ := h
  unfold withPoint
  dsimp only
  by_cases hplaces : places = 0
  · rw [if_pos hplaces]
    exact .whole ⟨hne, hdigits⟩
  · rw [if_neg hplaces]
    by_cases hwhole : digits.length - places = 0
    · rw [if_pos hwhole, List.cons_append, List.cons_append]
      have hzero : IsDigits ['0'] := ⟨by simp, by simp⟩
      exact .point hzero ⟨List.append_ne_nil_of_right_ne_nil _ hne,
        List.forall_mem_append.mpr ⟨isDigit_of_mem_zeros, hdigits⟩⟩
    · rw [if_neg hwhole]
      refine .point ⟨?_, fun c hc => hdigits c (List.mem_of_mem_take hc)⟩
        ⟨?_, fun c hc => hdigits c (List.mem_of_mem_drop hc)⟩
      · rw [← List.length_pos_iff, List.length_take]
        omega
      · rw [← List.length_pos_iff, List.length_drop]
        omega

theorem isUnsignedDecimal_plain (d : Decimal) : IsUnsignedDecimal d.plain := by
  obtain ⟨hne, hdigits⟩ := isDigits_toDigits d.digits
  exact isUnsignedDecimal_withPoint ⟨List.append_ne_nil_of_left_ne_nil hne _,
    List.forall_mem_append.mpr ⟨hdigits, isDigit_of_mem_zeros⟩⟩ _

theorem mem_withPoint_of_mem {digits : List Char} {c : Char} (h : c ∈ digits) (places : Nat) :
    c ∈ withPoint digits places := by
  unfold withPoint
  dsimp only
  split
  · exact h
  · split
    · exact List.mem_append_right _ h
    · rw [← List.take_append_drop (digits.length - places) digits, List.mem_append] at h
      exact List.mem_append.mpr (h.imp_right (List.mem_cons_of_mem _))

/-- A number that is not zero has a digit that is not. -/
theorem exists_nonzero_digit {n : Nat} (h : n ≠ 0) :
    ∃ c ∈ Nat.toDigits 10 n, c.isDigit = true ∧ c ≠ '0' := by
  by_contra hnone
  have hzeros : ∀ c ∈ Nat.toDigits 10 n, c = '0' := by
    intro c hc
    by_contra hne
    exact hnone ⟨c, hc, isDigit_of_mem_toDigits c hc, hne⟩
  have hvalue := Nat.ofDigitChars_ten_toDigits (n := n)
  rw [List.eq_replicate_of_mem hzeros, Nat.ofDigitChars_replicate_zero, Nat.mul_zero] at hvalue
  exact h hvalue.symm

theorem exists_nonzero_digit_plain {d : Decimal} (h : d.digits ≠ 0) :
    ∃ c ∈ d.plain, c.isDigit = true ∧ c ≠ '0' := by
  obtain ⟨c, hc, hdigit⟩ := exists_nonzero_digit h
  exact ⟨c, mem_withPoint_of_mem (List.mem_append_left _ hc) _, hdigit⟩

end Decimal

namespace Number

open Binary64

theorem isUnsignedDecimal_magnitudeText (r : Nat) : IsUnsignedDecimal (magnitudeText r) := by
  unfold magnitudeText
  split
  · exact .whole ⟨by simp, by simp⟩
  · exact Decimal.isUnsignedDecimal_plain _

theorem exists_nonzero_digit_magnitudeText {r : Nat} (hne : r ≠ 0) (hr : r < infinityRank) :
    ∃ c ∈ magnitudeText r, c.isDigit = true ∧ c ≠ '0' := by
  rw [magnitudeText, if_neg hne]
  apply Decimal.exists_nonzero_digit_plain
  intro hzero
  have hrank := Decimal.rank_shortest .up (Nat.pos_of_ne_zero hne) hr
  rw [Decimal.rank, if_pos hzero] at hrank
  exact hne hrank.symm

theorem isPlainDecimal_plain {x : Float} (h : x.isFinite = true) :
    IsPlainDecimal (plain x).toList := by
  have htext := isUnsignedDecimal_magnitudeText (rank x)
  rw [plain_of_finite h, String.toList_ofList]
  split
  · rename_i hsign
    rw [Bool.and_eq_true, bne_iff_ne] at hsign
    exact .minus htext (exists_nonzero_digit_magnitudeText hsign.2 (isFinite_iff.mp h))
  · exact .unsigned htext

theorem isPlainDecimal_integer (n : Int) : IsPlainDecimal (toString n).toList := by
  rw [toString_integer, String.toList_ofList]
  have htext : IsUnsignedDecimal (Nat.toDigits 10 n.natAbs) :=
    .whole (Decimal.isDigits_toDigits _)
  split
  · rename_i hneg
    rw [decide_eq_true_eq] at hneg
    exact .minus htext (Decimal.exists_nonzero_digit (by omega))
  · exact .unsigned htext

/-! ## Other numbers -/

theorem status_of_not_finite {x : Float} (h : x.isFinite = false) :
    (x == 0) = false ∧ (x.isNaN = true ∨ x.isNaN = false ∧ x.isInf = true) := by
  have hnan : x.isNaN = x.toModel.unpack.isNaN := rfl
  have hinf : x.isInf = x.toModel.unpack.isInf := rfl
  have hbeq : (x == 0) = x.toModel.unpack.beq (0 : Float).toModel.unpack := rfl
  have hzero : (0 : Float).toModel.unpack = .zero .positive := rfl
  have hfinite : x.toModel.unpack.isFinite = false := h
  rw [hnan, hinf, hbeq, hzero]
  cases hx : x.toModel.unpack with
  | notANumber => exact ⟨rfl, .inl rfl⟩
  | infinity sign => exact ⟨by cases sign <;> rfl, .inr ⟨rfl, rfl⟩⟩
  | zero sign =>
      rw [hx] at hfinite
      contradiction
  | finite sign m e hm =>
      rw [hx] at hfinite
      contradiction

/-- How a number is written that is not finite. -/
theorem plain_of_not_finite {x : Float} (h : x.isFinite = false) :
    plain x = "NaN" ∨ plain x = "inf" ∨ plain x = "-inf" := by
  obtain ⟨hzero, hstatus⟩ := status_of_not_finite h
  unfold plain display
  rw [hzero, if_neg Bool.false_ne_true]
  rcases hstatus with hnan | ⟨hnan, hinf⟩
  · rw [if_pos hnan]
    exact .inl rfl
  · rw [hnan, if_neg Bool.false_ne_true, hinf]
    dsimp only
    rw [if_pos rfl]
    cases isNegative x with
    | true => exact .inr (.inr rfl)
    | false => exact .inr (.inl rfl)

/-- A number is written as a plain decimal exactly when it is finite. -/
theorem isPlainDecimal_plain_iff {x : Float} :
    IsPlainDecimal (plain x).toList ↔ x.isFinite = true := by
  refine ⟨fun h => ?_, isPlainDecimal_plain⟩
  by_contra hfinite
  have hletter : 'N' ∈ (plain x).toList ∨ 'n' ∈ (plain x).toList := by
    rcases plain_of_not_finite (Bool.not_eq_true _ ▸ hfinite) with hword | hword | hword
    · exact .inl (hword ▸ by decide)
    · exact .inr (hword ▸ by decide)
    · exact .inr (hword ▸ by decide)
  rcases hletter with hmem | hmem
  · exact absurd (h.mem hmem) (by decide)
  · exact absurd (h.mem hmem) (by decide)

end Number

end CadTimeline
