import CadTimeline.Proofs.Parameter.Table

/-!
# The unit of an action

The unit of an action is the one that the last `units` block before it names. The name is
written out: a reference there stands for a number, and no unit has a digit.
-/

namespace CadTimeline

open Substitution Text

/-! ## Texts without digits -/

theorem Numeral.exists_digit {n : Numeral} {cs : List Char} (h : n.Spelled cs) :
    ∃ c ∈ cs, c.isDigit = true := by
  have hfirst : ∀ {digits : List Char}, digits ≠ [] → (∀ c ∈ digits, c.isDigit = true) →
      ∃ c ∈ digits, c.isDigit = true := by
    intro digits hne hdigits
    obtain ⟨c, rest, rfl⟩ := List.exists_cons_of_ne_nil hne
    exact ⟨c, List.mem_cons_self, hdigits c List.mem_cons_self⟩
  cases h with
  | mk hwhole hfraction _ hne =>
      rcases hne with hne | hne
      · obtain ⟨c, hc, hdigit⟩ := hfirst hne hwhole
        exact ⟨c, List.mem_append_left _ hc, hdigit⟩
      · cases hfraction with
        | absent => exact absurd rfl hne
        | point hdigits =>
            obtain ⟨c, hc, hdigit⟩ := hfirst hne hdigits
            refine ⟨c, List.mem_append_right _ ?_, hdigit⟩
            exact List.mem_append_left _ (List.mem_cons_of_mem '.' hc)

namespace Number

/-- There is a digit in every finite number. -/
theorem exists_digit_plain {x : Float} (h : x.isFinite = true) :
    ∃ c ∈ (plain x).toList, c.isDigit = true := by
  obtain ⟨n, hspelled, -⟩ := exists_numeral_magnitudeText (Binary64.isFinite_iff.mp h)
  obtain ⟨c, hc, hdigit⟩ := Numeral.exists_digit hspelled
  refine ⟨c, ?_, hdigit⟩
  rw [plain_of_finite h, String.toList_ofList]
  split
  · exact List.mem_cons_of_mem _ hc
  · exact hc

end Number

namespace Substitution

theorem hasNoReference_of_notMem {cs : List Char} (h : ∀ name, .reference name ∉ pieces cs) :
    HasNoReference cs := by
  induction cs using pieces.induct with
  | case1 => rw [HasNoReference, pieces, List.map_nil]
  | case2 c cs hc ih =>
      rw [pieces, if_pos hc] at h
      exact absurd List.mem_cons_self (h _)
  | case3 c cs hc ih =>
      rw [pieces, if_neg hc] at h
      rw [HasNoReference, pieces, if_neg hc, List.map_cons,
        ih fun name hname => h name (List.mem_cons_of_mem _ hname)]

/-- Where no digit is left, nothing has been replaced. -/
theorem eq_of_substitute {scope : Scope} (hscope : scope.IsFinite) {text result : String}
    (h : substitute scope.value? text = .ok result)
    (hdigit : ∀ c ∈ result.toList, c.isDigit = false) : result = text := by
  have hnone : ∀ name, .reference name ∉ pieces text.toList := by
    intro name hname
    simp only [substitute, bind_eq_ok, pure_eq_ok] at h
    obtain ⟨parts, hparts, rfl⟩ := h
    obtain ⟨part, hpart, hfill⟩ := exists_of_mem_forall₂ (mapM_eq_ok.mp hparts) hname
    obtain ⟨x, hx, rfl⟩ := map_eq_ok.mp hfill
    obtain ⟨c, hc, hcdigit⟩ :=
      Number.exists_digit_plain (hscope name x (Expr.resolve_eq_ok.mp hx))
    rw [String.toList_ofList] at hdigit
    rw [hdigit c (List.mem_flatten.mpr ⟨_, hpart, hc⟩)] at hcdigit
    contradiction
  have hself := substitute_of_hasNoReference (hasNoReference_of_notMem hnone) scope.value?
  exact Except.ok.inj (h.symm.trans hself)

end Substitution

/-! ## Units of blocks -/

/-- The unit that a `units` block names. -/
def Block.unit? (block : Block) : Option LengthUnit :=
  if block.keyword = .units then (block.header.text? 1).bind LengthUnit.ofWord? else none

/-- The unit that holds behind blocks. -/
def LengthUnit.after (unit : LengthUnit) (blocks : List Block) : LengthUnit :=
  (blocks.filterMap Block.unit?).getLast?.getD unit

theorem LengthUnit.after_cons (unit : LengthUnit) (block : Block) (blocks : List Block) :
    unit.after (block :: blocks) = (block.unit?.getD unit).after blocks := by
  unfold after
  cases hunit : block.unit? with
  | none => rw [List.filterMap_cons_none hunit, Option.getD_none]
  | some other =>
      rw [List.filterMap_cons_some hunit, List.getLast?_cons, Option.getD_some, Option.getD_some]

theorem LengthUnit.isDigit_of_mem_word (unit : LengthUnit) :
    ∀ c ∈ unit.word.toList, c.isDigit = false := by
  have hall : unit.word.toList.all (fun c => !c.isDigit) = true := by
    cases unit <;> decide
  intro c hc
  simpa using List.all_eq_true.mp hall c hc

namespace Reading

variable {reading later : Reading} {block : Block}

theorem text_of_readUnit {scope : Scope} (hscope : scope.IsFinite) {header : Line}
    {unit : LengthUnit} (h : readUnit scope header = .ok unit) :
    (header.text? 1).bind LengthUnit.ofWord? = some unit := by
  unfold readUnit at h
  split at h
  · rename_i keyword field hfields
    obtain ⟨word, hword, h⟩ := bind_eq_ok.mp h
    split at h
    · rename_i other hother
      cases h
      have heq : word = unit.word := by
        have hfind := List.find?_some hother
        exact (beq_iff_eq.mp hfind).symm
      have htext : word = field.text :=
        eq_of_substitute hscope (mapError_eq_ok.mp hword) (heq ▸ unit.isDigit_of_mem_word)
      rw [htext] at hother
      rw [Line.text?, hfields]
      exact hother
    · contradiction
  · contradiction

theorem Step.unit_eq (h : Step reading block later) (hfinite : reading.parameters.IsFinite) :
    later.unit = block.unit?.getD reading.unit := by
  have hnone : block.keyword ≠ .units → reading.unit = block.unit?.getD reading.unit := by
    intro hword
    rw [Block.unit?, if_neg hword, Option.getD_none]
  cases h with
  | parameters hword => exact hnone (by simp [hword])
  | units hword _ hunit =>
      rw [Block.unit?, if_pos hword, text_of_readUnit (hfinite.scope _) hunit, Option.getD_some]
  | echo hword => exact hnone (by simp [hword])
  | crossRails hword => exact hnone (by simp [hword])
  | action hword => exact hnone (by simp [hword])

theorem Step.isSome_unit? (h : Step reading block later) (hfinite : reading.parameters.IsFinite)
    (hword : block.keyword = .units) : block.unit?.isSome = true := by
  obtain ⟨unit, hunit, -⟩ := h.of_units hword
  rw [Block.unit?, if_pos hword, text_of_readUnit (hfinite.scope _) hunit, Option.isSome_some]

theorem Reads.unit_eq {file : String} {blocks : List Block} (h : Reads file reading blocks later)
    (hfinite : reading.parameters.IsFinite) : later.unit = reading.unit.after blocks := by
  induction h using Reads.head_induction with
  | nil => rfl
  | cons hstep _ ih =>
      have hone := step_eq_ok hstep
      rw [ih (hone.isFinite hfinite), hone.unit_eq hfinite, LengthUnit.after_cons]

end Reading

end CadTimeline
