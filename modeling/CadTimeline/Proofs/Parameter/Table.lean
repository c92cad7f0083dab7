import CadTimeline.Proofs.Parameter.Substitution
import CadTimeline.Proofs.Reading

/-!
# Values of parameters

Every parameter of a table has a finite value, whatever blocks have been read.
-/

namespace CadTimeline

theorem Expr.isFinite_of_evalText {scope : Scope} {text : String} {x : Float}
    (h : evalText scope text = .ok x) : x.isFinite = true := by
  obtain ⟨e, -, -, hfinite⟩ := evalText_eq_ok.mp h
  exact hfinite

namespace ParameterTable

/-- All parameters have finite values. -/
def IsFinite (table : ParameterTable) : Prop :=
  ∀ parameter ∈ table.entries, parameter.value.isFinite = true

variable {table later : ParameterTable}

theorem IsFinite.scope (h : table.IsFinite) (bareNames : BareNames) :
    (table.scope bareNames).IsFinite := by
  intro name x hx
  obtain ⟨parameter, hfind, rfl⟩ := Option.map_eq_some_iff.mp hx
  exact h parameter (List.mem_of_find?_eq_some hfind)

/-- A definition adds one parameter, of a new name. -/
theorem define_eq_ok {name expression : String} {line : Nat} :
    table.define name expression line = .ok later ↔
      ∃ value, checkName name = .ok () ∧ table.find? name = none ∧
        Expr.evalText (table.scope .parameters) expression = .ok value ∧
          later = ⟨table.entries ++ [⟨name, value, expression, line⟩]⟩ := by
  simp only [define, bind_eq_ok]
  cases table.find? name with
  | some earlier => simp
  | none =>
      simp only [bind_eq_ok, mapError_eq_ok, pure_eq_ok]
      constructor
      · rintro ⟨_, hname, value, hvalue, rfl⟩
        exact ⟨value, hname, trivial, hvalue, rfl⟩
      · rintro ⟨value, hname, -, hvalue, rfl⟩
        exact ⟨(), hname, value, hvalue, rfl⟩

theorem IsFinite.define (h : table.IsFinite) {name expression : String} {line : Nat}
    (hdefine : table.define name expression line = .ok later) : later.IsFinite := by
  obtain ⟨value, -, -, hvalue, rfl⟩ := define_eq_ok.mp hdefine
  refine List.forall_mem_append.mpr ⟨h, List.forall_mem_singleton.mpr ?_⟩
  exact Expr.isFinite_of_evalText hvalue

end ParameterTable

namespace Reading

variable {table later : ParameterTable}

theorem isFinite_of_defineLine (h : table.IsFinite) {line : Line}
    (hline : defineLine table line = .ok later) : later.IsFinite := by
  unfold defineLine at hline
  split at hline
  · rw [mapError_eq_ok] at hline
    exact h.define hline
  · contradiction

theorem isFinite_of_foldlM (h : table.IsFinite) {lines : List Line}
    (hlines : lines.foldlM defineLine table = .ok later) : later.IsFinite := by
  induction hlines using foldlM_induction with
  | nil => exact h
  | cons hnext _ ih => exact ih (isFinite_of_defineLine h hnext)

theorem Step.isFinite {reading later : Reading} {block : Block} (h : Step reading block later)
    (hreading : reading.parameters.IsFinite) : later.parameters.IsFinite := by
  cases h with
  | parameters _ htable =>
      exact isFinite_of_foldlM hreading (foldlM_of_readParameters htable)
  | _ => exact hreading

theorem Reads.isFinite {file : String} {reading later : Reading} {blocks : List Block}
    (h : Reads file reading blocks later) (hreading : reading.parameters.IsFinite) :
    later.parameters.IsFinite := by
  induction h using Reads.head_induction with
  | nil => exact hreading
  | cons hstep _ ih => exact ih ((step_eq_ok hstep).isFinite hreading)

theorem isFinite_start (unit : LengthUnit) : (start unit).parameters.IsFinite :=
  List.forall_mem_nil _

end Reading

end CadTimeline
