import CadTimeline.Proofs.Failing
import CadTimeline.Proofs.Parameter.Definitions

/-!
# Which expressions have a value

An evaluation visits the names and the calls of an expression from left to right, a call once
before its arguments and once after them. The expression has a value if and only if every visit
passes; otherwise the first one that does not gives the fault.
-/

namespace CadTimeline

namespace Expr

/-! ## Visits -/

/-- The functions that may be called, each with the number of arguments that it takes. -/
def signatures : List (String × Nat) :=
  [("sin", 1), ("cos", 1), ("tan", 1), ("asin", 1), ("acos", 1), ("atan", 1), ("atan2", 2),
    ("sqrt", 1), ("degrees", 1), ("radians", 1), ("fabs", 1), ("abs", 1), ("power", 2),
    ("pow", 2), ("exp", 1), ("log", 1), ("log", 2), ("log10", 1), ("floor", 1), ("ceil", 1),
    ("hypot", 2)]

/-- A place of an expression where its evaluation may stop. -/
inductive Visit where
  | parameter (name : String)
  | bare (name : String)
  /-- The name of a called function, before its arguments. -/
  | callee (function : String)
  /-- The number of arguments of a called function, after them. -/
  | count (function : String) (arguments : Nat)
deriving DecidableEq, Repr

mutual

/-- The visits of an evaluation that never stops. -/
def visits : Expr → List Visit
  | number _ => []
  | parameter name => [.parameter name]
  | bare name => [.bare name]
  | call function args => .callee function :: (allVisits args ++ [.count function args.length])
  | neg operand => visits operand
  | binary _ left right => visits left ++ visits right

def allVisits : List Expr → List Visit
  | [] => []
  | e :: es => visits e ++ allVisits es

end

namespace Visit

/-- The name that is looked up. -/
def name? : Visit → Option String
  | parameter name => some name
  | bare name => some name
  | _ => none

/-- Evaluation does not stop there: the name is in the table or, without a `$`, that of a
constant or in the table if it may be; the function may be called, with so many arguments. -/
def Passes (table : ParameterTable) (bareNames : BareNames) : Visit → Prop
  | parameter name => name ∈ table.entries.map Parameter.name
  | bare name => name ∈ constants.map Prod.fst ∨
      bareNames = .parameters ∧ name ∈ table.entries.map Parameter.name
  | callee function => function ∈ signatures.map Prod.fst
  | count function arguments => (function, arguments) ∈ signatures

instance (table : ParameterTable) (bareNames : BareNames) :
    DecidablePred (Passes table bareNames)
  | parameter _ => inferInstanceAs (Decidable (_ ∈ _))
  | bare _ => inferInstanceAs (Decidable (_ ∨ _))
  | callee _ => inferInstanceAs (Decidable (_ ∈ _))
  | count _ _ => inferInstanceAs (Decidable (_ ∈ _))

/-- The fault if evaluation stops there. -/
def fault : Visit → Fault
  | parameter name => .undefined name
  | bare name => .undefined name
  | callee function => .disallowed function
  | count function arguments => .argumentCount function arguments

def fault? (table : ParameterTable) (bareNames : BareNames) (visit : Visit) : Option Fault :=
  if visit.Passes table bareNames then none else some visit.fault

variable {table : ParameterTable} {bareNames : BareNames} {visit : Visit}

theorem fault?_eq_none : visit.fault? table bareNames = none ↔ visit.Passes table bareNames := by
  unfold fault?
  split <;> simp_all

theorem fault?_eq_some {fault : Fault} : visit.fault? table bareNames = some fault ↔
    ¬visit.Passes table bareNames ∧ visit.fault = fault := by
  unfold fault?
  split <;> simp_all

end Visit

mutual

/-- Names are visited in the order of the references. -/
theorem filterMap_name?_visits (e : Expr) : e.visits.filterMap Visit.name? = e.references := by
  cases e with
  | number value => rfl
  | parameter name => rfl
  | bare name => rfl
  | call function args =>
      rw [visits, references, List.filterMap_cons, List.filterMap_append,
        filterMap_name?_allVisits args]
      exact List.append_nil _
  | neg operand => exact filterMap_name?_visits operand
  | binary op left right =>
      rw [visits, references, List.filterMap_append, filterMap_name?_visits left,
        filterMap_name?_visits right]

theorem filterMap_name?_allVisits (es : List Expr) :
    (allVisits es).filterMap Visit.name? = allReferences es := by
  cases es with
  | nil => rfl
  | cons e es =>
      rw [allVisits, allReferences, List.filterMap_append, filterMap_name?_visits e,
        filterMap_name?_allVisits es]

end

/-! ## The functions -/

theorem isSome_lookup_iff {α : Type} {name : String} {entries : List (String × α)} :
    (entries.lookup name).isSome = true ↔ name ∈ entries.map Prod.fst := by
  rw [List.lookup_isSome_iff, List.mem_map]
  simp only [beq_iff_eq, @eq_comm _ name]

theorem mem_unaryFunctions_iff {function : String} :
    function ∈ unaryFunctions.map Prod.fst ↔ (function, 1) ∈ signatures := by
  constructor
  · have hall : ∀ f ∈ unaryFunctions.map Prod.fst, (f, 1) ∈ signatures := by decide
    exact hall function
  · have hall : ∀ s ∈ signatures, s.2 = 1 → s.1 ∈ unaryFunctions.map Prod.fst := by decide
    exact fun h => hall _ h rfl

theorem mem_binaryFunctions_iff {function : String} :
    function ∈ binaryFunctions.map Prod.fst ↔ (function, 2) ∈ signatures := by
  constructor
  · have hall : ∀ f ∈ binaryFunctions.map Prod.fst, (f, 2) ∈ signatures := by decide
    exact hall function
  · have hall : ∀ s ∈ signatures, s.2 = 2 → s.1 ∈ binaryFunctions.map Prod.fst := by decide
    exact fun h => hall _ h rfl

/-- A function takes one or two arguments. -/
theorem count_of_mem_signatures {function : String} {count : Nat}
    (h : (function, count) ∈ signatures) : count = 1 ∨ count = 2 := by
  have hall : ∀ s ∈ signatures, s.2 = 1 ∨ s.2 = 2 := by decide
  exact hall _ h

/-- The names that may be called are those of the functions that there are. -/
theorem mem_functions_iff {function : String} :
    function ∈ functions ↔
      function ∈ unaryFunctions.map Prod.fst ∨ function ∈ binaryFunctions.map Prod.fst := by
  rw [← List.mem_append]
  constructor
  · have hall : ∀ f ∈ functions,
        f ∈ unaryFunctions.map Prod.fst ++ binaryFunctions.map Prod.fst := by decide
    exact hall function
  · have hall : ∀ f ∈ unaryFunctions.map Prod.fst ++ binaryFunctions.map Prod.fst,
        f ∈ functions := by decide
    exact hall function

theorem isFunction_iff {function : String} :
    isFunction function = true ↔ function ∈ signatures.map Prod.fst := by
  rw [isFunction, List.contains_iff_mem, mem_functions_iff, mem_unaryFunctions_iff,
    mem_binaryFunctions_iff, List.mem_map]
  constructor
  · rintro (h | h)
    · exact ⟨_, h, rfl⟩
    · exact ⟨_, h, rfl⟩
  · rintro ⟨⟨name, count⟩, h, rfl⟩
    rcases count_of_mem_signatures h with rfl | rfl
    · exact .inl h
    · exact .inr h

theorem isSome_result?_iff {function : String} {values : List Float} :
    (result? function values).isSome = true ↔ (function, values.length) ∈ signatures := by
  unfold result?
  split
  · rw [Option.isSome_map, isSome_lookup_iff]
    exact mem_unaryFunctions_iff
  · rw [Option.isSome_map, isSome_lookup_iff]
    exact mem_binaryFunctions_iff
  · rename_i hone htwo
    refine iff_of_false nofun fun h => ?_
    rcases count_of_mem_signatures h with h | h
    · obtain ⟨x, rfl⟩ := List.length_eq_one_iff.mp h
      exact hone x rfl
    · obtain ⟨x, y, rfl⟩ := List.length_eq_two.mp h
      exact htwo x y rfl

/-! ## Evaluation and visits -/

variable {table : ParameterTable} {bareNames : BareNames}

theorem exists_bareValue?_iff {name : String} :
    (∃ x, bareValue? (table.scope bareNames) name = some x) ↔
      (Visit.bare name).Passes table bareNames := by
  rw [← Option.isSome_iff_exists, bareValue?, Option.isSome_or, Bool.or_eq_true, constant?,
    isSome_lookup_iff, Visit.Passes, ← ParameterTable.exists_get?_iff, ← Option.isSome_iff_exists]
  refine or_congr_right ?_
  cases bareNames with
  | parameters => exact ⟨fun h => ⟨rfl, h⟩, And.right⟩
  | constantsOnly => exact iff_of_false nofun nofun

/-- A visit passes if it finds a value. -/
theorem error?_value {value : Option Float} {visit : Visit}
    (hpasses : (∃ x, value = some x) ↔ visit.Passes table bareNames) :
    error? (match value with | some x => .ok x | none => .error visit.fault) =
      visit.fault? table bareNames := by
  cases value with
  | none =>
      have hstops : ¬visit.Passes table bareNames := by simp [← hpasses]
      rw [Visit.fault?_eq_some.mpr ⟨hstops, rfl⟩]
      rfl
  | some x =>
      rw [Visit.fault?_eq_none.mpr (hpasses.mp ⟨x, rfl⟩)]
      rfl

theorem length_of_evalAll {scope : Scope} {es : List Expr} {values : List Float}
    (h : evalAll scope es = .ok values) : values.length = es.length := by
  induction es generalizing values with
  | nil =>
      cases h
      rfl
  | cons e es ih =>
      rw [evalAll] at h
      simp only [bind_eq_ok, pure_eq_ok] at h
      obtain ⟨x, -, xs, hxs, rfl⟩ := h
      rw [List.length_cons, List.length_cons, ih hxs]

mutual

/-- The fault of an evaluation is that of the first visit that does not pass. -/
theorem error?_eval (e : Expr) : error? (eval (table.scope bareNames) e) =
    e.visits.findSome? (Visit.fault? table bareNames) := by
  cases e with
  | number value => rfl
  | parameter name =>
      rw [eval, visits, List.findSome?_singleton]
      have hpasses : (∃ x, table.get? name = some x) ↔
          (Visit.parameter name).Passes table bareNames := ParameterTable.exists_get?_iff
      exact error?_value hpasses
  | bare name =>
      rw [eval, visits, List.findSome?_singleton]
      exact error?_value exists_bareValue?_iff
  | call function args =>
      rw [eval, visits, List.findSome?_cons]
      by_cases hfunction : isFunction function = true
      · have hcallee : (Visit.callee function).fault? table bareNames = none :=
          Visit.fault?_eq_none.mpr (isFunction_iff.mp hfunction)
        rw [if_pos hfunction, hcallee, List.findSome?_append, List.findSome?_singleton,
          ← error?_evalAll args]
        refine error?_bind fun values hvalues => ?_
        have hcount : (∃ x, result? function values = some x) ↔
            (Visit.count function args.length).Passes table bareNames := by
          rw [← Option.isSome_iff_exists, isSome_result?_iff, length_of_evalAll hvalues]
          rfl
        rw [← error?_value hcount, length_of_evalAll hvalues]
        rfl
      · have hstops : ¬(Visit.callee function).Passes table bareNames :=
          mt isFunction_iff.mpr hfunction
        rw [if_neg hfunction, Visit.fault?_eq_some.mpr ⟨hstops, rfl⟩]
        rfl
  | neg operand =>
      rw [eval, visits, error?_bind_pure]
      exact error?_eval operand
  | binary op left right =>
      rw [eval, visits, List.findSome?_append, ← error?_eval left, ← error?_eval right]
      exact error?_bind fun _ _ => error?_bind_pure

theorem error?_evalAll (es : List Expr) : error? (evalAll (table.scope bareNames) es) =
    (allVisits es).findSome? (Visit.fault? table bareNames) := by
  cases es with
  | nil => rfl
  | cons e es =>
      rw [evalAll, allVisits, List.findSome?_append, ← error?_eval e, ← error?_evalAll es]
      exact error?_bind fun _ _ => error?_bind_pure

end

/-- An expression has a value if and only if all its names and calls pass. If it has none, the
fault is that of the first visit that does not pass; names are visited in the order of the
references. -/
theorem eval_exact (table : ParameterTable) (bareNames : BareNames) (e : Expr) :
    ((∃ x, eval (table.scope bareNames) e = .ok x) ↔
      ∀ visit ∈ e.visits, visit.Passes table bareNames) ∧
    (∀ fault, eval (table.scope bareNames) e = .error fault ↔
      ∃ before visit after, e.visits = before ++ visit :: after ∧
        (∀ earlier ∈ before, earlier.Passes table bareNames) ∧
        ¬visit.Passes table bareNames ∧ visit.fault = fault) ∧
    e.visits.filterMap Visit.name? = e.references := by
  refine ⟨?_, fun fault => ?_, filterMap_name?_visits e⟩
  · rw [← error?_eq_none, error?_eval, List.findSome?_eq_none_iff]
    simp only [Visit.fault?_eq_none]
  · rw [← error?_eq_some, error?_eval, List.findSome?_eq_some_iff]
    simp only [Visit.fault?_eq_none, Visit.fault?_eq_some]
    constructor
    · rintro ⟨before, visit, after, hvisits, hstops, hbefore⟩
      exact ⟨before, visit, after, hvisits, hbefore, hstops⟩
    · rintro ⟨before, visit, after, hvisits, hbefore, hstops⟩
      exact ⟨before, visit, after, hvisits, hstops, hbefore⟩

example : (call "hypot" [parameter "r", call "f" [bare "x"]]).visits =
    [.callee "hypot", .parameter "r", .callee "f", .bare "x", .count "f" 1, .count "hypot" 2] :=
  rfl

end Expr

end CadTimeline
