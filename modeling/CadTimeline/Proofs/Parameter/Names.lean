import CadTimeline.Proofs.Parameter.Scan

/-!
# One reading of a name

A name is read alike wherever it stands: bare or behind a `$` in an expression, and behind a `$`
in a text. If a parameter bears it, it stands for the value of the parameter in all three places.
If no parameter may bear it, it stands for nothing, unless it is a constant.
-/

namespace CadTimeline

open Substitution Text

/-! ## Names in expressions -/

namespace Expr

theorem parse?_bare {name : String} (h : isName name.toList = true) :
    parse? name.toList = some (.bare name) := by
  have hlexeme := Token.Lexeme.name h
  rw [String.ofList_toList] at hlexeme
  have hspells : Token.Spells (Layout.bare name).tokens name.toList := hlexeme.spells
  exact parse?_of_layout hspells

theorem parse?_parameter {name : String} (h : isName name.toList = true) :
    parse? ("$" ++ name).toList = some (.parameter name) := by
  have hlexeme := Token.Lexeme.reference h
  rw [String.ofList_toList] at hlexeme
  have hspells : Token.Spells (Layout.parameter name).tokens ('$' :: name.toList) := hlexeme.spells
  rw [String.toList_append]
  exact parse?_of_layout hspells

theorem Writable.isName_of_mem_references {e : Expr} (h : e.Writable) {name : String}
    (hname : name ∈ e.references) : isName name.toList = true := by
  induction h with
  | number => exact absurd hname List.not_mem_nil
  | parameter h =>
      rw [references, List.mem_singleton] at hname
      exact hname ▸ h
  | bare h =>
      rw [references, List.mem_singleton] at hname
      exact hname ▸ h
  | call _ _ ih =>
      rw [references, allReferences_eq_flatMap] at hname
      obtain ⟨arg, harg, hname⟩ := List.mem_flatMap.mp hname
      exact ih arg harg hname
  | neg _ ih => exact ih hname
  | binary _ _ ihl ihr =>
      rw [references, List.mem_append] at hname
      exact hname.elim ihl ihr

theorem writable_of_parse? {cs : List Char} {e : Expr} (h : parse? cs = some e) : e.Writable := by
  obtain ⟨ts, hspells, hderives⟩ := parse?_eq_some_iff.mp h
  exact writable_of_derives hderives (Token.hasLexeme_of_spells hspells)

variable {scope : Scope} {name : String}

/-- An expression that is one name stands for what the name stands for. -/
theorem evalText_of_resolve {text : String} {e : Expr} (hparse : parse? text.toList = some e)
    {value : Option Float} (heval : eval scope e = resolve name value)
    (hfinite : ∀ x ∈ value, x.isFinite = true) : evalText scope text = resolve name value := by
  cases value with
  | none =>
      unfold evalText
      rw [hparse]
      dsimp only
      rw [heval]
      rfl
  | some x => exact evalText_eq_ok.mpr ⟨e, hparse, heval, hfinite x rfl⟩

theorem evalText_parameter (hname : isName name.toList = true) (hscope : scope.IsFinite) :
    evalText scope ("$" ++ name) = resolve name (scope.value? name) :=
  evalText_of_resolve (parse?_parameter hname) rfl (hscope name)

theorem isFinite_of_constant? {x : Float} (h : constant? name = some x) : x.isFinite = true := by
  have hall : ∀ constant ∈ constants, constant.2.isFinite = true := by decide +kernel
  obtain ⟨before, rest, hconstants, -⟩ := List.lookup_eq_some_iff.mp h
  have hmem : (name, x) ∈ constants := by
    rw [hconstants]
    exact List.mem_append_cons_self
  exact hall (name, x) hmem

theorem evalText_bare (hname : isName name.toList = true) (hscope : scope.IsFinite) :
    evalText scope name = resolve name (bareValue? scope name) := by
  refine evalText_of_resolve (parse?_bare hname) rfl fun x hx => ?_
  rcases bareValue?_eq_some.mp hx with hconstant | ⟨-, -, hvalue⟩
  · exact isFinite_of_constant? hconstant
  · exact hscope name x hvalue

end Expr

/-! ## Names in texts -/

namespace Substitution

variable {name : String}

theorem Scanned.isName_of_mem {ps : List Piece} {cs : List Char} (h : Scanned ps cs)
    (hname : .reference name ∈ ps) : isName name.toList = true := by
  induction h with
  | nil => exact absurd hname List.not_mem_nil
  | reference hown _ _ ih =>
      rcases List.mem_cons.mp hname with heq | hname
      · cases heq
        rwa [String.toList_ofList]
      · exact ih hname
  | char _ _ ih => exact ih ((List.mem_cons.mp hname).resolve_left nofun)

theorem pieces_reference (hname : isName name.toList = true) :
    pieces ("$" ++ name).toList = [.reference name] := by
  have hscan : Scanned _ ('$' :: (name.toList ++ [])) := .reference hname nofun .nil
  rw [String.ofList_toList, List.append_nil] at hscan
  rw [String.toList_append]
  exact hscan.eq_pieces.symm

/-- Behind a name, the text begins with nothing that could go on with it. -/
def Closes (back : String) : Prop :=
  ∀ c ∈ back.toList.head?, isNamePart c = false

theorem closes_reference (name : String) : Closes ("$" ++ name) := by
  intro c hc
  rw [String.toList_append] at hc
  cases hc
  rfl

/-- A `$` with a name behind it is a reference to this name, whatever stands before it. -/
theorem pieces_around (hname : isName name.toList = true) (front : String) {back : String}
    (hback : Closes back) : pieces (front ++ ("$" ++ name) ++ back).toList =
      pieces front.toList ++ .reference name :: pieces back.toList := by
  rw [String.toList_append, String.toList_append, pieces_append_of_head hback,
    pieces_append_of_head (closes_reference name), pieces_reference hname, List.append_assoc]
  rfl

theorem substitute_reference (value? : String → Option Float) (hname : isName name.toList = true) :
    substitute value? ("$" ++ name) = (Expr.resolve name (value? name)).map Number.plain := by
  rw [substitute, pieces_reference hname, List.mapM_cons, List.mapM_nil, fill]
  cases value? name with
  | none => rfl
  | some x =>
      have hplain : String.ofList [(Number.plain x).toList].flatten = Number.plain x := by
        rw [List.flatten_singleton, String.ofList_toList]
      exact congrArg Except.ok hplain

theorem substitute_around (value? : String → Option Float) (hname : isName name.toList = true)
    (front : String) {back : String} (hback : Closes back) :
    substitute value? (front ++ ("$" ++ name) ++ back) = do
      let start ← substitute value? front
      let x ← Expr.resolve name (value? name)
      let rest ← substitute value? back
      return start ++ Number.plain x ++ rest := by
  rw [substitute_append value? (pieces_append_of_head hback),
    substitute_append value? (pieces_append_of_head (closes_reference name)),
    substitute_reference value? hname]
  cases substitute value? front with
  | error fault => rfl
  | ok start => cases value? name <;> rfl

end Substitution

/-! ## What a name stands for -/

namespace ParameterTable

/-- Some expression refers to the name, or some text does. -/
def IsRead (name : String) : Prop :=
  (∃ cs e, Expr.parse? cs = some e ∧ name ∈ e.references) ∨ ∃ cs, .reference name ∈ pieces cs

theorem isRead_iff {name : String} : IsRead name ↔ isName name.toList = true := by
  constructor
  · rintro (⟨cs, e, hparse, hname⟩ | ⟨cs, hname⟩)
    · exact (Expr.writable_of_parse? hparse).isName_of_mem_references hname
    · exact (scanned_pieces cs).isName_of_mem hname
  · exact fun h => .inl ⟨_, _, Expr.parse?_bare h, List.mem_singleton_self name⟩

theorem checkName_eq_ok {name : String} : checkName name = .ok () ↔ isName name.toList = true ∧
    hasDoubleUnderscore name.toList = false ∧ Expr.isFunction name = false ∧
      Expr.constant? name = none := by
  unfold checkName
  cases isName name.toList with
  | false => simp
  | true =>
      cases hasDoubleUnderscore name.toList with
      | true => simp
      | false => cases Expr.isFunction name <;> simp

/-- As an expression, the name is itself; behind a `$`, it is the parameter of that name; in a
text, a `$` with the name behind it is one reference, where the name ends. -/
structure IsReadAlike (name : String) : Prop where
  bare : Expr.parse? name.toList = some (.bare name)
  parameter : Expr.parse? ("$" ++ name).toList = some (.parameter name)
  text : ∀ front back, Closes back → pieces (front ++ ("$" ++ name) ++ back).toList =
    pieces front.toList ++ .reference name :: pieces back.toList

/-- In the expressions of definitions, in numbers and in texts, the name stands for this
value. -/
structure Denotes (table : ParameterTable) (name : String) (x : Float) : Prop where
  bare : Expr.evalText (table.scope .parameters) name = .ok x
  parameter : ∀ bareNames, Expr.evalText (table.scope bareNames) ("$" ++ name) = .ok x
  text : substitute table.get? ("$" ++ name) = .ok (Number.plain x)
  inText : ∀ front back, Closes back →
    substitute table.get? (front ++ ("$" ++ name) ++ back) = do
      let start ← substitute table.get? front
      let rest ← substitute table.get? back
      return start ++ Number.plain x ++ rest

/-- Wherever the name is read it is undefined, except for a constant without a `$`. -/
structure Lacks (table : ParameterTable) (name : String) : Prop where
  get? : table.get? name = none
  bare : ∀ bareNames, Expr.evalText (table.scope bareNames) name =
    Expr.resolve name (Expr.constant? name)
  parameter : ∀ bareNames, Expr.evalText (table.scope bareNames) ("$" ++ name) =
    .error (.undefined name)
  text : ∀ front back, Closes back →
    substitute table.get? (front ++ ("$" ++ name) ++ back) = do
      let _ ← substitute table.get? front
      .error (.undefined name)

theorem isReadAlike {name : String} (hname : isName name.toList = true) : IsReadAlike name where
  bare := Expr.parse?_bare hname
  parameter := Expr.parse?_parameter hname
  text := fun front _ hback => pieces_around hname front hback

namespace IsBuilt

variable {table : ParameterTable} {name : String}

theorem checkName_of_get? (h : table.IsBuilt) {x : Float} (hx : table.get? name = some x) :
    checkName name = .ok () := by
  obtain ⟨parameter, hfind, -⟩ := Option.map_eq_some_iff.mp hx
  obtain ⟨hmem, rfl⟩ := find?_eq_some hfind
  exact h.accepted parameter hmem

theorem denotes (h : table.IsBuilt) {x : Float} (hx : table.get? name = some x) :
    table.Denotes name x := by
  obtain ⟨hname, -, -, hconstant⟩ := checkName_eq_ok.mp (h.checkName_of_get? hx)
  have hfinite := h.isFinite.scope
  have hbare : Expr.bareValue? (table.scope .parameters) name = some x :=
    Expr.bareValue?_eq_some.mpr (.inr ⟨hconstant, rfl, hx⟩)
  refine ⟨?_, fun bareNames => ?_, ?_, fun front back hback => ?_⟩
  · rw [Expr.evalText_bare hname (hfinite .parameters), hbare]
    rfl
  · rw [Expr.evalText_parameter hname (hfinite bareNames)]
    exact Expr.resolve_eq_ok.mpr hx
  · rw [substitute_reference table.get? hname, hx]
    rfl
  · rw [substitute_around table.get? hname front hback, hx]
    rfl

theorem lacks (h : table.IsBuilt) (hname : isName name.toList = true)
    (hcheck : checkName name ≠ .ok ()) : table.Lacks name := by
  have hnone : table.get? name = none := by
    rw [Option.eq_none_iff_forall_ne_some]
    exact fun x hx => hcheck (h.checkName_of_get? hx)
  have hfinite := h.isFinite.scope
  refine ⟨hnone, fun bareNames => ?_, fun bareNames => ?_, fun front back hback => ?_⟩
  · have hbare : Expr.bareValue? (table.scope bareNames) name = Expr.constant? name := by
      rw [Expr.bareValue?]
      cases bareNames with
      | parameters => exact (congrArg _ hnone).trans (Option.or_none)
      | constantsOnly => exact Option.or_none
    rw [Expr.evalText_bare hname (hfinite bareNames), hbare]
  · rw [Expr.evalText_parameter hname (hfinite bareNames)]
    exact Expr.resolve_eq_error.mpr ⟨hnone, rfl⟩
  · rw [substitute_around table.get? hname front hback, hnone]
    rfl

end IsBuilt

/-- A name that a parameter may bear is read alike everywhere. After any definitions, the name of
a parameter stands for its value, and a name that none may bear is undefined wherever it is read,
unless it is a constant without a `$`. -/
theorem names_agree (calls : List Definition) (name : String) :
    (checkName name = .ok () → IsReadAlike name) ∧
    (∀ x, (after calls).get? name = some x →
      checkName name = .ok () ∧ (after calls).Denotes name x) ∧
    (IsRead name → checkName name ≠ .ok () → (after calls).Lacks name) := by
  have hbuilt := after_isBuilt calls
  refine ⟨fun hcheck => isReadAlike (checkName_eq_ok.mp hcheck).1, fun x hx => ?_,
    fun hread hcheck => hbuilt.lacks (isRead_iff.mp hread) hcheck⟩
  exact ⟨hbuilt.checkName_of_get? hx, hbuilt.denotes hx⟩

theorem names_agree_bolt :
    ((after boltDefinitions).get? "w_2" = some 2.5 ∧ checkName "w_2" = .ok () ∧
      IsReadAlike "w_2" ∧ (after boltDefinitions).Denotes "w_2" 2.5) ∧
    IsRead "a__b" ∧ checkName "a__b" ≠ .ok () ∧ (after boltDefinitions).Lacks "a__b" := by
  obtain ⟨halike, hdenotes, -⟩ := names_agree boltDefinitions "w_2"
  obtain ⟨-, -, hlacks⟩ := names_agree boltDefinitions "a__b"
  have hvalue : (after boltDefinitions).get? "w_2" = some 2.5 := by decide +kernel
  obtain ⟨hcheck, hdenotes⟩ := hdenotes 2.5 hvalue
  have hread : IsRead "a__b" := isRead_iff.mpr (by decide)
  have hrefused : checkName "a__b" ≠ .ok () := by
    intro hok
    have hdouble := (checkName_eq_ok.mp hok).2.1
    contradiction
  exact ⟨⟨hvalue, hcheck, halike hcheck, hdenotes⟩, hread, hrefused, hlacks hread hrefused⟩

end ParameterTable

end CadTimeline
