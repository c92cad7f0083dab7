import CadTimeline.Proofs.Failing
import CadTimeline.Proofs.Parameter.Definitions

/-!
# References found in a text

A text is cut into characters and references in one way only, each name as long as it can be.
Replacing the references succeeds if and only if their names are in the table, and changes
nothing else. It can be done on both sides of a cut that goes through no reference.
-/

namespace CadTimeline

open Text ParameterTable

/-! ## The longest name -/

namespace Text

theorem takeName_eq_nil_iff {cs : List Char} :
    takeName cs = [] ↔ ∀ c ∈ cs.head?, isNameStart c = false := by
  cases cs with
  | nil => exact iff_of_true rfl nofun
  | cons c cs => simp [Substitution.takeName_cons_eq_nil]

/-- What follows the longest name could not go on with it. -/
theorem isNamePart_of_head?_dropName {cs : List Char} (h : takeName cs ≠ []) :
    ∀ c ∈ (dropName cs).head?, isNamePart c = false := by
  cases cs with
  | nil => exact absurd rfl h
  | cons d cs =>
      intro c hc
      rw [takeName] at h
      rw [dropName] at hc
      split at h
      · rename_i hd
        rw [if_pos hd] at hc
        have hhead := List.head?_dropWhile_not isNamePart cs
        rwa [hc] at hhead
      · exact absurd rfl h

end Text

namespace Substitution

/-! ## Pieces of a text -/

/-- The text read from left to right. A `$` with a letter or `_` behind it starts a reference,
whose name is the longest run of letters, digits and `_`; any other character is kept. -/
inductive Scanned : List Piece → List Char → Prop
  | nil : Scanned [] []
  | reference {ps : List Piece} {name rest : List Char} (hname : isName name = true)
      (hrest : ∀ c ∈ rest.head?, isNamePart c = false) (h : Scanned ps rest) :
      Scanned (.reference (String.ofList name) :: ps) ('$' :: (name ++ rest))
  | char {ps : List Piece} {c : Char} {rest : List Char}
      (hc : c = '$' → ∀ d ∈ rest.head?, isNameStart d = false) (h : Scanned ps rest) :
      Scanned (.char c :: ps) (c :: rest)

theorem Scanned.eq_pieces {ps : List Piece} {cs : List Char} (h : Scanned ps cs) :
    ps = pieces cs := by
  induction h with
  | nil => rw [pieces]
  | @reference ps name rest hname hrest _ ih =>
      obtain ⟨htake, hdrop⟩ := takeName_of_isName hname hrest
      have hne : name ≠ [] := by
        rintro rfl
        contradiction
      rw [pieces, htake, hdrop, if_pos ⟨rfl, hne⟩, ih]
  | @char ps c rest hc _ ih =>
      rw [pieces_cons, ih]
      by_cases hdollar : c = '$'
      · exact .inr (takeName_eq_nil_iff.mpr (hc hdollar))
      · exact .inl hdollar

theorem scanned_pieces (cs : List Char) : Scanned (pieces cs) cs := by
  induction cs using pieces.induct with
  | case1 =>
      rw [pieces]
      exact .nil
  | case2 c cs hc ih =>
      obtain ⟨rfl, hname⟩ := hc
      rw [pieces, if_pos ⟨rfl, hname⟩]
      have hscan := Scanned.reference (isName_takeName hname) (isNamePart_of_head?_dropName hname) ih
      rwa [takeName_append_dropName] at hscan
  | case3 c cs hc ih =>
      rw [pieces, if_neg hc]
      refine .char (fun hdollar => takeName_eq_nil_iff.mp ?_) ih
      exact Classical.not_not.mp fun hname => hc ⟨hdollar, hname⟩

/-- A text is scanned in one way only. -/
theorem scanned_iff {ps : List Piece} {cs : List Char} : Scanned ps cs ↔ ps = pieces cs := by
  constructor
  · exact Scanned.eq_pieces
  · rintro rfl
    exact scanned_pieces cs

/-! ## Two texts in one -/

/-- Behind a text, another one that starts with no part of a name is read as on its own. -/
theorem Scanned.append {ps qs : List Piece} {front back : List Char} (hfront : Scanned ps front)
    (hback : Scanned qs back) (hhead : ∀ c ∈ back.head?, isNamePart c = false) :
    Scanned (ps ++ qs) (front ++ back) := by
  induction hfront with
  | nil => exact hback
  | @reference ps name rest hname hrest h ih =>
      rw [List.cons_append, List.cons_append, List.append_assoc]
      refine .reference hname (fun c hc => ?_) ih
      cases rest with
      | nil => exact hhead c hc
      | cons d rest => exact hrest c hc
  | @char ps c rest hc h ih =>
      refine .char (fun hdollar d hd => ?_) ih
      cases rest with
      | nil =>
          refine Bool.eq_false_iff.mpr fun hstart => ?_
          exact Bool.eq_false_iff.mp (hhead d hd) (isNamePart_of_isNameStart hstart)
      | cons e rest => exact hc hdollar d hd

theorem pieces_append_of_head {front back : List Char}
    (hhead : ∀ c ∈ back.head?, isNamePart c = false) :
    pieces (front ++ back) = pieces front ++ pieces back :=
  ((scanned_pieces front).append (scanned_pieces back) hhead).eq_pieces.symm

/-- Where the references begin and end, if the pieces begin at `start`. -/
def spans (start : Nat) : List Piece → List (Nat × Nat)
  | [] => []
  | .char _ :: ps => spans (start + 1) ps
  | .reference name :: ps =>
    (start, start + name.length + 1) :: spans (start + name.length + 1) ps

/-- No reference goes over the cut, though one may end or begin there. -/
def IsCut (start cut : Nat) (ps : List Piece) : Prop :=
  ∀ span ∈ spans start ps, span.2 ≤ cut ∨ cut ≤ span.1

instance (start cut : Nat) (ps : List Piece) : Decidable (IsCut start cut ps) :=
  inferInstanceAs (Decidable (∀ span ∈ spans start ps, _))

theorem Scanned.exists_cut {ps : List Piece} {front back : List Char}
    (h : Scanned ps (front ++ back)) {start : Nat} (hcut : IsCut start (start + front.length) ps) :
    ∃ before after, ps = before ++ after ∧ Scanned before front ∧ Scanned after back := by
  generalize hcs : front ++ back = cs at h
  induction h generalizing front start with
  | nil =>
      obtain ⟨rfl, rfl⟩ := List.append_eq_nil_iff.mp hcs
      exact ⟨[], [], rfl, .nil, .nil⟩
  | @reference ps name rest hname hrest h ih =>
      obtain ⟨hspan, hspans⟩ := List.forall_mem_cons.mp hcut
      rw [String.length_ofList] at hspan hspans
      rcases Nat.eq_zero_or_pos front.length with hempty | hpos
      · obtain rfl := List.length_eq_zero_iff.mp hempty
        rw [List.nil_append] at hcs
        subst hcs
        exact ⟨[], _, rfl, .nil, .reference hname hrest h⟩
      · have hlength : ('$' :: name).length ≤ front.length := by
          rw [List.length_cons]
          omega
        have hfront : '$' :: name <+: '$' :: (name ++ rest) := ⟨rest, rfl⟩
        obtain ⟨tail, rfl⟩ :=
          List.prefix_of_prefix_length_le hfront ⟨back, hcs⟩ hlength
        rw [List.append_assoc] at hcs
        obtain rfl : tail ++ back = rest := List.append_cancel_left hcs
        have hend : start + ('$' :: name ++ tail).length = start + name.length + 1 + tail.length := by
          rw [List.length_append, List.length_cons]
          omega
        rw [hend] at hspans
        obtain ⟨before, after, rfl, hbefore, hafter⟩ := ih hspans rfl
        refine ⟨_ :: before, after, rfl, .reference hname (fun c hc => ?_) hbefore, hafter⟩
        refine hrest c ?_
        rw [List.head?_append, hc]
        rfl
  | @char ps c rest hc h ih =>
      cases front with
      | nil =>
          rw [List.nil_append] at hcs
          subst hcs
          exact ⟨[], _, rfl, .nil, .char hc h⟩
      | cons d front =>
          cases hcs
          have hlength : start + (c :: front).length = start + 1 + front.length := by
            rw [List.length_cons]
            omega
          rw [hlength] at hcut
          obtain ⟨before, after, rfl, hbefore, hafter⟩ := ih hcut rfl
          refine ⟨.char c :: before, after, rfl, .char (fun hdollar d hd => ?_) hbefore, hafter⟩
          cases front with
          | nil => contradiction
          | cons e front => exact hc hdollar d hd

/-- The pieces on both sides of a cut that no reference goes over. -/
theorem pieces_cut {front back : List Char}
    (hcut : IsCut 0 front.length (pieces (front ++ back))) :
    pieces (front ++ back) = pieces front ++ pieces back := by
  have hlength : front.length = 0 + front.length := (Nat.zero_add _).symm
  rw [hlength] at hcut
  obtain ⟨before, after, hpieces, hbefore, hafter⟩ :=
    (scanned_pieces (front ++ back)).exists_cut hcut
  rw [hpieces, hbefore.eq_pieces, hafter.eq_pieces]

/-- Where the pieces of two texts come one behind the other, so do their replacements. -/
theorem substitute_append (value? : String → Option Float) {front back : String}
    (hpieces : pieces (front.toList ++ back.toList) = pieces front.toList ++ pieces back.toList) :
    substitute value? (front ++ back) = do
      let start ← substitute value? front
      let rest ← substitute value? back
      return start ++ rest := by
  rw [substitute, substitute, substitute, String.toList_append, hpieces, List.mapM_append]
  cases (pieces front.toList).mapM (fill value?) with
  | error fault => rfl
  | ok before =>
      cases (pieces back.toList).mapM (fill value?) with
      | error fault => rfl
      | ok after =>
          have hjoin : String.ofList (before ++ after).flatten =
              String.ofList before.flatten ++ String.ofList after.flatten := by
            rw [List.flatten_append, String.ofList_append]
          exact congrArg Except.ok hjoin

theorem substitute_append_of_isCut (value? : String → Option Float) {front back : String}
    (hcut : IsCut 0 front.length (pieces (front ++ back).toList)) :
    substitute value? (front ++ back) = do
      let start ← substitute value? front
      let rest ← substitute value? back
      return start ++ rest := by
  rw [String.toList_append] at hcut
  exact substitute_append value? (pieces_cut hcut)

/-! ## What pieces become -/

/-- A character stays as it is, and a reference becomes the number that its name stands for in
the table. -/
inductive Piece.Becomes (table : ParameterTable) : Piece → List Char → Prop
  | char (c : Char) : Becomes table (.char c) [c]
  | reference {name : String} {x : Float} (h : table.get? name = some x) :
      Becomes table (.reference name) (Number.plain x).toList

variable {table : ParameterTable}

theorem fill_eq_ok_iff {piece : Piece} {part : List Char} :
    fill table.get? piece = .ok part ↔ piece.Becomes table part := by
  constructor
  · intro h
    cases piece with
    | char c =>
        cases h
        exact .char c
    | reference name =>
        obtain ⟨x, hx, rfl⟩ := map_eq_ok.mp h
        exact .reference (Expr.resolve_eq_ok.mp hx)
  · rintro (c | h)
    · rfl
    · rw [fill, h]
      rfl

theorem error?_fill_eq_none {piece : Piece} : error? (fill table.get? piece) = none ↔
    ∀ name, piece = .reference name → name ∈ table.entries.map Parameter.name := by
  cases piece with
  | char c => exact iff_of_true rfl nofun
  | reference name =>
      rw [fill, error?_map, error?_eq_none]
      simp only [Expr.resolve_eq_ok, ParameterTable.exists_get?_iff, Piece.reference.injEq,
        forall_eq']

theorem error?_fill_eq_some {piece : Piece} {fault : Expr.Fault} :
    error? (fill table.get? piece) = some fault ↔ ∃ name, piece = .reference name ∧
      name ∉ table.entries.map Parameter.name ∧ fault = .undefined name := by
  cases piece with
  | char c => exact iff_of_false nofun nofun
  | reference name =>
      rw [fill, error?_map, error?_eq_some, Expr.resolve_eq_error, ParameterTable.get?_eq_none]
      simp only [Piece.reference.injEq, ↓existsAndEq, true_and]

theorem error?_substitute (value? : String → Option Float) (text : String) :
    error? (substitute value? text) =
      (pieces text.toList).findSome? fun piece => error? (fill value? piece) := by
  rw [substitute, error?_bind_pure, error?_mapM]

/-- References can be replaced unless one of them has a name without a value. -/
theorem exists_of_substitute_eq_error {value? : String → Option Float} {text : String}
    {fault : Expr.Fault} (h : substitute value? text = .error fault) :
    ∃ name, .reference name ∈ pieces text.toList ∧ value? name = none ∧
      fault = .undefined name := by
  rw [← error?_eq_some, error?_substitute] at h
  obtain ⟨piece, hpiece, hfill⟩ := List.exists_of_findSome?_eq_some h
  cases piece with
  | char c => contradiction
  | reference name =>
      rw [fill, error?_map, error?_eq_some, Expr.resolve_eq_error] at hfill
      exact ⟨name, hpiece, hfill⟩

/-- A text is scanned in one way. Its references can be replaced if and only if their names are
in the table, and the result is made of what the pieces become. Otherwise the first name that is
not in the table is undefined. Two parts of a text can be replaced apart if no reference goes
over the cut between them. -/
theorem substitute_exact (table : ParameterTable) (text : String) :
    (∀ ps, Scanned ps text.toList ↔ ps = pieces text.toList) ∧
    ((∃ result, substitute table.get? text = .ok result) ↔
      ∀ name, .reference name ∈ pieces text.toList →
        name ∈ table.entries.map Parameter.name) ∧
    (∀ result, substitute table.get? text = .ok result ↔
      ∃ parts, List.Forall₂ (Piece.Becomes table) (pieces text.toList) parts ∧
        result.toList = parts.flatten) ∧
    (∀ fault, substitute table.get? text = .error fault ↔
      ∃ before name after, pieces text.toList = before ++ .reference name :: after ∧
        (∀ earlier, .reference earlier ∈ before →
          earlier ∈ table.entries.map Parameter.name) ∧
        name ∉ table.entries.map Parameter.name ∧ fault = .undefined name) ∧
    ∀ front back, text = front ++ back → IsCut 0 front.length (pieces text.toList) →
      substitute table.get? text = do
        let start ← substitute table.get? front
        let rest ← substitute table.get? back
        return start ++ rest := by
  have hnone : ∀ ps : List Piece, (∀ piece ∈ ps, error? (fill table.get? piece) = none) ↔
      ∀ name, .reference name ∈ ps → name ∈ table.entries.map Parameter.name := by
    intro ps
    simp only [error?_fill_eq_none]
    exact ⟨fun h name hmem => h _ hmem name rfl, fun h piece hmem name heq => h name (heq ▸ hmem)⟩
  refine ⟨fun ps => scanned_iff, ?_, fun result => ?_, fun fault => ?_, ?_⟩
  · rw [← error?_eq_none, error?_substitute, List.findSome?_eq_none_iff, hnone]
  · simp only [substitute, bind_eq_ok, pure_eq_ok, mapM_eq_ok, fill_eq_ok_iff,
      ← String.toList_inj, String.toList_ofList, @eq_comm _ result.toList]
  · rw [← error?_eq_some, error?_substitute, List.findSome?_eq_some_iff]
    simp only [hnone, error?_fill_eq_some]
    constructor
    · rintro ⟨before, _, after, hpieces, ⟨name, rfl, hname, hfault⟩, hbefore⟩
      exact ⟨before, name, after, hpieces, hbefore, hname, hfault⟩
    · rintro ⟨before, name, after, hpieces, hbefore, hname, hfault⟩
      exact ⟨before, _, after, hpieces, ⟨name, rfl, hname, hfault⟩, hbefore⟩
  · rintro front back rfl hcut
    exact substitute_append_of_isCut table.get? hcut

/-- A table of two parameters. -/
def boltTable : ParameterTable :=
  ⟨[⟨"r", 10, "10", 1⟩, ⟨"w_2", 2.5, "2.5", 2⟩]⟩

example : (substitute boltTable.get? "$$r-$w_2$5$r").toOption = some "$10-2.5$510" := by
  decide +kernel

theorem substitute_twoParts :
    IsCut 0 "$$r-".length (pieces "$$r-$w_2$5$r".toList) ∧
    substitute boltTable.get? "$$r-$w_2$5$r" = do
      let start ← substitute boltTable.get? "$$r-"
      let rest ← substitute boltTable.get? "$w_2$5$r"
      return start ++ rest := by
  have hcut : IsCut 0 "$$r-".length (pieces "$$r-$w_2$5$r".toList) := by
    decide +kernel
  exact ⟨hcut, (substitute_exact boltTable _).2.2.2.2 "$$r-" "$w_2$5$r" rfl hcut⟩

/-! ## What is left -/

theorem HasNoReference.not_isInfix {cs : List Char} (h : HasNoReference cs) {c : Char}
    (hc : isNameStart c = true) : ¬['$', c] <:+: cs := by
  intro hinfix
  obtain ⟨hplain, -⟩ := hasNoReference_cons_iff.mp (h.of_isInfix hinfix)
  have hname := hplain.resolve_left fun hne => hne rfl
  rw [takeName_cons_eq_nil, hc] at hname
  contradiction

/-- After any definitions, no reference is left where all were replaced: the text has no `$` with
a letter or `_` behind it, and with any other table it stays as it is. -/
theorem substitute_settled (calls : List Definition) {text result : String}
    (h : substitute (after calls).get? text = .ok result) :
    (∀ c, isNameStart c = true → ¬['$', c] <:+: result.toList) ∧
      ∀ table : ParameterTable, substitute table.get? result = .ok result := by
  -- The values are finite: `inf` behind a `$` would be a name.
  have hfinite := (after_isBuilt calls).isFinite.scope .parameters
  have hnone : HasNoReference result.toList := hasNoReference_of_substitute hfinite h
  exact ⟨fun c hc => hnone.not_isInfix hc,
    fun table => substitute_of_hasNoReference hnone table.get?⟩

/-- Two definitions, the second one with a reference to the first. -/
def boltDefinitions : List Definition :=
  [⟨"r", "10", 1⟩, ⟨"w_2", "$r / 4", 2⟩]

theorem substitute_settled_doubleDollar :
    substitute (after boltDefinitions).get? "$$r" = .ok "$10" ∧
    (∀ c, isNameStart c = true → ¬['$', c] <:+: "$10".toList) ∧
      ∀ table : ParameterTable, substitute table.get? "$10" = .ok "$10" := by
  have hresult : substitute (after boltDefinitions).get? "$$r" = .ok "$10" :=
    toOption_eq_some.mp (by decide +kernel)
  exact ⟨hresult, substitute_settled boltDefinitions hresult⟩

end Substitution

end CadTimeline
