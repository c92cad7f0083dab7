import CadTimeline.Proofs.Expr.Grouping

/-!
# Reading tokens as sequences

Tokens are read as an expression exactly when they are a sum of the grammar: each
operand of the sequence is a primary, and grouping finds the levels.
-/

namespace CadTimeline

open CadTimeline.Part

/-! ## Sequences and their tokens -/

/-- The tokens of a sequence of parts, where `Operand` says which tokens an operand
has. -/
inductive Spelled (Operand : List Token → Expr → Prop) : List Part → List Token → Prop
  | nil : Spelled Operand [] []
  | sign {t : Token} {negative : Bool} {parts : List Part} {ts : List Token}
      (ht : t.sign? = some negative) (h : Spelled Operand parts ts) :
      Spelled Operand (.sign negative :: parts) (t :: ts)
  | operator {t : Token} {op : BinaryOp} {parts : List Part} {ts : List Token}
      (ht : t.operator? = some op) (h : Spelled Operand parts ts) :
      Spelled Operand (.operator op :: parts) (t :: ts)
  | operand {us : List Token} {value : Expr} {parts : List Part} {ts : List Token}
      (hvalue : Operand us value) (h : Spelled Operand parts ts) :
      Spelled Operand (.operand value :: parts) (us ++ ts)

namespace Spelled

variable {Operand : List Token → Expr → Prop}

theorem append {parts more : List Part} {ts us : List Token} (h : Spelled Operand parts ts)
    (hmore : Spelled Operand more us) : Spelled Operand (parts ++ more) (ts ++ us) := by
  induction h with
  | nil => exact hmore
  | sign ht _ ih => exact .sign ht ih
  | operator ht _ ih => exact .operator ht ih
  | operand hvalue _ ih =>
      rw [List.append_assoc]
      exact .operand hvalue ih

theorem of_append {parts more : List Part} {ts : List Token}
    (h : Spelled Operand (parts ++ more) ts) :
    ∃ us vs, ts = us ++ vs ∧ Spelled Operand parts us ∧ Spelled Operand more vs := by
  induction parts generalizing ts with
  | nil => exact ⟨[], ts, rfl, .nil, h⟩
  | cons part parts ih =>
      cases h with
      | sign ht h =>
          obtain ⟨us, vs, rfl, hus, hvs⟩ := ih h
          exact ⟨_ :: us, vs, rfl, .sign ht hus, hvs⟩
      | operator ht h =>
          obtain ⟨us, vs, rfl, hus, hvs⟩ := ih h
          exact ⟨_ :: us, vs, rfl, .operator ht hus, hvs⟩
      | operand hvalue h =>
          obtain ⟨us, vs, rfl, hus, hvs⟩ := ih h
          exact ⟨_ ++ us, vs, (List.append_assoc ..).symm, .operand hvalue hus, hvs⟩

end Spelled

theorem sign?_eq_some {t : Token} {negative : Bool} (h : t.sign? = some negative) :
    t = .minus ∧ negative = true ∨ t = .plus ∧ negative = false := by
  cases t <;> simp [Token.sign?] at h <;> simp [h]

/-- A grouped sequence of primaries is a phrase of the grammar. -/
theorem derives_of_grouped {phrase : Phrase} {parts : List Part} {e : Expr}
    (h : Grouped phrase parts e) {ts : List Token}
    (hs : Spelled (Derives .primary) parts ts) : Derives phrase ts e := by
  induction h generalizing ts with
  | @sum op hop left right a b _ _ iha ihb =>
      obtain ⟨us, vs, rfl, hus, hvs⟩ := hs.of_append
      cases hvs with
      | @operator t _ _ vs ht hvs =>
          cases t <;> simp [Token.operator?] at ht <;> subst ht
          · exact .add (iha hus) (ihb hvs)
          · exact .sub (iha hus) (ihb hvs)
          all_goals simp [BinaryOp.bindingPower] at hop
  | term _ ih => exact .term (ih hs)
  | @product op hop left right a b _ _ iha ihb =>
      obtain ⟨us, vs, rfl, hus, hvs⟩ := hs.of_append
      cases hvs with
      | @operator t _ _ vs ht hvs =>
          cases t <;> simp [Token.operator?] at ht <;> subst ht
          case star => exact .mul (iha hus) (ihb hvs)
          case slash => exact .div (iha hus) (ihb hvs)
          all_goals simp [BinaryOp.bindingPower] at hop
  | unary _ ih => exact .unary (ih hs)
  | sign _ ih =>
      cases hs with
      | sign ht hs =>
          rcases sign?_eq_some ht with ⟨rfl, rfl⟩ | ⟨rfl, rfl⟩
          · exact .neg (ih hs)
          · exact .pos (ih hs)
  | power _ ih => exact .power (ih hs)
  | exponent _ ih =>
      cases hs with
      | operand hvalue hs =>
          cases hs with
          | @operator t _ _ _ ht hs =>
              cases t <;> simp [Token.operator?] at ht
              exact .exponent hvalue (ih hs)
  | primary _ ih => exact .primary (ih hs)
  | operand =>
      cases hs with
      | operand hvalue hs =>
          cases hs
          rw [List.append_nil]
          exact hvalue

/-! ## What has been read derives -/

theorem joinArguments_cons (first : List Token) (rest : List (List Token)) :
    Token.joinArguments (first :: rest) = first ++ rest.flatMap (Token.comma :: ·) := by
  induction rest generalizing first with
  | nil => simp [Token.joinArguments, List.intercalate]
  | cons second rest ih =>
      rw [Token.joinArguments_cons_cons, ih]
      simp

namespace Expr

theorem takeSigns_spelled (ts : List Token) :
    ∃ us, ts = us ++ (takeSigns ts).2 ∧
      (∀ Operand, Spelled Operand (takeSigns ts).1 us) ∧
      ∀ parts, Shaped true parts → Shaped true ((takeSigns ts).1 ++ parts) := by
  induction ts with
  | nil => exact ⟨[], rfl, fun _ => .nil, fun _ h => h⟩
  | cons t ts ih =>
      unfold takeSigns
      cases ht : t.sign? with
      | none => exact ⟨[], rfl, fun _ => .nil, fun _ h => h⟩
      | some negative =>
          obtain ⟨us, hus, hspelled, hshaped⟩ := ih
          refine ⟨t :: us, congrArg (t :: ·) hus, fun Operand => .sign ht (hspelled Operand), ?_⟩
          exact fun parts h => .sign (hshaped parts h)

/-- What the functions of the reader have read at a depth. -/
structure Sound (depth : Nat) : Prop where
  expression {ts rest : List Token} {e : Expr} (h : expression depth ts = some (e, rest)) :
    ∃ us, ts = us ++ rest ∧ Derives .sum us e
  signedPrimary {ts rest : List Token} {parts : List Part}
    (h : signedPrimary depth ts = some (parts, rest)) :
    ∃ us, ts = us ++ rest ∧ Spelled (Derives .primary) parts us ∧
      ∀ more, Shaped false more → Shaped true (parts ++ more)
  operations (ts : List Token) :
    ∃ us, ts = us ++ (operations depth ts).2 ∧
      Spelled (Derives .primary) (operations depth ts).1 us ∧
      Shaped false (operations depth ts).1
  primary {ts rest : List Token} {e : Expr} (h : primary depth ts = some (e, rest)) :
    ∃ us, ts = us ++ rest ∧ Derives .primary us e
  application {function : String} {ts rest : List Token} {e : Expr}
    (h : application depth function ts = some (e, rest)) :
    ∃ us, ts = us ++ rest ∧ Derives .primary (.name function :: us) e
  arguments (ts : List Token) :
    ∃ read : List (List Token × Expr), (∀ argument ∈ read, Derives .sum argument.1 argument.2) ∧
      (arguments depth ts).1 = read.map Prod.snd ∧
      ts = Token.joinArguments (read.map Prod.fst) ++ (arguments depth ts).2
  furtherArguments (ts : List Token) :
    ∃ read : List (List Token × Expr), (∀ argument ∈ read, Derives .sum argument.1 argument.2) ∧
      (furtherArguments depth ts).1 = read.map Prod.snd ∧
      ts = (read.map Prod.fst).flatMap (Token.comma :: ·) ++ (furtherArguments depth ts).2

theorem sound_zero : Sound 0 where
  expression h := by simp [Expr.expression] at h
  signedPrimary h := by simp [Expr.signedPrimary] at h
  operations ts := ⟨[], rfl, .nil, .done⟩
  primary h := by simp [Expr.primary] at h
  application h := by simp [Expr.application] at h
  arguments ts := ⟨[], by simp, rfl, rfl⟩
  furtherArguments ts := ⟨[], by simp, by simp [Expr.furtherArguments], by simp [Expr.furtherArguments]⟩

variable {depth : Nat}

theorem Sound.expression_succ (h : Sound depth) {ts rest : List Token} {e : Expr}
    (he : Expr.expression (depth + 1) ts = some (e, rest)) :
    ∃ us, ts = us ++ rest ∧ Derives .sum us e := by
  simp only [Expr.expression, Option.bind_eq_bind, Option.bind_eq_some_iff, Option.some.injEq,
    Prod.mk.injEq] at he
  obtain ⟨⟨first, middle⟩, hfirst, value, hvalue, rfl, rfl⟩ := he
  obtain ⟨us, rfl, hus, hshaped⟩ := h.signedPrimary hfirst
  obtain ⟨vs, hvs, hmore, hrest⟩ := h.operations middle
  refine ⟨us ++ vs, by rw [List.append_assoc, ← hvs], ?_⟩
  exact derives_of_grouped (grouped_of_regroup? hvalue (hshaped _ hrest)) (hus.append hmore)

theorem Sound.signedPrimary_succ (h : Sound depth) {ts rest : List Token} {parts : List Part}
    (hp : Expr.signedPrimary (depth + 1) ts = some (parts, rest)) :
    ∃ us, ts = us ++ rest ∧ Spelled (Derives .primary) parts us ∧
      ∀ more, Shaped false more → Shaped true (parts ++ more) := by
  simp only [Expr.signedPrimary, Option.bind_eq_bind, Option.bind_eq_some_iff, Option.some.injEq,
    Prod.mk.injEq] at hp
  obtain ⟨⟨value, middle⟩, hvalue, rfl, rfl⟩ := hp
  obtain ⟨us, hus, hsigns, hshaped⟩ := takeSigns_spelled ts
  obtain ⟨vs, hvs, hprimary⟩ := h.primary hvalue
  refine ⟨us ++ (vs ++ []), ?_, (hsigns _).append (.operand hprimary .nil), fun more hmore => ?_⟩
  · rw [List.append_nil, List.append_assoc, ← hvs, ← hus]
  · rw [List.append_assoc]
    exact hshaped _ (.operand hmore)

theorem Sound.operations_succ (h : Sound depth) (ts : List Token) :
    ∃ us, ts = us ++ (Expr.operations (depth + 1) ts).2 ∧
      Spelled (Derives .primary) (Expr.operations (depth + 1) ts).1 us ∧
      Shaped false (Expr.operations (depth + 1) ts).1 := by
  cases ts with
  | nil => exact ⟨[], rfl, .nil, .done⟩
  | cons t ts =>
      unfold Expr.operations
      cases ht : t.operator? with
      | none => exact ⟨[], rfl, .nil, .done⟩
      | some op =>
          dsimp only
          cases hp : Expr.signedPrimary depth ts with
          | none => exact ⟨[], rfl, .nil, .done⟩
          | some result =>
              obtain ⟨us, rfl, hus, hshaped⟩ := h.signedPrimary hp
              obtain ⟨vs, hvs, hmore, hrest⟩ := h.operations result.2
              refine ⟨t :: us ++ vs, ?_, ?_, ?_⟩
              · rw [List.cons_append, List.cons_append, List.append_assoc, ← hvs]
              · exact .operator ht (hus.append hmore)
              · exact .operator (hshaped _ hrest)

theorem Sound.primary_succ (h : Sound depth) {ts rest : List Token} {e : Expr}
    (hp : Expr.primary (depth + 1) ts = some (e, rest)) :
    ∃ us, ts = us ++ rest ∧ Derives .primary us e := by
  unfold Expr.primary at hp
  split at hp
  · contradiction
  · cases hp
    exact ⟨[_], rfl, .number _⟩
  · rename_i name ts hdepth
    cases hdepth
    rcases Option.or_eq_some_iff.mp hp with hcall | ⟨-, hname⟩
    · obtain ⟨us, rfl, hus⟩ := h.application hcall
      exact ⟨_ :: us, rfl, hus⟩
    · cases hname
      exact ⟨[_], rfl, .bare name⟩
  · cases hp
    exact ⟨[_], rfl, .parameter _⟩
  · rename_i ts hdepth
    cases hdepth
    simp only [Option.bind_eq_bind, Option.bind_eq_some_iff] at hp
    obtain ⟨⟨inner, middle⟩, hinner, hp⟩ := hp
    obtain ⟨us, rfl, hus⟩ := h.expression hinner
    split at hp
    · rename_i heq
      cases heq
      cases hp
      exact ⟨.opening :: us ++ [.closing], by simp, .group hus⟩
    · contradiction
  · contradiction

theorem Sound.application_succ (h : Sound depth) {function : String} {ts rest : List Token}
    {e : Expr} (ha : Expr.application (depth + 1) function ts = some (e, rest)) :
    ∃ us, ts = us ++ rest ∧ Derives .primary (.name function :: us) e := by
  unfold Expr.application at ha
  split at ha
  · rename_i ts hdepth
    cases hdepth
    obtain ⟨read, hread, hargs, hts⟩ := h.arguments ts
    split at ha
    · rename_i args rest' heq
      rw [heq] at hargs hts
      cases ha
      refine ⟨.opening :: Token.joinArguments (read.map Prod.fst) ++ [.closing], ?_, ?_⟩
      · rw [hts]
        simp
      · simp only at hargs
        rw [hargs]
        exact .call _ hread
    · contradiction
  · contradiction

theorem Sound.arguments_succ (h : Sound depth) (ts : List Token) :
    ∃ read : List (List Token × Expr), (∀ argument ∈ read, Derives .sum argument.1 argument.2) ∧
      (Expr.arguments (depth + 1) ts).1 = read.map Prod.snd ∧
      ts = Token.joinArguments (read.map Prod.fst) ++ (Expr.arguments (depth + 1) ts).2 := by
  unfold Expr.arguments
  cases he : Expr.expression depth ts with
  | none => exact ⟨[], by simp, rfl, rfl⟩
  | some result =>
      obtain ⟨us, rfl, hus⟩ := h.expression he
      obtain ⟨read, hread, hargs, hts⟩ := h.furtherArguments result.2
      refine ⟨(us, result.1) :: read, ?_, ?_, ?_⟩
      · exact List.forall_mem_cons.mpr ⟨hus, hread⟩
      · simp [hargs]
      · rw [List.map_cons, joinArguments_cons, List.append_assoc, ← hts]

theorem Sound.furtherArguments_succ (h : Sound depth) (ts : List Token) :
    ∃ read : List (List Token × Expr), (∀ argument ∈ read, Derives .sum argument.1 argument.2) ∧
      (Expr.furtherArguments (depth + 1) ts).1 = read.map Prod.snd ∧
      ts = (read.map Prod.fst).flatMap (Token.comma :: ·) ++
        (Expr.furtherArguments (depth + 1) ts).2 := by
  unfold Expr.furtherArguments
  split
  · rename_i depth' ts hdepth
    cases hdepth
    cases he : Expr.expression depth ts with
    | none => exact ⟨[], by simp, rfl, rfl⟩
    | some result =>
        obtain ⟨us, rfl, hus⟩ := h.expression he
        obtain ⟨read, hread, hargs, hts⟩ := h.furtherArguments result.2
        refine ⟨(us, result.1) :: read, ?_, ?_, ?_⟩
        · exact List.forall_mem_cons.mpr ⟨hus, hread⟩
        · simp [hargs]
        · rw [List.map_cons, List.flatMap_cons, List.cons_append, List.cons_append,
            List.append_assoc, ← hts]
  · exact ⟨[], by simp, rfl, rfl⟩

theorem sound (depth : Nat) : Sound depth := by
  induction depth with
  | zero => exact sound_zero
  | succ depth ih =>
      exact ⟨ih.expression_succ, ih.signedPrimary_succ, ih.operations_succ, ih.primary_succ,
        ih.application_succ, ih.arguments_succ, ih.furtherArguments_succ⟩

theorem derives_of_ofTokens? {ts : List Token} {e : Expr} (h : ofTokens? ts = some e) :
    Derives .sum ts e := by
  unfold ofTokens? at h
  split at h
  · rename_i he
    cases h
    obtain ⟨us, rfl, hus⟩ := (sound _).expression he
    rwa [List.append_nil]
  · contradiction

end Expr

end CadTimeline
