import CadTimeline.Proofs.Expr.Sequence

/-!
# Every phrase is read

With enough depth the reader takes a whole sum of the grammar off the tokens, whatever
follows that could not go on with it.
-/

namespace CadTimeline.Expr

open CadTimeline.Part

/-- Neither an operator nor the arguments of a call come next. -/
def Stops (rest : List Token) : Prop :=
  ∀ t ∈ rest.head?, t.operator? = none ∧ t ≠ .opening

theorem stops_nil : Stops [] := by
  simp [Stops]

theorem stops_closing (rest : List Token) : Stops (.closing :: rest) := by
  simp [Stops, Token.operator?]

theorem stops_comma (rest : List Token) : Stops (.comma :: rest) := by
  simp [Stops, Token.operator?]

/-- Enough depth reads these tokens as a primary, unless a call might follow. -/
structure ReadsPrimary (us : List Token) (value : Expr) : Prop where
  starts : ∃ t ts, us = t :: ts ∧ t.sign? = none
  reads : ∀ rest, rest.head? ≠ some .opening → ∀ depth, 6 * us.length ≤ depth →
    primary depth (us ++ rest) = some (value, rest)

theorem signedPrimary_cons_sign {t : Token} {negative : Bool} (ht : t.sign? = some negative)
    (ts : List Token) (depth : Nat) :
    signedPrimary (depth + 1) (t :: ts) =
      (signedPrimary (depth + 1) ts).map fun read => (.sign negative :: read.1, read.2) := by
  simp only [signedPrimary]
  rw [takeSigns, ht]
  cases primary depth (takeSigns ts).2 <;> rfl

theorem signedPrimary_of_not_sign {t : Token} (ht : t.sign? = none) (ts : List Token)
    (depth : Nat) :
    signedPrimary (depth + 1) (t :: ts) =
      (primary depth (t :: ts)).map fun read => ([.operand read.1], read.2) := by
  simp only [signedPrimary]
  rw [takeSigns, ht]
  cases primary depth (t :: ts) <;> rfl

/-- A call cannot follow a sequence that waits for no operand. -/
theorem head?_ne_opening {Operand : List Token → Expr → Prop} {parts : List Part}
    {ts rest : List Token} (hs : Spelled Operand parts ts) (hshape : Shaped false parts)
    (hrest : Stops rest) : (ts ++ rest).head? ≠ some .opening := by
  cases hs with
  | nil => exact fun h => (hrest _ h).2 rfl
  | operator ht _ =>
      intro h
      cases h
      cases ht
  | sign => cases hshape
  | operand => cases hshape

/-- What reading a sequence gives: all its parts, in two steps where an operand comes
first. -/
def ReadsSequence (parts : List Part) (ts rest : List Token) (depth : Nat) : Bool → Prop
  | true => ∃ first more middle, parts = first ++ more ∧
      signedPrimary depth (ts ++ rest) = some (first, middle) ∧
      operations depth middle = (more, rest)
  | false => operations depth (ts ++ rest) = (parts, rest)

theorem readsSequence {awaits : Bool} {parts : List Part} (hshape : Shaped awaits parts)
    {ts : List Token} (hs : Spelled ReadsPrimary parts ts) {rest : List Token}
    (hrest : Stops rest) {depth : Nat} (hd : 6 * ts.length + 2 ≤ depth) :
    ReadsSequence parts ts rest depth awaits := by
  induction hshape generalizing ts depth with
  | done =>
      cases hs
      obtain ⟨depth, rfl⟩ : ∃ d, depth = d + 1 := ⟨depth - 1, by omega⟩
      simp only [ReadsSequence, List.nil_append]
      cases rest with
      | nil => rfl
      | cons t rest => rw [operations, (hrest t rfl).1]
  | operator _ ih =>
      cases hs with
      | @operator t _ _ ts ht hs =>
          simp only [List.length_cons] at hd
          obtain ⟨depth, rfl⟩ : ∃ d, depth = d + 1 := ⟨depth - 1, by omega⟩
          obtain ⟨first, more, middle, rfl, hfirst, hmore⟩ := ih hs (show _ ≤ depth by omega)
          simp only [ReadsSequence, List.cons_append, operations, ht, hfirst, hmore]
  | sign _ ih =>
      cases hs with
      | @sign t _ _ ts ht hs =>
          simp only [List.length_cons] at hd
          obtain ⟨depth, rfl⟩ : ∃ d, depth = d + 1 := ⟨depth - 1, by omega⟩
          obtain ⟨first, more, middle, rfl, hfirst, hmore⟩ := ih hs (show _ ≤ depth + 1 by omega)
          refine ⟨.sign _ :: first, more, middle, rfl, ?_, hmore⟩
          rw [List.cons_append, signedPrimary_cons_sign ht, hfirst]
          rfl
  | @operand value parts hmore ih =>
      cases hs with
      | @operand us _ _ ts hvalue hs =>
          simp only [List.length_append] at hd
          obtain ⟨depth, rfl⟩ : ∃ d, depth = d + 1 := ⟨depth - 1, by omega⟩
          refine ⟨[.operand value], parts, ts ++ rest, rfl, ?_, ih hs (by omega)⟩
          have hread := hvalue.reads (ts ++ rest) (head?_ne_opening hs hmore hrest) depth (by omega)
          obtain ⟨t, us, rfl, ht⟩ := hvalue.starts
          rw [List.append_assoc, List.cons_append, signedPrimary_of_not_sign ht,
            ← List.cons_append, hread]
          rfl

/-- Enough depth reads a sum as a whole. -/
def ReadsSum (ts : List Token) (e : Expr) : Prop :=
  ∀ rest, Stops rest → ∀ depth, 6 * ts.length + 3 ≤ depth →
    expression depth (ts ++ rest) = some (e, rest)

theorem readsSum {parts : List Part} {ts : List Token} {e : Expr}
    (hs : Spelled ReadsPrimary parts ts) (h : Grouped .sum parts e) : ReadsSum ts e := by
  intro rest hrest depth hd
  obtain ⟨depth, rfl⟩ : ∃ d, depth = d + 1 := ⟨depth - 1, by omega⟩
  have hshape := h.shaped .done
  rw [List.append_nil] at hshape
  obtain ⟨first, more, middle, rfl, hfirst, hmore⟩ :=
    readsSequence hshape hs hrest (show _ ≤ depth by omega)
  simp only [expression, hfirst, Option.bind_eq_bind, Option.bind_some, hmore,
    regroup?_of_grouped h]

/-! ## Primaries -/

theorem readsPrimary_number (numeral : Numeral) :
    ReadsPrimary [.number numeral] (.number numeral.toFloat) where
  starts := ⟨_, _, rfl, rfl⟩
  reads rest _ depth hd := by
    obtain ⟨depth, rfl⟩ : ∃ d, depth = d + 1 := ⟨depth - 1, by simp at hd; omega⟩
    rfl

theorem readsPrimary_reference (name : String) :
    ReadsPrimary [.reference name] (.parameter name) where
  starts := ⟨_, _, rfl, rfl⟩
  reads rest _ depth hd := by
    obtain ⟨depth, rfl⟩ : ∃ d, depth = d + 1 := ⟨depth - 1, by simp at hd; omega⟩
    rfl

theorem application_eq_none {rest : List Token} (h : rest.head? ≠ some .opening) (depth : Nat)
    (name : String) : application depth name rest = none := by
  unfold application
  split
  · exact absurd rfl h
  · rfl

theorem readsPrimary_name (name : String) : ReadsPrimary [.name name] (.bare name) where
  starts := ⟨_, _, rfl, rfl⟩
  reads rest hrest depth hd := by
    obtain ⟨depth, rfl⟩ : ∃ d, depth = d + 1 := ⟨depth - 1, by simp at hd; omega⟩
    rw [List.singleton_append, primary, application_eq_none hrest]
    rfl

theorem readsPrimary_group {ts : List Token} {e : Expr} (h : ReadsSum ts e) :
    ReadsPrimary (.opening :: ts ++ [.closing]) e where
  starts := ⟨_, _, rfl, rfl⟩
  reads rest _ depth hd := by
    simp only [List.length_append, List.length_cons] at hd
    obtain ⟨depth, rfl⟩ : ∃ d, depth = d + 1 := ⟨depth - 1, by omega⟩
    have hinner := h (.closing :: rest) (stops_closing rest) depth (by omega)
    rw [List.append_assoc, List.cons_append, List.singleton_append, primary, hinner]
    rfl

/-- An argument list can be empty because nothing is read off a `)`. -/
theorem expression_closing (depth : Nat) (rest : List Token) :
    expression depth (.closing :: rest) = none := by
  rcases depth with _ | _ | _ | depth <;> rfl

/-- What stands before the `)` after the first argument of a call. -/
theorem stops_furtherArguments (arguments : List (List Token)) (rest : List Token) :
    Stops (arguments.flatMap (Token.comma :: ·) ++ .closing :: rest) := by
  cases arguments with
  | nil => exact stops_closing rest
  | cons argument arguments => exact stops_comma _

theorem furtherArguments_reads {read : List (List Token × Expr)}
    (h : ∀ argument ∈ read, ReadsSum argument.1 argument.2) (rest : List Token) {depth : Nat}
    (hd : 6 * ((read.map Prod.fst).flatMap (Token.comma :: ·)).length ≤ depth) :
    furtherArguments depth
        ((read.map Prod.fst).flatMap (Token.comma :: ·) ++ .closing :: rest) =
      (read.map Prod.snd, .closing :: rest) := by
  induction read generalizing depth with
  | nil => cases depth <;> rfl
  | cons first read ih =>
      rw [List.forall_mem_cons] at h
      simp only [List.map_cons, List.flatMap_cons, List.length_append, List.length_cons] at hd
      obtain ⟨depth, rfl⟩ : ∃ d, depth = d + 1 := ⟨depth - 1, by omega⟩
      have hfirst := h.1 _ (stops_furtherArguments (read.map Prod.fst) rest) depth (by omega)
      simp only [List.map_cons, List.flatMap_cons, List.cons_append, List.append_assoc,
        furtherArguments, hfirst, ih h.2 (show _ ≤ depth by omega)]

theorem arguments_reads {read : List (List Token × Expr)}
    (h : ∀ argument ∈ read, ReadsSum argument.1 argument.2) (rest : List Token) {depth : Nat}
    (hd : 6 * (Token.joinArguments (read.map Prod.fst)).length + 4 ≤ depth) :
    arguments depth (Token.joinArguments (read.map Prod.fst) ++ .closing :: rest) =
      (read.map Prod.snd, .closing :: rest) := by
  obtain ⟨depth, rfl⟩ : ∃ d, depth = d + 1 := ⟨depth - 1, by omega⟩
  cases read with
  | nil => simp only [List.map_nil, Token.joinArguments, List.intercalate_nil, List.nil_append,
      arguments, expression_closing]
  | cons first read =>
      rw [List.forall_mem_cons] at h
      rw [List.map_cons, joinArguments_cons] at hd ⊢
      rw [List.length_append] at hd
      have hfirst := h.1 _ (stops_furtherArguments (read.map Prod.fst) rest) depth (by omega)
      simp only [List.append_assoc, arguments, hfirst,
        furtherArguments_reads h.2 rest (show _ ≤ depth by omega), List.map_cons]

theorem readsPrimary_call (function : String) {read : List (List Token × Expr)}
    (h : ∀ argument ∈ read, ReadsSum argument.1 argument.2) :
    ReadsPrimary
      (.name function :: .opening :: Token.joinArguments (read.map Prod.fst) ++ [.closing])
      (.call function (read.map Prod.snd)) where
  starts := ⟨_, _, rfl, rfl⟩
  reads rest _ depth hd := by
    simp only [List.length_append, List.length_cons] at hd
    obtain ⟨depth, rfl⟩ : ∃ d, depth = d + 2 := ⟨depth - 2, by omega⟩
    have hargs := arguments_reads h rest (show _ ≤ depth by omega)
    rw [List.append_assoc, List.cons_append, List.cons_append, List.singleton_append, primary,
      application, hargs]
    rfl

/-! ## All phrases -/

/-- A phrase is a sequence of primaries that the reader gets right, and its level is the
one that grouping gives it. -/
def Read (phrase : Phrase) (ts : List Token) (e : Expr) : Prop :=
  ∃ parts, Spelled ReadsPrimary parts ts ∧ Grouped phrase parts e

theorem Read.binary {t : Token} {op : BinaryOp} (ht : t.operator? = some op)
    {lower same higher : Phrase} {left right : List Token} {a b : Expr}
    (group : ∀ {left right}, Grouped same left a → Grouped higher right b →
      Grouped lower (left ++ .operator op :: right) (.binary op a b))
    (ha : Read same left a) (hb : Read higher right b) :
    Read lower (left ++ t :: right) (.binary op a b) := by
  obtain ⟨_, hleft, ha⟩ := ha
  obtain ⟨_, hright, hb⟩ := hb
  exact ⟨_, hleft.append (.operator ht hright), group ha hb⟩

theorem Read.sign {t : Token} {negative : Bool} (ht : t.sign? = some negative)
    {ts : List Token} {e : Expr} (h : Read .unary ts e) :
    Read .unary (t :: ts) (signed negative e) := by
  obtain ⟨_, hs, h⟩ := h
  exact ⟨_, .sign ht hs, .sign h⟩

theorem Read.exponent {base ts : List Token} {a b : Expr} (ha : Read .primary base a)
    (hb : Read .unary ts b) : Read .power (base ++ .power :: ts) (.binary .pow a b) := by
  obtain ⟨_, hbase, ha⟩ := ha
  obtain ⟨_, hts, hb⟩ := hb
  cases ha
  exact ⟨_, hbase.append (.operator rfl hts), .exponent hb⟩

theorem Read.primary {ts : List Token} {e : Expr} (h : ReadsPrimary ts e) :
    Read .primary ts e :=
  ⟨[.operand e], by simpa using Spelled.operand h .nil, .operand⟩

theorem Read.readsSum {ts : List Token} {e : Expr} (h : Read .sum ts e) : ReadsSum ts e := by
  obtain ⟨_, hs, h⟩ := h
  exact Expr.readsSum hs h

theorem read_of_derives {phrase : Phrase} {ts : List Token} {e : Expr}
    (h : Derives phrase ts e) : Read phrase ts e := by
  induction h with
  | add _ _ iha ihb => exact .binary rfl (.sum rfl) iha ihb
  | sub _ _ iha ihb => exact .binary rfl (.sum rfl) iha ihb
  | term _ ih =>
      obtain ⟨parts, hs, h⟩ := ih
      exact ⟨parts, hs, .term h⟩
  | mul _ _ iha ihb => exact .binary rfl (.product rfl) iha ihb
  | div _ _ iha ihb => exact .binary rfl (.product rfl) iha ihb
  | unary _ ih =>
      obtain ⟨parts, hs, h⟩ := ih
      exact ⟨parts, hs, .unary h⟩
  | neg _ ih => exact Read.sign (t := .minus) rfl ih
  | pos _ ih => exact Read.sign (t := .plus) rfl ih
  | power _ ih =>
      obtain ⟨parts, hs, h⟩ := ih
      exact ⟨parts, hs, .power h⟩
  | exponent _ _ iha ihb => exact .exponent iha ihb
  | primary _ ih =>
      obtain ⟨parts, hs, h⟩ := ih
      exact ⟨parts, hs, .primary h⟩
  | number numeral => exact .primary (readsPrimary_number numeral)
  | bare name => exact .primary (readsPrimary_name name)
  | parameter name => exact .primary (readsPrimary_reference name)
  | call function _ ih => exact .primary (readsPrimary_call function fun a ha => (ih a ha).readsSum)
  | group _ ih => exact .primary (readsPrimary_group ih.readsSum)

theorem ofTokens?_of_derives {ts : List Token} {e : Expr} (h : Derives .sum ts e) :
    ofTokens? ts = some e := by
  have hread := (read_of_derives h).readsSum [] stops_nil (6 * ts.length + 6) (by omega)
  rw [List.append_nil] at hread
  rw [ofTokens?, hread]

theorem ofTokens?_eq_some_iff {ts : List Token} {e : Expr} :
    ofTokens? ts = some e ↔ Derives .sum ts e :=
  ⟨derives_of_ofTokens?, ofTokens?_of_derives⟩

end CadTimeline.Expr
