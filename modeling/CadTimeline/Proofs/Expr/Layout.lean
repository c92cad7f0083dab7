import CadTimeline.Proofs.Decimal.RoundTrip
import CadTimeline.Proofs.Expr.Grammar
import CadTimeline.Proofs.Expr.Spelling

/-!
# Writing trees

A layout is a tree together with the parentheses and the `+` signs that its tokens have
beyond need. Parentheses that an operand needs where it stands are not part of it.
-/

namespace CadTimeline

inductive Layout where
  | number (numeral : Numeral)
  | parameter (name : String)
  | bare (name : String)
  | call (function : String) (args : List Layout)
  | neg (operand : Layout)
  | binary (op : BinaryOp) (left right : Layout)
  /-- A sign that changes nothing. -/
  | pos (operand : Layout)
  /-- Parentheses around a whole. -/
  | group (inside : Layout)

/-! ## Levels -/

namespace BinaryOp

def token : BinaryOp → Token
  | add => .plus
  | sub => .minus
  | mul => .star
  | div => .slash
  | pow => .power

/-- What an operator and its operands are together. -/
def phrase : BinaryOp → Phrase
  | add => .sum
  | sub => .sum
  | mul => .term
  | div => .term
  | pow => .power

/-- What can stand before the operator without parentheses. -/
def leftPhrase : BinaryOp → Phrase
  | add => .sum
  | sub => .sum
  | mul => .term
  | div => .term
  | pow => .primary

/-- What can stand behind the operator without parentheses. -/
def rightPhrase : BinaryOp → Phrase
  | add => .term
  | sub => .term
  | mul => .unary
  | div => .unary
  | pow => .unary

end BinaryOp

namespace Layout

/-! ## What a layout stands for -/

mutual

def tree : Layout → Expr
  | number numeral => .number numeral.toFloat
  | parameter name => .parameter name
  | bare name => .bare name
  | call function args => .call function (trees args)
  | neg operand => .neg operand.tree
  | binary op left right => .binary op left.tree right.tree
  | pos operand => operand.tree
  | group inside => inside.tree

def trees : List Layout → List Expr
  | [] => []
  | layout :: layouts => layout.tree :: trees layouts

end

/-! ## Its tokens -/

def phrase : Layout → Phrase
  | neg _ => .unary
  | pos _ => .unary
  | binary op _ _ => op.phrase
  | _ => .primary

/-- Tokens of a phrase, in parentheses where the place needs a tighter one. -/
def fit (place own : Phrase) (ts : List Token) : List Token :=
  if place.level ≤ own.level then ts else .opening :: ts ++ [.closing]

mutual

def tokens : Layout → List Token
  | number numeral => [.number numeral]
  | parameter name => [.reference name]
  | bare name => [.name name]
  | call function args =>
    .name function :: .opening :: Token.joinArguments (argumentTokens args) ++ [.closing]
  | neg operand => .minus :: fit .unary operand.phrase operand.tokens
  | binary op left right =>
    fit op.leftPhrase left.phrase left.tokens ++
      op.token :: fit op.rightPhrase right.phrase right.tokens
  | pos operand => .plus :: fit .unary operand.phrase operand.tokens
  | group inside => .opening :: inside.tokens ++ [.closing]

def argumentTokens : List Layout → List (List Token)
  | [] => []
  | layout :: layouts => layout.tokens :: argumentTokens layouts

end

theorem trees_eq_map (layouts : List Layout) : trees layouts = layouts.map tree := by
  induction layouts with
  | nil => rfl
  | cons layout layouts ih => rw [trees, ih, List.map_cons]

theorem argumentTokens_eq_map (layouts : List Layout) :
    argumentTokens layouts = layouts.map tokens := by
  induction layouts with
  | nil => rfl
  | cons layout layouts ih => rw [argumentTokens, ih, List.map_cons]

end Layout

/-! ## A layout is a phrase -/

theorem derives_fit (place : Phrase) {own : Phrase} {ts : List Token} {e : Expr}
    (h : Derives own ts e) : Derives place (Layout.fit place own ts) e := by
  rw [Layout.fit]
  split
  · rename_i hle
    exact h.loosen hle
  · exact (Derives.group (h.loosen (Nat.zero_le _))).loosen (by cases place <;> decide)

theorem derives_binary (op : BinaryOp) {left right : List Token} {a b : Expr}
    (ha : Derives op.leftPhrase left a) (hb : Derives op.rightPhrase right b) :
    Derives op.phrase (left ++ op.token :: right) (.binary op a b) := by
  cases op with
  | add => exact .add ha hb
  | sub => exact .sub ha hb
  | mul => exact .mul ha hb
  | div => exact .div ha hb
  | pow => exact .exponent ha hb

namespace Layout

theorem derives_call (function : String) {args : List Layout}
    (h : ∀ arg ∈ args, Derives .sum arg.tokens arg.tree) :
    Derives .primary (call function args).tokens (call function args).tree := by
  have hmap : ∀ argument ∈ args.map fun arg => (arg.tokens, arg.tree),
      Derives .sum argument.1 argument.2 := List.forall_mem_map.mpr h
  have hcall := Derives.call function hmap
  rw [List.map_map, List.map_map] at hcall
  rw [tokens, tree, argumentTokens_eq_map, trees_eq_map]
  exact hcall

mutual

theorem derives (layout : Layout) : Derives layout.phrase layout.tokens layout.tree := by
  cases layout with
  | number numeral => exact .number numeral
  | parameter name => exact .parameter name
  | bare name => exact .bare name
  | call function args => exact derives_call function (derives_sum_of_mem args)
  | neg operand => exact .neg (derives_fit .unary (derives operand))
  | binary op left right =>
      exact derives_binary op (derives_fit _ (derives left)) (derives_fit _ (derives right))
  | pos operand => exact .pos (derives_fit .unary (derives operand))
  | group inside => exact .group ((derives inside).loosen (Nat.zero_le _))

theorem derives_sum_of_mem (layouts : List Layout) :
    ∀ layout ∈ layouts, Derives .sum layout.tokens layout.tree := by
  cases layouts with
  | nil => exact List.forall_mem_nil _
  | cons layout layouts =>
      refine List.forall_mem_cons.mpr ⟨?_, derives_sum_of_mem layouts⟩
      exact (derives layout).loosen (Nat.zero_le _)

end

theorem derives_sum (layout : Layout) : Derives .sum layout.tokens layout.tree :=
  layout.derives.loosen (Nat.zero_le _)

end Layout

/-! ## Trees that can be written -/

namespace Token

def HasLexeme (t : Token) : Prop :=
  ∃ lexeme, Lexeme t lexeme

theorem exists_spells {ts : List Token} (h : ∀ t ∈ ts, HasLexeme t) : ∃ cs, Spells ts cs := by
  induction ts with
  | nil => exact ⟨[], .nil⟩
  | cons t ts ih =>
      rw [List.forall_mem_cons] at h
      obtain ⟨⟨lexeme, hlexeme⟩, hts⟩ := h
      obtain ⟨cs, hcs⟩ := ih hts
      exact ⟨lexeme ++ cs, .token hlexeme hcs⟩

theorem hasLexeme_of_spells {ts : List Token} {cs : List Char} (h : Spells ts cs) :
    ∀ t ∈ ts, HasLexeme t := by
  induction h with
  | nil => exact List.forall_mem_nil _
  | gap _ _ ih => exact ih
  | token ht _ ih => exact List.forall_mem_cons.mpr ⟨⟨_, ht⟩, ih⟩

theorem hasLexeme_name {name : String} (h : Text.isName name.toList = true) :
    HasLexeme (.name name) := by
  rw [← String.ofList_toList (s := name)]
  exact ⟨_, .name h⟩

theorem hasLexeme_reference {name : String} (h : Text.isName name.toList = true) :
    HasLexeme (.reference name) := by
  rw [← String.ofList_toList (s := name)]
  exact ⟨_, .reference h⟩

theorem isName_of_hasLexeme_name {name : String} (h : HasLexeme (.name name)) :
    Text.isName name.toList = true := by
  obtain ⟨_, h⟩ := h
  cases h with
  | name h => rwa [String.toList_ofList]

theorem isName_of_hasLexeme_reference {name : String} (h : HasLexeme (.reference name)) :
    Text.isName name.toList = true := by
  obtain ⟨_, h⟩ := h
  cases h with
  | reference h => rwa [String.toList_ofList]

end Token

/-- Its numbers are neither negative nor undefined and its names are names. -/
inductive Expr.Writable : Expr → Prop
  | number {rank : Nat} (h : rank ≤ Binary64.infinityRank) :
      Writable (.number (Binary64.ofRank false rank))
  | parameter {name : String} (h : Text.isName name.toList = true) : Writable (.parameter name)
  | bare {name : String} (h : Text.isName name.toList = true) : Writable (.bare name)
  | call {function : String} {args : List Expr} (hname : Text.isName function.toList = true)
      (h : ∀ arg ∈ args, Writable arg) : Writable (.call function args)
  | neg {operand : Expr} (h : Writable operand) : Writable (.neg operand)
  | binary {op : BinaryOp} {left right : Expr} (hl : Writable left) (hr : Writable right) :
      Writable (.binary op left right)

theorem Token.forall_mem_joinArguments {p : Token → Prop} (hcomma : p .comma)
    {arguments : List (List Token)} :
    (∀ t ∈ joinArguments arguments, p t) ↔ ∀ ts ∈ arguments, ∀ t ∈ ts, p t := by
  induction arguments with
  | nil => simp [joinArguments]
  | cons first rest ih =>
      cases rest with
      | nil => simp [joinArguments]
      | cons second rest =>
          rw [joinArguments_cons_cons, List.forall_mem_append, List.forall_mem_cons, ih,
            List.forall_mem_cons (a := first)]
          exact and_congr_right' (and_iff_right hcomma)

/-- What has been read can be written. -/
theorem writable_of_derives {phrase : Phrase} {ts : List Token} {e : Expr}
    (h : Derives phrase ts e) (hts : ∀ t ∈ ts, t.HasLexeme) : e.Writable := by
  induction h with
  | term _ ih | unary _ ih | power _ ih | primary _ ih => exact ih hts
  | add _ _ iha ihb | sub _ _ iha ihb | mul _ _ iha ihb | div _ _ iha ihb
  | exponent _ _ iha ihb =>
      rw [List.forall_mem_append, List.forall_mem_cons] at hts
      exact .binary (iha hts.1) (ihb hts.2.2)
  | neg _ ih => exact .neg (ih (List.forall_mem_cons.mp hts).2)
  | pos _ ih => exact ih (List.forall_mem_cons.mp hts).2
  | number numeral => exact .number (Decimal.rank_le _)
  | bare name => exact .bare (Token.isName_of_hasLexeme_name (List.forall_mem_singleton.mp hts))
  | parameter name =>
      exact .parameter (Token.isName_of_hasLexeme_reference (List.forall_mem_singleton.mp hts))
  | @call function arguments _ ih =>
      rw [List.cons_append, List.forall_mem_cons, List.cons_append, List.forall_mem_cons,
        List.forall_mem_append] at hts
      obtain ⟨hname, -, harguments, -⟩ := hts
      refine .call (Token.isName_of_hasLexeme_name hname) fun arg harg => ?_
      obtain ⟨argument, hargument, rfl⟩ := List.mem_map.mp harg
      rw [Token.forall_mem_joinArguments ⟨_, .comma⟩] at harguments
      exact ih argument hargument (harguments _ (List.mem_map_of_mem hargument))
  | group _ ih =>
      rw [List.cons_append, List.forall_mem_cons, List.forall_mem_append] at hts
      exact ih hts.2.1

namespace Layout

theorem hasLexeme_fit (place own : Phrase) {ts : List Token} (h : ∀ t ∈ ts, t.HasLexeme) :
    ∀ t ∈ fit place own ts, t.HasLexeme := by
  rw [fit]
  split
  · exact h
  · rw [List.cons_append, List.forall_mem_cons, List.forall_mem_append, List.forall_mem_singleton]
    exact ⟨⟨_, .opening⟩, h, _, .closing⟩

theorem hasLexeme_operator (op : BinaryOp) : op.token.HasLexeme := by
  cases op with
  | add => exact ⟨_, .plus⟩
  | sub => exact ⟨_, .minus⟩
  | mul => exact ⟨_, .star⟩
  | div => exact ⟨_, .slash⟩
  | pow => exact ⟨_, .power⟩

/-- The layout can be spelled. -/
def IsLexical (layout : Layout) : Prop :=
  ∀ t ∈ layout.tokens, t.HasLexeme

theorem exists_trees_eq {args : List Expr}
    (h : ∀ arg ∈ args, ∃ layout : Layout, layout.tree = arg ∧ layout.IsLexical) :
    ∃ layouts, trees layouts = args ∧ ∀ layout ∈ layouts, layout.IsLexical := by
  induction args with
  | nil => exact ⟨[], rfl, List.forall_mem_nil _⟩
  | cons arg args ih =>
      rw [List.forall_mem_cons] at h
      obtain ⟨⟨layout, rfl, hlayout⟩, hargs⟩ := h
      obtain ⟨layouts, rfl, hlayouts⟩ := ih hargs
      exact ⟨layout :: layouts, rfl, List.forall_mem_cons.mpr ⟨hlayout, hlayouts⟩⟩

/-- The layout has nothing beyond need. -/
theorem exists_of_writable {e : Expr} (h : e.Writable) :
    ∃ layout : Layout, layout.tree = e ∧ layout.IsLexical := by
  induction h with
  | @number rank h =>
      obtain ⟨numeral, cs, hspelled, rfl⟩ := Number.exists_numeral h
      refine ⟨.number numeral, rfl, ?_⟩
      rw [IsLexical, tokens, List.forall_mem_singleton]
      exact ⟨cs, .number hspelled⟩
  | @parameter name h =>
      refine ⟨.parameter name, rfl, ?_⟩
      rw [IsLexical, tokens, List.forall_mem_singleton]
      exact Token.hasLexeme_reference h
  | @bare name h =>
      refine ⟨.bare name, rfl, ?_⟩
      rw [IsLexical, tokens, List.forall_mem_singleton]
      exact Token.hasLexeme_name h
  | @call function args hname _ ih =>
      obtain ⟨layouts, rfl, hlayouts⟩ := exists_trees_eq ih
      refine ⟨.call function layouts, rfl, ?_⟩
      rw [IsLexical, tokens, argumentTokens_eq_map, List.cons_append, List.forall_mem_cons,
        List.cons_append, List.forall_mem_cons, List.forall_mem_append, List.forall_mem_singleton,
        Token.forall_mem_joinArguments ⟨_, .comma⟩, List.forall_mem_map]
      exact ⟨Token.hasLexeme_name hname, ⟨_, .opening⟩, hlayouts, ⟨_, .closing⟩⟩
  | neg _ ih =>
      obtain ⟨operand, rfl, hoperand⟩ := ih
      refine ⟨.neg operand, rfl, ?_⟩
      rw [IsLexical, tokens, List.forall_mem_cons]
      exact ⟨⟨_, .minus⟩, hasLexeme_fit _ _ hoperand⟩
  | @binary op _ _ _ _ ihl ihr =>
      obtain ⟨left, rfl, hleft⟩ := ihl
      obtain ⟨right, rfl, hright⟩ := ihr
      refine ⟨.binary op left right, rfl, ?_⟩
      rw [IsLexical, tokens, List.forall_mem_append, List.forall_mem_cons]
      exact ⟨hasLexeme_fit _ _ hleft, hasLexeme_operator op, hasLexeme_fit _ _ hright⟩

end Layout

end CadTimeline
