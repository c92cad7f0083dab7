import CadTimeline.Parameter.Table
import CadTimeline.Proofs.Expr.Parsing
import CadTimeline.Proofs.Trace.Basic

/-!
# The names that an expression reads

The references of an expression are the names of its text that are not called, in the order in
which they stand there. Its value in a table of parameters depends on the values of these names
alone.
-/

namespace CadTimeline

/-! ## Names of a text -/

namespace Text

/-- A character of a name or of a numeral. -/
def isWordPart (c : Char) : Bool :=
  isNamePart c || c == '.'

/-- Whether an opening parenthesis comes next, perhaps behind gaps. -/
def opensNext (cs : List Char) : Bool :=
  (cs.dropWhile Token.isGap).head? == some '('

/-- The names of a text that are not called, in order. Directly behind a name or a numeral no name
starts, but the one or the other goes on. -/
def freeNamesFrom (inWord : Bool) : List Char → List String
  | [] => []
  | c :: cs =>
    let later := freeNamesFrom (isWordPart c) cs
    if !inWord && isNameStart c && !opensNext (dropName (c :: cs)) then
      String.ofList (takeName (c :: cs)) :: later
    else later

def freeNames (cs : List Char) : List String :=
  freeNamesFrom false cs

example : freeNames "hypot ($r, 2.5e3) - sin(e) * 1.e5 + x1".toList = ["r", "e", "x1"] := by
  decide

variable {inWord : Bool} {c : Char} {cs rest : List Char}

theorem freeNamesFrom_cons (h : isNameStart c = false) :
    freeNamesFrom inWord (c :: cs) = freeNamesFrom (isWordPart c) cs := by
  simp [freeNamesFrom, h]

/-- A word that has begun starts no name. -/
theorem freeNamesFrom_word {word : List Char} (h : ∀ c ∈ word, isWordPart c = true) :
    freeNamesFrom true (word ++ rest) = freeNamesFrom true rest := by
  induction word with
  | nil => rfl
  | cons c word ih =>
      rw [List.forall_mem_cons] at h
      rw [List.cons_append, freeNamesFrom, h.1, ih h.2]
      rfl

/-- Where no name starts, it does not matter what stands in front. -/
theorem freeNamesFrom_eq (h : ∀ c ∈ rest.head?, isNamePart c = false) :
    freeNamesFrom inWord rest = freeNames rest := by
  cases rest with
  | nil => rfl
  | cons c rest =>
      have hstart : isNameStart c = false := by
        rw [Bool.eq_false_iff]
        intro hc
        have hpart := h c rfl
        rw [isNamePart_of_isNameStart hc] at hpart
        contradiction
      rw [freeNames, freeNamesFrom_cons hstart, freeNamesFrom_cons hstart]

theorem freeNamesFrom_digits {digits : List Char} (hne : digits ≠ [])
    (h : ∀ c ∈ digits, c.isDigit = true ∨ c = '.') :
    freeNamesFrom inWord (digits ++ rest) = freeNamesFrom true rest := by
  have hword : ∀ c ∈ digits, isWordPart c = true := by
    intro c hc
    rcases h c hc with hdigit | rfl
    · rw [isWordPart, Token.isNamePart_of_isDigit hdigit, Bool.true_or]
    · rfl
  obtain ⟨c, tail, rfl⟩ := List.exists_cons_of_ne_nil hne
  rw [List.forall_mem_cons] at h hword
  have hstart : isNameStart c = false := by
    rcases h.1 with hdigit | rfl
    · exact Token.isNameStart_of_isDigit hdigit
    · rfl
  rw [List.cons_append, freeNamesFrom_cons hstart, hword.1, freeNamesFrom_word hword.2]

/-- The marker of an exponent is no name. -/
theorem freeNamesFrom_exponent {exponent : Int} {power : List Char}
    (h : Numeral.SpelledExponent exponent power) :
    freeNamesFrom true (power ++ rest) = freeNamesFrom true rest := by
  cases h with
  | absent => rfl
  | @power marker hmarker sign signText digits hsign hdigits hne =>
      have hmarker' : isWordPart marker = true := by
        rcases hmarker with rfl | rfl <;> rfl
      have hread : ∀ inWord, freeNamesFrom inWord (digits ++ rest) = freeNamesFrom true rest :=
        fun _ => freeNamesFrom_digits hne fun c hc => .inl (hdigits c hc)
      rw [List.cons_append, freeNamesFrom, hmarker', List.append_assoc]
      cases hsign with
      | absent => exact hread true
      | plus => exact hread false
      | minus => exact hread false

theorem freeNamesFrom_numeral {n : Numeral} (h : n.Spelled cs) :
    freeNamesFrom inWord (cs ++ rest) = freeNamesFrom true rest := by
  cases h with
  | @mk whole fraction point power exponent hwhole hfraction hexponent hne =>
      have hpoint : ∀ c ∈ whole ++ point, c.isDigit = true ∨ c = '.' := by
        refine List.forall_mem_append.mpr ⟨fun c hc => .inl (hwhole c hc), ?_⟩
        cases hfraction with
        | absent => exact List.forall_mem_nil _
        | point hdigits =>
            exact List.forall_mem_cons.mpr ⟨.inr rfl, fun c hc => .inl (hdigits c hc)⟩
      have hfront : whole ++ point ≠ [] := by
        cases hfraction with
        | absent => simpa using hne
        | point => simp
      rw [← List.append_assoc, List.append_assoc, freeNamesFrom_digits hfront hpoint,
        freeNamesFrom_exponent hexponent]

/-- A name is listed unless it is called. -/
theorem freeNames_name {name : List Char} (h : isName name = true)
    (hrest : ∀ c ∈ rest.head?, isNamePart c = false) :
    freeNames (name ++ rest) =
      (if opensNext rest then [] else [String.ofList name]) ++ freeNames rest := by
  obtain ⟨htake, hdrop⟩ := takeName_of_isName h hrest
  obtain ⟨c, tail, rfl⟩ := exists_cons_of_isName h
  obtain ⟨hc, htail⟩ := isName_cons.mp h
  have hword : ∀ d ∈ c :: tail, isWordPart d = true := by
    refine List.forall_mem_cons.mpr ⟨?_, fun d hd => ?_⟩
    · rw [isWordPart, isNamePart_of_isNameStart hc, Bool.true_or]
    · rw [isWordPart, htail d hd, Bool.true_or]
  rw [List.forall_mem_cons] at hword
  rw [List.cons_append] at htake hdrop ⊢
  rw [freeNames, freeNamesFrom, htake, hdrop, hc, hword.1, freeNamesFrom_word hword.2,
    freeNamesFrom_eq hrest]
  cases opensNext rest <;> rfl

end Text

/-! ## Names of tokens -/

namespace Token

open Text

def name? : Token → Option String
  | name text => some text
  | reference text => some text
  | _ => none

/-- The names among the tokens that are not called, in order. -/
def freeNames : List Token → List String
  | [] => []
  | t :: ts => (if ts.head? = some opening then [] else t.name?.toList) ++ freeNames ts

theorem freeNames_cons {t : Token} {ts : List Token} (h : t.name? = none) :
    freeNames (t :: ts) = freeNames ts := by
  rw [freeNames, h]
  split <;> rfl

theorem opensNext_of_lexeme {t : Token} {lexeme : List Char} (h : Lexeme t lexeme)
    (rest : List Char) : opensNext (lexeme ++ rest) = true ↔ t = opening := by
  obtain ⟨c, tail, rfl, hgap, -⟩ := exists_cons_of_lexeme h
  have hopens : opensNext (c :: tail ++ rest) = true ↔ c = '(' := by
    simp [opensNext, hgap]
  rw [hopens]
  cases h with
  | number h =>
      obtain ⟨d, digits, heq, hd⟩ := head_of_numeral h
      cases heq
      refine iff_of_false ?_ nofun
      rintro rfl
      rcases hd with hd | hd <;> contradiction
  | name h =>
      have hc := (isName_cons.mp h).1
      refine iff_of_false ?_ nofun
      rintro rfl
      contradiction
  | opening => exact iff_of_true rfl rfl
  | _ => exact iff_of_false (by decide) nofun

theorem opensNext_of_spells {ts : List Token} {cs : List Char} (h : Spells ts cs) :
    opensNext cs = true ↔ ts.head? = some opening := by
  induction h with
  | nil => exact iff_of_false (by decide) nofun
  | @gap ts c cs hc _ ih =>
      rw [← ih]
      simp [opensNext, hc]
  | @token t ts lexeme cs ht _ _ =>
      rw [opensNext_of_lexeme ht, List.head?_cons, Option.some_inj]

theorem freeNames_of_lexeme {t : Token} {lexeme rest : List Char} (h : Lexeme t lexeme)
    (hrest : t.Ends rest) : Text.freeNames (lexeme ++ rest) =
      (if opensNext rest then [] else t.name?.toList) ++ Text.freeNames rest := by
  -- No character of a symbol belongs to a word.
  have hsymbol : ∀ later : List String, (if opensNext rest then [] else []) ++ later = later := by
    intro later
    split <;> rfl
  cases h with
  | number h =>
      rw [Text.freeNames, freeNamesFrom_numeral h,
        freeNamesFrom_eq fun c hc => (hrest.word rfl c hc).1]
      exact (hsymbol _).symm
  | name h => exact freeNames_name h fun c hc => (hrest.word rfl c hc).1
  | reference h => exact freeNames_name h fun c hc => (hrest.word rfl c hc).1
  | _ => exact (hsymbol _).symm

theorem freeNames_of_spells {ts : List Token} {cs : List Char} (h : Spells ts cs)
    (hchain : ts.IsChain Fits) : Text.freeNames cs = freeNames ts := by
  induction h with
  | nil => rfl
  | @gap ts c cs hc _ ih =>
      rw [← ih hchain]
      rw [isGap, Bool.or_eq_true, beq_iff_eq, beq_iff_eq] at hc
      rcases hc with rfl | rfl <;> rfl
  | @token t ts lexeme cs ht h ih =>
      obtain ⟨hfits, hchain⟩ := List.isChain_cons.mp hchain
      rw [freeNames_of_lexeme ht (ends_of_fits h hfits), ih hchain, freeNames]
      simp only [opensNext_of_spells h]

end Token

/-! ## References of a tree -/

namespace Expr

open Token (joinArguments joinArguments_cons_cons)

theorem freeNames_joinArguments {arguments : List (List Token × Expr)}
    (h : ∀ argument ∈ arguments, ∀ rest : List Token, rest.head? ≠ some .opening →
      Token.freeNames (argument.1 ++ rest) = argument.2.references ++ Token.freeNames rest)
    (rest : List Token) :
    Token.freeNames (joinArguments (arguments.map Prod.fst) ++ .closing :: rest) =
      allReferences (arguments.map Prod.snd) ++ Token.freeNames rest := by
  have hclosing : Token.freeNames (.closing :: rest) = Token.freeNames rest :=
    Token.freeNames_cons rfl
  induction arguments with
  | nil => exact hclosing
  | cons first more ih =>
      rw [List.forall_mem_cons] at h
      cases more with
      | nil =>
          have hfirst := h.1 (.closing :: rest) (by simp)
          rw [hclosing] at hfirst
          simpa [joinArguments, allReferences] using hfirst
      | cons second more =>
          have hmore := ih h.2
          have hfirst := h.1 (.comma :: (joinArguments ((second :: more).map Prod.fst) ++
            .closing :: rest)) (by simp)
          rw [Token.freeNames_cons rfl, hmore] at hfirst
          rw [List.map_cons, List.map_cons, joinArguments_cons_cons, ← List.map_cons,
            List.append_assoc, List.cons_append, hfirst]
          exact (List.append_assoc _ _ _).symm

/-- The names that are not called are the references; a parenthesis behind the phrase would make a
call of its last name. -/
theorem freeNames_of_derives {phrase : Phrase} {ts : List Token} {e : Expr}
    (h : Derives phrase ts e) {rest : List Token} (hrest : rest.head? ≠ some .opening) :
    Token.freeNames (ts ++ rest) = e.references ++ Token.freeNames rest := by
  induction h generalizing rest with
  | add _ _ iha ihb | sub _ _ iha ihb | mul _ _ iha ihb | div _ _ iha ihb
  | exponent _ _ iha ihb =>
      rw [List.append_assoc, List.cons_append, iha, Token.freeNames_cons rfl, ihb hrest, references,
        List.append_assoc]
      nofun
  | term _ ih | unary _ ih | power _ ih | primary _ ih => exact ih hrest
  | neg _ ih | pos _ ih =>
      rw [List.cons_append, Token.freeNames_cons rfl]
      exact ih hrest
  | number numeral => exact Token.freeNames_cons rfl
  | bare name | parameter name =>
      rw [List.singleton_append, Token.freeNames, if_neg hrest]
      rfl
  | @call function arguments _ ih =>
      have harguments := freeNames_joinArguments
        (fun argument hargument _ => ih argument hargument) rest
      rw [List.cons_append, List.cons_append, List.append_assoc, Token.freeNames, List.cons_append,
        List.head?_cons, if_pos rfl, List.nil_append, Token.freeNames_cons rfl]
      exact harguments
  | group _ ih =>
      rw [List.append_assoc, List.cons_append, Token.freeNames_cons rfl, ih]
      · exact congrArg _ (Token.freeNames_cons rfl)
      · nofun

theorem references_of_parse? {cs : List Char} {e : Expr} (h : parse? cs = some e) :
    e.references = Text.freeNames cs := by
  obtain ⟨ts, hspells, he⟩ := parse?_eq_some_iff.mp h
  have hend : ([] : List Token).head? ≠ some .opening := nofun
  have hnames := freeNames_of_derives he hend
  rw [Token.freeNames_of_spells hspells (separate_of_derives he).chain]
  simpa [Token.freeNames] using hnames.symm

/-- Tables with the same values of the references are as good as one. -/
theorem eval_of_agree {table other : ParameterTable} {e : Expr}
    (h : ∀ name ∈ e.references, other.get? name = table.get? name) (bareNames : BareNames) :
    eval (other.scope bareNames) e = eval (table.scope bareNames) e := by
  have hagree : (table.scope bareNames).AgreeOff (· ∉ e.references) (other.scope bareNames) :=
    ⟨rfl, fun name hname => h name (not_not.mp hname)⟩
  exact eval_congr hagree fun name hname hhidden => hhidden hname

/-- An expression that is read refers to the names of its text that are not called, in their order.
Tables that agree on these give it the same value, or the same fault. -/
theorem reads_freeNames {cs : List Char} {e : Expr} (h : parse? cs = some e) :
    e.references = Text.freeNames cs ∧
    ∀ (bareNames : BareNames) (table other : ParameterTable),
      (∀ name ∈ Text.freeNames cs, table.get? name = other.get? name) →
      eval (table.scope bareNames) e = eval (other.scope bareNames) e := by
  have hreferences := references_of_parse? h
  refine ⟨hreferences, fun bareNames table other hagree => ?_⟩
  rw [← hreferences] at hagree
  exact eval_of_agree hagree bareNames

/-- Two names in the text are called, and a numeral looks like one more. The tables differ in a
parameter that the text does not name. -/
theorem exists_reads_freeNames :
    ∃ e, parse? "hypot ($r, 2.5e3) - sin(e) * 1.e5 + x1".toList = some e ∧
      e.references = ["r", "e", "x1"] ∧
      ∀ bareNames : BareNames,
        eval (ParameterTable.scope ⟨[⟨"r", 10, "10", 1⟩, ⟨"e5", 2.5, "2.5", 2⟩]⟩ bareNames) e =
          eval (ParameterTable.scope ⟨[⟨"e5", 7, "7", 1⟩, ⟨"r", 10, "5 * 2", 2⟩]⟩ bareNames) e := by
  have hparse : (parse? "hypot ($r, 2.5e3) - sin(e) * 1.e5 + x1".toList).isSome = true := by
    decide +kernel
  obtain ⟨e, he⟩ := Option.isSome_iff_exists.mp hparse
  have hnames : Text.freeNames "hypot ($r, 2.5e3) - sin(e) * 1.e5 + x1".toList =
      ["r", "e", "x1"] := by decide
  obtain ⟨hreferences, hagree⟩ := reads_freeNames he
  rw [hnames] at hreferences hagree
  refine ⟨e, he, hreferences, fun bareNames => hagree bareNames _ _ fun name hname => ?_⟩
  simp only [List.mem_cons, List.not_mem_nil, or_false] at hname
  rcases hname with rfl | rfl | rfl <;> rfl

end Expr

end CadTimeline
