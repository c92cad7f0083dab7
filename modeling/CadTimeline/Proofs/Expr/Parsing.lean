import CadTimeline.Expr.Eval
import CadTimeline.Proofs.Except
import CadTimeline.Proofs.Expr.Complete
import CadTimeline.Proofs.Expr.Layout

/-!
# Reading texts

A text is read as an expression exactly when it is a spelling of a sum of the grammar.
In a phrase no two neighbours could be one token, so that the choice of the longest
token never matters.
-/

namespace CadTimeline

/-! ## Neighbours in a phrase -/

namespace Token

/-- A phrase can start with this token. -/
def isFirst : Token → Bool
  | star => false
  | power => false
  | slash => false
  | closing => false
  | comma => false
  | _ => true

/-- A phrase can end with this token. -/
def isLast (t : Token) : Bool :=
  t.isWord || t == closing

/-- The tokens are separate whatever the gaps between them are. -/
structure Separate (ts : List Token) : Prop where
  first : ∃ t ∈ ts.head?, t.isFirst = true
  last : ∃ t ∈ ts.getLast?, t.isLast = true
  chain : ts.IsChain Fits

theorem fits_of_isFirst {t u : Token} (ht : t.isWord = false) (hu : u.isFirst = true) :
    t.Fits u := by
  refine ⟨by simp [ht], fun _ => ?_⟩
  cases u <;> first | rfl | contradiction

theorem fits_of_isLast {t u : Token} (ht : t.isLast = true) (hu : u.isWord = false) :
    t.Fits u := by
  refine ⟨fun _ => hu, ?_⟩
  rintro rfl
  contradiction

namespace Separate

theorem word {t : Token} (h : t.isWord = true) : Separate [t] where
  first := ⟨t, rfl, by cases t <;> first | rfl | contradiction⟩
  last := ⟨t, rfl, by simp [isLast, h]⟩
  chain := .singleton t

theorem cons {t : Token} {ts : List Token} (h : Separate ts) (hfirst : t.isFirst = true)
    (hfits : ∀ u ∈ ts.head?, t.Fits u) : Separate (t :: ts) where
  first := ⟨t, rfl, hfirst⟩
  last := by
    obtain ⟨u, hu, hlast⟩ := h.last
    exact ⟨u, by rw [List.getLast?_cons, hu]; rfl, hlast⟩
  chain := List.isChain_cons.mpr ⟨hfits, h.chain⟩

theorem sign {t : Token} {negative : Bool} (ht : t.sign? = some negative) {ts : List Token}
    (h : Separate ts) : Separate (t :: ts) := by
  have hparts : t.isFirst = true ∧ t.isWord = false := by
    cases t <;> first | contradiction | exact ⟨rfl, rfl⟩
  refine h.cons hparts.1 fun u hu => fits_of_isFirst hparts.2 ?_
  obtain ⟨first, hfirst, hisFirst⟩ := h.first
  rw [hfirst] at hu
  cases hu
  exact hisFirst

/-- Two phrases with an operator or a comma between them. -/
theorem append_cons {t : Token} {left right : List Token} (hleft : Separate left)
    (hright : Separate right) (ht : t.isWord = false) : Separate (left ++ t :: right) := by
  obtain ⟨a, ha, hfirst⟩ := hleft.first
  obtain ⟨b, hb, hlast⟩ := hleft.last
  obtain ⟨c, hc, hfirst'⟩ := hright.first
  obtain ⟨d, hd, hlast'⟩ := hright.last
  constructor
  · exact ⟨a, by rw [List.head?_append, ha]; rfl, hfirst⟩
  · exact ⟨d, by rw [List.getLast?_append, List.getLast?_cons, hd]; rfl, hlast'⟩
  · refine List.isChain_append.mpr ⟨hleft.chain, List.isChain_cons.mpr ⟨?_, hright.chain⟩, ?_⟩
    · intro u hu
      rw [hc] at hu
      cases hu
      exact fits_of_isFirst ht hfirst'
    · rintro u hu v ⟨⟩
      rw [hb] at hu
      cases hu
      exact fits_of_isLast hlast ht

/-- A phrase between parentheses. -/
theorem group {ts : List Token} (h : Separate ts) : Separate (.opening :: ts ++ [.closing]) := by
  obtain ⟨a, ha, hfirst⟩ := h.first
  obtain ⟨b, hb, hlast⟩ := h.last
  constructor
  · exact ⟨_, rfl, rfl⟩
  · exact ⟨_, List.getLast?_concat, rfl⟩
  · refine List.isChain_append.mpr ⟨List.isChain_cons.mpr ⟨?_, h.chain⟩, .singleton _, ?_⟩
    · intro u hu
      rw [ha] at hu
      cases hu
      exact fits_of_isFirst rfl hfirst
    · rintro u hu v ⟨⟩
      rw [List.getLast?_cons, hb] at hu
      cases hu
      exact fits_of_isLast hlast rfl

theorem joinArguments {arguments : List (List Token)} (h : ∀ ts ∈ arguments, Separate ts)
    (hne : arguments ≠ []) : Separate (Token.joinArguments arguments) := by
  induction arguments with
  | nil => exact absurd rfl hne
  | cons first rest ih =>
      rw [List.forall_mem_cons] at h
      cases rest with
      | nil => simpa [Token.joinArguments] using h.1
      | cons second rest =>
          have hrest := ih h.2 (by simp)
          rw [Token.joinArguments_cons_cons]
          exact h.1.append_cons hrest rfl

/-- Arguments between the parentheses of a call, if there are any. -/
theorem argumentList {arguments : List (List Token)} (h : ∀ ts ∈ arguments, Separate ts) :
    Separate (.opening :: Token.joinArguments arguments ++ [.closing]) := by
  by_cases hne : arguments = []
  · subst hne
    refine ⟨⟨_, rfl, rfl⟩, ⟨_, rfl, rfl⟩, List.isChain_cons.mpr ⟨?_, .singleton _⟩⟩
    rintro u ⟨⟩
    exact ⟨fun _ => rfl, fun _ => rfl⟩
  · exact (joinArguments h hne).group

end Separate

end Token

theorem separate_of_derives {phrase : Phrase} {ts : List Token} {e : Expr}
    (h : Derives phrase ts e) : Token.Separate ts := by
  induction h with
  | add _ _ iha ihb | sub _ _ iha ihb | mul _ _ iha ihb | div _ _ iha ihb
  | exponent _ _ iha ihb => exact iha.append_cons ihb rfl
  | term _ ih | unary _ ih | power _ ih | primary _ ih => exact ih
  | neg _ ih => exact .sign rfl ih
  | pos _ ih => exact .sign rfl ih
  | number => exact .word rfl
  | bare => exact .word rfl
  | parameter => exact .word rfl
  | call function _ ih =>
      refine Token.Separate.cons (.argumentList ?_) rfl ?_
      · intro ts hts
        obtain ⟨argument, hargument, rfl⟩ := List.mem_map.mp hts
        exact ih argument hargument
      · rintro u ⟨⟩
        exact Token.fits_of_isLast rfl rfl
  | group _ ih => exact ih.group

/-! ## Texts -/

namespace Expr

/-- The text is a spelling of the tree. -/
def IsSpelled (e : Expr) (cs : List Char) : Prop :=
  ∃ ts, Token.Spells ts cs ∧ Derives .sum ts e

theorem parse?_eq_some_iff {cs : List Char} {e : Expr} :
    parse? cs = some e ↔ e.IsSpelled cs := by
  rw [parse?, Option.bind_eq_some_iff]
  constructor
  · rintro ⟨ts, hscan, he⟩
    exact ⟨ts, Token.spells_of_scan hscan, ofTokens?_eq_some_iff.mp he⟩
  · rintro ⟨ts, hspells, he⟩
    have hscan := Token.scan_of_spells hspells (separate_of_derives he).chain
    exact ⟨ts, hscan, ofTokens?_eq_some_iff.mpr he⟩

theorem parse?_of_layout {layout : Layout} {cs : List Char}
    (h : Token.Spells layout.tokens cs) : parse? cs = some layout.tree :=
  parse?_eq_some_iff.mpr ⟨_, h, layout.derives_sum⟩

/-! ## Faults -/

theorem resolve_ne_unreadable (name : String) (value : Option Float) :
    resolve name value ≠ .error .unreadable := by
  cases value <;> simp [resolve]

mutual

theorem eval_ne_unreadable (scope : Scope) (e : Expr) : eval scope e ≠ .error .unreadable := by
  cases e with
  | number value => simp [eval]
  | parameter name => exact resolve_ne_unreadable name _
  | bare name => exact resolve_ne_unreadable name _
  | call function args =>
      rw [eval]
      split
      · apply bind_ne_error (evalAll_ne_unreadable scope args)
        intro values
        split
        · nofun
        · nofun
      · nofun
  | neg operand =>
      rw [eval]
      exact bind_ne_error (eval_ne_unreadable scope operand) fun x => nofun
  | binary op left right =>
      rw [eval]
      apply bind_ne_error (eval_ne_unreadable scope left)
      intro x
      exact bind_ne_error (eval_ne_unreadable scope right) fun y => nofun

theorem evalAll_ne_unreadable (scope : Scope) (es : List Expr) :
    evalAll scope es ≠ .error .unreadable := by
  cases es with
  | nil => nofun
  | cons e es =>
      rw [evalAll]
      apply bind_ne_error (eval_ne_unreadable scope e)
      intro x
      exact bind_ne_error (evalAll_ne_unreadable scope es) fun xs => nofun

end

theorem evalText_eq_unreadable_iff {scope : Scope} {text : String} :
    evalText scope text = .error .unreadable ↔ ¬∃ e : Expr, e.IsSpelled text.toList := by
  rw [evalText]
  cases hparse : parse? text.toList with
  | none =>
      refine iff_of_true rfl ?_
      rintro ⟨e, he⟩
      rw [parse?_eq_some_iff.mpr he] at hparse
      contradiction
  | some e =>
      refine iff_of_false ?_ fun h => h ⟨e, parse?_eq_some_iff.mp hparse⟩
      apply bind_ne_error (eval_ne_unreadable scope e)
      intro value
      split <;> nofun

/-- Exactly the spellings of sums are read, each as its tree, and every other text is
unreadable. A tree is read back whatever parentheses, signs and gaps it is written
with, and every tree of numerals and names can be written. -/
theorem parse_exact :
    (∀ (cs : List Char) (e : Expr), parse? cs = some e ↔ e.IsSpelled cs) ∧
    (∀ (scope : Scope) (text : String), evalText scope text = .error .unreadable ↔
      ¬∃ e : Expr, e.IsSpelled text.toList) ∧
    (∀ (layout : Layout) (cs : List Char), Token.Spells layout.tokens cs →
      parse? cs = some layout.tree) ∧
    (∀ e : Expr, e.Writable ↔
      ∃ (layout : Layout) (cs : List Char), layout.tree = e ∧ Token.Spells layout.tokens cs) := by
  refine ⟨fun cs e => parse?_eq_some_iff, fun scope text => evalText_eq_unreadable_iff,
    fun layout cs => parse?_of_layout, fun e => ⟨fun h => ?_, ?_⟩⟩
  · obtain ⟨layout, htree, hlayout⟩ := Layout.exists_of_writable h
    obtain ⟨cs, hcs⟩ := Token.exists_spells hlayout
    exact ⟨layout, cs, htree, hcs⟩
  · rintro ⟨layout, cs, rfl, hcs⟩
    exact writable_of_derives layout.derives_sum (Token.hasLexeme_of_spells hcs)

end Expr

end CadTimeline
