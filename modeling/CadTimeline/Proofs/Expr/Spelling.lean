import CadTimeline.Expr.Token
import CadTimeline.Proofs.Decimal.Spelling
import Mathlib.Data.List.Chain

/-!
# Tokens and their texts

A text may be cut into tokens in more than one way: `ab` is one name or two. Every cut
in which neighbours fit together is the one that the scanner finds.
-/

namespace CadTimeline

/-! ## Names -/

namespace Text

theorem isName_cons {c : Char} {cs : List Char} :
    isName (c :: cs) = true ↔ isNameStart c = true ∧ ∀ d ∈ cs, isNamePart d = true := by
  by_cases hc : isNameStart c = true
  · simp [isName, dropName, hc, List.dropWhile_eq_nil_iff]
  · simp [isName, dropName, hc]

theorem exists_cons_of_isName {cs : List Char} (h : isName cs = true) :
    ∃ c tail, cs = c :: tail := by
  cases cs with
  | nil => contradiction
  | cons c tail => exact ⟨c, tail, rfl⟩

theorem isName_takeName {cs : List Char} (h : takeName cs ≠ []) : isName (takeName cs) = true := by
  cases cs with
  | nil => exact absurd rfl h
  | cons c rest =>
      rw [takeName] at h ⊢
      split at h
      · rename_i hc
        rw [if_pos hc, isName_cons]
        exact ⟨hc, fun d hd => List.mem_takeWhile_imp hd⟩
      · exact absurd rfl h

theorem takeName_of_isName {cs rest : List Char} (h : isName cs = true)
    (hrest : ∀ c ∈ rest.head?, isNamePart c = false) :
    takeName (cs ++ rest) = cs ∧ dropName (cs ++ rest) = rest := by
  obtain ⟨c, tail, rfl⟩ := exists_cons_of_isName h
  obtain ⟨hc, htail⟩ := isName_cons.mp h
  rw [List.cons_append, takeName, dropName, if_pos hc, if_pos hc,
    List.takeWhile_append_of_pos htail, List.dropWhile_append_of_pos htail]
  cases rest with
  | nil => simp
  | cons d rest => simp [hrest d rfl]

end Text

namespace Token

open Text

/-! ## The grammar -/

/-- The text is one token. -/
inductive Lexeme : Token → List Char → Prop
  | number {n : Numeral} {cs : List Char} (h : n.Spelled cs) : Lexeme (.number n) cs
  | name {cs : List Char} (h : isName cs = true) : Lexeme (.name (String.ofList cs)) cs
  | reference {cs : List Char} (h : isName cs = true) :
      Lexeme (.reference (String.ofList cs)) ('$' :: cs)
  | plus : Lexeme .plus ['+']
  | minus : Lexeme .minus ['-']
  | star : Lexeme .star ['*']
  | power : Lexeme .power ['*', '*']
  | slash : Lexeme .slash ['/']
  | opening : Lexeme .opening ['(']
  | closing : Lexeme .closing [')']
  | comma : Lexeme .comma [',']

/-- The text can be read as these tokens, with or without gaps between them. -/
inductive Spells : List Token → List Char → Prop
  | nil : Spells [] []
  | gap {ts : List Token} {c : Char} {cs : List Char} (hc : isGap c = true) (h : Spells ts cs) :
      Spells ts (c :: cs)
  | token {t : Token} {ts : List Token} {lexeme cs : List Char} (ht : Lexeme t lexeme)
      (h : Spells ts cs) : Spells (t :: ts) (lexeme ++ cs)

theorem Lexeme.spells {t : Token} {lexeme : List Char} (h : Lexeme t lexeme) :
    Spells [t] lexeme := by
  rw [← List.append_nil lexeme]
  exact .token h .nil

/-! ## What is scanned is spelled -/

theorem lexeme_of_next {cs rest : List Char} {t : Token} (h : next cs = some (t, rest)) :
    ∃ lexeme, Lexeme t lexeme ∧ cs = lexeme ++ rest := by
  unfold next at h
  split at h
  case h_1 => contradiction
  case h_2 => cases h; exact ⟨_, .plus, rfl⟩
  case h_3 => cases h; exact ⟨_, .minus, rfl⟩
  case h_4 => cases h; exact ⟨_, .power, rfl⟩
  case h_5 => cases h; exact ⟨_, .star, rfl⟩
  case h_6 => cases h; exact ⟨_, .slash, rfl⟩
  case h_7 => cases h; exact ⟨_, .opening, rfl⟩
  case h_8 => cases h; exact ⟨_, .closing, rfl⟩
  case h_9 => cases h; exact ⟨_, .comma, rfl⟩
  case h_10 cs =>
    split at h
    · contradiction
    · rename_i hname
      cases h
      exact ⟨_, .reference (isName_takeName hname), by rw [List.cons_append, takeName_append_dropName]⟩
  case h_11 =>
    split at h
    · obtain ⟨⟨n, rest'⟩, hscan, heq⟩ := Option.map_eq_some_iff.mp h
      cases heq
      obtain ⟨spelling, hspelled, rfl⟩ := Numeral.spelled_of_scan hscan
      exact ⟨spelling, .number hspelled, rfl⟩
    · rename_i hname
      cases h
      exact ⟨_, .name (isName_takeName hname), (takeName_append_dropName _).symm⟩

theorem spells_of_scan {cs : List Char} {ts : List Token} (h : scan cs = some ts) :
    Spells ts cs := by
  induction cs using scan.induct generalizing ts with
  | case1 =>
      rw [scan] at h
      cases h
      exact .nil
  | case2 c cs hc ih =>
      rw [scan, if_pos hc] at h
      exact .gap hc (ih h)
  | case3 c cs hc hnext =>
      rw [scan_cons hc, hnext] at h
      contradiction
  | case4 c cs hc t rest hnext ih =>
      rw [scan_cons hc, hnext] at h
      obtain ⟨us, hus, rfl⟩ := Option.map_eq_some_iff.mp h
      obtain ⟨lexeme, hlexeme, hcs⟩ := lexeme_of_next hnext
      rw [hcs]
      exact .token hlexeme (ih hus)

/-! ## What is spelled is scanned -/

def isWord : Token → Bool
  | number _ => true
  | name _ => true
  | reference _ => true
  | _ => false

def isStar : Token → Bool
  | star => true
  | power => true
  | _ => false

/-- Without a gap between them the tokens stay two. -/
def Fits (t u : Token) : Prop :=
  (t.isWord = true → u.isWord = false) ∧ (t = .star → u.isStar = false)

/-- What follows the token could not go on with it. -/
structure Ends (t : Token) (rest : List Char) : Prop where
  word : t.isWord = true → ∀ c ∈ rest.head?, isNamePart c = false ∧ c ≠ '.'
  star : t = .star → ∀ c ∈ rest.head?, c ≠ '*'

/-- The characters with a token of their own or at the start of one. -/
def symbols : List Char :=
  ['+', '-', '*', '/', '(', ')', ',', '$']

theorem next_of_not_mem_symbols {c : Char} (h : c ∉ symbols) (cs : List Char) :
    next (c :: cs) =
      if takeName (c :: cs) = [] then
        (Numeral.scan (c :: cs)).map fun (numeral, rest) => (number numeral, rest)
      else some (name (String.ofList (takeName (c :: cs))), dropName (c :: cs)) := by
  unfold next
  split
  case h_11 => rfl
  all_goals
    rename_i heq
    cases heq
  all_goals simp [symbols] at h

theorem not_mem_symbols_of_isNamePart {c : Char} (h : isNamePart c = true) : c ∉ symbols := by
  intro hc
  simp only [symbols, List.mem_cons, List.not_mem_nil, or_false] at hc
  rcases hc with rfl | rfl | rfl | rfl | rfl | rfl | rfl | rfl <;> contradiction

theorem isNamePart_of_isDigit {c : Char} (h : c.isDigit = true) : isNamePart c = true := by
  simp [isNamePart, Char.isAlphanum, h]

theorem isNameStart_of_isDigit {c : Char} (h : c.isDigit = true) : isNameStart c = false := by
  have hbound : c.val.toNat ≤ 57 := (Char.isDigit_iff_toNat.mp h).2
  have hupper : c.isUpper = false := by
    have hA : 'A'.val.toNat = 65 := rfl
    change decide (c.val ≥ 'A'.val ∧ c.val ≤ 'Z'.val) = false
    simp only [ge_iff_le, UInt32.le_iff_toNat_le, decide_eq_false_iff_not]
    omega
  have hlower : c.isLower = false := by
    have ha : 'a'.val.toNat = 97 := rfl
    change (decide (c.val ≥ 'a'.val) && decide (c.val ≤ 'z'.val)) = false
    simp only [ge_iff_le, UInt32.le_iff_toNat_le, Bool.and_eq_false_iff, decide_eq_false_iff_not]
    omega
  have hunderscore : c ≠ '_' := by
    rintro rfl
    contradiction
  change (c.isUpper || c.isLower || c == '_') = false
  rw [hupper, hlower, beq_eq_false_iff_ne.mpr hunderscore]
  rfl

/-- A numeral starts with a digit or a point. -/
theorem head_of_numeral {n : Numeral} {cs : List Char} (h : n.Spelled cs) :
    ∃ c tail, cs = c :: tail ∧ (c.isDigit = true ∨ c = '.') := by
  cases h with
  | @mk whole fraction point power exponent hwhole hfraction hexponent hne =>
      cases whole with
      | cons c whole => exact ⟨c, _, rfl, .inl (hwhole c List.mem_cons_self)⟩
      | nil =>
          cases hfraction with
          | point => exact ⟨'.', _, rfl, .inr rfl⟩
          | absent => simp at hne

theorem numeral_ends {rest : List Char}
    (h : ∀ c ∈ rest.head?, isNamePart c = false ∧ c ≠ '.') : Numeral.Ends rest := by
  intro c hc
  obtain ⟨hpart, hpoint⟩ := h c hc
  refine ⟨?_, hpoint, ?_, ?_⟩
  · exact Bool.eq_false_iff.mpr fun hdigit => by simp [isNamePart_of_isDigit hdigit] at hpart
  · rintro rfl
    contradiction
  · rintro rfl
    contradiction

theorem next_of_lexeme {t : Token} {lexeme rest : List Char} (h : Lexeme t lexeme)
    (hrest : t.Ends rest) : next (lexeme ++ rest) = some (t, rest) := by
  cases h with
  | number h =>
      have hscan := Numeral.scan_of_spelled h (numeral_ends (hrest.word rfl))
      obtain ⟨c, tail, rfl, hc⟩ := head_of_numeral h
      have hsymbol : c ∉ symbols := by
        rcases hc with hc | rfl
        · exact not_mem_symbols_of_isNamePart (isNamePart_of_isDigit hc)
        · decide
      have hstart : isNameStart c = false := by
        rcases hc with hc | rfl
        · exact isNameStart_of_isDigit hc
        · rfl
      rw [List.cons_append] at hscan ⊢
      rw [next_of_not_mem_symbols hsymbol, hscan, takeName, hstart]
      rfl
  | name h =>
      obtain ⟨htake, hdrop⟩ := takeName_of_isName h fun c hc => (hrest.word rfl c hc).1
      obtain ⟨c, tail, rfl⟩ := exists_cons_of_isName h
      rw [List.cons_append] at htake hdrop ⊢
      have hpart := isNamePart_of_isNameStart (isName_cons.mp h).1
      rw [next_of_not_mem_symbols (not_mem_symbols_of_isNamePart hpart), htake, hdrop,
        if_neg (by simp)]
  | reference h =>
      obtain ⟨htake, hdrop⟩ := takeName_of_isName h fun c hc => (hrest.word rfl c hc).1
      obtain ⟨c, tail, rfl⟩ := exists_cons_of_isName h
      rw [List.cons_append, next, htake, hdrop, if_neg (by simp)]
  | star =>
      have hstar := hrest.star rfl
      cases rest with
      | nil => rfl
      | cons c rest =>
          have hc : c ≠ '*' := hstar c rfl
          simp [next, hc]
  | _ => rfl

theorem exists_cons_of_lexeme {t : Token} {lexeme : List Char} (h : Lexeme t lexeme) :
    ∃ c tail, lexeme = c :: tail ∧ isGap c = false ∧
      (t.isWord = false → isNamePart c = false ∧ c ≠ '.') ∧ (t.isStar = false → c ≠ '*') := by
  cases h with
  | number h =>
      obtain ⟨c, tail, rfl, hc⟩ := head_of_numeral h
      refine ⟨c, tail, rfl, ?_, nofun, fun _ => ?_⟩
      · rcases hc with hc | rfl
        · refine Bool.eq_false_iff.mpr fun hgap => ?_
          rw [isGap, Bool.or_eq_true, beq_iff_eq, beq_iff_eq] at hgap
          rcases hgap with rfl | rfl <;> contradiction
        · rfl
      · rintro rfl
        rcases hc with hc | hc <;> contradiction
  | name h =>
      obtain ⟨c, tail, rfl⟩ := exists_cons_of_isName h
      have hc := (isName_cons.mp h).1
      refine ⟨c, tail, rfl, ?_, nofun, fun _ => ?_⟩
      · refine Bool.eq_false_iff.mpr fun hgap => ?_
        rw [isGap, Bool.or_eq_true, beq_iff_eq, beq_iff_eq] at hgap
        rcases hgap with rfl | rfl <;> contradiction
      · rintro rfl
        contradiction
  | reference h => exact ⟨'$', _, rfl, rfl, nofun, fun _ => by decide⟩
  | star => exact ⟨'*', _, rfl, rfl, fun _ => by decide, nofun⟩
  | power => exact ⟨'*', _, rfl, rfl, fun _ => by decide, nofun⟩
  | _ => exact ⟨_, _, rfl, rfl, fun _ => by decide, fun _ => by decide⟩

theorem ends_of_fits {t : Token} {ts : List Token} {cs : List Char} (h : Spells ts cs)
    (hfits : ∀ u ∈ ts.head?, t.Fits u) : t.Ends cs := by
  cases h with
  | nil => constructor <;> rintro - c ⟨⟩
  | gap hgap =>
      rw [isGap, Bool.or_eq_true, beq_iff_eq, beq_iff_eq] at hgap
      constructor
      · rintro - c ⟨⟩
        rcases hgap with rfl | rfl <;> decide
      · rintro - c ⟨⟩
        rcases hgap with rfl | rfl <;> decide
  | token ht _ =>
      obtain ⟨c, tail, rfl, -, hword, hstar⟩ := exists_cons_of_lexeme ht
      obtain ⟨hfitsWord, hfitsStar⟩ := hfits _ rfl
      constructor
      · rintro ht c ⟨⟩
        exact hword (hfitsWord ht)
      · rintro ht c ⟨⟩
        exact hstar (hfitsStar ht)

theorem scan_of_spells {ts : List Token} {cs : List Char} (h : Spells ts cs)
    (hchain : ts.IsChain Fits) : scan cs = some ts := by
  induction h with
  | nil => rw [scan]
  | gap hc _ ih => rw [scan, if_pos hc, ih hchain]
  | @token t ts lexeme cs ht h ih =>
      obtain ⟨hfits, hchain⟩ := List.isChain_cons.mp hchain
      have hnext := next_of_lexeme ht (ends_of_fits h hfits)
      obtain ⟨c, tail, rfl, hgap, -⟩ := exists_cons_of_lexeme ht
      rw [List.cons_append] at hnext ⊢
      rw [scan_cons (Bool.eq_false_iff.mp hgap), hnext]
      exact congrArg (Option.map (t :: ·)) (ih hchain)

end Token

end CadTimeline
