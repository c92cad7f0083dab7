import CadTimeline.Proofs.Parameter.Substitution

/-!
# References that must have a value

A `$name` in a text that has a value, as an expression or as text with references, is the
name of a parameter with a value.
-/

namespace CadTimeline

open Substitution Text

namespace Substitution

theorem pieces_append {front : List Char} (h : '$' ∉ front) (rest : List Char) :
    pieces (front ++ rest) = front.map .char ++ pieces rest := by
  induction front with
  | nil => rfl
  | cons c front ih =>
      rw [List.mem_cons, not_or] at h
      rw [List.cons_append, pieces_cons (.inl (Ne.symm h.1)), ih h.2]
      rfl

theorem reference_mem_pieces_append {front rest : List Char} (h : '$' ∉ front) {name : String} :
    .reference name ∈ pieces (front ++ rest) ↔ .reference name ∈ pieces rest := by
  simp [pieces_append h]

theorem exists_of_substitute {value? : String → Option Float} {text result : String}
    (h : substitute value? text = .ok result) {name : String}
    (hname : .reference name ∈ pieces text.toList) : ∃ x, value? name = some x := by
  simp only [substitute, bind_eq_ok, mapM_eq_ok] at h
  obtain ⟨filled, hfilled, -⟩ := h
  obtain ⟨part, -, hpart⟩ := exists_of_mem_forall₂ hfilled hname
  obtain ⟨x, hx, -⟩ := map_eq_ok.mp hpart
  exact ⟨x, Expr.resolve_eq_ok.mp hx⟩

end Substitution

/-! ## References and tokens -/

theorem Numeral.dollar_notMem {n : Numeral} {cs : List Char} (h : n.Spelled cs) : '$' ∉ cs := by
  have hdigits : ∀ {digits : List Char}, (∀ c ∈ digits, c.isDigit = true) → '$' ∉ digits :=
    fun hdigits hmem => absurd (hdigits _ hmem) (by decide)
  cases h with
  | mk hwhole hfraction hexponent _ =>
      simp only [List.mem_append, not_or]
      refine ⟨hdigits hwhole, ?_, ?_⟩
      · cases hfraction with
        | absent => exact List.not_mem_nil
        | point h => simpa using hdigits h
      · cases hexponent with
        | absent => exact List.not_mem_nil
        | power hmarker hsign hpower _ =>
            have hsigned : ∀ {sign signText}, Numeral.SpelledSign sign signText →
                '$' ∉ signText := by
              intro sign signText hsign
              cases hsign <;> decide
            simp only [List.mem_cons, List.mem_append, not_or]
            refine ⟨?_, hsigned hsign, hdigits hpower⟩
            rintro rfl
            rcases hmarker with h | h <;> contradiction

namespace Token

theorem dollar_notMem_of_lexeme {t : Token} {lexeme : List Char} (h : Lexeme t lexeme)
    (ht : ∀ name, t ≠ .reference name) : '$' ∉ lexeme := by
  cases h with
  | number h => exact Numeral.dollar_notMem h
  | @name cs h =>
      obtain ⟨c, tail, rfl⟩ := exists_cons_of_isName h
      obtain ⟨hc, htail⟩ := isName_cons.mp h
      intro hmem
      rcases List.mem_cons.mp hmem with rfl | hmem
      · contradiction
      · exact absurd (htail _ hmem) (by decide)
  | reference h => exact absurd rfl (ht _)
  | _ => decide

theorem next_eq_reference {cs rest : List Char} {name : String}
    (h : next cs = some (.reference name, rest)) :
    ∃ tail, cs = '$' :: tail ∧ takeName tail ≠ [] ∧ name = String.ofList (takeName tail) ∧
      rest = dropName tail := by
  unfold next at h
  split at h
  case h_10 tail =>
    split at h
    · contradiction
    · rename_i hname
      cases h
      exact ⟨tail, rfl, hname, rfl, rfl⟩
  case h_11 =>
    split at h
    · obtain ⟨_, -, heq⟩ := Option.map_eq_some_iff.mp h
      cases heq
    · cases h
  all_goals cases h

/-- What is a reference in a text is one in its tokens. -/
theorem reference_mem_of_scan {cs : List Char} {ts : List Token} (h : scan cs = some ts)
    {name : String} (hname : .reference name ∈ pieces cs) : .reference name ∈ ts := by
  induction cs using scan.induct generalizing ts with
  | case1 => simp [pieces] at hname
  | case2 c cs hc ih =>
      rw [scan, if_pos hc] at h
      have hdollar : c ≠ '$' := by
        rintro rfl
        contradiction
      rw [pieces_cons (.inl hdollar), List.mem_cons] at hname
      rcases hname with heq | hname
      · contradiction
      · exact ih h hname
  | case3 c cs hc hnext =>
      rw [scan_cons hc, hnext] at h
      contradiction
  | case4 c cs hc t rest hnext ih =>
      rw [scan_cons hc, hnext] at h
      obtain ⟨us, hus, rfl⟩ := Option.map_eq_some_iff.mp h
      by_cases ht : ∃ other, t = .reference other
      · obtain ⟨other, rfl⟩ := ht
        obtain ⟨tail, hcs, htake, rfl, rfl⟩ := next_eq_reference hnext
        rw [hcs, pieces, if_pos ⟨rfl, htake⟩, List.mem_cons] at hname
        rcases hname with heq | hname
        · cases heq
          exact List.mem_cons_self
        · exact List.mem_cons_of_mem _ (ih hus hname)
      · obtain ⟨lexeme, hlexeme, hcs⟩ := lexeme_of_next hnext
        have hdollar := dollar_notMem_of_lexeme hlexeme fun other heq => ht ⟨other, heq⟩
        rw [hcs, reference_mem_pieces_append hdollar] at hname
        exact List.mem_cons_of_mem _ (ih hus hname)

end Token

/-! ## References and expressions -/

namespace Expr

variable {dollar plain : String → Prop}

theorem allNamesOf_iff {es : List Expr} :
    AllNamesOf dollar plain es ↔ ∀ e ∈ es, e.AllNames dollar plain := by
  induction es with
  | nil => exact iff_of_true trivial (List.forall_mem_nil _)
  | cons e es ih => rw [AllNamesOf, List.forall_mem_cons, ih]

theorem AllNames.of_reference_mem {e : Expr} (hnames : e.AllNames dollar plain) {phrase : Phrase}
    {ts : List Token} (h : Derives phrase ts e) {name : String} (hname : .reference name ∈ ts) :
    dollar name := by
  induction h with
  | number numeral => simp at hname
  | bare other => simp at hname
  | parameter other =>
      cases List.mem_singleton.mp hname
      exact hnames
  | term _ ih => exact ih hnames hname
  | unary _ ih => exact ih hnames hname
  | power _ ih => exact ih hnames hname
  | primary _ ih => exact ih hnames hname
  | neg _ ih => exact ih hnames ((List.mem_cons.mp hname).resolve_left nofun)
  | pos _ ih => exact ih hnames ((List.mem_cons.mp hname).resolve_left nofun)
  | group _ ih =>
      refine ih hnames ?_
      simpa using hname
  | @call function arguments _ ih =>
      have harguments : ∀ t ∈ Token.joinArguments (arguments.map Prod.fst),
          t = .reference name → dollar name := by
        rw [Token.forall_mem_joinArguments nofun, List.forall_mem_map]
        rintro argument hargument t ht rfl
        have hall := allNamesOf_iff.mp hnames argument.2 (List.mem_map_of_mem hargument)
        exact ih argument hargument hall ht
      have hmem : .reference name ∈ Token.joinArguments (arguments.map Prod.fst) := by
        simpa using hname
      exact harguments _ hmem rfl
  | add _ _ iha ihb | sub _ _ iha ihb | mul _ _ iha ihb | div _ _ iha ihb
  | exponent _ _ iha ihb =>
      rcases List.mem_append.mp hname with hname | hname
      · exact iha hnames.1 hname
      · exact ihb hnames.2 ((List.mem_cons.mp hname).resolve_left nofun)

theorem AllNames.of_reference_mem_pieces {e : Expr} (hnames : e.AllNames dollar plain)
    {cs : List Char} (h : parse? cs = some e) {name : String}
    (hname : .reference name ∈ pieces cs) : dollar name := by
  obtain ⟨ts, hscan, htree⟩ := Option.bind_eq_some_iff.mp h
  exact hnames.of_reference_mem (derives_of_ofTokens? htree)
    (Token.reference_mem_of_scan hscan hname)

theorem exists_of_evalText {scope : Scope} {text : String} {x : Float}
    (h : evalText scope text = .ok x) {name : String}
    (hname : .reference name ∈ pieces text.toList) : ∃ y, scope.value? name = some y := by
  obtain ⟨e, hparse, heval, -⟩ := evalText_eq_ok.mp h
  exact (allNames_of_eval heval).of_reference_mem_pieces hparse hname

end Expr

end CadTimeline
