import CadTimeline.Proofs.Except
import CadTimeline.Proofs.Text.Trim
import CadTimeline.Text.Quoted
import CadTimeline.Timeline.Field

/-!
# Lines that can be split

A line can be split if and only if it is made of fields with commas between them, quoted or
bare, and at most a comment behind the last one; it is split into these fields.
-/

namespace CadTimeline

open Text

theorem mem_doubleQuotes_iff {c : Char} {cs : List Char} : c ∈ doubleQuotes cs ↔ c ∈ cs := by
  rw [← List.count_pos_iff, count_doubleQuotes, ← List.count_pos_iff]
  split <;> omega

namespace Field

/-! ## The grammar of a line -/

/-- A character that ends or spoils a bare field. -/
def isDelimiter (c : Char) : Bool :=
  c == ',' || c == '"' || c == '#'

/-- The text spells the field: between blanks a text in quotes, every quote in it written twice,
or without quotes a text that is not blank and holds no delimiter. -/
inductive Spelled : Field → List Char → Prop
  | quoted (content : List Char) {before after : List Char}
      (hbefore : ∀ c ∈ before, isBlank c = true) (hafter : ∀ c ∈ after, isBlank c = true) :
      Spelled ⟨String.ofList content, true⟩ (before ++ quote content ++ after)
  | bare {cs : List Char} (hcs : ∀ c ∈ cs, isDelimiter c = false)
      (hcontent : ∃ c ∈ cs, isBlank c = false) : Spelled ⟨String.ofList (trim cs), false⟩ cs

/-- What may stand behind the last field of a line: nothing, or a comment. -/
def IsClosing (cs : List Char) : Prop :=
  cs = [] ∨ ∃ comment, cs = '#' :: comment

/-- The line spells the fields, one or more, with a comma between each two. -/
inductive SpelledLine : List Field → List Char → Prop
  | last {f : Field} {cs rest : List Char} (hf : f.Spelled cs) (hrest : IsClosing rest) :
      SpelledLine [f] (cs ++ rest)
  | comma {f : Field} {fields : List Field} {cs rest : List Char} (hf : f.Spelled cs)
      (hrest : SpelledLine fields rest) : SpelledLine (f :: fields) (cs ++ ',' :: rest)

/-- What adds nothing behind a line: blanks, and then perhaps a comment. -/
def IsTrivia (text : List Char) : Prop :=
  ∃ blanks comment, text = blanks ++ comment ∧ (∀ c ∈ blanks, isBlank c = true) ∧
    (comment = [] ∨ ∃ rest, comment = '#' :: rest)

/-! ## Reading the characters of a text -/

/-- A blank is none of the characters that mean something between fields. -/
theorem ne_of_isBlank {c : Char} (h : isBlank c = true) :
    c ≠ '#' ∧ c ≠ ',' ∧ c ≠ '"' ∧ c ≠ '\uFEFF' := by
  refine ⟨?_, ?_, ?_, ?_⟩
  all_goals
    rintro rfl
    exact absurd h (by decide)

theorem isDelimiter_of_isBlank {c : Char} (h : isBlank c = true) : isDelimiter c = false := by
  obtain ⟨hhash, hcomma, hquote, -⟩ := ne_of_isBlank h
  simp [isDelimiter, hhash, hcomma, hquote]

theorem splitPlain_bare {cs : List Char} (h : ∀ c ∈ cs, isDelimiter c = false) (n : Nat)
    (seen rest : List Char) :
    splitPlain n seen (cs ++ rest) = splitPlain n (cs.reverse ++ seen) rest := by
  induction cs generalizing seen with
  | nil => rfl
  | cons c cs ih =>
      rw [List.forall_mem_cons] at h
      have hc := h.1
      simp only [isDelimiter, Bool.or_eq_false_iff, beq_eq_false_iff_ne] at hc
      rw [List.cons_append, splitPlain, ih h.2, List.reverse_cons, List.append_assoc,
        List.singleton_append]
      · exact hc.2
      · exact hc.1.1
      · exact hc.1.2

/-- A quote that no other quote follows closes the field. -/
theorem splitQuoted_close (n : Nat) (seen : List Char) {cs : List Char}
    (h : cs.head? ≠ some '"') : splitQuoted n seen ('"' :: cs) = splitClosed n seen cs := by
  rw [splitQuoted]
  rintro rest rfl
  exact h rfl

theorem splitQuoted_cons (n : Nat) (seen : List Char) {d : Char} (h : d ≠ '"')
    (cs : List Char) : splitQuoted n seen (d :: cs) = splitQuoted n (d :: seen) cs := by
  rw [splitQuoted]
  · rintro _ ⟨⟩
    exact absurd rfl h
  · exact h

theorem splitQuoted_doubleQuotes (cs : List Char) (n : Nat) (seen : List Char) {rest : List Char}
    (hrest : rest.head? ≠ some '"') :
    splitQuoted n seen (doubleQuotes cs ++ '"' :: rest) =
      splitClosed n (cs.reverse ++ seen) rest := by
  induction cs generalizing seen with
  | nil => exact splitQuoted_close n seen hrest
  | cons c cs ih =>
      rw [List.reverse_cons, List.append_assoc, List.singleton_append, ← ih]
      by_cases hc : c = '"'
      · rw [hc, doubleQuotes, if_pos rfl, List.cons_append, List.cons_append, splitQuoted]
      · rw [doubleQuotes, if_neg hc, List.cons_append, splitQuoted_cons n seen hc]

/-! ## One field -/

theorem Spelled.isVacant {f : Field} {cs : List Char} (h : f.Spelled cs) : f.isVacant = false := by
  cases h with
  | quoted => exact Bool.and_false _
  | bare hcs hcontent =>
      have hne := trim_ne_nil_iff.mpr hcontent
      simp [Field.isVacant, ← String.toList_eq_nil_iff, hne]

/-- The text stands for the field, which is vacant where the text is blank. -/
def Taken (f : Field) (cs : List Char) : Prop :=
  f.Spelled cs ∨ f = ofPlain [] ∧ ∀ c ∈ cs, isBlank c = true

theorem taken_ofPlain {seen : List Char} (h : ∀ c ∈ seen, isDelimiter c = false) :
    (ofPlain seen).Taken seen.reverse := by
  have hcs : ∀ c ∈ seen.reverse, isDelimiter c = false :=
    fun c hc => h c (List.mem_reverse.mp hc)
  by_cases htrim : trim seen.reverse = []
  · refine .inr ⟨?_, trim_eq_nil_iff.mp htrim⟩
    rw [ofPlain, htrim]
    rfl
  · exact .inl (.bare hcs (trim_ne_nil_iff.mp htrim))

theorem Taken.spelled {f : Field} {cs : List Char} (h : f.Taken cs) (hf : f.isVacant = false) :
    f.Spelled cs := by
  rcases h with h | ⟨rfl, -⟩
  · exact h
  · contradiction

theorem Taken.blank {f : Field} {cs : List Char} (h : f.Taken cs) (hf : f.isVacant = true) :
    ∀ c ∈ cs, isBlank c = true := by
  rcases h with h | ⟨-, h⟩
  · rw [h.isVacant] at hf
    contradiction
  · exact h

/-! ## What follows a field -/

/-- What is left of a line behind a field: the end of the line, or a comma and a text that is
split into the other fields. -/
def Follows (n : Nat) (others : List Field) (rest : List Char) : Prop :=
  others = [] ∧ IsClosing rest ∨
    ∃ tail, rest = ',' :: tail ∧ splitPlain (n + 1) [] tail = .ok others

variable {n : Nat} {fields others : List Field} {rest : List Char}

theorem Follows.splitPlain (h : Follows n others rest) (seen : List Char) :
    splitPlain n seen rest = .ok (ofPlain seen :: others) := by
  rcases h with ⟨rfl, rfl | ⟨comment, rfl⟩⟩ | ⟨tail, rfl, htail⟩
  · rw [Field.splitPlain]
  · rw [Field.splitPlain]
  · rw [Field.splitPlain, htail]
    rfl

theorem Follows.splitClosed (h : Follows n others rest) (seen : List Char) {blanks : List Char}
    (hblanks : ∀ c ∈ blanks, isBlank c = true) :
    splitClosed n seen (blanks ++ rest) = .ok (ofQuoted seen :: others) := by
  induction blanks with
  | nil =>
      rcases h with ⟨rfl, rfl | ⟨comment, rfl⟩⟩ | ⟨tail, rfl, htail⟩
      · rw [List.nil_append, Field.splitClosed]
      · rw [List.nil_append, Field.splitClosed]
      · rw [List.nil_append, Field.splitClosed, htail]
        rfl
  | cons c blanks ih =>
      rw [List.forall_mem_cons] at hblanks
      obtain ⟨hhash, hcomma, hquote, -⟩ := ne_of_isBlank hblanks.1
      rw [List.cons_append, Field.splitClosed, if_pos hblanks.1, ih hblanks.2]
      · exact hhash
      · exact hcomma
      · exact hquote

theorem Follows.head? (h : Follows n others rest) : rest.head? ≠ some '"' := by
  rcases h with ⟨-, rfl | ⟨comment, rfl⟩⟩ | ⟨tail, rfl, -⟩ <;> simp

/-- A field and what follows it are split into the field and the others. -/
theorem splitPlain_of_taken {f : Field} {front : List Char} (hf : f.Taken front)
    (h : Follows n others rest) : splitPlain n [] (front ++ rest) = .ok (f :: others) := by
  rcases hf with hf | ⟨rfl, hblank⟩
  · cases hf with
    | bare hcs _ =>
        rw [splitPlain_bare hcs, h.splitPlain, List.append_nil, ofPlain, List.reverse_reverse]
    | @quoted content before after hbefore hafter =>
        have hplain : ∀ c ∈ before, isDelimiter c = false :=
          fun c hc => isDelimiter_of_isBlank (hbefore c hc)
        have hall : (before.reverse ++ []).all isBlank = true := by
          rw [List.append_nil, List.all_eq_true]
          exact fun c hc => hbefore c (List.mem_reverse.mp hc)
        have hhead : (after ++ rest).head? ≠ some '"' := by
          cases after with
          | nil => exact h.head?
          | cons c after =>
              have hc := (ne_of_isBlank (hafter c List.mem_cons_self)).2.2.1
              simpa using hc
        have htext : before ++ quote content ++ after ++ rest =
            before ++ '"' :: (doubleQuotes content ++ '"' :: (after ++ rest)) := by
          simp [quote]
        rw [htext, splitPlain_bare hplain, splitPlain, if_pos hall,
          splitQuoted_doubleQuotes _ _ _ hhead, h.splitClosed _ hafter, List.append_nil,
          ofQuoted, List.reverse_reverse]
  · have hplain : ∀ c ∈ front, isDelimiter c = false :=
      fun c hc => isDelimiter_of_isBlank (hblank c hc)
    have hvacant : ofPlain (front.reverse ++ []) = ofPlain [] := by
      rw [List.append_nil, ofPlain, List.reverse_reverse, trim_eq_nil_iff.mpr hblank]
      rfl
    rw [splitPlain_bare hplain, h.splitPlain, hvacant]

/-! ## What is split is spelled -/

theorem exists_of_splitClosed {seen cs : List Char} (h : splitClosed n seen cs = .ok fields) :
    ∃ blanks rest others, cs = blanks ++ rest ∧ (∀ c ∈ blanks, isBlank c = true) ∧
      Follows n others rest ∧ fields = ofQuoted seen :: others := by
  induction cs with
  | nil =>
      rw [splitClosed] at h
      cases h
      exact ⟨[], [], [], rfl, List.forall_mem_nil _, .inl ⟨rfl, .inl rfl⟩, rfl⟩
  | cons c cs ih =>
      by_cases hhash : c = '#'
      · subst hhash
        rw [splitClosed] at h
        cases h
        exact ⟨[], _, [], rfl, List.forall_mem_nil _, .inl ⟨rfl, .inr ⟨cs, rfl⟩⟩, rfl⟩
      by_cases hcomma : c = ','
      · subst hcomma
        rw [splitClosed, map_eq_ok] at h
        obtain ⟨others, hothers, rfl⟩ := h
        exact ⟨[], _, others, rfl, List.forall_mem_nil _, .inr ⟨cs, rfl, hothers⟩, rfl⟩
      by_cases hquote : c = '"'
      · subst hquote
        rw [splitClosed] at h
        contradiction
      simp only [splitClosed] at h
      split at h
      · rename_i hblank
        obtain ⟨blanks, rest, others, rfl, hblanks, hfollows, rfl⟩ := ih h
        exact ⟨c :: blanks, rest, others, rfl, List.forall_mem_cons.mpr ⟨hblank, hblanks⟩,
          hfollows, rfl⟩
      · contradiction

theorem exists_of_splitQuoted {seen : List Char} : ∀ {cs : List Char},
    splitQuoted n seen cs = .ok fields → ∃ content rest,
      cs = doubleQuotes content ++ '"' :: rest ∧
        splitClosed n (content.reverse ++ seen) rest = .ok fields
  | [], h => by
      rw [splitQuoted] at h
      contradiction
  | [c], h => by
      by_cases hc : c = '"'
      · subst hc
        rw [splitQuoted_close n seen (by simp)] at h
        exact ⟨[], [], rfl, h⟩
      · rw [splitQuoted_cons n seen hc, splitQuoted] at h
        contradiction
  | c :: d :: cs, h => by
      by_cases hc : c = '"'
      · subst hc
        by_cases hd : d = '"'
        · subst hd
          rw [splitQuoted] at h
          obtain ⟨content, rest, rfl, hrest⟩ := exists_of_splitQuoted h
          refine ⟨'"' :: content, rest, rfl, ?_⟩
          rwa [List.reverse_cons, List.append_assoc, List.singleton_append]
        · rw [splitQuoted_close n seen (by simpa using hd)] at h
          exact ⟨[], d :: cs, rfl, h⟩
      · rw [splitQuoted_cons n seen hc] at h
        obtain ⟨content, rest, hcs, hrest⟩ := exists_of_splitQuoted h
        refine ⟨c :: content, rest, ?_, ?_⟩
        · rw [hcs, doubleQuotes, if_neg hc, List.cons_append]
        · rwa [List.reverse_cons, List.append_assoc, List.singleton_append]
termination_by cs => cs.length

theorem exists_of_splitPlain {seen cs : List Char} (hseen : ∀ c ∈ seen, isDelimiter c = false)
    (h : splitPlain n seen cs = .ok fields) :
    ∃ f front rest others, seen.reverse ++ cs = front ++ rest ∧ f.Taken front ∧
      Follows n others rest ∧ fields = f :: others := by
  induction cs generalizing seen with
  | nil =>
      rw [splitPlain] at h
      cases h
      exact ⟨_, _, [], [], rfl, taken_ofPlain hseen, .inl ⟨rfl, .inl rfl⟩, rfl⟩
  | cons c cs ih =>
      by_cases hhash : c = '#'
      · subst hhash
        rw [splitPlain] at h
        cases h
        exact ⟨_, _, _, [], rfl, taken_ofPlain hseen, .inl ⟨rfl, .inr ⟨cs, rfl⟩⟩, rfl⟩
      by_cases hcomma : c = ','
      · subst hcomma
        rw [splitPlain, map_eq_ok] at h
        obtain ⟨others, hothers, rfl⟩ := h
        exact ⟨_, _, _, others, rfl, taken_ofPlain hseen, .inr ⟨cs, rfl, hothers⟩, rfl⟩
      by_cases hquote : c = '"'
      · subst hquote
        rw [splitPlain] at h
        split at h
        · rename_i hblank
          obtain ⟨content, tail, rfl, hclosed⟩ := exists_of_splitQuoted h
          obtain ⟨after, rest, others, rfl, hafter, hfollows, rfl⟩ :=
            exists_of_splitClosed hclosed
          have hbefore : ∀ c ∈ seen.reverse, isBlank c = true :=
            fun c hc => List.all_eq_true.mp hblank c (List.mem_reverse.mp hc)
          have hspelled := Spelled.quoted content hbefore hafter
          refine ⟨_, _, rest, others, ?_, .inl hspelled, hfollows, ?_⟩
          · simp [quote]
          · rw [ofQuoted, List.append_nil, List.reverse_reverse]
        · contradiction
      simp only [splitPlain] at h
      have hc : isDelimiter c = false := by simp [isDelimiter, hhash, hcomma, hquote]
      obtain ⟨f, front, rest, others, hcs, hrest⟩ := ih (List.forall_mem_cons.mpr ⟨hc, hseen⟩) h
      rw [List.reverse_cons, List.append_assoc, List.singleton_append] at hcs
      exact ⟨f, front, rest, others, hcs, hrest⟩

/-- A text is split into a field that its front stands for and what follows this field. -/
theorem splitPlain_eq_ok_iff {cs : List Char} :
    splitPlain n [] cs = .ok fields ↔ ∃ f front rest others, cs = front ++ rest ∧
      f.Taken front ∧ Follows n others rest ∧ fields = f :: others := by
  constructor
  · exact exists_of_splitPlain (List.forall_mem_nil _)
  · rintro ⟨f, front, rest, others, rfl, hf, hfollows, rfl⟩
    exact splitPlain_of_taken hf hfollows

theorem spelledLine_iff {cs : List Char} : SpelledLine fields cs ↔
    splitPlain n [] cs = .ok fields ∧ ∀ f ∈ fields, f.isVacant = false := by
  induction fields generalizing n cs with
  | nil =>
      constructor
      · rintro ⟨⟩
      · rintro ⟨h, -⟩
        obtain ⟨f, front, rest, others, -, -, -, heq⟩ := splitPlain_eq_ok_iff.mp h
        contradiction
  | cons f fields ih =>
      rw [splitPlain_eq_ok_iff, List.forall_mem_cons]
      constructor
      · intro h
        cases h with
        | last hf hrest =>
            exact ⟨⟨f, _, _, [], rfl, .inl hf, .inl ⟨rfl, hrest⟩, rfl⟩, hf.isVacant,
              List.forall_mem_nil _⟩
        | comma hf hrest =>
            obtain ⟨htail, hvacant⟩ := (ih (n := n + 1)).mp hrest
            exact ⟨⟨f, _, _, fields, rfl, .inl hf, .inr ⟨_, rfl, htail⟩, rfl⟩, hf.isVacant,
              hvacant⟩
      · rintro ⟨⟨f, front, rest, others, rfl, hf, hfollows, ⟨⟩⟩, hvacant, hothers⟩
        have hspelled := hf.spelled hvacant
        rcases hfollows with ⟨rfl, hrest⟩ | ⟨tail, rfl, htail⟩
        · exact .last hspelled hrest
        · exact .comma hspelled (ih.mpr ⟨htail, hothers⟩)

/-! ## Whole lines -/

theorem dropMark_of_head? {cs : List Char} (h : cs.head? ≠ some '\uFEFF') : dropMark cs = cs := by
  unfold dropMark
  split
  · exact absurd rfl h
  · rfl

theorem checkVacant_of_forall (hne : fields ≠ []) (h : ∀ f ∈ fields, f.isVacant = false) :
    checkVacant fields = .ok fields := by
  have hall : fields.all isVacant = false := by
    obtain ⟨f, rest, rfl⟩ := List.exists_cons_of_ne_nil hne
    rw [List.all_cons, h f List.mem_cons_self, Bool.false_and]
  rw [checkVacant, if_neg (Bool.eq_false_iff.mp hall), List.findIdx?_eq_none_iff.mpr h]

theorem checkVacant_eq_ok_iff {checked : List Field} :
    checkVacant fields = .ok checked ↔
      (checked = fields ∧ fields ≠ [] ∧ ∀ f ∈ fields, f.isVacant = false) ∨
      (checked = [] ∧ fields.length ≤ 1 ∧ ∀ f ∈ fields, f.isVacant = true) := by
  constructor
  · intro h
    unfold checkVacant at h
    split at h
    · rename_i hall
      split at h
      · contradiction
      · rename_i hlength
        cases h
        exact .inr ⟨rfl, Nat.le_of_not_lt hlength, List.all_eq_true.mp hall⟩
    · rename_i hall
      split at h
      · contradiction
      · rename_i hnone
        cases h
        refine .inl ⟨rfl, ?_, List.findIdx?_eq_none_iff.mp hnone⟩
        rintro rfl
        exact hall rfl
  · rintro (⟨rfl, hne, hvacant⟩ | ⟨rfl, hlength, hvacant⟩)
    · exact checkVacant_of_forall hne hvacant
    · rw [checkVacant, if_pos (List.all_eq_true.mpr hvacant), if_neg (Nat.not_lt.mpr hlength)]

theorem splitLine_eq_fields_iff {raw : List Char} :
    splitLine raw = .ok fields ∧ fields ≠ [] ↔ SpelledLine fields (dropMark raw) := by
  rw [spelledLine_iff (n := 1), splitLine, bind_eq_ok]
  constructor
  · rintro ⟨⟨read, hread, hcheck⟩, hne⟩
    rcases checkVacant_eq_ok_iff.mp hcheck with ⟨rfl, -, hvacant⟩ | ⟨rfl, -⟩
    · exact ⟨hread, hvacant⟩
    · contradiction
  · rintro ⟨hread, hvacant⟩
    obtain ⟨f, front, rest, others, -, -, -, rfl⟩ := splitPlain_eq_ok_iff.mp hread
    have hne := List.cons_ne_nil f others
    exact ⟨⟨_, hread, checkVacant_of_forall hne hvacant⟩, hne⟩

theorem splitLine_eq_nil_iff {raw : List Char} :
    splitLine raw = .ok [] ↔ IsTrivia (dropMark raw) := by
  constructor
  · intro h
    obtain ⟨read, hread, hcheck⟩ := bind_eq_ok.mp h
    obtain ⟨f, front, rest, others, hcs, hf, hfollows, rfl⟩ := splitPlain_eq_ok_iff.mp hread
    rcases checkVacant_eq_ok_iff.mp hcheck with ⟨heq, -⟩ | ⟨-, hlength, hvacant⟩
    · contradiction
    rcases hfollows with ⟨-, hclosing⟩ | ⟨tail, -, htail⟩
    · exact ⟨front, rest, hcs, hf.blank (hvacant f List.mem_cons_self), hclosing⟩
    -- behind a comma there is one more field
    · obtain ⟨next, _, _, more, -, -, -, rfl⟩ := splitPlain_eq_ok_iff.mp htail
      simp at hlength
  · rintro ⟨front, rest, hcs, hblank, hclosing⟩
    have hread : splitPlain 1 [] (front ++ rest) = .ok [ofPlain []] :=
      splitPlain_of_taken (.inr ⟨rfl, hblank⟩) (.inl ⟨rfl, hclosing⟩)
    rw [splitLine, hcs, hread]
    rfl

/-- A line has fields if and only if it spells them, and none if and only if it is blank but for
a comment. Every other line is at fault. -/
theorem splitLine_exact (raw : List Char) :
    (∀ fields, splitLine raw = .ok fields ∧ fields ≠ [] ↔ SpelledLine fields (dropMark raw)) ∧
    (splitLine raw = .ok [] ↔ IsTrivia (dropMark raw)) ∧
    ((∃ fault, splitLine raw = .error fault) ↔
      (∀ fields, ¬SpelledLine fields (dropMark raw)) ∧ ¬IsTrivia (dropMark raw)) := by
  have hfields : ∀ fields, splitLine raw = .ok fields ∧ fields ≠ [] ↔
      SpelledLine fields (dropMark raw) := fun _ => splitLine_eq_fields_iff
  have hnil : splitLine raw = .ok [] ↔ IsTrivia (dropMark raw) := splitLine_eq_nil_iff
  refine ⟨hfields, hnil, ?_, ?_⟩
  · rintro ⟨fault, hfault⟩
    constructor
    · intro fields hspelled
      rw [((hfields fields).mpr hspelled).1] at hfault
      contradiction
    · intro htrivia
      rw [hnil.mpr htrivia] at hfault
      contradiction
  · rintro ⟨hspelled, htrivia⟩
    cases hsplit : splitLine raw with
    | error fault => exact ⟨fault, rfl⟩
    | ok fields =>
        by_cases hempty : fields = []
        · subst hempty
          exact absurd (hnil.mp hsplit) htrivia
        · exact absurd ((hfields fields).mp ⟨hsplit, hempty⟩) (hspelled fields)

end Field

end CadTimeline
