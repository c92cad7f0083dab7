import CadTimeline.Proofs.Timeline.Grouping
import CadTimeline.Proofs.Timeline.Renumbering
import Mathlib.Logic.Relation
import Mathlib.Order.Monotone.Basic

/-!
# The layout of a source

Blank lines and comments may be added to a source, and its lines may end in a carriage return
and a line feed: the lines with content stay what they are, in their order, and only their
numbers change.
-/

namespace CadTimeline

open Text

/-! ## Blanks and comments at the end of a line -/

namespace Field

variable {c : Char}

theorem ofPlain_cons (h : isBlank c = true) (seen : List Char) :
    ofPlain (c :: seen) = ofPlain seen := by
  rw [ofPlain, ofPlain, List.reverse_cons, trim_append_blanks (List.forall_mem_singleton.mpr h)]

/-! A blank behind a line is trimmed away, skipped, or part of a comment. -/

mutual

theorem splitPlain_concat (h : isBlank c = true) (n : Nat) (seen : List Char) :
    ∀ cs, splitPlain n seen (cs ++ [c]) = splitPlain n seen cs
  | [] => by
      obtain ⟨hhash, hcomma, hquote, -⟩ := ne_of_isBlank h
      simp [splitPlain, ofPlain_cons h]
  | d :: cs => by
      rw [List.cons_append]
      by_cases hhash : d = '#'
      · simp [splitPlain, hhash]
      by_cases hcomma : d = ','
      · simp [splitPlain, hcomma, splitPlain_concat h (n + 1) [] cs]
      by_cases hquote : d = '"'
      · simp [splitPlain, hquote, splitQuoted_concat h n [] cs]
      simp [splitPlain, splitPlain_concat h n (d :: seen) cs]
termination_by cs => cs.length

theorem splitQuoted_concat (h : isBlank c = true) (n : Nat) (seen : List Char) :
    ∀ cs, splitQuoted n seen (cs ++ [c]) = splitQuoted n seen cs
  | [] => by
      obtain ⟨-, -, hquote, -⟩ := ne_of_isBlank h
      simp [splitQuoted]
  | [d] => by
      obtain ⟨-, -, hquote, -⟩ := ne_of_isBlank h
      rw [List.singleton_append]
      by_cases hd : d = '"'
      · rw [hd, splitQuoted_close n seen (by simpa using hquote),
          splitQuoted_close n seen (by simp)]
        exact splitClosed_concat h n seen []
      · rw [splitQuoted_cons n seen hd, splitQuoted_cons n seen hd,
          splitQuoted_cons n _ hquote, splitQuoted, splitQuoted]
  | d :: e :: cs => by
      rw [List.cons_append]
      by_cases hd : d = '"'
      · by_cases he : e = '"'
        · simp [splitQuoted, hd, he, splitQuoted_concat h n ('"' :: seen) cs]
        · rw [hd, splitQuoted_close n seen (by simpa using he),
            splitQuoted_close n seen (by simpa using he)]
          exact splitClosed_concat h n seen (e :: cs)
      · rw [splitQuoted_cons n seen hd, splitQuoted_cons n seen hd]
        exact splitQuoted_concat h n (d :: seen) (e :: cs)
termination_by cs => cs.length

theorem splitClosed_concat (h : isBlank c = true) (n : Nat) (seen : List Char) :
    ∀ cs, splitClosed n seen (cs ++ [c]) = splitClosed n seen cs
  | [] => by
      obtain ⟨hhash, hcomma, hquote, -⟩ := ne_of_isBlank h
      simp [splitClosed, h]
  | d :: cs => by
      rw [List.cons_append]
      by_cases hhash : d = '#'
      · simp [splitClosed, hhash]
      by_cases hcomma : d = ','
      · simp [splitClosed, hcomma, splitPlain_concat h (n + 1) [] cs]
      by_cases hquote : d = '"'
      · simp [splitClosed, hquote]
      simp [splitClosed, splitClosed_concat h n seen cs]
termination_by cs => cs.length

end

theorem dropMark_cons (h : c ≠ '\uFEFF') (text : List Char) :
    dropMark (c :: text) = c :: text :=
  dropMark_of_head? fun hmark => h (Option.some.inj hmark)

theorem dropMark_append (raw : List Char) (hc : c ≠ '\uFEFF') (text : List Char) :
    dropMark (raw ++ c :: text) = dropMark raw ++ c :: text := by
  cases raw with
  | nil => exact dropMark_cons hc text
  | cons d raw =>
      by_cases hd : d = '\uFEFF'
      · rw [hd]
        rfl
      · rw [List.cons_append, dropMark_cons hd, dropMark_cons hd, List.cons_append]

theorem splitLine_concat (h : isBlank c = true) (raw : List Char) :
    splitLine (raw ++ [c]) = splitLine raw := by
  rw [splitLine, splitLine, dropMark_append raw (ne_of_isBlank h).2.2.2, splitPlain_concat h]

/-- Blanks behind a field leave it alone. -/
theorem Spelled.append_blanks {f : Field} {cs blanks : List Char} (h : f.Spelled cs)
    (hblanks : ∀ c ∈ blanks, isBlank c = true) : f.Spelled (cs ++ blanks) := by
  cases h with
  | quoted content hbefore hafter =>
      rw [List.append_assoc]
      exact .quoted content hbefore (List.forall_mem_append.mpr ⟨hafter, hblanks⟩)
  | bare hcs hcontent =>
      obtain ⟨c, hc, hblank⟩ := hcontent
      rw [← trim_append_blanks hblanks]
      refine .bare (List.forall_mem_append.mpr ⟨hcs, fun c hc => ?_⟩)
        ⟨c, List.mem_append_left _ hc, hblank⟩
      exact isDelimiter_of_isBlank (hblanks c hc)

/-- A comment goes on to the end of the line. -/
theorem IsClosing.append {rest : List Char} (h : IsClosing rest) (hne : rest ≠ [])
    (text : List Char) : IsClosing (rest ++ text) := by
  obtain ⟨comment, rfl⟩ := h.resolve_left hne
  exact .inr ⟨comment ++ text, rfl⟩

theorem SpelledLine.append_trivia {fields : List Field} {cs text : List Char}
    (h : SpelledLine fields cs) (ht : IsTrivia text) : SpelledLine fields (cs ++ text) := by
  induction h with
  | @last f cs rest hf hrest =>
      by_cases hne : rest = []
      · obtain ⟨blanks, comment, rfl, hblanks, hcomment⟩ := ht
        rw [hne, List.append_nil, ← List.append_assoc]
        exact .last (hf.append_blanks hblanks) hcomment
      · rw [List.append_assoc]
        exact .last hf (hrest.append hne text)
  | comma hf _ ih =>
      rw [List.append_assoc]
      exact .comma hf ih

theorem IsTrivia.append {text other : List Char} (h : IsTrivia text) (ho : IsTrivia other) :
    IsTrivia (text ++ other) := by
  obtain ⟨blanks, rest, rfl, hblanks, hrest⟩ := h
  by_cases hne : rest = []
  · obtain ⟨more, comment, rfl, hmore, hcomment⟩ := ho
    refine ⟨blanks ++ more, comment, ?_, List.forall_mem_append.mpr ⟨hblanks, hmore⟩, hcomment⟩
    rw [hne, List.append_nil, List.append_assoc]
  · exact ⟨blanks, rest ++ other, List.append_assoc _ _ _, hblanks, IsClosing.append hrest hne other⟩

theorem IsTrivia.head {text : List Char} (h : IsTrivia text) :
    ∀ c ∈ text.head?, c ≠ '\uFEFF' := by
  obtain ⟨blanks, comment, rfl, hblanks, hcomment⟩ := h
  intro c hc
  cases blanks with
  | cons d blanks =>
      cases hc
      exact (ne_of_isBlank (hblanks _ List.mem_cons_self)).2.2.2
  | nil =>
      rcases hcomment with rfl | ⟨rest, rfl⟩
      · cases hc
      · obtain rfl : '#' = c := by simpa using hc
        simp

/-- Blanks and a comment behind a line leave its fields alone. -/
theorem splitLine_append_trivia {raw text : List Char} {fields : List Field}
    (h : splitLine raw = .ok fields) (ht : IsTrivia text) :
    splitLine (raw ++ text) = .ok fields := by
  have hmark : dropMark (raw ++ text) = dropMark raw ++ text := by
    cases text with
    | nil => rw [List.append_nil, List.append_nil]
    | cons c text => exact dropMark_append raw (ht.head c rfl) text
  by_cases hne : fields = []
  · subst hne
    rw [splitLine_eq_nil_iff] at h ⊢
    rw [hmark]
    exact h.append ht
  · have hspelled := splitLine_eq_fields_iff.mp ⟨h, hne⟩
    refine (splitLine_eq_fields_iff.mpr ?_).1
    rw [hmark]
    exact hspelled.append_trivia ht

end Field

/-! ## Lines of a source -/

namespace Line

theorem splitLine_dropReturn (raw : List Char) :
    Field.splitLine (dropReturn raw) = Field.splitLine raw := by
  unfold dropReturn
  split
  · rename_i hlast
    obtain ⟨start, rfl⟩ := List.getLast?_eq_some_iff.mp hlast
    rw [List.dropLast_concat, Field.splitLine_concat (by decide)]
  · rfl

theorem read_congr {raw other : List Char} (h : Field.splitLine raw = Field.splitLine other)
    (number : Nat) : read number raw = read number other := by
  rw [read, read, h]

theorem readFrom_dropReturn (number : Nat) (raws : List (List Char)) :
    readFrom number (raws.map dropReturn) = readFrom number raws := by
  induction raws generalizing number with
  | nil => rfl
  | cons raw raws ih =>
      rw [List.map_cons, readFrom, readFrom, ih, read_congr (splitLine_dropReturn raw)]

/-- How lines end, and whether the last one does, makes no difference. -/
theorem ofSource_eq_pieces (source : List Char) :
    ofSource source = readFrom 1 (source.splitOn '\n') := by
  have hne := List.splitOn_ne_nil '\n' source
  rw [ofSource_eq, lines]
  generalize source.splitOn '\n' = pieces at hne
  obtain ⟨front, last, rfl⟩ := (List.eq_nil_or_concat pieces).resolve_left hne
  rw [List.concat_eq_append]
  rw [List.dropLast_concat, readFrom_append, readFrom_append, readFrom_dropReturn,
    List.length_map, lastLine, List.getLast?_concat]
  by_cases hlast : last = []
  · rw [hlast]
    rfl
  · rw [Option.filter_some_pos (by simpa using hlast)]
    rfl

theorem readFrom_renumber {f : Nat → Nat} {number other : Nat} {raws : List (List Char)}
    (h : ∀ i < raws.length, f (number + i) = other + i) :
    readFrom other raws = (readFrom number raws).map (Block.Item.renumber f) := by
  induction raws generalizing number other with
  | nil => rfl
  | cons raw raws ih =>
      have hfirst : f number = other := h 0 (by simp)
      have hrest : ∀ i < raws.length, f (number + 1 + i) = other + 1 + i := by
        intro i hi
        rw [Nat.add_assoc, Nat.add_assoc, Nat.add_comm 1 i]
        exact h (i + 1) (by simpa using hi)
      rw [readFrom, readFrom, ih hrest, List.map_append, ← hfirst]
      congr 1
      unfold read
      split <;> rfl

/-! ## Changes of layout -/

/-- A line without content: blank, or nothing but a comment. -/
def IsVacant (raw : List Char) : Prop :=
  '\n' ∉ raw ∧ Field.IsTrivia (Field.dropMark raw)

/-- Where a line ends: at a line feed, at the carriage return before one, or at the end. -/
def IsEnd (back : List Char) : Prop :=
  back = [] ∨ (∃ rest, back = '\n' :: rest) ∨ ∃ rest, back = '\r' :: '\n' :: rest

/-- Where a line begins: at the start, or behind a line feed. -/
def IsStart (front : List Char) : Prop :=
  front = [] ∨ front.getLast? = some '\n'

/-- One change of the layout of a source. -/
inductive Relaid : List Char → List Char → Prop
  /-- A line without content before another one. -/
  | line {front raw : List Char} (hfront : IsStart front) (h : IsVacant raw) (back : List Char) :
      Relaid (front ++ back) (front ++ raw ++ '\n' :: back)
  /-- A line without content at the end. -/
  | lastLine {front raw : List Char} (hfront : IsStart front) (h : IsVacant raw) :
      Relaid front (front ++ raw)
  /-- A line feed behind the last line. -/
  | ended (source : List Char) : Relaid source (source ++ ['\n'])
  /-- A comment behind a line. -/
  | comment (front text : List Char) {back : List Char} (htext : '\n' ∉ text)
      (hback : IsEnd back) : Relaid (front ++ back) (front ++ ' ' :: '#' :: text ++ back)
  /-- A carriage return before a line feed. -/
  | carriageReturn (front back : List Char) :
      Relaid (front ++ '\n' :: back) (front ++ '\r' :: '\n' :: back)

/-- Any number of changes of layout, one after the other. -/
def Layout : List Char → List Char → Prop :=
  Relation.ReflTransGen Relaid

/-! ## What a change of layout does -/

variable {before after : List (List Char)} {raw other : List Char}

theorem readFrom_replace (h : Field.splitLine raw = Field.splitLine other) (number : Nat) :
    readFrom number (before ++ other :: after) = readFrom number (before ++ raw :: after) := by
  rw [readFrom_append, readFrom_append, readFrom, readFrom, read_congr h]

/-- The numbers once a line stands at a place. -/
def makeRoom (place number : Nat) : Nat :=
  if number < place then number else number + 1

theorem strictMono_makeRoom (place : Nat) : StrictMono (makeRoom place) := by
  intro a b hab
  unfold makeRoom
  split <;> split <;> omega

theorem readFrom_insert (h : Field.splitLine raw = .ok []) (number : Nat) :
    readFrom number (before ++ raw :: after) = (readFrom number (before ++ after)).map
      (Block.Item.renumber (makeRoom (number + before.length))) := by
  have hnone : read (number + before.length) raw = none := by rw [read, h]
  have hbefore : readFrom number before = (readFrom number before).map
      (Block.Item.renumber (makeRoom (number + before.length))) :=
    readFrom_renumber fun i hi => by rw [makeRoom, if_pos (by omega)]
  have hafter : readFrom (number + before.length + 1) after =
      (readFrom (number + before.length) after).map
        (Block.Item.renumber (makeRoom (number + before.length))) :=
    readFrom_renumber fun i hi => by rw [makeRoom, if_neg (by omega)]; omega
  rw [readFrom_append, readFrom_append, readFrom, hnone, List.map_append, ← hbefore, hafter]
  rfl

/-- The same lines in the same order, with other numbers. -/
def Renumbered (source other : List Char) : Prop :=
  ∃ f, StrictMono f ∧ ofSource other = (ofSource source).map (Block.Item.renumber f)

theorem map_renumber_id (items : List Block.Item) :
    items.map (Block.Item.renumber id) = items := by
  have hid : Block.Item.renumber id = id := funext fun item => by cases item <;> rfl
  rw [hid, List.map_id]

theorem Renumbered.of_eq {source other : List Char} (h : ofSource other = ofSource source) :
    Renumbered source other :=
  ⟨id, strictMono_id, by rw [map_renumber_id, h]⟩

theorem Renumbered.trans {source middle other : List Char} (h : Renumbered source middle)
    (h' : Renumbered middle other) : Renumbered source other := by
  obtain ⟨f, hf, hmiddle⟩ := h
  obtain ⟨g, hg, hother⟩ := h'
  have hcomp : Block.Item.renumber g ∘ Block.Item.renumber f = Block.Item.renumber (g ∘ f) :=
    funext fun item => by cases item <;> rfl
  exact ⟨g ∘ f, hg.comp hf, by rw [hother, hmiddle, List.map_map, hcomp]⟩

theorem Renumbered.of_replace {source text : List Char}
    (hsource : source.splitOn '\n' = before ++ raw :: after)
    (hother : text.splitOn '\n' = before ++ other :: after)
    (h : Field.splitLine raw = Field.splitLine other) : Renumbered source text := by
  refine .of_eq ?_
  rw [ofSource_eq_pieces, ofSource_eq_pieces, hsource, hother, readFrom_replace h]

theorem Renumbered.of_insert {source text : List Char}
    (hsource : source.splitOn '\n' = before ++ after)
    (hother : text.splitOn '\n' = before ++ raw :: after)
    (h : Field.splitLine raw = .ok []) : Renumbered source text := by
  refine ⟨makeRoom (1 + before.length), strictMono_makeRoom _, ?_⟩
  rw [ofSource_eq_pieces, ofSource_eq_pieces, hsource, hother, readFrom_insert h]

theorem IsVacant.splitLine (h : IsVacant raw) : Field.splitLine raw = .ok [] :=
  Field.splitLine_eq_nil_iff.mpr h.2

/-- The pieces of a text behind the start of a line. -/
theorem IsStart.exists_splitOn {front : List Char} (h : IsStart front) :
    ∃ before, ∀ back, (front ++ back).splitOn '\n' = before ++ back.splitOn '\n' := by
  rcases h with rfl | h
  · exact ⟨[], fun _ => rfl⟩
  · obtain ⟨start, rfl⟩ := List.getLast?_eq_some_iff.mp h
    refine ⟨start.splitOn '\n', fun back => ?_⟩
    rw [List.append_assoc, List.singleton_append, List.splitOn_append_cons_self]

/-- What stands behind a line up to its line feed is at most a carriage return. -/
theorem IsEnd.exists_splitOn {back : List Char} (h : IsEnd back) :
    ∃ rest after, back.splitOn '\n' = rest :: after ∧ (rest = [] ∨ rest = ['\r']) := by
  rcases h with rfl | ⟨back, rfl⟩ | ⟨back, rfl⟩
  · exact ⟨[], [], List.splitOn_nil _, .inl rfl⟩
  · exact ⟨[], back.splitOn '\n', List.splitOn_append_cons_self [] back, .inl rfl⟩
  · exact ⟨['\r'], back.splitOn '\n', List.splitOn_append_cons_self ['\r'] back, .inr rfl⟩

/-- A comment may stand behind a line that can be split. -/
theorem splitLine_comment {line rest text : List Char} {fields : List Field}
    (h : Field.splitLine (line ++ rest) = .ok fields) (hrest : rest = [] ∨ rest = ['\r']) :
    Field.splitLine (line ++ (' ' :: '#' :: text ++ rest)) = .ok fields := by
  have hline : Field.splitLine line = .ok fields := by
    rcases hrest with rfl | rfl
    · rwa [List.append_nil] at h
    · rwa [Field.splitLine_concat (by decide)] at h
  refine Field.splitLine_append_trivia hline ⟨[' '], '#' :: (text ++ rest), rfl, ?_, .inr ⟨_, rfl⟩⟩
  rw [List.forall_mem_singleton]
  decide

theorem exists_splitLine {source : List Char}
    (hsplits : ∀ item ∈ ofSource source, ∃ line, item = .ok line)
    (hsource : source.splitOn '\n' = before ++ raw :: after) :
    ∃ fields, Field.splitLine raw = .ok fields := by
  cases hraw : Field.splitLine raw with
  | ok fields => exact ⟨fields, rfl⟩
  | error cause =>
      rw [ofSource_eq_pieces, hsource, readFrom_append, readFrom, read, hraw] at hsplits
      obtain ⟨line, hline⟩ := hsplits _ (List.mem_append_right _ List.mem_cons_self)
      contradiction

theorem Relaid.renumbered {source other : List Char} (h : Relaid source other)
    (hsplits : ∀ item ∈ ofSource source, ∃ line, item = .ok line) :
    Renumbered source other := by
  cases h with
  | line hfront hraw back =>
      obtain ⟨before, hbefore⟩ := hfront.exists_splitOn
      refine .of_insert (hbefore back) ?_ hraw.splitLine
      rw [List.append_assoc, hbefore, List.splitOn_append_cons_self, splitOn_of_notMem hraw.1,
        List.singleton_append]
  | @lastLine _ raw hfront hraw =>
      obtain ⟨before, hbefore⟩ := hfront.exists_splitOn
      have hend := hbefore []
      have hother := hbefore raw
      rw [List.append_nil, List.splitOn_nil] at hend
      rw [splitOn_of_notMem hraw.1] at hother
      exact .of_replace hend hother hraw.splitLine.symm
  | ended source =>
      have hother := List.splitOn_append_cons_self source [] (a := '\n')
      rw [List.splitOn_nil] at hother
      exact .of_insert (List.append_nil _).symm hother rfl
  | comment front text htext hback =>
      obtain ⟨rest, after, hrest, hreturn⟩ := hback.exists_splitOn
      obtain ⟨before, line, hpieces⟩ := exists_splitOn_append '\n' front hrest
      have hsource := hpieces [] List.not_mem_nil
      have hother := hpieces (' ' :: '#' :: text) (by simpa using htext)
      rw [← List.append_assoc front] at hother
      obtain ⟨fields, hfields⟩ := exists_splitLine hsplits hsource
      exact .of_replace hsource hother (hfields.trans (splitLine_comment hfields hreturn).symm)
  | carriageReturn front back =>
      have hrest : ('\n' :: back).splitOn '\n' = [] :: back.splitOn '\n' :=
        List.splitOn_append_cons_self [] back
      obtain ⟨before, line, hpieces⟩ := exists_splitOn_append '\n' front hrest
      refine .of_replace (hpieces [] List.not_mem_nil) (hpieces ['\r'] (by decide)) ?_
      rw [List.append_nil, List.append_nil, List.append_nil]
      exact (Field.splitLine_concat (by decide) line).symm

/-- However a source is laid out anew, its lines with content stay and only get other
numbers, in the same order. -/
theorem Layout.renumbered {source other : List Char} (h : Layout source other)
    (hsplits : ∀ item ∈ ofSource source, ∃ line, item = .ok line) :
    Renumbered source other := by
  induction h with
  | refl => exact .of_eq rfl
  | tail _ hstep ih =>
      refine ih.trans (hstep.renumbered ?_)
      obtain ⟨f, -, hmiddle⟩ := ih
      rw [hmiddle, List.forall_mem_map]
      intro item hitem
      obtain ⟨line, rfl⟩ := hsplits item hitem
      exact ⟨line.renumber f, rfl⟩

end Line

end CadTimeline
