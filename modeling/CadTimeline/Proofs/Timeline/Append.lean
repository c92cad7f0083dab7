import CadTimeline.Proofs.Timeline.Source
import Mathlib.Data.List.TakeWhile

/-!
# Two sources in one

The lines, the entries and the blocks of a source that another source stands behind. Only
the numbers of the later lines change, and a block goes on into the later source unless a
line there opens the next one.
-/

namespace CadTimeline

/-! ## Lines -/

/-- The item further down. -/
def Block.Item.shift (count : Nat) : Block.Item → Block.Item
  | .ok line => .ok { line with number := line.number + count }
  | .error fault => .error { fault with number := fault.number + count }

namespace Line

theorem read_add (number count : Nat) (raw : List Char) :
    read (number + count) raw = (read number raw).map (Block.Item.shift count) := by
  unfold read
  split <;> rfl

theorem readFrom_add (number count : Nat) (raws : List (List Char)) :
    readFrom (number + count) raws = (readFrom number raws).map (Block.Item.shift count) := by
  induction raws generalizing number with
  | nil => rfl
  | cons raw raws ih =>
      rw [readFrom, readFrom, Nat.add_right_comm, ih, read_add, List.map_append]
      cases read number raw <;> rfl

theorem ofSource_append {front : List Char} (h : front.getLast? = some '\n') (back : List Char) :
    ofSource (front ++ back) =
      ofSource front ++ (ofSource back).map (Block.Item.shift (Text.lines front).length) := by
  rw [ofSource_eq, ofSource_eq, ofSource_eq, Text.lines_append h, readFrom_append, readFrom_add]

/-- All lines of the source can be split into fields. -/
def Splits (source : String) : Prop :=
  ∀ item ∈ ofSource source.toList, ∃ line, item = .ok line

theorem splits_iff {source : String} :
    Splits source ↔ (ofSource source.toList).all Except.isOk = true := by
  rw [Splits, List.all_eq_true]
  refine forall₂_congr fun item _ => ?_
  cases item <;> simp [Except.isOk, Except.toBool]

instance (source : String) : Decidable (Splits source) :=
  decidable_of_iff _ splits_iff.symm

end Line

namespace Block

theorem bodyLine?_shift (keyword : Keyword) (count : Nat) (item : Item) :
    (bodyLine? keyword (item.shift count)).isSome = (bodyLine? keyword item).isSome := by
  cases item with
  | error fault => rfl
  | ok line =>
      have hopens : opens keyword { line with number := line.number + count } =
          opens keyword line := rfl
      unfold Item.shift bodyLine?
      dsimp only
      rw [hopens]
      split <;> rfl

theorem bodyLine?_eq_none {keyword : Keyword} {line : Line} :
    bodyLine? keyword (.ok line) = none ↔ opens keyword line = true := by
  unfold bodyLine?
  dsimp only
  split <;> simp_all

/-- Every keyword but one always opens a block. -/
theorem opens_of_keyword? {keyword : Keyword} {line : Line} (h : keyword? line = some keyword)
    (hecho : keyword ≠ .echo) (current : Keyword) : opens current line = true := by
  rw [opens, h]
  split
  · rename_i heq
    exact absurd (Option.some.inj heq) hecho
  · rfl
  · contradiction

theorem isSome_keyword?_of_opens {keyword : Keyword} {line : Line}
    (h : opens keyword line = true) : (keyword? line).isSome = true := by
  unfold opens at h
  split at h
  · rename_i hkeyword
    rw [hkeyword, Option.isSome_some]
  · rename_i hkeyword
    rw [hkeyword, Option.isSome_some]
  · contradiction

/-! ## Entries -/

/-- The line of a keyword opens a block, which takes the lines up to the next one. -/
theorem entries_header {line : Line} {keyword : Keyword} (h : keyword? line = some keyword)
    (items : List Item) :
    entries (.ok line :: items) =
      .block ⟨keyword, line, (items.takeWhile fun item => (bodyLine? keyword item).isSome).filterMap
        (bodyLine? keyword)⟩ ::
        entries (items.dropWhile fun item => (bodyLine? keyword item).isSome) := by
  rw [entries, h]

theorem getLast?_cons_of_some {α : Type} {a b : α} {l : List α} (h : l.getLast? = some b) :
    (a :: l).getLast? = some b := by
  rw [List.getLast?_cons, h, Option.getD_some]

/-- What is taken from the front of a list is taken from the whole, unless all of the front
is and the rest goes on. -/
theorem takeWhile_append_of_stops {α : Type} {p : α → Bool} {first second : List α}
    (h : first.dropWhile p = [] → ∀ a ∈ second.head?, p a = false) :
    (first ++ second).takeWhile p = first.takeWhile p ∧
      (first ++ second).dropWhile p = first.dropWhile p ++ second := by
  induction first with
  | nil =>
      cases second with
      | nil => exact ⟨rfl, rfl⟩
      | cons a second => simp [h rfl a rfl]
  | cons a first ih =>
      by_cases ha : p a = true
      · rw [List.dropWhile_cons_of_pos ha] at h
        simpa [ha] using ih h
      · simp [ha]

/-- The entries stay as they are unless the last block goes on. -/
theorem entries_append {first second : List Item}
    (h : ∀ block, (entries first).getLast? = some (.block block) →
      ∀ item ∈ second.head?, bodyLine? block.keyword item = none) :
    entries (first ++ second) = entries first ++ entries second := by
  induction first using entries.induct with
  | case1 =>
      rw [entries]
      rfl
  | case2 fault items ih =>
      rw [entries] at h
      have hrest := ih fun block hblock => h block (getLast?_cons_of_some hblock)
      rw [List.cons_append, entries, entries, hrest, List.cons_append]
  | case3 line items hnone ih =>
      rw [entries, hnone] at h
      have hrest := ih fun block hblock => h block (getLast?_cons_of_some hblock)
      rw [List.cons_append, entries, entries, hnone, hrest]
      rfl
  | case4 line items keyword hsome inBody ih =>
      rw [entries_header hsome] at h
      have hrest := ih fun block hblock => h block (getLast?_cons_of_some hblock)
      have hstops : items.dropWhile inBody = [] → ∀ item ∈ second.head?, inBody item = false := by
        intro hnil item hitem
        have hlast : entries (items.dropWhile inBody) = [] := by rw [hnil, entries]
        have hnone := h _ (by rw [hlast, List.getLast?_singleton]) item hitem
        exact Option.isSome_eq_false_iff.mpr (Option.isNone_iff_eq_none.mpr hnone)
      obtain ⟨htake, hdrop⟩ := takeWhile_append_of_stops hstops
      rw [List.cons_append, entries_header hsome, entries_header hsome, htake, hdrop, hrest]
      rfl

/-! ## Blocks -/

variable {items : List Item}

/-- Where all lines can be split and the first one opens a block, there are only blocks. -/
theorem exists_blocks (hsplits : ∀ item ∈ items, ∃ line, item = .ok line)
    (hfirst : ∀ line, items.head? = some (.ok line) → (keyword? line).isSome = true) :
    ∃ blocks : List Block, entries items = blocks.map .block := by
  induction items using entries.induct with
  | case1 => exact ⟨[], by rw [entries]; rfl⟩
  | case2 fault items ih =>
      obtain ⟨line, hline⟩ := hsplits _ List.mem_cons_self
      contradiction
  | case3 line items hnone ih =>
      have hkeyword := hfirst line rfl
      rw [hnone] at hkeyword
      contradiction
  | case4 line items keyword hsome inBody ih =>
      have hrest : ∀ item ∈ items.dropWhile inBody, ∃ line, item = .ok line := fun item hitem =>
        hsplits item (List.mem_cons_of_mem _ ((List.dropWhile_sublist _).subset hitem))
      have hopens : ∀ line, (items.dropWhile inBody).head? = some (.ok line) →
          (keyword? line).isSome = true := by
        intro line hline
        have hbody := List.head?_dropWhile_not inBody items
        rw [hline] at hbody
        have hnone := Option.isNone_iff_eq_none.mp (Option.isSome_eq_false_iff.mp hbody)
        exact isSome_keyword?_of_opens (bodyLine?_eq_none.mp hnone)
      obtain ⟨blocks, hblocks⟩ := ih hrest hopens
      refine ⟨⟨keyword, line, (items.takeWhile inBody).filterMap (bodyLine? keyword)⟩ :: blocks, ?_⟩
      rw [entries_header hsome, hblocks]
      rfl

theorem mapM_toBlock (blocks : List Block) :
    (blocks.map Entry.block).mapM Entry.toBlock = .ok blocks := by
  rw [mapM_eq_ok, List.forall₂_map_left_iff, List.forall₂_same]
  exact fun _ _ => rfl

/-- Where all lines can be split, the first one belongs to no block or there are only
blocks. -/
theorem stray_or_blocks (hsplits : ∀ item ∈ items, ∃ line, item = .ok line) :
    (∃ line rest, items = .ok line :: rest ∧ keyword? line = none) ∨
      ∃ blocks : List Block, entries items = blocks.map .block := by
  cases items with
  | nil => exact .inr ⟨[], by rw [entries]; rfl⟩
  | cons item items =>
      obtain ⟨line, rfl⟩ := hsplits item List.mem_cons_self
      cases hkeyword : keyword? line with
      | none => exact .inl ⟨line, items, rfl, hkeyword⟩
      | some keyword =>
          refine .inr (exists_blocks hsplits ?_)
          rintro _ ⟨⟩
          rw [hkeyword, Option.isSome_some]

theorem mapM_stray {line : Line} (h : keyword? line = none) (items : List Item) :
    (entries (.ok line :: items)).mapM Entry.toBlock =
      .error ⟨line.number, .strayLine line.firstWord⟩ := by
  rw [entries, h]
  rfl

/-- A source goes on behind another one: with new lines, the first of which opens a block
after the last one of the source in front. -/
structure Continues (first second : String) : Prop where
  ended : first.toList.getLast? = some '\n'
  splits : Line.Splits first
  laterSplits : Line.Splits second
  opens : ∀ blocks, ofSource first = .ok blocks → ∀ block ∈ blocks.getLast?, ∀ line,
    (Line.ofSource second.toList).head? = some (.ok line) → opens block.keyword line = true

namespace Continues

variable {first second : String}

theorem items_eq (h : Continues first second) :
    Line.ofSource (first ++ second).toList = Line.ofSource first.toList ++
      (Line.ofSource second.toList).map (Item.shift (Text.lines first.toList).length) := by
  rw [String.toList_append]
  exact Line.ofSource_append h.ended _

theorem ofSource_error (h : Continues first second) {issue : LineIssue}
    (hfirst : ofSource first = .error issue) : ofSource (first ++ second) = .error issue := by
  rw [ofSource] at hfirst
  rcases stray_or_blocks h.splits with ⟨line, rest, hitems, hnone⟩ | ⟨blocks, hblocks⟩
  · rw [hitems, mapM_stray hnone] at hfirst
    rw [ofSource, h.items_eq, hitems, List.cons_append, mapM_stray hnone, hfirst]
  · rw [hblocks, mapM_toBlock] at hfirst
    contradiction

/-- No line of the later source goes on with the last block. -/
theorem bodyLine?_head (h : Continues first second) {blocks : List Block}
    (hfirst : ofSource first = .ok blocks) {last : Block} (hlast : last ∈ blocks.getLast?)
    (count : Nat) :
    ∀ item ∈ ((Line.ofSource second.toList).map (Item.shift count)).head?,
      bodyLine? last.keyword item = none := by
  intro item hitem
  rw [List.head?_map] at hitem
  obtain ⟨old, hold, rfl⟩ := Option.map_eq_some_iff.mp hitem
  obtain ⟨line, rfl⟩ := h.laterSplits old (List.mem_of_head? hold)
  have hnone := bodyLine?_eq_none.mpr (h.opens blocks hfirst last hlast line hold)
  rw [← Option.isNone_iff_eq_none, ← Option.isSome_eq_false_iff, bodyLine?_shift, hnone]
  rfl

theorem ofSource_ok (h : Continues first second) {blocks : List Block} (hne : blocks ≠ [])
    (hfirst : ofSource first = .ok blocks) :
    ∃ more, ofSource (first ++ second) = .ok (blocks ++ more) := by
  have hhead := h.bodyLine?_head hfirst (List.getLast?_eq_some_getLast hne)
    (Text.lines first.toList).length
  rw [ofSource] at hfirst
  rcases stray_or_blocks h.splits with ⟨line, rest, hitems, hnone⟩ | ⟨others, hblocks⟩
  · rw [hitems, mapM_stray hnone] at hfirst
    contradiction
  · rw [hblocks, mapM_toBlock] at hfirst
    cases hfirst
    have hentries : entries (Line.ofSource (first ++ second).toList) = _ :=
      h.items_eq ▸ entries_append fun block hblock => by
        rw [hblocks, List.getLast?_map, List.getLast?_eq_some_getLast hne] at hblock
        cases hblock
        exact hhead
    have hsplits : ∀ item ∈ (Line.ofSource second.toList).map
        (Item.shift (Text.lines first.toList).length), ∃ line, item = .ok line := by
      rw [List.forall_mem_map]
      intro old hold
      obtain ⟨line, rfl⟩ := h.laterSplits old hold
      exact ⟨_, rfl⟩
    obtain ⟨more, hmore⟩ := exists_blocks hsplits fun line hline =>
      isSome_keyword?_of_opens (bodyLine?_eq_none.mp (hhead _ hline))
    exact ⟨more, by rw [ofSource, hentries, hblocks, hmore, ← List.map_append, mapM_toBlock]⟩

end Continues

end Block

end CadTimeline
