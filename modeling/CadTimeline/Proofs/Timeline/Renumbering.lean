import CadTimeline.Proofs.Alike
import CadTimeline.Proofs.Timeline.Append

/-!
# Lines with other numbers

Numbering the lines of a source in another way gives the same entries and blocks with the
other numbers, and what is wrong with it stays wrong at the same line.
-/

namespace CadTimeline

def Line.renumber (f : Nat → Nat) (line : Line) : Line :=
  { line with number := f line.number }

/-- The same cause of failure. Only one names a line besides the one that it is found at. -/
inductive Issue.Follows (f : Nat → Nat) : Issue → Issue → Prop
  | same (issue : Issue) : Follows f issue issue
  | redefinition (name : String) (line : Nat) :
      Follows f (.redefinition name line) (.redefinition name (f line))

theorem Issue.Follows.kind_eq {f : Nat → Nat} {issue other : Issue} (h : issue.Follows f other) :
    other.kind = issue.kind := by
  cases h <;> rfl

/-- The same cause of failure at the line with the new number. -/
structure LineIssue.Follows (f : Nat → Nat) (found other : LineIssue) : Prop where
  line : other.line = f found.line
  issue : found.issue.Follows f other.issue

theorem LineIssue.follows (f : Nat → Nat) (line : Nat) (issue : Issue) :
    LineIssue.Follows f ⟨line, issue⟩ ⟨f line, issue⟩ :=
  ⟨rfl, .same issue⟩

namespace Block

def renumber (f : Nat → Nat) (block : Block) : Block :=
  ⟨block.keyword, block.header.renumber f, block.body.map (Line.renumber f)⟩

def Item.renumber (f : Nat → Nat) : Item → Item
  | .ok line => .ok (line.renumber f)
  | .error fault => .error { fault with number := f fault.number }

def Entry.renumber (f : Nat → Nat) : Entry → Entry
  | .block b => .block (b.renumber f)
  | .stray line => .stray (line.renumber f)
  | .broken fault => .broken { fault with number := f fault.number }

variable (f : Nat → Nat)

theorem bodyLine?_renumber (keyword : Keyword) (item : Item) :
    bodyLine? keyword (item.renumber f) = (bodyLine? keyword item).map (Line.renumber f) := by
  cases item with
  | error fault => rfl
  | ok line =>
      have hopens : opens keyword (line.renumber f) = opens keyword line := rfl
      rw [Item.renumber, bodyLine?, bodyLine?, hopens]
      cases opens keyword line <;> rfl

theorem isSome_bodyLine?_renumber (keyword : Keyword) (item : Item) :
    (bodyLine? keyword (item.renumber f)).isSome = (bodyLine? keyword item).isSome := by
  rw [bodyLine?_renumber, Option.isSome_map]

theorem entries_renumber (items : List Item) :
    entries (items.map (Item.renumber f)) = (entries items).map (Entry.renumber f) := by
  induction items using entries.induct with
  | case1 =>
      rw [List.map_nil, entries]
      rfl
  | case2 fault items ih =>
      rw [List.map_cons, Item.renumber, entries, entries, ih]
      rfl
  | case3 line items hnone ih =>
      have hother : keyword? (line.renumber f) = none := hnone
      rw [List.map_cons, Item.renumber, entries, entries, hnone, hother, ih]
      rfl
  | case4 line items keyword hsome inBody ih =>
      have hother : keyword? (line.renumber f) = some keyword := hsome
      have hin : (fun item => (bodyLine? keyword item).isSome) ∘ Item.renumber f = inBody :=
        funext (isSome_bodyLine?_renumber f keyword)
      have hline : bodyLine? keyword ∘ Item.renumber f =
          fun item => (bodyLine? keyword item).map (Line.renumber f) :=
        funext (bodyLine?_renumber f keyword)
      rw [List.map_cons, Item.renumber, entries_header hsome, entries_header hother,
        List.takeWhile_map, List.dropWhile_map, hin, ih, List.filterMap_map, hline,
        ← List.map_filterMap]
      rfl

theorem alike_toBlock (entry : Entry) :
    Alike (LineIssue.Follows f) (fun block other => other = renumber f block) entry.toBlock
      (entry.renumber f).toBlock := by
  cases entry with
  | block b => exact .ok rfl
  | stray line => exact .error (LineIssue.follows f _ _)
  | broken fault => exact .error (LineIssue.follows f _ _)

/-- Where the lines of two sources differ in their numbers only, so do their blocks. -/
theorem alike_ofSource {source other : String}
    (h : Line.ofSource other.toList = (Line.ofSource source.toList).map (Item.renumber f)) :
    Alike (LineIssue.Follows f) (fun blocks others => others = blocks.map (renumber f))
      (ofSource source) (ofSource other) := by
  unfold ofSource
  rw [h, entries_renumber]
  exact Alike.mapM_map (alike_toBlock f)

end Block

end CadTimeline
