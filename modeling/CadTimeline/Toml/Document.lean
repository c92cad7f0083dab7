import CadTimeline.Toml.Scalar

/-!
# Reading TOML documents

A document is a table of named values. A name is given once; tables may be opened
by a header, or by a name with dots, but not by both. Nesting is bounded.
-/

namespace CadTimeline

/-- How a table came to be, which decides what may still be added to it. -/
inductive TomlOrigin where
  /-- On the way to a table with a header. -/
  | passed
  /-- By its own header. -/
  | header
  /-- By a name with dots. -/
  | dotted
  /-- Between braces. -/
  | inline
deriving DecidableEq, Repr

inductive Toml where
  | text (value : String)
  | boolean (value : Bool)
  /-- A number or a time. -/
  | scalar
  | array (items : List Toml)
  | table (origin : TomlOrigin) (entries : List (String × Toml))
  /-- The tables of an array that grows by headers, the last one first. -/
  | tables (items : List (List (String × Toml)))

namespace Toml

abbrev Entries := List (String × Toml)

/-- Whether a value is an array or a table with nothing in it. -/
def isVacant : Toml → Bool
  | array [] => true
  | table _ [] => true
  | _ => false

/-- The word that a value spells: a text, or the only name in a table in which that
name has a vacant value. -/
def word? : Toml → Option String
  | text s => some s
  | table _ [(name, value)] => if value.isVacant then some name else none
  | _ => none

/-- Gives an entry a new value, at its place or at the end. -/
def replace (entries : Entries) (name : String) (value : Toml) : Entries :=
  if entries.any (·.1 == name) then
    entries.map fun entry => if entry.1 = name then (name, value) else entry
  else entries ++ [(name, value)]

/-- Adds a value under a name with dots. The name may lead through tables that
headers passed, but only a table that such a name made takes the value. -/
def insert (value : Toml) : List String → Entries → Option Entries
  | [], _ => none
  | [name], entries =>
    if (entries.lookup name).isSome then none else some (entries ++ [(name, value)])
  | name :: path, entries =>
    match entries.lookup name with
    | none => (insert value path []).map fun inner => entries ++ [(name, .table .dotted inner)]
    | some (.table .dotted inner) => (insert value path inner).map fun inner =>
        replace entries name (.table .dotted inner)
    | some (.table .passed inner) =>
      if path.length = 1 then none
      else (insert value path inner).map fun inner =>
        replace entries name (.table .passed inner)
    | some (.tables (inner :: earlier)) =>
      if path.length = 1 then none
      else (insert value path inner).map fun inner =>
        replace entries name (.tables (inner :: earlier))
    | some _ => none

/-- Changes the table that a path of header names leads to. -/
def within (change : Entries → Option Entries) : List String → Entries → Option Entries
  | [], entries => change entries
  | name :: path, entries =>
    match entries.lookup name with
    | none => (within change path []).map fun inner => entries ++ [(name, .table .passed inner)]
    | some (.table .inline _) => none
    | some (.table origin inner) => (within change path inner).map fun inner =>
        replace entries name (.table origin inner)
    | some (.tables (inner :: earlier)) => (within change path inner).map fun inner =>
        replace entries name (.tables (inner :: earlier))
    | some _ => none

/-- Opens the table of a header. -/
def openTable (name : String) (entries : Entries) : Option Entries :=
  match entries.lookup name with
  | none => some (entries ++ [(name, .table .header [])])
  | some (.table .passed inner) => some (replace entries name (.table .header inner))
  | some _ => none

/-- Adds a table to the array of a header. -/
def pushTable (name : String) (entries : Entries) : Option Entries :=
  match entries.lookup name with
  | none => some (entries ++ [(name, .tables [[]])])
  | some (.tables items) => some (replace entries name (.tables ([] :: items)))
  | some _ => none

def isBareKey (c : Char) : Bool :=
  c.isAlphanum || c == '_' || c == '-'

def simpleKey? (cs : List Char) : Option (String × List Char) :=
  match cs with
  | '"' :: '"' :: '"' :: _ => none
  | '\'' :: '\'' :: '\'' :: _ => none
  | '"' :: _ => string? cs
  | '\'' :: _ => string? cs
  | _ =>
    let name := cs.takeWhile isBareKey
    if name.isEmpty then none else some (String.ofList name, cs.dropWhile isBareKey)

/-- How deep arrays and tables between braces may be nested, and how many parts a
name with dots may have. -/
def depthLimit : Nat := 79

/-- A name with at most so many parts. -/
def keyWithin? : Nat → List Char → Option (List String × List Char)
  | 0, _ => none
  | n + 1, cs => do
    let (name, rest) ← simpleKey? (skipGap cs)
    match skipGap rest with
    | '.' :: rest =>
      let (names, rest) ← keyWithin? n rest
      some (name :: names, rest)
    | rest => some ([name], rest)

/-- A name with dots. -/
def key? (cs : List Char) : Option (List String × List Char) :=
  keyWithin? depthLimit cs

/-- The end of a comment, whose characters are checked. -/
def comment? (cs : List Char) : Option (List Char) :=
  let body := cs.takeWhile (· != '\n')
  let body := if body.getLast? = some '\r' then body.dropLast else body
  if body.any isControl then none else some (cs.drop body.length)

/-- The blanks, line ends and comments between the parts of an array. -/
def skipLayout : Nat → List Char → Option (List Char)
  | 0, _ => none
  | n + 1, cs =>
    match skipGap cs with
    | '#' :: rest => (comment? rest).bind (skipLayout n)
    | rest =>
      match newline? rest with
      | some rest => skipLayout n rest
      | none => some rest

/-- A reader of one value. -/
abbrev Reader := List Char → Option (Toml × List Char)

/-- A value without parts. -/
def simple? : Reader := fun cs =>
  match cs with
  | '"' :: _ => (string? cs).map fun (s, rest) => (.text s, rest)
  | '\'' :: _ => (string? cs).map fun (s, rest) => (.text s, rest)
  | _ =>
    let (chars, rest) := word cs
    if chars = "true".toList then some (.boolean true, rest)
    else if chars = "false".toList then some (.boolean false, rest)
    else if isInteger chars || isFloat chars && !isTooLarge chars || isDateTime chars then
      some (.scalar, rest)
    else none

/-- The items of an array up to its end. The number bounds how many there are. -/
def items? (read : Reader) : Nat → List Char → Option (List Toml × List Char)
  | 0, _ => none
  | n + 1, cs => do
    match ← skipLayout cs.length.succ cs with
    | ']' :: rest => some ([], rest)
    | start =>
      let (item, rest) ← read start
      match ← skipLayout rest.length.succ rest with
      | ',' :: rest =>
        let (more, rest) ← items? read n rest
        some (item :: more, rest)
      | ']' :: rest => some ([item], rest)
      | _ => none

/-- The pairs of a table between braces, which is not empty, up to its end. The
number bounds how many there are. -/
def pairs? (read : Reader) : Nat → Entries → List Char → Option (Entries × List Char)
  | 0, _, _ => none
  | n + 1, entries, cs => do
    let (names, rest) ← key? cs
    let '=' :: rest := rest | none
    let (value, rest) ← read (skipGap rest)
    let entries ← insert value names entries
    match skipGap rest with
    | ',' :: rest => pairs? read n entries rest
    | '\x7d' :: rest => some (entries, rest)
    | _ => none

/-- A table between braces behind the first of them. -/
def inline? (read : Reader) : Reader := fun cs =>
  match skipGap cs with
  | '\x7d' :: rest => some (.table .inline [], rest)
  | start => (pairs? read start.length [] start).map fun (entries, rest) =>
      (.table .inline entries, rest)

/-- A value with at most so many levels of arrays and tables. -/
def valueWithin? : Nat → Reader
  | depth + 1, '[' :: cs => (items? (valueWithin? depth) cs.length cs).map fun (items, rest) =>
      (.array items, rest)
  | depth + 1, '\x7b' :: cs => inline? (valueWithin? depth) cs
  | _, cs => simple? cs

def value? : Reader :=
  valueWithin? depthLimit

/-- What follows the end of an expression: blanks, a comment and a line end. -/
def endOfLine? (cs : List Char) : Option (List Char) := do
  let rest ← match skipGap cs with
    | '#' :: rest => comment? rest
    | rest => some rest
  match rest with
  | [] => some []
  | _ => newline? rest

/-- A document as far as it is read: its entries, and the header that holds. -/
structure Progress where
  entries : Entries
  path : List String

/-- One header, or one name with its value. -/
def expression? (progress : Progress) (cs : List Char) : Option (Progress × List Char) :=
  match cs with
  | '[' :: '[' :: rest => do
    let (names, rest) ← key? rest
    let ']' :: ']' :: rest := rest | none
    let entries ← within (pushTable (names.getLast?.getD "")) names.dropLast progress.entries
    some (⟨entries, names⟩, rest)
  | '[' :: rest => do
    let (names, rest) ← key? rest
    let ']' :: rest := rest | none
    let entries ← within (openTable (names.getLast?.getD "")) names.dropLast progress.entries
    some (⟨entries, names⟩, rest)
  | _ => do
    let (names, rest) ← key? cs
    let '=' :: rest := rest | none
    let (value, rest) ← value? (skipGap rest)
    let entries ← within (insert value names) progress.path progress.entries
    some (⟨entries, progress.path⟩, rest)

/-- Reads the lines of a document. The number bounds how many there are. -/
def lines? : Nat → Progress → List Char → Option Entries
  | 0, _, _ => none
  | n + 1, progress, cs =>
    match skipGap cs with
    | [] => some progress.entries
    | start =>
      match endOfLine? start with
      | some rest => lines? n progress rest
      | none => do
        let (progress, rest) ← expression? progress start
        lines? n progress (← endOfLine? rest)

/-- The entries of a document; a byte order mark in front of it is dropped. -/
def document? (text : String) : Option Entries :=
  let cs := text.toList
  let cs := if cs.head? = some '\uFEFF' then cs.drop 1 else cs
  lines? (cs.length + 2) ⟨[], []⟩ cs

end Toml

end CadTimeline
