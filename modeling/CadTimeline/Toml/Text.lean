/-!
# Strings in TOML

The four ways of writing a string, and which of them is chosen: the first in
which the text needs no escapes.
-/

namespace CadTimeline.Toml

/-- A control character that no string can hold as it is. A tab and a line feed
are not among them. -/
def isControl (c : Char) : Bool :=
  (c.toNat < 32 && c != '\t' && c != '\n') || c.toNat == 127

/-- The length of the longest run of a character. -/
def longestRun (c : Char) (cs : List Char) : Nat :=
  (cs.foldl (fun (run, longest) d =>
    if d = c then (run + 1, max longest (run + 1)) else (0, longest)) (0, 0)).2

def hexDigits (width n : Nat) : List Char :=
  let digits := (Nat.toDigits 16 n).map Char.toUpper
  List.replicate (width - digits.length) '0' ++ digits

/-- A character inside a basic string. -/
def escape (c : Char) : List Char :=
  if c = '"' then ['\\', '"']
  else if c = '\\' then ['\\', '\\']
  else if c = '\t' then ['\\', 't']
  else if c = '\n' then ['\\', 'n']
  else if c = '\r' then ['\\', 'r']
  else if c.toNat = 8 then ['\\', 'b']
  else if c.toNat = 12 then ['\\', 'f']
  else if isControl c then '\\' :: 'u' :: hexDigits 4 c.toNat
  else [c]

/-- The text of a string of several lines, in which a quote is escaped when it is
the third of its run. -/
def escapeLines (quotes : Nat) : List Char → List Char
  | [] => []
  | c :: cs =>
    if c = '\n' then c :: escapeLines 0 cs
    else if c = '"' ∧ quotes < 2 then c :: escapeLines (quotes + 1) cs
    else escape c ++ escapeLines 0 cs

def basic (cs : List Char) : List Char :=
  '"' :: cs.flatMap escape ++ ['"']

def literal (cs : List Char) : List Char :=
  '\'' :: cs ++ ['\'']

/-- A delimiter of three characters; text of several lines starts on a new line. -/
def framed (quote : Char) (cs body : List Char) : List Char :=
  let delimiter := List.replicate 3 quote
  delimiter ++ (if cs.contains '\n' then ['\n'] else []) ++ body ++ delimiter

/-- A text as a TOML value. -/
def write (cs : List Char) : List Char :=
  let controls := cs.any isControl
  let lines := cs.contains '\n'
  let backslash := cs.contains '\\'
  let double := longestRun '"' cs
  let single := longestRun '\'' cs
  if !controls && !backslash && double == 0 && !lines then basic cs
  else if !controls && single == 0 && !lines then literal cs
  else if !controls && !backslash && double ≤ 2 then framed '"' cs (escapeLines 0 cs)
  else if !controls && single ≤ 2 then framed '\'' cs cs
  else if lines then framed '"' cs (escapeLines 0 cs)
  else basic cs

end CadTimeline.Toml
