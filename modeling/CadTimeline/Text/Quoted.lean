import CadTimeline.Text.Blank

/-!
# Quoted text

How text is written into a field so that it reads back as it is: between double
quotes, with every quote inside written twice, where a bare field would be split,
cut short or trimmed.
-/

namespace CadTimeline.Text

def doubleQuotes : List Char → List Char
  | [] => []
  | c :: cs => if c = '"' then '"' :: '"' :: doubleQuotes cs else c :: doubleQuotes cs

/-- Whether a bare field could not hold the text. -/
def needsQuotes (cs : List Char) : Bool :=
  cs.isEmpty || cs.any (fun c => c == ',' || c == '"' || c == '#') || trim cs != cs

def quote (cs : List Char) : List Char :=
  '"' :: doubleQuotes cs ++ ['"']

/-- The text, quoted if it has to be. -/
def quoted (s : String) : String :=
  if needsQuotes s.toList then String.ofList (quote s.toList) else s

/-- A quote is written twice and every other character once. -/
theorem count_doubleQuotes (x : Char) (cs : List Char) :
    (doubleQuotes cs).count x = (if x = '"' then 2 else 1) * cs.count x := by
  induction cs with
  | nil => simp [doubleQuotes]
  | cons c cs ih => by_cases h : c = '"' <;> by_cases hx : x = c <;> grind [doubleQuotes]

end CadTimeline.Text
