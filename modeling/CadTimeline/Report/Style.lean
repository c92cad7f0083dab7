/-!
# Coloured text

Terminal styles, which surround a text with control sequences when colours are
on.
-/

namespace CadTimeline

/-- Text styles by their numbers in terminal control sequences. -/
inductive Style where
  | bold
  | green
  | yellow
  | cyan
  | brightBlack
  | brightBlue
  | boldRed
  | boldYellow
deriving DecidableEq, Repr

namespace Style

def codes : Style → String
  | bold => "1"
  | green => "32"
  | yellow => "33"
  | cyan => "36"
  | brightBlack => "90"
  | brightBlue => "94"
  | boldRed => "1;31"
  | boldYellow => "1;33"

def escape : Char := '\x1B'

def reset : List Char := [escape, '[', '0', 'm']

def opening (style : Style) : List Char :=
  escape :: '[' :: style.codes.toList ++ ['m']

/-- Takes the style up again behind every reset inside a text. -/
def resume (opening : List Char) : List Char → List Char
  | [] => []
  | c :: cs =>
    if reset.isPrefixOf (c :: cs) then reset ++ opening ++ resume opening (cs.drop 3)
    else c :: resume opening cs
termination_by cs => cs.length
decreasing_by
  all_goals simp only [List.length_cons, List.length_drop]; omega

/-- The text in a style, if colours are on. -/
def paint (style : Style) (colored : Bool) (text : String) : String :=
  if colored then String.ofList (style.opening ++ resume style.opening text.toList ++ reset)
  else text

end Style

end CadTimeline
