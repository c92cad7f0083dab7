/-!
# Names

The spelling of the names of parameters, functions and constants: an ASCII
letter or `_`, then ASCII letters, digits and `_`.
-/

namespace CadTimeline.Text

def isNameStart (c : Char) : Bool :=
  c.isAlpha || c == '_'

def isNamePart (c : Char) : Bool :=
  c.isAlphanum || c == '_'

theorem isNamePart_of_isNameStart {c : Char} (h : isNameStart c = true) : isNamePart c = true := by
  simp only [isNameStart, isNamePart, Char.isAlphanum, Bool.or_eq_true] at *
  exact h.imp_left Or.inl

/-- The longest name at the start of the text, empty if there is none. -/
def takeName : List Char → List Char
  | [] => []
  | c :: cs => if isNameStart c then c :: cs.takeWhile isNamePart else []

/-- What follows the longest name at the start of the text. -/
def dropName : List Char → List Char
  | [] => []
  | c :: cs => if isNameStart c then cs.dropWhile isNamePart else c :: cs

theorem takeName_append_dropName (cs : List Char) : takeName cs ++ dropName cs = cs := by
  cases cs with
  | nil => rfl
  | cons c cs => by_cases h : isNameStart c <;> simp [takeName, dropName, h]

theorem length_dropName_le (cs : List Char) : (dropName cs).length ≤ cs.length := by
  conv => rhs; rw [← takeName_append_dropName cs]
  simp

theorem length_dropName_lt {cs : List Char} (h : takeName cs ≠ []) :
    (dropName cs).length < cs.length := by
  conv => rhs; rw [← takeName_append_dropName cs]
  simp [List.length_pos_iff.2 h]

/-- Whether the whole text is one name. -/
def isName (cs : List Char) : Bool :=
  !cs.isEmpty && dropName cs == []

end CadTimeline.Text
