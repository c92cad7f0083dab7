/-!
# Faults of a file store

Why reading or writing a file can fail.
-/

namespace CadTimeline

inductive StoreFault where
  | notFound
  | alreadyExists
  | notDirectory
  | isDirectory
  | nameTooLong
  | nulInName
  | notText
  | other (description : String)
deriving DecidableEq, Repr

namespace StoreFault

/-- The wording and the number by which an operating system knows the fault. -/
def message : StoreFault → String
  | notFound => "No such file or directory (os error 2)"
  | alreadyExists => "File exists (os error 17)"
  | notDirectory => "Not a directory (os error 20)"
  | isDirectory => "Is a directory (os error 21)"
  | nameTooLong => "File name too long (os error 36)"
  | nulInName => "file name contained an unexpected NUL byte"
  | notText => "stream did not contain valid UTF-8"
  | other description => description

end StoreFault

end CadTimeline
