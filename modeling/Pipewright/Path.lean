import Pipewright.Text.Basic
import Pipewright.Text.Quoted

/-! # Path texts
Paths of files as texts, whose parts stand between slashes. -/

namespace Pipewright.Path

/-- Whether a path starts at the root. -/
def isAbsolute (path : String) : Bool := path.toList.head? == some '/'

/-- The texts between the slashes of a path. -/
def segments (path : String) : List String := (Text.segments '/' path.toList).map String.ofList

/-- The parts of a path: the root, if it starts there, and its segments but for empty ones and for
single dots, of which one at the very start stays. -/
def parts (path : String) : List String :=
  let named := (segments path).filter fun segment => segment != "" && segment != "."
  if isAbsolute path then "/" :: named
  else if (segments path).head? == some "." then "." :: named
  else named

/-- A path behind another one; an absolute path stands for itself. -/
def join (path more : String) : String :=
  if isAbsolute more then more
  else if path == "" || path.toList.getLast? == some '/' then path ++ more
  else path ++ "/" ++ more

/-- The path of the directory that holds what a path leads to. -/
def parent (path : String) : String :=
  let isIdle (segment : String) : Bool := segment == "" || segment == "."
  let above := ((segments path).reverse.dropWhile isIdle).tail.dropWhile isIdle
  (if isAbsolute path then "/" else "") ++
    "/".intercalate (above.reverse.dropWhile fun segment => segment == "")

/-- The name of the file or directory that a path leads to, if its last part names one. -/
def fileName? (path : String) : Option String :=
  match (parts path).getLast? with
  | none => none
  | some name => if name == "/" || name == "." || name == ".." then none else some name

/-- A file name without what follows its last dot, if a character stands before that dot. -/
def dropExtension (name : String) : String :=
  let cs := name.toList
  let behind := cs.reverse.takeWhile (· ≠ '.')
  let before := cs.take (cs.length - behind.length - 1)
  if before.isEmpty then name else String.ofList before

/-- The file name of a path without its extension. -/
def stem? (path : String) : Option String := (fileName? path).map dropExtension

/-- A path between double quotes, in which single quotes are marked as well. -/
def quoted (path : String) : String :=
  let mark (c : Char) : List Char := if c = '\'' then ['\\', '\''] else Text.quotedChar c
  "\"" ++ String.ofList (path.toList.flatMap mark) ++ "\""

end Pipewright.Path
