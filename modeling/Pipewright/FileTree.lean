import Pipewright.Keyed
import Pipewright.Path

/-! # File trees
Directories and the texts of files below a root, as far as the writing of units is concerned. A path
is followed segment by segment, and only directories can be passed through. A change that cannot be
made leaves every file as it was. -/

namespace Pipewright

/-- Where something lies: the names on the way down from the root. -/
abbrev Place := List String

/-- Directories and files below a root. -/
structure FileTree where
  /-- The texts of the files by their places. -/
  files : List (Place × String)
  /-- The places of the directories but for the root, which is always there. -/
  directories : List Place

namespace FileTree

/-- The tree with nothing below its root. -/
def empty : FileTree := ⟨[], []⟩

/-! ## Looking -/

/-- Whether there is a directory at a place. -/
def hasDirectory (t : FileTree) (p : Place) : Bool := p == [] || t.directories.contains p

/-- The text of the file at a place. -/
def file? (t : FileTree) (p : Place) : Option String := Keyed.lookup p t.files

/-- The place that one segment of a path leads to. -/
def follow (p : Place) (segment : String) : Place :=
  if segment == "" || segment == "." then p
  else if segment == ".." then p.dropLast
  else p ++ [segment]

/-- The place that segments lead to, if all on the way are directories. There need not be anything
at that place. -/
def walk (t : FileTree) (p : Place) : List String → Option Place
  | [] => some p
  | segment :: segments =>
    if t.hasDirectory p then t.walk (follow p segment) segments else none

/-- Whether a text can be a path at all. -/
def isPath (path : String) : Bool := path != "" && !path.toList.contains '\x00'

/-- The place that a path leads to. -/
def place? (t : FileTree) (path : String) : Option Place :=
  if isPath path then t.walk [] (Path.segments path) else none

/-- The text of the file that a path leads to. -/
def read? (t : FileTree) (path : String) : Option String := (t.place? path).bind t.file?

/-- Whether a path leads to a file. -/
def isFile (t : FileTree) (path : String) : Bool := (t.read? path).isSome

/-- Whether a path leads to a directory. -/
def isDirectory (t : FileTree) (path : String) : Bool := (t.place? path).any t.hasDirectory

/-- Whether a path leads to a file or a directory. -/
def contains (t : FileTree) (path : String) : Bool := t.isFile path || t.isDirectory path

/-- The path of every file and every directory below the root, those of directories with a slash at
the end, in ascending order. -/
def listing (t : FileTree) : List String :=
  let below (p : Place) : String := "/".intercalate p
  Keyed.distinct (t.files.map (fun entry => below entry.1) ++
    t.directories.map fun p => below p ++ "/")

/-! ## Changing -/

/-- The last segment of a path, if a file can be put under it. -/
def fileName? (path : String) : Option String :=
  (Path.segments path).getLast?.filter fun name => name != "" && name != "." && name != ".."

/-- Put a text into the file that a path leads to, which may be new. -/
def write? (t : FileTree) (path text : String) : Option FileTree := do
  let _ ← fileName? path
  let p ← t.place? path
  if t.hasDirectory p then none
  else some { t with files := Keyed.insert p text t.files }

/-- Copy a file. A file that is copied onto itself is emptied first. -/
def copy? (t : FileTree) (source target : String) : Option FileTree := do
  let text ← t.read? source
  t.write? target (if t.place? source == t.place? target then "" else text)

/-- Make the directories that segments lead through. What is made before a file is met stays; the
flag says whether none is. -/
def makeAlong (t : FileTree) (p : Place) : List String → Bool × FileTree
  | [] => (true, t)
  | segment :: segments =>
    let next := follow p segment
    if t.hasDirectory next then t.makeAlong next segments
    else if (t.file? next).isSome then (false, t)
    else { t with directories := next :: t.directories }.makeAlong next segments

/-- The segments of a path that ends in dots standing for the directory they are in, without these
dots and the name of that directory. -/
def aboveDots? (path : String) : Option (List String) :=
  match (Path.segments path).reverse.dropWhile (· == "") with
  | "." :: rest => some (rest.dropWhile fun segment => segment == "" || segment == ".").tail.reverse
  | _ => none

/-- Make the directory that a path leads to, and all directories on the way. A name behind which
only a dot follows is not made. -/
def makeDirectories (t : FileTree) (path : String) : Bool × FileTree :=
  if path == "" then (true, t)
  else if !isPath path then (false, t)
  else
    match aboveDots? path with
    | none => t.makeAlong [] (Path.segments path)
    | some segments =>
      let (made, t) := t.makeAlong [] segments
      (made && t.isDirectory path, t)

end FileTree

end Pipewright
