import WordPattern.Files.Path
import WordPattern.Files.Store

/-!
# File trees

The files below one directory, as a value. A path is followed segment by segment, and only
directories lead on. Above the directory no file is known.
-/

namespace WordPattern

/-- Files by the segments of their paths below a directory. A directory is there if a file is below
it. -/
structure FileTree where
  files : List (List (List Char) × ByteArray)
  /-- The number of bytes in the path of the directory itself. -/
  rootSize : Nat := 0

namespace FileTree

/-- What stands at the end of a path. -/
inductive Place where
  | directory (parts : List (List Char))
  | file (parts : List (List Char)) (contents : ByteArray)
  | missing (parts : List (List Char))
  /-- A directory above the tree. -/
  | above

/-- The directory of the tree, or one with a file below it. -/
def isDirectory (tree : FileTree) (parts : List (List Char)) : Bool :=
  parts.isEmpty ||
    tree.files.any fun (path, _) => parts.isPrefixOf path && parts.length < path.length

/-- What stands at given segments. -/
def look (tree : FileTree) (parts : List (List Char)) : Place :=
  match tree.files.lookup parts with
  | some contents => .file parts contents
  | none => if tree.isDirectory parts then .directory parts else .missing parts

/-- The greatest number of bytes in a segment. -/
def longestName : Nat := 255

/-- The greatest number of bytes in a path. -/
def longestPath : Nat := 4095

/-- The number of bytes in the name of a scratch file. -/
def scratchName : Nat := 10

/-- Follows one segment. -/
def enter (tree : FileTree) (place : Place) (segment : List Char) : Except Fault Place :=
  match place with
  | .file .. => .error .notDirectory
  | .missing _ => .error .notFound
  | .above =>
    if Path.isIdle segment || segment == ['.', '.'] then .ok .above
    else if longestName < (String.ofList segment).utf8ByteSize then .error .nameTooLong
    else .error .notFound
  | .directory parts =>
    if Path.isIdle segment then .ok (.directory parts)
    else if segment == ['.', '.'] then
      .ok (if parts.isEmpty then .above else .directory parts.dropLast)
    else if longestName < (String.ofList segment).utf8ByteSize then .error .nameTooLong
    else .ok (tree.look (parts ++ [segment]))

/-- Follows a path. -/
def find (tree : FileTree) (path : String) : Except Fault Place :=
  if path.isEmpty then .error .notFound
  else if Path.hasNul path then .error .invalidName
  else if longestPath < path.utf8ByteSize then .error .nameTooLong
  else
    match Path.segments path with
    | [] :: rest => rest.foldlM tree.enter .above
    | parts => parts.foldlM tree.enter (.directory [])

/-- The contents of a file. -/
def read (tree : FileTree) (path : String) : Except Fault ByteArray :=
  match tree.find path with
  | .error fault => .error fault
  | .ok (.file _ contents) => .ok contents
  | .ok (.missing _) => .error .notFound
  | .ok _ => .error .isDirectory

/-- Puts contents under segments. -/
def put (tree : FileTree) (parts : List (List Char)) (contents : ByteArray) : FileTree :=
  { tree with files := (parts, contents) :: tree.files.filter (·.1 != parts) }

/-- A scratch file in a directory has a path of a length that is allowed, counted from the root. -/
def admitsScratch (tree : FileTree) (directory : String) : Bool :=
  let above := if directory.startsWith "/" then 0 else tree.rootSize + 1
  above + directory.utf8ByteSize + 1 + scratchName ≤ longestPath

/-- Puts contents under a path. They go to a scratch file in the same directory first, which must be
there; what is written above the tree is not kept. -/
def write (tree : FileTree) (path : String) (contents : ByteArray) : Except Fault FileTree :=
  let directory := Path.directory path
  if Path.hasNul directory then .error .invalidName
  else if !tree.admitsScratch directory then .error .nameTooLong
  else
    match tree.find directory with
    | .error fault => .error fault
    | .ok (.file ..) => .error .notDirectory
    | .ok (.missing _) => .error .notFound
    | .ok place =>
      match place, tree.find path with
      | .above, .error .notFound => .ok tree
      | _, .error fault => .error fault
      | _, .ok (.file parts _) => .ok (tree.put parts contents)
      | _, .ok (.missing parts) => .ok (tree.put parts contents)
      | _, .ok _ => .error .isDirectory

end FileTree

instance : FileStore (StateM FileTree) where
  read path := do return (← get).read path
  write path contents := do
    match (← get).write path contents with
    | .ok tree => set tree; return .ok ()
    | .error fault => return .error fault

end WordPattern
