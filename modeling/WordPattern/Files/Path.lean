/-!
# Paths

A path is a text of segments between slashes. Empty segments and single dots name nothing, but a
path may begin with one of them: with an empty segment at the root, with a dot in the directory at
hand. Two paths with the same components lead to the same place, however many slashes and idle
segments they are written with.
-/

namespace WordPattern

namespace Path

/-- The pieces of a text between the places where a mark stands. -/
def splitAt (mark : Char) : List Char → List (List Char)
  | [] => [[]]
  | c :: rest =>
    if c == mark then [] :: splitAt mark rest
    else
      match splitAt mark rest with
      | first :: others => (c :: first) :: others
      | [] => [[c]]

/-- The segments of a path. -/
def segments (path : String) : List (List Char) := splitAt '/' path.toList

/-- The path with given segments. -/
def ofSegments (parts : List (List Char)) : String := String.ofList (['/'].intercalate parts)

/-- A segment that names nothing. -/
def isIdle (segment : List Char) : Bool := segment == [] || segment == ['.']

/-- Segments, the last one first, without those at the end that name nothing; the first segment of a
path always stays. -/
def dropIdle : List (List Char) → List (List Char)
  | [] => []
  | [first] => [first]
  | last :: rest => if isIdle last then dropIdle rest else last :: rest

/-- The segments that count, the last one first. -/
def trimmed (path : String) : List (List Char) := dropIdle (segments path).reverse

/-- The name of the file that a path ends in, and the segments before it, the last one first. -/
def split? (path : String) : Option (List Char × List (List Char)) :=
  match trimmed path with
  | [] => none
  | name :: rest =>
    if isIdle name || name == ['.', '.'] then none else some (name, dropIdle rest)

/-- A file name without its extension, and the extension. A dot in front begins none. -/
def splitName (name : List Char) : List Char × Option (List Char) :=
  let extension := (name.reverse.takeWhile (· != '.')).reverse
  let before := name.take (name.length - extension.length - 1)
  if extension.length = name.length || before.isEmpty then (name, none)
  else (before, some extension)

/-- A text with a NUL is no path of any file. -/
def hasNul (path : String) : Bool := path.toList.contains '\x00'

/-- A path with a name put behind it. -/
def child (path : String) (name : List Char) : String :=
  if path.isEmpty || path.toList.getLast? == some '/' then path ++ String.ofList name
  else path ++ "/" ++ String.ofList name

/-- The directory that the file of a path is in. -/
def directory (path : String) : String :=
  match split? path with
  | none => "."
  | some (_, []) => "."
  | some (_, [[]]) => "/"
  | some (_, before) => ofSegments before.reverse

end Path

/-- The name that replaced contents are written under. -/
def siblingName (name : List Char) : List Char :=
  match Path.splitName name with
  | (stem, some extension) => stem ++ ".vore.".toList ++ extension
  | (stem, none) => stem ++ ".vore".toList

/-- The path beside a path, where its replaced contents are written. -/
def siblingPath (path : String) : String :=
  match Path.split? path with
  | some (name, before) => Path.ofSegments (siblingName name :: before).reverse
  | none => Path.child path "out.vore".toList

/-! ## Components -/

namespace Path

/-- What a segment of a path names. -/
inductive Component where
  | root
  /-- The directory at hand, which only the beginning of a path names. -/
  | here
  | parent
  | name (chars : List Char)
deriving DecidableEq, Repr

/-- The component that a segment names behind others. -/
def component? (segment : List Char) : Option Component :=
  if isIdle segment then none
  else if segment == ['.', '.'] then some .parent
  else some (.name segment)

/-- The component that the first segment names, at which no segment is idle. -/
def firstComponent? (segment : List Char) : Option Component :=
  if segment == [] then some .root
  else if segment == ['.'] then some .here
  else component? segment

/-- The components that segments name from the beginning of a path. -/
def componentsOf : List (List Char) → List Component
  | [] => []
  | first :: rest => (firstComponent? first).toList ++ rest.filterMap component?

/-- The components of a path. -/
def components (path : String) : List Component :=
  if path.isEmpty then [] else componentsOf (segments path)

/-- The last component of a path is the name of a file. -/
def EndsInName (path : String) : Prop := ∃ name, (components path).getLast? = some (.name name)

end Path

end WordPattern
