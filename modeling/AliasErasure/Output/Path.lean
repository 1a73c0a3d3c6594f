import AliasErasure.Text.Split

set_option autoImplicit false

/-! # Paths

A path is a text with slashes between its segments. Empty segments and single dots mean nothing;
what is left are the *parts* of the path.
-/

namespace AliasErasure.Path

/-- The segments of a path, between slashes. -/
def segments (path : String) : List String := (Text.splitAt '/' path.toList).map String.ofList

/-- Whether a segment means nothing. -/
def isNeutral (segment : String) : Bool := segment == "" || segment == "."

/-- The parts of a path. -/
def parts (path : String) : List String := (segments path).filter fun s => !isNeutral s

/-- Whether a path starts at the root. -/
def isRooted (path : String) : Bool := path.toList.head? = some '/'

/-- Whether a path, taken from a directory, may lead out of it: it starts at the root, or a part
of it goes up. -/
def escapes (path : String) : Bool := isRooted path || (parts path).contains ".."

/-- The last part of a path, unless it goes up. -/
def baseName? (path : String) : Option String :=
  (parts path).getLast?.filter (· != "..")

/-- Whether a path ends in a slash. -/
def endsInSlash (path : String) : Bool := (segments path).getLast? == some ""

/-- Whether the last segment of a path that is not empty is a dot, or there is none. -/
def endsInDot (path : String) : Bool :=
  ((segments path).filter (· != "")).getLast?.all (· == ".")

/-- The segments without meaningless ones at the end. -/
def trimNeutral (segments : List String) : List String :=
  (segments.reverse.dropWhile isNeutral).reverse

/-- The text of a path up to its last part, which is left out. -/
def parent (path : String) : String :=
  "/".intercalate (trimNeutral (trimNeutral (segments path)).dropLast)

/-- The path of `name` in a directory, with one slash more than the directory unless it ends with
one; the empty directory adds nothing. -/
def join (directory name : String) : String :=
  if directory = "" ∨ directory.toList.getLast? = some '/' then directory ++ name
  else directory ++ "/" ++ name

end AliasErasure.Path
