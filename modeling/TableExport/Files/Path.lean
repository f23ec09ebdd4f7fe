import TableExport.Schema.Pointer

/-!
# Paths

A path is a text with slashes between its parts. Empty parts and parts of one point do not count,
but for a point at the start of a relative path.

* `Path.join` puts a path after another.
* `Path.parent?`, `Path.fileName?`, `Path.stem` and `Path.extension?` take a path apart.
* `Path.before` is the order of paths.
-/

namespace TableExport.Path

/-- The parts of a text between slashes. -/
def pieces (text : String) : List String := (Pointer.splitAt '/' text.toList).map String.ofList

/-- Whether a path starts at the root. -/
def isAbsolute (path : String) : Bool := path.toList.head? == some '/'

/-- A path inside another. An absolute path stays as it is, and an empty one leaves a slash. -/
def join (base path : String) : String :=
  if isAbsolute path then path
  else if base.isEmpty || base.toList.getLast? == some '/' then base ++ path
  else base ++ "/" ++ path

/-- The root of a path and its parts after the root, from the last to the first; a part counts or
not. -/
def marked (path : String) : String × List (String × Bool) :=
  let absolute := isAbsolute path
  let body := if absolute then path.toList.drop 1 else path.toList
  let parts := (Pointer.splitAt '/' body).map String.ofList
  let marks := parts.zipIdx.map fun (part, i) =>
    (part, !part.isEmpty && (part != "." || (i == 0 && !absolute)))
  (if absolute then "/" else "", marks.reverse)

/-- The parts that count. -/
def components (path : String) : List String :=
  ((marked path).2.filter (·.2)).reverse.map Prod.fst

/-- The path without its last part; none when it has no part. -/
def parent? (path : String) : Option String :=
  let (root, parts) := marked path
  match parts.dropWhile (!·.2) with
  | [] => none
  | _ :: before =>
    let kept := (before.dropWhile (!·.2)).reverse
    some (root ++ "/".intercalate (kept.map Prod.fst))

/-- The last part of a path, if it is a name. -/
def fileName? (path : String) : Option String :=
  ((components path).getLast?).filter fun name => name != ".." && name != "."

/-- A name cut at its last point, if that is not its first character. -/
def cutName (name : String) : String × Option String :=
  let reversed := name.toList.reverse
  let after := reversed.takeWhile (· != '.')
  match reversed.drop after.length with
  | _ :: before =>
    if before.isEmpty then (name, none)
    else (String.ofList before.reverse, some (String.ofList after.reverse))
  | [] => (name, none)

/-- The last part of a path without its extension. -/
def stem (path : String) : String := ((fileName? path).map fun name => (cutName name).1).getD ""

/-- What follows the last point of the last part. -/
def extension? (path : String) : Option String := (fileName? path).bind fun name => (cutName name).2

/-- The rank of a part: the folder itself, then its parent, then all names. -/
def rank (part : String) : Nat := if part = "." then 0 else if part = ".." then 1 else 2

/-- The order of lists of parts: part by part, by rank and then by text. -/
def beforeParts : List String → List String → Bool
  | [], _ => true
  | _ :: _, [] => false
  | a :: as, b :: bs =>
    if a = b then beforeParts as bs
    else if rank a = rank b then decide (a < b)
    else decide (rank a < rank b)

/-- Whether a path does not come after another. -/
def before (a b : String) : Bool := beforeParts (components a) (components b)

end TableExport.Path
