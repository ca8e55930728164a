/-!
# Paths

A path is kept as it was written, because error texts and lists of output show it that way. What it
names is decided by its parts: `/` separates them, empty parts and `.` add nothing, and an absolute
path begins with a part of its own.

The name of a file is its last part; the extension is what follows the last point of the name,
unless that point is its first character.
-/

namespace ApiSurface.Path

/-- The pieces of a text between slashes. There is always at least one. -/
def splitSlashes : List Char → List (List Char)
  | [] => [[]]
  | c :: rest =>
    if c = '/' then [] :: splitSlashes rest
    else match splitSlashes rest with
      | [] => [[c]]
      | piece :: pieces => (c :: piece) :: pieces

/-- The pieces of a path between slashes. -/
def pieces (path : String) : List String :=
  (splitSlashes path.toList).map String.ofList

/-- Whether a piece adds nothing to a path. -/
def isIdle (piece : String) : Bool :=
  piece == "" || piece == "."

/-- The pieces that say something. -/
def names (path : String) : List String :=
  (pieces path).filter (!isIdle ·)

/-- Whether a path starts at the root of all files. -/
def isAbsolute (path : String) : Bool :=
  path.toList.head? == some '/'

/-- The parts of a path; `/` is the first part of an absolute one. -/
def parts (path : String) : List String :=
  if isAbsolute path then "/" :: names path else names path

/-- Whether a path ends in a slash. -/
def endsInSlash (path : String) : Bool :=
  path.toList.getLast? == some '/'

/-- A path without the slashes that it ends in, except those of the root. -/
def trimSlashes (path : String) : String :=
  let trimmed := String.ofList (path.toList.reverse.dropWhile (· == '/')).reverse
  if trimmed == "" then path else trimmed

/-- Whether the text of a path says that it names a directory: it ends in a slash or in `.`. -/
def namesDirectory (path : String) : Bool :=
  path == "." || endsInSlash path || "/.".toList.isSuffixOf path.toList

/-- A path inside a directory. An absolute path stays as it is. -/
def join (directory inner : String) : String :=
  if isAbsolute inner || directory == "" then inner
  else if endsInSlash directory then directory ++ inner
  else directory ++ "/" ++ inner

/-! ## Order

Paths that differ only in repeated slashes, in a slash at the end or in a `.` behind another part
are one path. A leading `.` does count.
-/

/-- One step of a path. -/
inductive Step where
  /-- To the root of all files. -/
  | root
  /-- To the directory that a path starts from, written as a leading `.`. -/
  | here
  /-- To the directory above. -/
  | above
  | name (s : String)
deriving DecidableEq, Repr

/-- The step for a part. -/
def Step.ofName (s : String) : Step :=
  if s = ".." then above else name s

/-- The steps of a path. -/
def steps (path : String) : List Step :=
  let first : List Step :=
    if isAbsolute path then [.root]
    else if (pieces path).head? = some "." then [.here]
    else []
  first ++ (names path).map Step.ofName

/-- Names come last, and are compared by code points. -/
def Step.compare : Step → Step → Ordering
  | name s, name t => compareOfLessAndEq s t
  | s, t => Ord.compare (rank s) (rank t)
where
  rank : Step → Nat
    | root => 0
    | here => 1
    | above => 2
    | name _ => 3

/-- The order in which files are taken: step by step. -/
def stepsLe : List Step → List Step → Bool
  | [], _ => true
  | _ :: _, [] => false
  | s :: ss, t :: ts =>
    match s.compare t with
    | .lt => true
    | .eq => stepsLe ss ts
    | .gt => false

/-- Paths are compared by their steps. -/
def le (a b : String) : Bool :=
  stepsLe (steps a) (steps b)

/-! ## Names -/

/-- The last part of a path, unless it leads upwards. -/
def fileName? (path : String) : Option String :=
  match (names path).getLast? with
  | some ".." => none
  | last => last

/-- A name cut at its last point: the stem, and the extension if there is one. -/
def splitName (name : List Char) : List Char × Option (List Char) :=
  let extension := (name.reverse.takeWhile (· != '.')).reverse
  let stem := name.take (name.length - extension.length - 1)
  if stem.isEmpty || name == ['.', '.'] then (name, none) else (stem, some extension)

/-- The name of the file without its extension; empty for a path without a file name. -/
def stem (path : String) : String :=
  match fileName? path with
  | some name => String.ofList (splitName name.toList).1
  | none => ""

/-- The extension of the file. -/
def extension? (path : String) : Option String :=
  (fileName? path).bind fun name => (splitName name.toList).2.map String.ofList

/-- Pieces, the last one first, without those at the end that add nothing. The first piece of all
stays. -/
def dropIdle (reversed : List String) : List String :=
  let kept := reversed.dropWhile isIdle
  if kept.isEmpty then reversed.drop (reversed.length - 1) else kept

/-- The path of the directory that a path lies in, as the path writes it; empty when the path is a
single name. -/
def parent (path : String) : String :=
  match dropIdle (pieces path).reverse with
  | [] => ""
  | _ :: above =>
    if above.isEmpty then ""
    else
      let text := "/".intercalate (dropIdle above).reverse
      if text == "" && isAbsolute path then "/" else text

/-- A path and the paths of the directories that it lies in, as far as it names them. The root is
not among them. -/
def upwards (path : String) : List String :=
  go ((steps path).filter (· != .root)).length path
where
  go : Nat → String → List String
    | 0, _ => []
    | n + 1, path => path :: go n (parent path)

end ApiSurface.Path
