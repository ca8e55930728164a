import ApiSurface.Files.Path

/-!
# Trees of files

A tree holds directories and files, each at a place: the names that lead to it. Names are UTF-8
text, and so is every path. A path is walked name by name, and every name but its last must lead to
a directory. A path that is not absolute starts at the working directory.

All directories can be read. A file has a text, unless its bytes are none or nobody may open it.
Writing a file needs its directory to be there. Nothing replaces a directory by a file or the other
way round.
-/

namespace ApiSurface

/-- What stands at a place of a tree. -/
inductive FileNode where
  | directory
  | file (text : String)
  /-- A file with bytes that are no UTF-8 text. -/
  | binary
  /-- A file that may not be opened. -/
  | locked
deriving DecidableEq, Repr

/-- Why a file could not be read or written. -/
inductive FileFault where
  | notFound
  | isDirectory
  | notDirectory
  | alreadyExists
  /-- A name has more than 255 bytes, or a path more than 4095. -/
  | nameTooLong
  /-- A path holds a null character. -/
  | malformedName
  /-- The bytes of a file are no UTF-8 text. -/
  | notText
  | permissionDenied
deriving DecidableEq, Repr

/-- What an operating system says about a fault. -/
def FileFault.message : FileFault → String
  | notFound => "No such file or directory (os error 2)"
  | isDirectory => "Is a directory (os error 21)"
  | notDirectory => "Not a directory (os error 20)"
  | alreadyExists => "File exists (os error 17)"
  | nameTooLong => "File name too long (os error 36)"
  | malformedName => "file name contained an unexpected NUL byte"
  | notText => "stream did not contain valid UTF-8"
  | permissionDenied => "Permission denied (os error 13)"

namespace FileNode

/-- Whether this is a file, readable or not. -/
def isFile : FileNode → Bool
  | directory => false
  | file _ | binary | locked => true

theorem isFile_iff {node : FileNode} : node.isFile = true ↔ node ≠ .directory := by
  cases node <;> simp [isFile]

/-- The text that reading comes to. -/
def text : FileNode → Except FileFault String
  | directory => .error .isDirectory
  | file text => .ok text
  | binary => .error .notText
  | locked => .error .permissionDenied

theorem text_eq_ok_iff {node : FileNode} {t : String} : node.text = .ok t ↔ node = .file t := by
  cases node <;> simp [text]

end FileNode

/-- A place in a tree: the names that lead to it. An absolute place begins with `/`. -/
abbrev Place := List String

/-- The directory that a place lies in. Nothing is known above the empty place, and `/` is its own
parent. -/
def Place.parent? : Place → Option Place
  | [] => none
  | ["/"] => some ["/"]
  | place => some place.dropLast

/-- Directories and files by place. -/
structure FileTree where
  /-- The working directory, which is always there. -/
  home : Place := []
  entries : List (Place × FileNode) := []
deriving DecidableEq, Repr

namespace FileTree

/-- What stands at a place. -/
def get? (t : FileTree) (place : Place) : Option FileNode :=
  if place = t.home then some .directory else t.entries.lookup place

/-- Puts something at a place. -/
def set (t : FileTree) (place : Place) (node : FileNode) : FileTree :=
  { t with entries := (place, node) :: t.entries.filter (·.1 != place) }

/-- Takes away what stands at a place. -/
def erase (t : FileTree) (place : Place) : FileTree :=
  { t with entries := t.entries.filter (·.1 != place) }

/-! ## Walking paths -/

/-- Walks pieces of a path from a place. The answer is the place they lead to and what stands there,
which is nothing only where the last name leads; slashes may follow that. -/
def walk (t : FileTree) (place : Place) :
    List String → Except FileFault (Place × Option FileNode)
  | [] => .ok (place, t.get? place)
  | piece :: rest =>
    match t.get? place with
    | none => if (piece :: rest).all (· == "") then .ok (place, none) else .error .notFound
    | some .directory =>
      if piece = "" ∨ piece = "." then t.walk place rest
      else if piece = ".." then
        match Place.parent? place with
        | some above => t.walk above rest
        | none => .error .notFound
      else if 255 < piece.utf8ByteSize then .error .nameTooLong
      else t.walk (place ++ [piece]) rest
    | some _ => .error .notDirectory

/-- Walks a path. -/
def resolve (t : FileTree) (path : String) : Except FileFault (Place × Option FileNode) :=
  if '\x00' ∈ path.toList then .error .malformedName
  else if path = "" then .error .notFound
  else if 4095 < path.utf8ByteSize then .error .nameTooLong
  else if Path.isAbsolute path then t.walk ["/"] (Path.pieces path)
  else t.walk t.home (Path.pieces path)

/-- What a path leads to. -/
def find (t : FileTree) (path : String) : Except FileFault (Place × FileNode) := do
  match ← t.resolve path with
  | (place, some node) => return (place, node)
  | (_, none) => throw .notFound

/-- Whether a path names a directory. -/
def isDirectory (t : FileTree) (path : String) : Bool :=
  t.find path matches .ok (_, .directory)

/-- Whether a path names a file. -/
def isFile (t : FileTree) (path : String) : Bool :=
  match t.find path with
  | .ok (_, node) => node.isFile
  | .error _ => false

/-- The text of a file. -/
def read (t : FileTree) (path : String) : Except FileFault String := do
  let (_, node) ← t.find path
  node.text

/-! ## Listing -/

/-- The names in a directory, in order. -/
def names (t : FileTree) (place : Place) : List String :=
  let inside := t.entries.filterMap fun (p, _) =>
    if p.dropLast = place then p.getLast? else none
  inside.mergeSort fun a b => decide (a ≤ b)

/-- The names in the directory that a path names. -/
def namesIn (t : FileTree) (path : String) : List String :=
  match t.find path with
  | .ok (place, .directory) => t.names place
  | _ => []

/-- The directories at and below a place. -/
def directoriesFrom (t : FileTree) (place : Place) : List Place :=
  place :: t.entries.filterMap fun (p, node) =>
    if node = .directory ∧ place.isPrefixOf p ∧ p ≠ place then some p else none

/-- Everything below a place, by path from there; the path of a directory ends in a slash. -/
def listing (t : FileTree) (place : Place) : List String :=
  let below := t.entries.filterMap fun (p, node) =>
    if place.isPrefixOf p ∧ p ≠ place then
      let path := "/".intercalate (p.drop place.length)
      some (if node = .directory then path ++ "/" else path)
    else none
  below.mergeSort fun a b => decide (a ≤ b)

/-! ## Steps

A step leaves a tree, also when it fails.
-/

section

variable {ε ε' α β : Type}

/-- Goes on from a step that came to a value. A fault ends the run and leaves the tree as it is
then. -/
def andThen (first : FileTree × Except ε α) (next : FileTree → α → FileTree × Except ε β) :
    FileTree × Except ε β :=
  match first with
  | (t, .error e) => (t, .error e)
  | (t, .ok a) => next t a

/-- A step that leaves the tree as it was when it fails. -/
def settle (t : FileTree) : Except ε (FileTree × α) → FileTree × Except ε α
  | .ok (made, a) => (made, .ok a)
  | .error e => (t, .error e)

/-- A step with its faults told in another way. -/
def mapError (f : ε → ε') : FileTree × Except ε α → FileTree × Except ε' α
  | (t, r) => (t, r.mapError f)

theorem andThen_eq_ok {first : FileTree × Except ε α}
    {next : FileTree → α → FileTree × Except ε β} {after : FileTree} {b : β} :
    andThen first next = (after, .ok b) ↔
      ∃ t a, first = (t, .ok a) ∧ next t a = (after, .ok b) := by
  rcases first with ⟨t, e | a⟩
  · simp [andThen]
  · exact ⟨fun h => ⟨t, a, rfl, h⟩, fun ⟨_, _, hfirst, hnext⟩ => by cases hfirst; exact hnext⟩

theorem andThen_eq_error {first : FileTree × Except ε α}
    {next : FileTree → α → FileTree × Except ε β} {after : FileTree} {e : ε} :
    andThen first next = (after, .error e) ↔
      first = (after, .error e) ∨
        ∃ t a, first = (t, .ok a) ∧ next t a = (after, .error e) := by
  rcases first with ⟨t, e' | a⟩
  · simp [andThen]
  · constructor
    · exact fun h => .inr ⟨t, a, rfl, h⟩
    · rintro (hfirst | ⟨_, _, hfirst, hnext⟩) <;> cases hfirst
      exact hnext

theorem settle_eq_ok {t after : FileTree} {r : Except ε (FileTree × α)} {a : α} :
    t.settle r = (after, .ok a) ↔ r = .ok (after, a) := by
  rcases r with e | ⟨made, b⟩ <;> simp [settle]

theorem mapError_eq_ok {f : ε → ε'} {step : FileTree × Except ε α} {after : FileTree} {a : α} :
    mapError f step = (after, .ok a) ↔ step = (after, .ok a) := by
  rcases step with ⟨t, e | b⟩
  · constructor <;> rintro ⟨⟩
  · constructor <;> rintro ⟨⟩ <;> rfl

theorem mapError_eq_error {f : ε → ε'} {step : FileTree × Except ε α} {after : FileTree}
    {e : ε'} :
    mapError f step = (after, .error e) ↔ ∃ fault, step = (after, .error fault) ∧ f fault = e := by
  rcases step with ⟨t, fault | b⟩
  · constructor
    · rintro ⟨⟩
      exact ⟨fault, rfl, rfl⟩
    · rintro ⟨_, ⟨⟩, rfl⟩
      rfl
  · constructor
    · rintro ⟨⟩
    · rintro ⟨_, ⟨⟩, _⟩

end

/-! ## Writing -/

/-- Makes one directory. -/
def makeDirectory (t : FileTree) (path : String) : Except FileFault FileTree := do
  match ← t.resolve (Path.trimSlashes path) with
  | (place, none) => return t.set place .directory
  | (_, some _) => throw .alreadyExists

/-- Makes one directory, which may be there already. -/
def ensureDirectory (t : FileTree) (path : String) : Except FileFault FileTree :=
  tryCatch (t.makeDirectory path) fun fault =>
    if fault = .alreadyExists ∧ t.isDirectory path then .ok t else .error fault

/-- Makes the first of the paths that can be made, and gives those before it, the last one first.
The paths lead upwards; one that is there already ends the search. -/
def makeFirst (t : FileTree) : List String → Except FileFault (FileTree × List String)
  | [] => .ok (t, [])
  | path :: above =>
    tryCatch ((t.ensureDirectory path).map (·, [])) fun fault =>
      if fault = .notFound then
        (t.makeFirst above).map fun (made, paths) => (made, paths ++ [path])
      else .error fault

/-- Makes directories one after another; one may be there already. -/
def makeAll (t : FileTree) : List String → FileTree × Except FileFault Unit
  | [] => (t, .ok ())
  | path :: rest =>
    andThen (t.settle ((t.ensureDirectory path).map (·, ()))) fun made _ => made.makeAll rest

/-- Makes the directory that a path names and those that the path leads through, where they are
missing. The empty path needs none. What was made before a fault stays. -/
def makeDirectories (t : FileTree) (path : String) : FileTree × Except FileFault Unit :=
  andThen (t.settle (t.makeFirst (Path.upwards path))) makeAll

/-- Writes a file whose directory is there. A path that ends in a slash names no file. -/
def write (t : FileTree) (path text : String) : Except FileFault FileTree := do
  match ← t.resolve (Path.trimSlashes path) with
  | (_, some .directory) => throw .isDirectory
  | (place, node?) =>
    if Path.endsInSlash path then throw .isDirectory
    else if node? = some .locked then throw .permissionDenied
    else return t.set place (.file text)

end FileTree

end ApiSurface
