import ApiSurface.Descriptor.Decode
import ApiSurface.Document.Json
import ApiSurface.Document.Yaml
import ApiSurface.Files.Glob

/-!
# Loading descriptors

Descriptors are loaded from a directory, from the files that a pattern matches, or from a single
file. A directory gives its files with the extension of a document format and not those further
below. Files are taken in the order of their paths, each once; the first fault ends the load.

Patterns are left to a search (`loadBy`), which is `Glob.paths?` in a run (`load`).
-/

namespace ApiSurface

/-- A format that documents are written in. -/
inductive DocumentKind where
  | yaml
  | json
deriving DecidableEq, Repr

namespace DocumentKind

/-- The format for the extension of a path. -/
def ofPath? (path : String) : Option DocumentKind :=
  match Path.extension? path with
  | some "yaml" => some yaml
  | some "yml" => some yaml
  | some "json" => some json
  | _ => none

/-- Reads a document of the format. -/
def read? (f : DocumentKind) (text : String) : Option Document.Value :=
  match f with
  | yaml => Document.Yaml.read? text.toList
  | json => Document.Json.read? text.toList

end DocumentKind

/-- Why descriptors could not be loaded. -/
inductive LoadError where
  /-- A file could not be read. -/
  | unreadable (path : String) (fault : FileFault)
  /-- A file is no document of its format, or no descriptor. -/
  | invalid (path : String)
  /-- The extension of a file belongs to no format. -/
  | unsupported (path : String)
  /-- A pattern of paths is malformed. -/
  | malformedPattern (pattern : String)
deriving DecidableEq, Repr

/-- What is said about the failure of a load. -/
def LoadError.message : LoadError → String
  | unreadable path _ => "failed to read " ++ path
  | invalid path => "invalid descriptor " ++ path
  | unsupported path => "unsupported descriptor format " ++ path
  | malformedPattern pattern => "invalid descriptor pattern `" ++ pattern ++ "`"

/-- The fault of the file behind the failure. -/
def LoadError.fault? : LoadError → Option FileFault
  | unreadable _ fault => some fault
  | _ => none

/-- Reads one descriptor. The extension of the path decides on the format. -/
def Descriptor.parse (path text : String) : Except LoadError Descriptor :=
  match DocumentKind.ofPath? path with
  | none => .error (.unsupported path)
  | some format =>
    match (format.read? text).bind Descriptor.decode with
    | some d => .ok d
    | none => .error (.invalid path)

namespace Entity

/-- Loads the descriptor in one file. The stem of the file name is the id. -/
def loadFile (t : FileTree) (path : String) : Except LoadError Entity :=
  match t.read path with
  | .error fault => .error (.unreadable path fault)
  | .ok text => (Descriptor.parse path text).map ({ id := Path.stem path, descriptor := · })

/-- Removes a path that names the same file as the path before it. -/
def dropRepeats : List String → List String
  | a :: b :: rest =>
    if Path.steps a = Path.steps b then dropRepeats (a :: rest) else a :: dropRepeats (b :: rest)
  | paths => paths
termination_by paths => paths.length

/-- Loads files in the order of their paths, each once. -/
def loadFiles (t : FileTree) (paths : List String) : Except LoadError (List Entity) :=
  (dropRepeats (paths.mergeSort Path.le)).mapM (loadFile t)

/-- The documents directly in a directory. -/
def documentsIn (t : FileTree) (directory : String) : List String :=
  ((t.namesIn directory).map (Path.join directory)).filter fun path =>
    t.isFile path && (DocumentKind.ofPath? path).isSome

/-- Whether a text is a pattern rather than the path of a file. -/
def isPattern (input : String) : Bool :=
  input.toList.any fun c => c == '*' || c == '?' || c == '['

/-- Loads descriptors from a directory, by a pattern or from one file. A directory is never taken
for a pattern. Paths are text, so a pattern is read from the path as it is. -/
def loadBy (search : Glob.Search) (t : FileTree) (input : String) :
    Except LoadError (List Entity) :=
  if t.isDirectory input then loadFiles t (documentsIn t input)
  else if isPattern input then
    match search t input with
    | none => .error (.malformedPattern input)
    | some paths =>
      loadFiles t (paths.filter fun path => t.isFile path && (DocumentKind.ofPath? path).isSome)
  else loadFiles t [input]

/-- Loads descriptors as a run does. -/
def load (t : FileTree) (input : String) : Except LoadError (List Entity) :=
  loadBy Glob.paths? t input

end Entity

end ApiSurface
