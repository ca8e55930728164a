import ApiSurface.CommandLine

/-!
# The program

The outer layer: it reads what a run can ask for from the disk, hands it to `CommandLine.run`, and
writes back and prints what that gives. Only here is anything read from or written to a disk.
-/

namespace ApiSurface.Program

/-! ## Reading -/

/-- The path of an absolute place. -/
def pathOf (place : Place) : String :=
  "/" ++ "/".intercalate (place.drop 1)

/-- A file by what is in it, unless it cannot be read at all. -/
def fileAt (place : Place) : IO (Option FileNode) := do
  try
    let bytes ← IO.FS.readBinFile (pathOf place)
    return some ((String.fromUTF8? bytes).elim .binary .file)
  catch
    | .permissionDenied .. => return some .locked
    | _ => return none

/-- What stands at an absolute place, unless it is neither a directory nor a file. -/
def nodeAt (place : Place) : IO (Option FileNode) := do
  try
    match (← (← IO.FS.realPath (pathOf place)).metadata).type with
    | .dir => return some .directory
    | .file => fileAt place
    | _ => return none
  catch _ => return none

/-- Everything below a directory. Links to directories are not followed. -/
partial def below (place : Place) : IO (List (Place × FileNode)) := do
  let inside ← (← IO.FS.realPath (pathOf place)).readDir
  let nodes ← inside.toList.mapM fun entry => do
    let place := place ++ [entry.fileName]
    if (← entry.path.symlinkMetadata).type matches .dir then
      return (place, .directory) :: (← below place)
    return ((← nodeAt place).map (place, ·)).toList
  return nodes.flatten

/-- Everything that a path leads through, and what is below its end. -/
def along (home : Place) (path : String) : IO (List (Place × FileNode)) := do
  let mut place : Place := if Path.isAbsolute path then [] else home
  let mut nodes := []
  for name in Path.parts path do
    place := if name = ".." then (Place.parent? place).getD place else place ++ [name]
    nodes := ((← nodeAt place).map (place, ·)).toList ++ nodes
  if (← nodeAt place) matches some .directory then
    nodes := nodes ++ (← below place)
  return nodes

/-- Adds to a tree what is on the disk along paths. -/
def gather (t : FileTree) (paths : List String) : IO FileTree := do
  let found ← paths.mapM (along t.home)
  return found.flatten.foldl (fun t (place, node) => t.set place node) t

/-- The path that a pattern starts from: its pieces up to the first one that stands for several
names. -/
def patternBase (input : String) : String :=
  let fixed := (Path.pieces input).takeWhile (!Entity.isPattern ·)
  if fixed.isEmpty then "." else String.join (fixed.map (· ++ "/"))

/-- The paths that a command reads or writes, apart from settings. -/
def pathsOf : CommandLine.Command → List String
  | .docs input out _ guides => [input, patternBase input, out] ++ guides.toList
  | .declarations input out _ => [input, patternBase input] ++ out.toList
  | .signature .. | .type .. | .id .. => []

/-- A setting `NAME=text` of the environment. -/
def setting? (entry : String) : Option (String × String) :=
  match entry.splitOn "=" with
  | name :: first :: rest => some (name, "=".intercalate (first :: rest))
  | _ => none

/-- The variables of the environment. Where the system does not list them, those are asked for that
set a field of the settings. -/
def environment : IO (List (String × String)) := do
  try
    let listed ← IO.FS.readBinFile "/proc/self/environ"
    let entries := ((String.fromUTF8? listed).getD "").splitOn "\x00"
    return entries.filterMap setting?
  catch _ =>
    let fields : List String := match Settings.toValue {} with
      | .map fields => fields.map (·.1)
      | _ => []
    let found ← fields.mapM fun (field : String) => do
      let name := Settings.variableStem ++ field.toUpper
      return (← IO.getEnv name).map (name, ·)
    return found.filterMap id

/-- What a run with these arguments can see. Settings say where guides are, so they come first. -/
def workspace (arguments : List String) : IO Workspace := do
  let home := Path.parts (← IO.FS.realPath ".").toString
  let above := (List.range home.length).map fun n => (home.take (n + 1), FileNode.directory)
  let w : Workspace := { files := { home, entries := above }, environment := ← environment }
  match CommandLine.read arguments with
  | .ok i =>
    let files ← gather w.files (i.config.toList ++ Settings.defaultFiles)
    let guides := match Settings.load { w with files } i.config with
      | .ok s => s.guides.toList
      | .error _ => []
    return { w with files := ← gather files (pathsOf i.command ++ guides) }
  | _ => return w

/-! ## Writing -/

/-- Writes to disk what a run has changed, directories before what is in them. -/
def store (before after : FileTree) : IO Unit := do
  let changed := after.entries.filter fun (place, node) => before.get? place != some node
  for (place, node) in changed.mergeSort fun a b => a.1.length ≤ b.1.length do
    match node with
    | .directory => IO.FS.createDirAll (pathOf place)
    | .file text => IO.FS.writeFile (pathOf place) text
    -- No run makes a file that is not text.
    | .binary | .locked => pure ()

end ApiSurface.Program

open ApiSurface in
def main (arguments : List String) : IO UInt32 := do
  let w ← Program.workspace arguments
  let (after, outcome) := CommandLine.run w arguments
  Program.store w.files after
  IO.print outcome.output
  IO.eprint outcome.errors
  return outcome.code.toUInt32
