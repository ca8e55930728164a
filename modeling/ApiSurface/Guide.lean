import ApiSurface.Document.Yaml
import ApiSurface.Files.Tree
import ApiSurface.Language
import ApiSurface.Text.Letter
import ApiSurface.Text.Lines

/-!
# Guides

A guide is a text that comes with the reference, one for all languages. It may begin with front
matter between two lines `---`, which sets its priority. Its fenced blocks of code are tagged; a
block whose tag names another language is left out. The title is the first heading of level one in
what remains.

A block begins at a line with at least three backticks or tildes and ends at a line that holds
nothing but that run of characters, once or several times over.
-/

namespace ApiSurface

/-- A guide as one language sees it. -/
structure Guide where
  id : String
  /-- The title, or the id of a guide without a heading. -/
  name : String
  /-- Guides of higher priority come first. -/
  priority : Int
  content : String
deriving DecidableEq, Repr

/-- Why a guide could not be read. -/
inductive GuideError where
  /-- The front matter does not end. -/
  | unterminated (path : String)
  /-- The front matter is no mapping with a priority in 64 bits. -/
  | frontMatter (path : String)
  /-- A file or directory could not be read. -/
  | unreadable (path : String) (fault : FileFault)
deriving DecidableEq, Repr

/-- What is said about a guide that could not be read. -/
def GuideError.message : GuideError → String
  | unterminated path =>
    "invalid markdown header in " ++ path ++ ": front matter is not terminated"
  | frontMatter path => "invalid front matter in " ++ path
  | unreadable path _ => "failed to read " ++ path

/-- The fault of the file behind it. -/
def GuideError.fault? : GuideError → Option FileFault
  | unreadable _ fault => some fault
  | _ => none

namespace Guide

/-! ## Blocks of code -/

/-- A fence that begins a block: the run of characters and the tag behind it. -/
structure Fence where
  run : List Char
  tag : List Char
deriving DecidableEq, Repr

/-- Whether a character can belong to a tag. -/
def isTagChar (c : Char) : Bool :=
  Text.isWord c || c == '+' || c == '#' || c == '-'

/-- The fence that a line begins with. -/
def fence? (line : List Char) : Option Fence :=
  let s := Text.trimStart line
  let fenceOf (mark : Char) : Option Fence :=
    let run := s.takeWhile (· == mark)
    let behind := Text.trimStart (s.dropWhile (· == mark))
    if 3 ≤ run.length then some ⟨run, behind.takeWhile isTagChar⟩ else none
  match s with
  | '`' :: _ => fenceOf '`'
  | '~' :: _ => fenceOf '~'
  | _ => none

/-- A text without the runs it begins with; `fuel` bounds their number. -/
def dropRuns (run : List Char) : Nat → List Char → List Char
  | 0, s => s
  | fuel + 1, s =>
    if run.isPrefixOf s then dropRuns run fuel (s.drop run.length) else s

/-- Whether a line ends the block that a run of characters began. -/
def closes (run line : List Char) : Bool :=
  let s := Text.trim line
  run.isPrefixOf s && (Text.trim (dropRuns run s.length s)).isEmpty

/-- Whether a block belongs to a language: its tag names the language, or none at all. -/
def keepsBlock (l : Language) (f : Fence) : Bool :=
  match Language.read? f.tag with
  | some tagged => tagged == l
  | none => true

/-- The lines that remain for a language. `inside` is the block that is open, with whether it is
kept. -/
def keptFrom (l : Language) (inside : Option (List Char × Bool)) :
    List (List Char) → List (List Char)
  | [] => []
  | line :: rest =>
    match inside with
    | some (run, keep) =>
      let inside := if closes run line then none else some (run, keep)
      if keep then line :: keptFrom l inside rest else keptFrom l inside rest
    | none =>
      match fence? line with
      | some f =>
        let keep := keepsBlock l f
        if keep then line :: keptFrom l (some (f.run, keep)) rest
        else keptFrom l (some (f.run, keep)) rest
      | none => line :: keptFrom l none rest

/-- The lines that remain for a language. -/
def keptLines (l : Language) (lines : List (List Char)) : List (List Char) :=
  keptFrom l none lines

/-- Lines joined, each with its end. -/
def joinLines (lines : List (List Char)) : List Char :=
  lines.flatMap (· ++ ['\n'])

/-- The text without the blocks of other languages. -/
def filterBlocks (l : Language) (lines : List String) : String :=
  String.ofList (joinLines (keptLines l (lines.map String.toList)))

/-! ## Title -/

/-- Whether nothing follows a title but blanks and one run of `#`. -/
def endsTitle (s : List Char) : Bool :=
  (Text.trimStart ((Text.trimStart s).dropWhile (· == '#'))).isEmpty

/-- The shortest text before the end of a title. -/
def cutTitle : List Char → List Char
  | [] => []
  | c :: rest => if endsTitle rest then [c] else c :: cutTitle rest

/-- The title of a line that is a heading of level one. A heading of blanks alone has its last blank
as the title. -/
def title? (line : List Char) : Option (List Char) :=
  match line with
  | '#' :: rest =>
    let blanks := rest.takeWhile Text.isBlank
    let behind := rest.dropWhile Text.isBlank
    if blanks.isEmpty then none
    else if !behind.isEmpty then some (cutTitle behind)
    else if blanks.length < 2 then none
    else some (blanks.drop (blanks.length - 1))
  | _ => none

/-! ## Reading -/

/-- Whether a line begins or ends front matter. -/
def isFrontFence (line : List Char) : Bool :=
  Text.trimEnd line == ['-', '-', '-']

/-- The priority that front matter sets. -/
def priority? (lines : List (List Char)) : Option Int :=
  let text := ['\n'].intercalate lines
  if (Text.trim text).isEmpty then some 0
  else match Document.Yaml.read? text with
    | some (.map fields) =>
      match fields.lookup "priority" with
      | none => some 0
      | some (.integer n) =>
        if Int64.minValue.toInt ≤ n ∧ n ≤ Int64.maxValue.toInt then some n else none
      | some _ => none
    | _ => none

/-- The lines of front matter and those behind it; none when it does not end. -/
def cutFront? (lines : List (List Char)) : Option (List (List Char) × List (List Char)) :=
  match lines.dropWhile (!isFrontFence ·) with
  | [] => none
  | _ :: body => some (lines.takeWhile (!isFrontFence ·), body)

/-- The priority and the body of a guide. -/
def readFront (path : String) (lines : List (List Char)) :
    Except GuideError (Int × List (List Char)) :=
  match lines with
  | [] => .ok (0, [])
  | first :: rest =>
    if isFrontFence first then
      match cutFront? rest with
      | none => .error (.unterminated path)
      | some (front, body) =>
        match priority? front with
        | none => .error (.frontMatter path)
        | some priority => .ok (priority, body)
    else .ok (0, lines)

/-- Reads a guide for a language. The path serves for error texts only. -/
def parse (path id text : String) (l : Language) : Except GuideError Guide :=
  (readFront path (Text.lines text.toList)).map fun (priority, body) =>
    let content := joinLines (keptLines l body)
    let name := match (Text.lines content).findSome? title? with
      | some title => String.ofList title
      | none => id
    { id, name, priority, content := String.ofList content }

/-- Reads the guides in a directory, in the order of their paths. -/
def loadDirectory (t : FileTree) (directory : String) (l : Language) :
    Except GuideError (List Guide) := do
  match t.find directory with
  | .error fault => throw (.unreadable directory fault)
  | .ok (_, .directory) => pure ()
  | .ok (_, _) => throw (.unreadable directory .notDirectory)
  let paths := ((t.namesIn directory).map (Path.join directory)).filter fun path =>
    t.isFile path && Path.extension? path == some "md"
  paths.mapM fun path =>
    match t.read path with
    | .error fault => .error (.unreadable path fault)
    | .ok text => parse path (Path.stem path) text l

/-- Reads the guides of a directory and of its directory for the language, if there is one, by
descending priority. -/
def load (t : FileTree) (directory : String) (l : Language) : Except GuideError (List Guide) := do
  let common ← loadDirectory t directory l
  let special := Path.join directory l.tag
  let own ← if t.isDirectory special then loadDirectory t special l else .ok []
  return (common ++ own).mergeSort fun g h => decide (h.priority ≤ g.priority)

end Guide

end ApiSurface
