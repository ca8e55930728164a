import ApiSurface.Files.Tree

/-!
# Patterns of paths

A pattern is matched name by name. In a name `?` stands for any character, `*` for any run of
characters, `[abc]` and `[a-z]` for one of a set and `[!abc]` for one outside it; a leading point is
nothing special. A piece `**` stands for any chain of directories, and no longer run of stars is
allowed.

Other searches can be taken in the place of this one where a pattern is asked for (`Search`).
-/

namespace ApiSurface.Glob

/-- A search by patterns: the paths in a tree that match, or none when the pattern is malformed. It
meets no faults, since all directories can be read. -/
abbrev Search := FileTree → String → Option (List String)

/-- One or several characters of a set. -/
inductive CharSet where
  | single (c : Char)
  | range (first last : Char)
deriving DecidableEq, Repr

/-- Whether a character belongs to a set. -/
def CharSet.has (c : Char) : CharSet → Bool
  | single d => c == d
  | range first last => first ≤ c && c ≤ last

/-- What stands for characters of a name. -/
inductive Token where
  | char (c : Char)
  | anyChar
  | anyRun
  | oneOf (sets : List CharSet)
  | noneOf (sets : List CharSet)
deriving DecidableEq, Repr

/-- One piece of a pattern between slashes. -/
inductive Piece where
  /-- A name without anything that stands for other characters. -/
  | literal (name : String)
  | tokens (tokens : List Token)
  /-- Any chain of directories. -/
  | anyDepth
deriving DecidableEq, Repr

/-- The sets between brackets. -/
def readSets : List Char → List CharSet
  | a :: '-' :: b :: rest => .range a b :: readSets rest
  | a :: rest => .single a :: readSets rest
  | [] => []

/-- The text before the first `]` and the text behind it. -/
def cutBracket (s : List Char) : Option (List Char × List Char) :=
  match s.dropWhile (· != ']') with
  | [] => none
  | _ :: behind => some (s.takeWhile (· != ']'), behind)

/-- Reads the tokens of a name. A set holds at least one character, which may be `]`. `skip`
characters belong to a set that has been read already. -/
def readTokens : Nat → List Char → Option (List Token)
  | _, [] => some []
  | skip + 1, _ :: rest => readTokens skip rest
  | 0, '?' :: rest => (readTokens 0 rest).map (.anyChar :: ·)
  | 0, '*' :: rest =>
    if rest.head? == some '*' then none else (readTokens 0 rest).map (.anyRun :: ·)
  | 0, '[' :: rest =>
    match rest with
    | '!' :: first :: behind => do
      let (inside, after) ← cutBracket behind
      let tokens ← readTokens (rest.length - after.length) rest
      return .noneOf (readSets (first :: inside)) :: tokens
    | first :: behind => do
      let (inside, after) ← cutBracket behind
      let tokens ← readTokens (rest.length - after.length) rest
      return .oneOf (readSets (first :: inside)) :: tokens
    | [] => none
  | 0, c :: rest => (readTokens 0 rest).map (.char c :: ·)

/-- The name that tokens spell, when each of them is a character. -/
def literal? (tokens : List Token) : Option (List Char) :=
  tokens.mapM fun
    | .char c => some c
    | _ => none

/-- Reads one piece. -/
def readPiece (piece : String) : Option Piece :=
  if piece = "**" then some .anyDepth
  else (readTokens 0 piece.toList).map fun tokens =>
    match literal? tokens with
    | some name => .literal (String.ofList name)
    | none => .tokens tokens

/-- Reads a pattern; none when it is malformed. A slash at its end adds no piece. -/
def read? (pattern : String) : Option (List Piece) :=
  let pieces := Path.pieces pattern
  let pieces := if pieces.getLast? = some "" then pieces.dropLast else pieces
  pieces.mapM readPiece

/-- A list and all its tails. -/
def tails : List Char → List (List Char)
  | [] => [[]]
  | c :: rest => (c :: rest) :: tails rest

/-- Whether tokens match a name. -/
def matchTokens : List Token → List Char → Bool
  | [], s => s.isEmpty
  | .anyRun :: rest, s => (tails s).any (matchTokens rest)
  | _ :: _, [] => false
  | .char d :: rest, c :: s => c == d && matchTokens rest s
  | .anyChar :: rest, _ :: s => matchTokens rest s
  | .oneOf sets :: rest, c :: s => sets.any (CharSet.has c) && matchTokens rest s
  | .noneOf sets :: rest, c :: s => !sets.any (CharSet.has c) && matchTokens rest s

/-- What has been found so far: a path and its place. -/
structure Found where
  path : String
  place : Place
deriving DecidableEq, Repr

namespace Found

/-- The name in a directory. The working directory is not written in front of it. -/
def inside (f : Found) (name : String) : Found :=
  { path := if f.path = "." then name else Path.join f.path name, place := f.place ++ [name] }

/-- What a name that stands for no entry leads to: nothing or `.` to the directory itself, and `..`
to the one above it. -/
def special? (f : Found) (name : String) : Option Found :=
  if name = "" then
    if f.path = "." then none else some { f with path := Path.join f.path "" }
  else if name = "." then
    some { f with path := if f.path = "." then "." else Path.join f.path "." }
  else if name = ".." then
    (Place.parent? f.place).map fun place =>
      { path := if f.path = "." then ".." else Path.join f.path "..", place }
  else none

/-- The entries of a directory whose names pass a test. -/
def entries (t : FileTree) (f : Found) (test : String → Bool) : List Found :=
  if t.get? f.place = some .directory then ((t.names f.place).filter test).map f.inside else []

/-- The directory itself and all directories below it. -/
def directories (t : FileTree) (f : Found) : List Found :=
  if t.get? f.place = some .directory then
    (t.directoriesFrom f.place).map fun place =>
      (place.drop f.place.length).foldl inside f
  else []

end Found

/-- Whether a name is one that stands for no entry. -/
def isSpecial (name : String) : Bool :=
  name == "" || name == "." || name == ".."

/-- Whether a name matches a piece of a pattern. -/
def Piece.accepts : Piece → String → Bool
  | literal s, name => name == s
  | tokens ts, name => matchTokens ts name.toList
  | anyDepth, _ => true

/-- What the next piece leads to from a directory. Tokens match `.` and `..` only when they begin
with a point. -/
def step (t : FileTree) (f : Found) : Piece → List Found
  | .literal name =>
    if isSpecial name then
      if t.get? f.place = some .directory then (f.special? name).toList else []
    else if (t.get? (f.place ++ [name])).isSome then [f.inside name] else []
  | .tokens ts =>
    let specials :=
      if ts.head? = some (.char '.') && t.get? f.place = some .directory then
        ([".", ".."].filter fun name => matchTokens ts name.toList).filterMap f.special?
      else []
    specials ++ f.entries t fun name => matchTokens ts name.toList
  | .anyDepth => []

/-- What the pieces lead to. Behind `**` a piece is a test on the names of entries. -/
def expand (t : FileTree) : List Piece → Found → List Found
  | [], f => [f]
  | [.anyDepth], f => f.directories t
  | .anyDepth :: .anyDepth :: rest, f => expand t (.anyDepth :: rest) f
  | .anyDepth :: piece :: rest, f =>
    (f.directories t).flatMap fun directory =>
      (directory.entries t piece.accepts).flatMap (expand t rest)
  | piece :: rest, f => (step t f piece).flatMap (expand t rest)

/-- The paths that match a pattern. -/
def paths? : Search := fun t pattern =>
  (read? pattern).map fun pieces =>
    let found :=
      if Path.isAbsolute pattern then expand t (pieces.drop 1) ⟨"/", ["/"]⟩
      else expand t pieces ⟨".", t.home⟩
    let paths := found.map (·.path)
    if Path.namesDirectory pattern then paths.filter t.isDirectory else paths

end ApiSurface.Glob
