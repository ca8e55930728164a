import ApiSurface.Document.Yaml.Cursor

/-!
# Texts of their own lines

A block scalar begins behind `|` or `>` and holds the lines that are indented far enough. Behind `|`
they are kept as they are; behind `>` two lines that start without a blank are joined by a space.
-/

namespace ApiSurface.Document.Yaml

/-- What happens to the ends of lines at the end of a block. -/
inductive Chomp where
  /-- All go. -/
  | strip
  /-- One stays. -/
  | clip
  /-- All stay. -/
  | keep
deriving DecidableEq

/-- The indicators behind `|` or `>`. -/
structure BlockHeader where
  chomp : Chomp := .clip
  /-- How much further than its surroundings the block is indented, when that is given. -/
  indent : Option Nat := none

/-- How the end is treated, if this is an indicator for it. -/
def chomp? : Char → Option Chomp
  | '+' => some .keep
  | '-' => some .strip
  | _ => none

/-- Reads the indicators in front of a text, which may stand in either order. An indentation of
nothing is refused. -/
def readHeader (s : List Char) : Option (BlockHeader × List Char) :=
  let digit? (c : Char) : Option Nat := if c.isDigit then some (c.toNat - '0'.toNat) else none
  let (header, rest) : BlockHeader × List Char := match s with
    | [] => ({}, [])
    | c :: rest =>
      match chomp? c, digit? c with
      | some chomp, _ =>
        match rest.head?.bind digit? with
        | some n => ({ chomp, indent := some n }, rest.drop 1)
        | none => ({ chomp }, rest)
      | none, some n =>
        match rest.head?.bind chomp? with
        | some chomp => ({ chomp, indent := some n }, rest.drop 1)
        | none => ({ indent := some n }, rest)
      | none, none => ({}, s)
  if header.indent = some 0 then none else some (header, rest)

/-- Passes spaces and empty lines in front of a block whose indentation is not given, and finds it:
that of the longest of these lines, the first one with more than spaces included. A tab in that
place is refused. `empties` holds the ends of lines so far in reverse. -/
def findIndent (most : Nat) (empties : List Char) (p : Position) :
    List Char → Option (Nat × List Char × Cursor)
  | [] => some (max most p.column, empties.reverse, ⟨p, []⟩)
  | c :: rest =>
    if c == ' ' then findIndent most empties (p.next c) rest
    else if c == '\t' then none
    else if isBreak c then findIndent (max most p.column) (c :: empties) (p.next c) rest
    else some (max most p.column, empties.reverse, ⟨p, c :: rest⟩)

/-- What has been read of a block. -/
structure Block where
  /-- What the block says so far, in reverse. -/
  read : List Char := []
  /-- Whether the cursor stands inside a line. -/
  inLine : Bool := false
  /-- The end of the last line. -/
  lineEnd : List Char := []
  /-- The ends of the empty lines behind it. -/
  empties : List Char := []
  /-- Whether the last line starts with a blank. -/
  indented : Bool := false

/-- Begins a line with its first character. In a folded block a line feed between two lines that
start without a blank is a space, or goes when empty lines follow it. -/
def Block.startLine (folded : Bool) (b : Block) (c : Char) : Block :=
  let joint :=
    if folded && b.lineEnd == ['\n'] && !b.indented && !isGap c then
      if b.empties.isEmpty then [' '] else b.empties
    else b.lineEnd ++ b.empties
  { read := c :: (joint.reverse ++ b.read), inLine := true, indented := isGap c }

/-- Reads the lines of a block up to the first one that is indented less. -/
def readLines (folded : Bool) (indent : Nat) (b : Block) (p : Position) :
    List Char → Option (Block × Cursor)
  | [] => some (b, ⟨p, []⟩)
  | c :: rest =>
    if b.inLine then
      if isBreak c then
        readLines folded indent { b with inLine := false, lineEnd := [c] } (p.next c) rest
      else readLines folded indent { b with read := c :: b.read } (p.next c) rest
    else if p.column < indent && c == ' ' then readLines folded indent b (p.next c) rest
    else if p.column < indent && c == '\t' then none
    else if isBreak c then
      readLines folded indent { b with empties := b.empties ++ [c] } (p.next c) rest
    else if p.column = indent then readLines folded indent (b.startLine folded c) (p.next c) rest
    else some (b, ⟨p, c :: rest⟩)

/-- What a block says when its end is treated in one of the three ways. -/
def Block.text (chomp : Chomp) (b : Block) : List Char :=
  b.read.reverse ++ match chomp with
    | .strip => []
    | .clip => b.lineEnd
    | .keep => b.lineEnd ++ b.empties

/-- Reads a block scalar; the cursor stands behind its `|` or `>`. It is indented by at least
`least`, which is one more than the column of the collection around it. -/
def readBlock (folded : Bool) (least : Nat) (c : Cursor) : Option (List Char × Cursor) := do
  let (header, behind) ← readHeader c.rest
  let comment := behind.dropWhile isGap
  let body := if comment.head? = some '#' then comment.dropWhile (!isBreak ·) else comment
  if !body.head?.all isBreak then none
  else
    let start := c.advance (c.rest.length - body.length + 1)
    let (indent, empties, first) ← match header.indent with
      | some n => some (least - 1 + n, [], start)
      | none =>
        (findIndent 0 [] start.toPosition start.rest).map fun (most, empties, first) =>
          (max (max most least) 1, empties, first)
    let (b, after) ← readLines folded indent { empties } first.toPosition first.rest
    return (b.text header.chomp, after)

end ApiSurface.Document.Yaml
