/-!
# Lines of a text

Two ways to cut a text at line feeds. `lines` gives the lines without their ends: a line feed or a
carriage return with a line feed ends a line, and nothing follows the last end. `lineRuns` keeps the
line feed with the line it ends, so that the runs joined give the text back.
-/

namespace ApiSurface.Text

/-- The lines of a text with their line feeds; no run is empty. -/
def lineRuns : List Char → List (List Char)
  | [] => []
  | c :: rest =>
    if c = '\n' then [c] :: lineRuns rest
    else match lineRuns rest with
      | [] => [[c]]
      | run :: runs => (c :: run) :: runs

/-- A line run without its line feed and a carriage return in front of that. -/
def stripLineEnd (run : List Char) : List Char :=
  match run.reverse with
  | '\n' :: '\r' :: rest => rest.reverse
  | '\n' :: rest => rest.reverse
  | _ => run

/-- The lines of a text, without the ends of lines. -/
def lines (s : List Char) : List (List Char) :=
  (lineRuns s).map stripLineEnd

end ApiSurface.Text
