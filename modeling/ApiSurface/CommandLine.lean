import ApiSurface.CommandLine.Arguments
import ApiSurface.Generation

/-!
# The command line

A run of the program takes arguments and a workspace to an outcome — exit code and output — and the
files it leaves. Code 0 is success, 1 a failure, which is reported on the second stream, and 2 a
misuse of the arguments.
-/

namespace ApiSurface.CommandLine

/-- What a run shows. -/
structure Outcome where
  code : Nat
  output : String := ""
  errors : String := ""
deriving DecidableEq, Repr

/-- What is printed for the version. -/
def versionText : String := "surfacedoc 0.3.0\n"

/-- What is printed on how to use the program. -/
def usageText : String :=
  "Usage: surfacedoc [OPTIONS] <docs|declarations|signature|type|id> ...\n"

/-- The filter of log lines for the flags `--verbose` and `--quiet`, of which the first counts when
both are given; none leaves the choice to the environment. -/
def logFilter? (verbose quiet : Bool) : Option String :=
  if verbose then some "surfacedoc=debug"
  else if quiet then some "surfacedoc=error"
  else none

/-- The outcome of a run that succeeds or fails. -/
def Outcome.of : Except Failure String → Outcome
  | .ok output => { code := 0, output }
  | .error e => { code := 1, errors := "error: " ++ e.report ++ "\n" }

/-- The line that is printed for the documentation of one language. -/
def outputLine (o : WrittenDocs) : String :=
  o.language.tag ++ ": " ++ toString o.files.length ++ " files in " ++ o.directory ++ "\n"

/-- A document printed over several lines. -/
def printed (v : Document.Value) : String :=
  Document.Json.pretty v ++ "\n"

/-- Writes documentation with what the arguments put in place of settings. -/
def runDocs (s : Settings) (files : FileTree) (input out : String) (languages : List Language)
    (guides : Option String) : FileTree × Except Failure String :=
  let s := if languages.isEmpty then s else { s with languages }
  let s := { s with guides := guides.or s.guides }
  let (files, result) := Generation.loadAndWriteDocs s files input out
  (files, result.map fun outputs => String.join (outputs.map outputLine))

/-- Writes or prints declarations with what the arguments put in place of settings. -/
def runDeclarations (s : Settings) (files : FileTree) (input : String)
    (out module : Option String) : FileTree × Except Failure String :=
  let s := { s with declarationModule := module.getD s.declarationModule }
  match out with
  | some target =>
    let (files, result) := Generation.loadAndWriteDeclarations s files input target
    (files, result.map fun _ => "")
  | none => (files, Generation.loadDeclarations s files input)

/-- Carries out a command. Settings are loaded only for commands that use them. -/
def runCommand (w : Workspace) (i : Invocation) : FileTree × Except Failure String :=
  let withSettings (f : Settings → FileTree × Except Failure String) :
      FileTree × Except Failure String :=
    match Settings.load w i.config with
    | .error e => (w.files, .error (.settings e))
    | .ok s => f s
  match i.command with
  | .docs input out languages guides =>
    withSettings fun s => runDocs s w.files input out languages guides
  | .declarations input out module =>
    withSettings fun s => runDeclarations s w.files input out module
  | .signature text l =>
    (w.files, ((Signature.parse l text).mapError .parse).map fun s => printed (signatureValue s))
  | .type token l =>
    (w.files, ((MappedType.ofToken l token).mapError .parse).map fun t => printed t.toValue)
  | .id text isProperty =>
    let id := if isProperty then Anchor.ofProperty text else Anchor.ofSignature text
    (w.files, (id.mapError .parse).map (· ++ "\n"))

/-- Runs the program. -/
def run (w : Workspace) (arguments : List String) : FileTree × Outcome :=
  match read arguments with
  | .error .misuse => (w.files, { code := 2, errors := usageText })
  | .error .help => (w.files, { code := 0, output := usageText })
  | .error .version => (w.files, { code := 0, output := versionText })
  | .ok i =>
    let (files, result) := runCommand w i
    (files, .of result)

end ApiSurface.CommandLine
