import ApiSurface.Language

/-!
# Arguments of the command line

A command is a word with options and operands of its own; some options may stand before the command
as well. An option is written `-x` or `--name`, its value behind it or attached to it, and several
short ones may share a dash. Behind `--` everything is an operand. No option may be given twice in
one place unless it collects values, and no operand may be missing or too many.
-/

namespace ApiSurface.CommandLine

/-- An option. -/
structure OptionSpec where
  short : Option Char
  name : String
  takesValue : Bool := false
  /-- Whether it may be given several times. -/
  collects : Bool := false
deriving DecidableEq, Repr

/-- The options that may stand before a command and behind it. -/
def sharedOptions : List OptionSpec := [
  { short := some 'c', name := "config", takesValue := true },
  { short := some 'v', name := "verbose" },
  { short := some 'q', name := "quiet" },
  { short := none, name := "no-color" },
  { short := some 'h', name := "help" }]

/-- The options that may stand before a command. -/
def leadingOptions : List OptionSpec :=
  sharedOptions ++ [{ short := some 'V', name := "version" }]

/-- The options of a command, or none for a word that is no command. -/
def commandOptions? (command : String) : Option (List OptionSpec) :=
  let own : Option (List OptionSpec) := match command with
    | "docs" => some [
        { short := some 'o', name := "out", takesValue := true },
        { short := some 'l', name := "lang", takesValue := true, collects := true },
        { short := some 'g', name := "guides", takesValue := true }]
    | "declarations" => some [
        { short := some 'o', name := "out", takesValue := true },
        { short := some 'm', name := "module", takesValue := true }]
    | "signature" => some [{ short := some 'l', name := "lang", takesValue := true }]
    | "type" => some [{ short := some 'l', name := "lang", takesValue := true }]
    | "id" => some [{ short := some 'p', name := "property" }]
    | _ => none
  own.map (sharedOptions ++ ·)

/-- What is given in one place: options with their values, and operands. -/
structure Given where
  /-- Options with their values, latest first. -/
  options : List (String × String) := []
  operands : List String := []
deriving Repr

namespace Given

/-- Whether an option was given. -/
def has (g : Given) (name : String) : Bool :=
  g.options.any (·.1 == name)

/-- The latest value of an option. -/
def value? (g : Given) (name : String) : Option String :=
  g.options.lookup name

/-- The values of an option in order. -/
def values (g : Given) (name : String) : List String :=
  (g.options.filter (·.1 == name)).reverse.map (·.2)

end Given

/-- Why arguments are not read to their end. -/
inductive Stop where
  /-- They are no proper use. -/
  | misuse
  /-- They ask how to use the program. -/
  | help
  /-- They ask for the version. -/
  | version
deriving DecidableEq, Repr

/-- How arguments are understood. -/
abbrev Reading := Except Stop

/-- What may be given in one place. -/
structure Grammar where
  options : List OptionSpec
  /-- Which values an option takes. -/
  accepts : String → String → Bool
  /-- Which operands may stand here. -/
  acceptsOperand : String → Bool

/-- A value or an operand that has been read. It is looked at only when the next option or operand
begins, so what is asked for before that comes first. -/
inductive Pending where
  | nothing
  | option (o : OptionSpec) (value : String)
  | operand (s : String)

/-- What has been read of the arguments in one place. -/
structure Progress where
  given : Given := {}
  pending : Pending := .nothing

/-- Records an option with its value. -/
def Given.record (m : Grammar) (g : Given) (o : OptionSpec) (value : String) : Reading Given :=
  if o.name == "help" then .error .help
  else if o.name == "version" then .error .version
  else if (g.has o.name && !o.collects) || !m.accepts o.name value then .error .misuse
  else .ok { g with options := (o.name, value) :: g.options }

/-- Looks at what has been read last. -/
def Progress.settle (m : Grammar) (p : Progress) : Reading Given :=
  match p.pending with
  | .nothing => .ok p.given
  | .option o value => p.given.record m o value
  | .operand s =>
    if m.acceptsOperand s then .ok { p.given with operands := p.given.operands ++ [s] }
    else .error .misuse

/-- Reads an option whose value is attached, or that takes none. -/
def Progress.attach (m : Grammar) (p : Progress) (o : OptionSpec) (value : String) :
    Reading Progress := do
  let given ← (← p.settle m).record m o value
  return { given }

/-- Reads an operand. Each place has room for one. -/
def Progress.addOperand (m : Grammar) (p : Progress) (s : String) : Reading Progress := do
  let given ← p.settle m
  if given.operands.isEmpty then return { given, pending := .operand s } else throw .misuse

/-- Whether an argument stands for options rather than for a value. -/
def isOption (argument : List Char) : Bool :=
  argument.head? == some '-' && argument != ['-']

/-- Reads the short options of an argument. The last one may wait for the next argument as its
value. -/
def readShort (m : Grammar) (p : Progress) :
    List Char → Reading (Progress × Option OptionSpec)
  | [] => .ok (p, none)
  | c :: rest =>
    match m.options.find? (·.short == some c) with
    | none => .error .misuse
    | some o => do
      if !o.takesValue then readShort m (← p.attach m o "") rest
      else if rest.isEmpty then return ({ given := ← p.settle m }, some o)
      else
        let value := if rest.head? == some '=' then rest.drop 1 else rest
        return (← p.attach m o (String.ofList value), none)

/-- Reads a long option without its dashes. It may wait for the next argument as its value. -/
def readLong (m : Grammar) (p : Progress) (argument : List Char) :
    Reading (Progress × Option OptionSpec) := do
  let name := String.ofList (argument.takeWhile (· != '='))
  match m.options.find? (·.name == name), argument.dropWhile (· != '=') with
  | none, _ => throw .misuse
  | some o, [] =>
    if o.takesValue then return ({ given := ← p.settle m }, some o)
    else return (← p.attach m o "", none)
  | some o, _ :: value =>
    if o.takesValue then return (← p.attach m o (String.ofList value), none) else throw .misuse

/-- Reads arguments up to the first operand when `stops`, and to the end otherwise. Returns what was
read and the arguments from that operand on. `waiting` is an option whose value comes next. -/
def readArguments (m : Grammar) (stops : Bool) (p : Progress) (waiting : Option OptionSpec) :
    List String → Reading (Progress × List String)
  | [] => if waiting.isSome then .error .misuse else .ok (p, [])
  | argument :: rest => do
    let s := argument.toList
    match waiting with
    | some o =>
      if isOption s then throw .misuse
      else readArguments m stops { p with pending := .option o argument } none rest
    | none =>
      if !isOption s then
        if stops then return (p, argument :: rest)
        else readArguments m stops (← p.addOperand m argument) none rest
      else if s = ['-', '-'] then
        if stops then
          if rest.isEmpty then return (p, []) else throw .misuse
        else return (← rest.foldlM (Progress.addOperand m) p, [])
      else
        let (p, waiting) ←
          if s.take 2 = ['-', '-'] then readLong m p (s.drop 2) else readShort m p (s.drop 1)
        readArguments m stops p waiting rest

/-- What the program is asked to do. -/
inductive Command where
  | docs (input out : String) (languages : List Language) (guides : Option String)
  | declarations (input : String) (out module : Option String)
  | signature (text : String) (l : Language)
  | type (token : String) (l : Language)
  | id (text : String) (isProperty : Bool)
deriving Repr

/-- A command with the options shared by all commands. -/
structure Invocation where
  config : Option String
  verbose : Bool
  quiet : Bool
  noColor : Bool
  command : Command
deriving Repr

/-- The languages that the value of an option names, separated by commas. -/
def languages? (value : String) : Option (List Language) :=
  (value.splitOn ",").mapM fun tag => Language.read? tag.toList

/-- What may stand before a command, and behind one with the given options. Paths are not empty, and
languages are known. -/
def grammar (command : String) (options : List OptionSpec) : Grammar where
  options
  accepts name value :=
    if name == "lang" then
      if command == "docs" then (languages? value).isSome else (Language.read? value.toList).isSome
    else if ["config", "out", "guides"].contains name then value != ""
    else true
  acceptsOperand s := s != "" || !(command == "docs" || command == "declarations")

/-- The output directory of documentation unless another one is given. -/
def defaultOut : String := "out/docs"

/-- The command of a word with what was given behind it. -/
def commandOf? (word : String) (g : Given) : Option Command :=
  match g.operands with
  | [operand] =>
    let language := ((g.value? "lang").bind fun tag => Language.read? tag.toList).getD .js
    match word with
    | "docs" =>
      let languages := (g.values "lang").flatMap fun value => (languages? value).getD []
      some (.docs operand ((g.value? "out").getD defaultOut) languages (g.value? "guides"))
    | "declarations" => some (.declarations operand (g.value? "out") (g.value? "module"))
    | "signature" => some (.signature operand language)
    | "type" => some (.type operand language)
    | "id" => some (.id operand (g.has "property"))
    | _ => none
  | _ => none

/-- Whether these words behind `help` name something that there is help on. -/
def hasHelp (words : List String) : Bool :=
  match words with
  | [] => true
  | [word] => word == "help" || (commandOptions? word).isSome
  | _ => false

/-- Reads all arguments. What stands before the command is looked at last. -/
def read (arguments : List String) : Reading Invocation := do
  let before := grammar "" leadingOptions
  match ← readArguments before true {} none arguments with
  | (_, []) => throw .misuse
  | (leading, word :: rest) =>
    if word == "help" then throw (if hasHelp rest then .help else .misuse)
    match commandOptions? word with
    | none => throw .misuse
    | some options =>
      let behind := grammar word options
      let (progress, _) ← readArguments behind false {} none rest
      let g ← progress.settle behind
      let some command := commandOf? word g | throw .misuse
      let leading ← leading.settle before
      let has (name : String) : Bool := leading.has name || g.has name
      return {
        config := (g.value? "config").or (leading.value? "config")
        verbose := has "verbose"
        quiet := has "quiet"
        noColor := has "no-color"
        command }

end ApiSurface.CommandLine
