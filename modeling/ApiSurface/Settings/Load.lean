import ApiSurface.Descriptor.Load
import ApiSurface.Settings
import ApiSurface.Settings.Variable

/-!
# Loading settings

Settings come from three sources, each laid over the one before: the defaults, a file and variables
of the environment. The file is given, or it is the first of three names that is there.
-/

namespace ApiSurface

open Document (Value)

/-- What a run can see: files and the environment. -/
structure Workspace where
  files : FileTree := {}
  /-- Variables with their texts, in the order in which they were set. -/
  environment : List (String × String) := []
deriving Repr

/-- Why settings could not be loaded. -/
inductive SettingsError where
  /-- A source cannot be read or does not decode. -/
  | invalid
  /-- The file that was asked for is not there. -/
  | missing (path : String)
deriving DecidableEq, Repr

/-- What is said about settings that could not be loaded. -/
def SettingsError.message : SettingsError → String
  | invalid => "invalid configuration"
  | missing path => "config file " ++ path ++ " not found"

namespace Settings

/-- The files that are looked for when none is given, in order. -/
def defaultFiles : List String :=
  ["surfacedoc.json", "surfacedoc.yaml", "surfacedoc.yml"]

/-- What names of variables begin with, without regard to case. -/
def variableStem : String := "SURFACEDOC_"

/-- The field that a variable sets: what follows the stem of its name, in lowercase. Points lead to
fields of fields. -/
def variableField? (name : String) : Option (List String) :=
  let lower := (Text.trim name.toList).map Char.toLower
  let stem := variableStem.toList.map Char.toLower
  if stem.isPrefixOf lower then
    let field := String.ofList (Text.trim (lower.drop stem.length))
    let keys := field.splitOn "."
    if keys.contains "" then none else some keys
  else none

/-- A mapping that holds a value behind a chain of keys. -/
def nested (keys : List String) (value : Value) : Value :=
  keys.foldr (fun key inner => .map [(key, inner)]) value

/-- The fields that the environment sets. -/
def variableFields (environment : List (String × String)) : Value :=
  environment.foldl
    (fun fields (name, text) =>
      match variableField? name with
      | some keys => fields.overlay (nested keys (Variable.read text))
      | none => fields)
    (.map [])

/-- The file to read. -/
def file? (files : FileTree) : Option String → Except SettingsError (Option String)
  | some path => if files.isFile path then .ok (some path) else .error (.missing path)
  | none => .ok (defaultFiles.find? files.isFile)

/-- The document in a file of settings. It is JSON when its extension says so, and YAML
otherwise. -/
def readFile? (files : FileTree) (path : String) : Option Value := do
  let text ← (files.read path).toOption
  let format := if Path.extension? path = some "json" then DocumentKind.json else .yaml
  match ← format.read? text with
  | .map fields => some (.map fields)
  | _ => none

/-- Loads settings from all sources. -/
def load (w : Workspace) (path : Option String) : Except SettingsError Settings := do
  let file ← file? w.files path
  let fromFile ← match file with
    | none => .ok (Value.map [])
    | some path =>
      match readFile? w.files path with
      | some v => .ok v
      | none => .error .invalid
  let all := ((toValue {}).overlay fromFile).overlay (variableFields w.environment)
  match decode all with
  | some s => .ok s
  | none => .error .invalid

end Settings

end ApiSurface
