import ApiSurface.Declaration.TypeText
import ApiSurface.Descriptor.Decode
import ApiSurface.View.Rules

/-!
# Settings

Settings say which languages to document, how entities are exposed to scripts, how types are written
in declarations and where guides are. As a document they are a mapping; the defaults are one too,
and other sources are laid over it before the whole is decoded. Languages must be given by their
short tags.
-/

namespace ApiSurface

open Document (Value)

/-- What a run depends on besides its input. -/
structure Settings where
  languages : List Language := Language.all
  rules : ViewRules := {}
  /-- The name of the module of declarations. -/
  declarationModule : String := "gui"
  typeTexts : TypeTextRules := {}
  /-- The directory of guides. -/
  guides : Option String := none
deriving Repr

namespace Settings

/-- Texts in order, each once. -/
def textSet (texts : List String) : List String :=
  (Document.sortFields (Document.ofFields (texts.map (·, ())))).map (·.1)

/-- Texts as a list. -/
def textsValue (texts : List String) : Value :=
  .list (texts.map .text)

/-- A mapping to texts. -/
def textFieldsValue (fields : List (String × String)) : Value :=
  .map (fields.map fun (key, text) => (key, .text text))

/-- Settings as a document. -/
def toValue (s : Settings) : Value :=
  .map [
    ("languages", textsValue (s.languages.map Language.tag)),
    ("wrapped_types", textsValue s.rules.wrappedTypes),
    ("string_types", textsValue s.rules.stringTypes),
    ("integer_types", textsValue s.rules.integerTypes),
    ("modules", .map (s.rules.modules.map fun (component, modules) =>
      (component, textFieldsValue modules))),
    ("declaration_module", .text s.declarationModule),
    ("ts_string_types", textsValue s.typeTexts.stringTypes),
    ("ts_param_overrides", textFieldsValue s.typeTexts.inputTexts),
    ("ts_return_overrides", textFieldsValue s.typeTexts.outputTexts),
    ("guides_dir", match s.guides with
      | some path => .text path
      | none => .null)]

/-- A mapping to mappings to texts. -/
def modules? : Value → Option (List (String × List (String × String)))
  | .map fields =>
    (fields.mapM fun (field : String × Value) => field.2.textFields?.map (field.1, ·)).map
      Document.sortFields
  | _ => none

/-- A language by its short tag. The tag may also be the first key of a mapping in which nothing
stands behind it. -/
def language? : Value → Option Language
  | .text tag => Language.ofTag? tag
  | .map fields =>
    match Document.sortFields fields with
    | (tag, .null) :: _ => Language.ofTag? tag
    | _ => none
  | _ => none

/-- A list of languages. -/
def languages? : Value → Option (List Language)
  | .list items => items.mapM language?
  | _ => none

/-- Decodes settings in which no field is left out. -/
def decode : Value → Option Settings
  | .map fields => do
    let texts (key : String) : Option (List String) :=
      ((fields.lookup key).bind (·.texts?)).map textSet
    let mapping (key : String) := (fields.lookup key).bind (·.textFields?)
    return {
      languages := ← (fields.lookup "languages").bind languages?
      rules := {
        wrappedTypes := ← texts "wrapped_types"
        stringTypes := ← texts "string_types"
        integerTypes := ← texts "integer_types"
        modules := ← (fields.lookup "modules").bind modules? }
      declarationModule := ← (fields.lookup "declaration_module").bind (·.text?)
      typeTexts := {
        stringTypes := ← texts "ts_string_types"
        inputTexts := ← mapping "ts_param_overrides"
        outputTexts := ← mapping "ts_return_overrides" }
      guides := ← (fields.lookup "guides_dir").bind (·.optionalText?) }
  | _ => none

end Settings

end ApiSurface
