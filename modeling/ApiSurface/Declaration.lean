import ApiSurface.Declaration.Order
import ApiSurface.Declaration.TypeText
import ApiSurface.Text.Lines

/-!
# TypeScript declarations

The views of a JavaScript surface are declared in one module: the entities in the order of
`declarationOrder`, then the interface of signals. A class is declared as a class and plain data as
an interface, unless it has static members; a string that enumerates its values is a union of them.
Other entities have no declaration, and neither has the entity that the interface of signals stands
for.
-/

namespace ApiSurface.Declaration

/-- The entity that is replaced by the interface of signals. -/
def signalName : String := "Signal"

/-- The lines of a text, those with more than blanks indented by two spaces. -/
def indent (text : String) : String :=
  String.ofList <| (Text.lineRuns text.toList).flatMap fun line =>
    if (Text.trim line).isEmpty then line else ' ' :: ' ' :: line

/-- A line for a property. -/
def propertyLine (r : TypeTextRules) (m : MemberView) : String :=
  let type := match m.type with
    | some t => r.typeText .input t
    | none => "any"
  m.shownName ++ (if m.isOptional then "?" else "") ++ ": " ++ type ++ ";"

/-- A line for a method; none for a member without a signature. -/
def methodLine? (r : TypeTextRules) (m : MemberView) : Option String :=
  m.signature.map fun s => s.name ++ r.methodText s ++ ";"

/-- A line for a callback that the entity asks. -/
def delegateLine? (r : TypeTextRules) (m : MemberView) : Option String :=
  m.callable.map fun s => s.name ++ ": " ++ r.arrowText s ++ ";"

/-- A line for a signal. Its handlers can be assigned as well as connected, which no type says. -/
def eventLine (m : MemberView) : String :=
  m.shownName ++ ": any;"

/-- The lines for the members of an entity. -/
def memberLines (r : TypeTextRules) (members : Sections MemberView) : List String :=
  members.classProperties.map (fun m => "static " ++ propertyLine r m)
    ++ (members.classMethods.filterMap (methodLine? r)).map ("static " ++ ·)
    ++ (members.methods.filter (!·.isAbstract)).filterMap (methodLine? r)
    ++ members.properties.map (propertyLine r)
    ++ members.delegates.filterMap (delegateLine? r)
    ++ members.events.map eventLine

/-- Lines joined, each with its end. -/
def unlines (lines : List String) : String :=
  String.join (lines.map (· ++ "\n"))

/-- The declaration of an entity as a class or as an interface. -/
def structureText (r : TypeTextRules) (isInterface : Bool) (v : EntityView) : String :=
  let name := Identifier.declaredName v.name
  let heading := "export " ++ (if isInterface then "interface " else "class ") ++ name ++ " "
  let extending := match v.base with
    | some base => "extends " ++ Identifier.declaredName base.name ++ " "
    | none => ""
  let lines := (if isInterface then [] else ["protected constructor();"]) ++ memberLines r v.members
  let singleton :=
    if v.isSingleton then "\n\nexport const " ++ Text.lowercased v.name ++ ": " ++ name ++ ";"
    else ""
  heading ++ extending ++ "\x7b\n" ++ indent (unlines lines) ++ "\x7d" ++ singleton

/-- Whether a text is quoted already, in single or in double quotes. -/
def isQuoted (s : List Char) : Bool :=
  2 ≤ s.length
    && ((s.head? == some '\'' && s.getLast? == some '\'')
      || (s.head? == some '"' && s.getLast? == some '"'))

/-- A value as a string literal. -/
def literal (value : String) : String :=
  if isQuoted value.toList then value else "'" ++ value ++ "'"

/-- The declaration of a string by its values. -/
def unionText (v : EntityView) : String :=
  "export type " ++ Identifier.declaredName v.name ++ " = "
    ++ " | ".intercalate (v.members.enums.map fun m => literal m.shownName) ++ ";"

/-- The declaration of an entity, if it has one. -/
def entityText? (r : TypeTextRules) (v : EntityView) : Option String :=
  if v.name = signalName then none
  else match v.kind? with
    | some .classType => some (structureText r false v)
    | some .object => some (structureText r (!v.hasStatics) v)
    | some .string => if v.members.enums.isEmpty then none else some (unionText v)
    | _ => none

/-- The interface of signals, whatever handlers they take. -/
def signalText : String :=
  unlines [
    "export interface Signal<T> \x7b",
    "  connect(handler: T): number;",
    "  disconnect(id: number): void;",
    "  disconnectAll(): void;",
    "\x7d"]

/-- The declaration file of a module. -/
def file (r : TypeTextRules) (module : String) (vs : List EntityView) : Except OrderError String :=
  (declarationOrder vs).map fun ordered =>
    let texts := ordered.filterMap (entityText? r)
    "declare module \"" ++ module ++ "\" \x7b\n"
      ++ String.join (texts.map fun text => indent text ++ "\n\n")
      ++ indent signalText ++ "\x7d\n"

end ApiSurface.Declaration
