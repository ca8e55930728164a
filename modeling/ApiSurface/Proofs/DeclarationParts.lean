import ApiSurface.Proofs.DeclaredBases

/-!
# The parts of a declaration

An entity is declared as a class, as an interface or as a union, or not at all (`shape?`), and its
declaration is made of parts: names behind a keyword, and other text (`entityText?_eq_map`). So what
is said of the names or of the lines in the declaration file can be said of lists, and is about the
text that is written (`exists_writtenIn`).
-/

namespace ApiSurface.Declaration

/-! ## Parts -/

/-- What may stand in front of a name. -/
inductive Keyword where
  | exportClass
  | exportInterface
  | exportType
  | exportConst
  | extending
deriving DecidableEq

def Keyword.text : Keyword → String
  | exportClass => "export class "
  | exportInterface => "export interface "
  | exportType => "export type "
  | exportConst => "export const "
  | extending => "extends "

/-- A part of a declaration. -/
inductive Part where
  /-- A name behind its keyword. -/
  | naming (keyword : Keyword) (name : String)
  | other (text : String)

def Part.text : Part → String
  | naming keyword name => keyword.text ++ name
  | other text => text

def Part.name? : Part → Option (Keyword × String)
  | naming keyword name => some (keyword, name)
  | other _ => none

/-- The text that parts make. -/
def partsText (parts : List Part) : String :=
  String.join (parts.map Part.text)

theorem partsText_append (parts parts' : List Part) :
    partsText (parts ++ parts') = partsText parts ++ partsText parts' := by
  rw [partsText, List.map_append, String.join_append, partsText, partsText]

theorem partsText_cons (part : Part) (parts : List Part) :
    partsText (part :: parts) = part.text ++ partsText parts := by
  rw [partsText, List.map_cons, String.join_cons, partsText]

/-- The names in a list of parts, with their keywords. -/
def partNames (parts : List Part) : List (Keyword × String) :=
  parts.filterMap Part.name?

/-! ## Shapes -/

/-- What an entity is declared as. -/
inductive Shape where
  | asClass
  | asInterface
  | asUnion
deriving DecidableEq

/-- What an entity is declared as, if it is declared. -/
def shape? (v : EntityView) : Option Shape :=
  if v.name = signalName then none
  else match v.kind? with
    | some .classType => some .asClass
    | some .object => some (if v.hasStatics then .asClass else .asInterface)
    | some .string => if v.members.enums.isEmpty then none else some .asUnion
    | _ => none

/-- The line for the constructor of a class, which scripts cannot call. -/
def constructorLines (isInterface : Bool) : List String :=
  if isInterface then [] else ["protected constructor();"]

/-- The lines between the braces of a class or an interface. -/
def bodyLines (r : TypeTextRules) (isInterface : Bool) (v : EntityView) : List String :=
  constructorLines isInterface ++ memberLines r v.members

/-- The keyword of a class or an interface. -/
def structureKeyword (isInterface : Bool) : Keyword :=
  if isInterface then .exportInterface else .exportClass

/-- What stands in front of the braces. -/
def headingParts (isInterface : Bool) (v : EntityView) : List Part :=
  .naming (structureKeyword isInterface) (Identifier.declaredName v.name) :: .other " " ::
    match v.base with
    | some base => [.naming .extending (Identifier.declaredName base.name), .other " "]
    | none => []

/-- What stands behind the braces: for a singleton, its constant. -/
def constantParts (v : EntityView) : List Part :=
  if v.isSingleton then
    [.other "\n\n", .naming .exportConst (Text.lowercased v.name),
      .other (": " ++ Identifier.declaredName v.name ++ ";")]
  else []

/-- The braces and what stands between them. -/
def bracesText (body : String) : String :=
  "\x7b\n" ++ body ++ "\x7d"

/-- The parts of a declaration as a class or as an interface. -/
def structureParts (r : TypeTextRules) (isInterface : Bool) (v : EntityView) : List Part :=
  headingParts isInterface v
    ++ .other (bracesText (indent (unlines (bodyLines r isInterface v)))) :: constantParts v

/-- The parts of a declaration as a union of values. -/
def unionParts (v : EntityView) : List Part :=
  [.naming .exportType (Identifier.declaredName v.name),
    .other (" = " ++ " | ".intercalate (v.members.enums.map fun m => literal m.shownName) ++ ";")]

/-- The parts of a declaration. -/
def Shape.parts (r : TypeTextRules) (v : EntityView) : Shape → List Part
  | asClass => structureParts r false v
  | asInterface => structureParts r true v
  | asUnion => unionParts v

variable {r : TypeTextRules} {module text : String} {vs : List EntityView} {v : EntityView}

theorem structureText_eq (r : TypeTextRules) (isInterface : Bool) (v : EntityView) :
    structureText r isInterface v = partsText (structureParts r isInterface v) := by
  have hkeyword : (structureKeyword isInterface).text
      = "export " ++ (if isInterface then "interface " else "class ") := by
    cases isInterface <;> decide
  have hconst : "\n\nexport const " = "\n\n" ++ Keyword.exportConst.text := by decide
  have hextends : "extends " = Keyword.extending.text := rfl
  rw [structureText, structureParts, headingParts, constantParts, bodyLines, constructorLines,
    bracesText, partsText]
  cases v.base <;> cases v.isSingleton <;>
    simp [Part.text, hkeyword, hconst, hextends, String.append_assoc, -String.reduceAppend]

theorem unionText_eq (v : EntityView) : unionText v = partsText (unionParts v) := by
  simp [unionText, unionParts, partsText, Part.text, Keyword.text, String.append_assoc]

/-- A declaration is the text of its parts. -/
theorem entityText?_eq_map (r : TypeTextRules) (v : EntityView) :
    entityText? r v = (shape? v).map fun s => partsText (s.parts r v) := by
  by_cases hsignal : v.name = signalName
  · rw [entityText?, shape?, if_pos hsignal, if_pos hsignal, Option.map_none]
  rw [entityText?, shape?, if_neg hsignal, if_neg hsignal]
  rcases v.kind? with _ | kind
  · rfl
  cases kind with
  | classType => exact congrArg some (structureText_eq r false v)
  | object =>
    change some (structureText r (!v.hasStatics) v) = _
    rw [structureText_eq]
    cases v.hasStatics <;> rfl
  | string =>
    by_cases hempty : v.members.enums.isEmpty
    · simp only [hempty, if_true, Option.map_none]
    · simp only [hempty, Shape.parts, unionText_eq]
      rfl
  | _ => rfl

/-! ## The file -/

/-- The parts of each declaration in a list of entities. -/
def declaredParts (r : TypeTextRules) (vs : List EntityView) : List (List Part) :=
  vs.filterMap fun v => (shape? v).map (·.parts r v)

theorem blocks_eq (r : TypeTextRules) (vs : List EntityView) :
    blocks r vs = String.join ((declaredParts r vs).map fun parts => block (partsText parts)) := by
  have htexts : vs.filterMap (entityText? r) = (declaredParts r vs).map partsText := by
    rw [declaredParts, List.map_filterMap]
    refine List.filterMap_congr fun v _ => ?_
    rw [entityText?_eq_map, Option.map_map]
    rfl
  rw [blocks, htexts, List.map_map]
  rfl

/-- The file `text` is written in these parts: those of the declared entities in their order, with
nothing but the heading and the interface of signals around them. -/
structure WrittenIn (r : TypeTextRules) (module : String) (vs : List EntityView) (text : String)
    (parts : List (List Part)) : Prop where
  ordered : ∃ order, declarationOrder vs = .ok order ∧ parts = declaredParts r order
  text_eq : text = heading module
    ++ (String.join (parts.map fun ps => block (partsText ps)) ++ ending)

/-- Entities that can be ordered have a declaration file. -/
theorem exists_file {order : List EntityView} (h : declarationOrder vs = .ok order) :
    ∃ text, file r module vs = .ok text :=
  ⟨_, file_eq_ok_iff.mpr ⟨order, h, rfl⟩⟩

/-- Every declaration file is written in parts. -/
theorem exists_writtenIn (h : file r module vs = .ok text) :
    ∃ parts, WrittenIn r module vs text parts := by
  obtain ⟨order, horder, rfl⟩ := file_eq_ok_iff.mp h
  exact ⟨declaredParts r order, ⟨order, horder, rfl⟩, by rw [blocks_eq]⟩

end ApiSurface.Declaration
