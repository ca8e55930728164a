import ApiSurface.Signature

/-!
# Types in TypeScript

A type as JavaScript sees it is written as a TypeScript type. Some native types accept more than
they produce, so a type is written for a position, and rules may replace the text for a name. The
mark of a list binds tighter than a union, so elements that may be absent stand in parentheses.
-/

namespace ApiSurface

/-- Where a type stands. -/
inductive TypePosition where
  /-- The type of a parameter or property. -/
  | input
  /-- The type of a result. -/
  | output
deriving DecidableEq, Repr

/-- Rules on how names of types are written, which go before the built-in names. -/
structure TypeTextRules where
  /-- Types written as `string`. -/
  stringTypes : List String := ["Accelerator", "KeyboardCode"]
  /-- Texts for types of parameters and properties. -/
  inputTexts : List (String × String) := [("Color", "string | number")]
  /-- Texts for types of results. -/
  outputTexts : List (String × String) := [("Color", "number")]
deriving Repr

namespace TypeTextRules

/-- The texts that replace names in a position. -/
def replacements (r : TypeTextRules) : TypePosition → List (String × String)
  | .input => r.inputTexts
  | .output => r.outputTexts

/-- The text that the rules give for a name. -/
def replaced? (r : TypeTextRules) (position : TypePosition) (name : String) : Option String :=
  match (r.replacements position).lookup name with
  | some text => some text
  | none => if r.stringTypes.contains name then some "string" else none

/-- The text of a native name that says nothing about other types. -/
def nativeText? (name : String) : Option String :=
  [("Boolean", "boolean"), ("Number", "number"), ("Integer", "number"), ("String", "string"),
    ("Object", "object"), ("Function", "Function"), ("Any", "any"), ("Buffer", "any")].lookup name

mutual

/-- The text of a type. -/
def typeText (r : TypeTextRules) (position : TypePosition) : MappedType → String
  | ⟨name, _, nullable, element, args⟩ =>
    let base :=
      match r.replaced? position name with
      | some text => text
      | none =>
        match nativeText? name with
        | some text => text
        | none =>
          if name = "Array" then arrayText r position element
          else if name = "Tuple" then "[" ++ ", ".intercalate (typeTexts r position args) ++ "]"
          else Identifier.declaredName name
    if nullable then base ++ " | null" else base

/-- The text of a list with elements of a type. -/
def arrayText (r : TypeTextRules) (position : TypePosition) : Option MappedType → String
  | none => "any[]"
  | some t =>
    if t.nullable then "(" ++ typeText r position t ++ ")[]" else typeText r position t ++ "[]"

/-- The texts of types. -/
def typeTexts (r : TypeTextRules) (position : TypePosition) : List MappedType → List String
  | [] => []
  | t :: rest => typeText r position t :: typeTexts r position rest

end

variable {Member : Type}

/-- The parameters of a function in parentheses. -/
def parameterList (r : TypeTextRules) (s : Signature Member) : String :=
  "(" ++ ", ".intercalate (s.parameters.map fun p => p.name ++ ": " ++ r.typeText .input p.type)
    ++ ")"

/-- The type of what a function returns. -/
def resultText (r : TypeTextRules) (s : Signature Member) : String :=
  match s.returnType with
  | some t => r.typeText .output t
  | none => "void"

/-- A function as the type of a method, `(a: T): R`. -/
def methodText (r : TypeTextRules) (s : Signature Member) : String :=
  r.parameterList s ++ ": " ++ r.resultText s

/-- A function as the type of a value, `(a: T) => R`. -/
def arrowText (r : TypeTextRules) (s : Signature Member) : String :=
  r.parameterList s ++ " => " ++ r.resultText s

end TypeTextRules

end ApiSurface
