import ApiSurface.MappedType

/-!
# Signatures and parameters

A signature is `Name(T1 p1, T2 p2)` for a constructor and `R Name(T1 p1, T2 p2) qualifiers` for any
other function. Reading one for a language maps its types and converts its names.

The text is cut four times: at the first parenthesis at the top, at its partner, at the last blank
before it and at the commas between the two. A pointer or reference mark may be written on the side
of the type or of the name; it belongs to the type.

Parameters carry documentation that is attached later, when members are viewed. What documents the
keys of a parameter are members again, so both types here take the type of members as an argument.
-/

namespace ApiSurface

/-- A parameter of a function as seen from one language. -/
structure Parameter (Member : Type) where
  type : MappedType
  name : String
  /-- What the parameter means. -/
  description : Option String := none
  /-- The keys it accepts, when it is a dictionary. -/
  properties : List Member := []

/-- A function as seen from one language. -/
structure Signature (Member : Type) where
  name : String
  parameters : List (Parameter Member)
  /-- Absent for constructors and for functions that return `void`. -/
  returnType : Option MappedType
  /-- The form to display. -/
  display : String

/-- Whether a character is a pointer or reference mark. -/
def isMarker (c : Char) : Bool :=
  c == '*' || c == '&'

/-- Moves the marks in front of a name to the end of its type. -/
def moveMarkers (type name : List Char) : List Char × List Char :=
  (type ++ name.takeWhile isMarker, name.dropWhile isMarker)

variable {Member : Type}

/-- The short form of a signature, `name(a, b)`. -/
def Signature.callText (s : Signature Member) : String :=
  s.name ++ "(" ++ ", ".intercalate (s.parameters.map (·.name)) ++ ")"

/-- Reads an item `Type name`. The context is what a fault of its form is reported in. -/
def readParameter (l : Language) (context text : List Char) :
    Except ParseError (Parameter Member) := do
  let item := Text.trim text
  let malformed := ParseError.malformedParameter (String.ofList item) (String.ofList context)
  let some (before, after) ← Nesting.splitLast? item | throw malformed
  let (type, name) := moveMarkers before after
  if !Identifier.isName name || type.isEmpty then throw malformed
  let mapped ← mapToken l type
  return { type := mapped, name := String.ofList (Identifier.convert l name) }

/-- Reads what stands between the parentheses of a signature. -/
def readParameters (l : Language) (source list : List Char) :
    Except ParseError (List (Parameter Member)) := do
  if (Text.trim list).isEmpty then return []
  let items ← Nesting.split ',' list
  items.mapM fun item =>
    if item.isEmpty then .error (.malformedParameter "" (String.ofList source))
    else readParameter l source item

/-- Reads what stands before the parameter list: the return type, if there is one, and the name. A
constructor has neither a return type nor anything behind its parameter list. -/
def readHead (l : Language) (source head trailing : List Char) :
    Except ParseError (Option MappedType × List Char) := do
  match ← Nesting.splitLast? head with
  | none =>
    if trailing.isEmpty then return (none, head)
    else throw (.malformedSignature (String.ofList source))
  | some (before, after) =>
    let (type, name) := moveMarkers before after
    if type = "void".toList then return (none, name)
    let mapped ← mapToken l type
    return (some mapped, name)

/-- Reads a signature. -/
def readSignature (l : Language) (text : List Char) : Except ParseError (Signature Member) := do
  let source := Text.trim text
  let some (before, opened) ← Nesting.find? '(' source
    | throw (.missingParameterList (String.ofList source))
  let (list, behind) ← Nesting.enclosed before opened
  let (returnType, name) ← readHead l source (Text.trimEnd before) (Text.trim behind)
  if !Identifier.isName name then throw (.malformedSignature (String.ofList source))
  let parameters ← readParameters l source list
  let signature : Signature Member :=
    { name := String.ofList (Identifier.convert l name), parameters, returnType, display := "" }
  return { signature with
    display := if l = .cpp then String.ofList source else signature.callText }

/-! ## The steps of reading

Reading as a chain of cuts, each with its faults. -/

theorem readParameter_eq (l : Language) (context text : List Char) :
    (readParameter l context text : Except ParseError (Parameter Member)) =
      let malformed :=
        ParseError.malformedParameter (String.ofList (Text.trim text)) (String.ofList context)
      match Nesting.splitLast? (Text.trim text) with
      | .error e => .error e
      | .ok none => .error malformed
      | .ok (some (before, after)) =>
        let (type, name) := moveMarkers before after
        if !Identifier.isName name || type.isEmpty then .error malformed
        else (mapToken l type).map fun mapped =>
          { type := mapped, name := String.ofList (Identifier.convert l name) } := by
  simp only [readParameter]
  generalize Nesting.splitLast? (Text.trim text) = cut
  rcases cut with e | _ | ⟨before, after⟩
  · rfl
  · rfl
  · show (if _ then _ else _) = ite _ _ _
    split
    · rfl
    · cases mapToken l (moveMarkers before after).1 <;> rfl

theorem readParameters_eq (l : Language) (source list : List Char) :
    (readParameters l source list : Except ParseError (List (Parameter Member))) =
      if (Text.trim list).isEmpty then .ok []
      else match Nesting.split ',' list with
      | .error e => .error e
      | .ok items => items.mapM fun item =>
        if item.isEmpty then .error (.malformedParameter "" (String.ofList source))
        else readParameter l source item := by
  simp only [readParameters]
  generalize Nesting.split ',' list = cut
  split
  · rfl
  · cases cut <;> rfl

theorem readHead_eq (l : Language) (source head trailing : List Char) :
    readHead l source head trailing =
      match Nesting.splitLast? head with
      | .error e => .error e
      | .ok none =>
        if trailing.isEmpty then .ok (none, head)
        else .error (.malformedSignature (String.ofList source))
      | .ok (some (before, after)) =>
        let (type, name) := moveMarkers before after
        if type = "void".toList then .ok (none, name)
        else (mapToken l type).map fun mapped => (some mapped, name) := by
  simp only [readHead]
  generalize Nesting.splitLast? head = cut
  rcases cut with e | _ | ⟨before, after⟩
  · rfl
  · rfl
  · show (if _ then _ else _) = ite _ _ _
    split
    · rfl
    · cases mapToken l (moveMarkers before after).1 <;> rfl

theorem readSignature_eq (l : Language) (text : List Char) :
    (readSignature l text : Except ParseError (Signature Member)) =
      let source := Text.trim text
      match Nesting.find? '(' source with
      | .error e => .error e
      | .ok none => .error (.missingParameterList (String.ofList source))
      | .ok (some (before, opened)) =>
        match Nesting.enclosed before opened with
        | .error e => .error e
        | .ok (list, behind) =>
          readHead l source (Text.trimEnd before) (Text.trim behind) >>= fun (returnType, name) =>
            if !Identifier.isName name then .error (.malformedSignature (String.ofList source))
            else (readParameters l source list).map fun parameters =>
              let name := String.ofList (Identifier.convert l name)
              let signature : Signature Member := { name, parameters, returnType, display := "" }
              { signature with
                display := if l = .cpp then String.ofList source else signature.callText } := by
  simp only [readSignature]
  generalize Nesting.find? '(' (Text.trim text) = cut
  rcases cut with e | _ | ⟨before, opened⟩
  · rfl
  · rfl
  · show (Nesting.enclosed before opened >>= _) = _
    simp only []
    generalize Nesting.enclosed before opened = cut
    rcases cut with e | ⟨list, behind⟩
    · rfl
    · show (readHead _ _ _ _ >>= _) = (readHead _ _ _ _ >>= _)
      refine bind_congr fun head => ?_
      split
      · rfl
      · generalize readParameters l (Text.trim text) list = parameters
        cases parameters <;> rfl

/-! ## Reading strings -/

/-- Reads an item `Type name` that stands alone. -/
def Parameter.parse (l : Language) (text : String) : Except ParseError (Parameter Member) :=
  readParameter l text.toList text.toList

/-- Reads a signature from a string. -/
def Signature.parse (l : Language) (text : String) : Except ParseError (Signature Member) :=
  readSignature l text.toList

end ApiSurface
