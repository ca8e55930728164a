import ApiSurface.Signature
import ApiSurface.Proofs.TypeMapping

/-!
# Signatures and their text

A function is written as its return type and its name, or as its name alone, with its parameters in
parentheses behind it. Each parameter, and a function with a return type, is a declarator: a type, a
name, and blanks between them. The pointer and reference marks of the type may stand on either side
of these blanks. Blanks of any kind may stand around everything else.

Reading the text of a signature gives back what was written (`readSignature_text`), with names
converted and types mapped. The type of a declarator is the one whose text has all marks on its own
side, `Declarator.typeText`.
-/

namespace ApiSurface

/-! ## What is written -/

/-- Blanks of any kind. -/
structure Blanks where
  text : List Char
  blank : ∀ c ∈ text, Text.isBlank c = true

/-- A name without scopes. -/
structure PlainName where
  text : List Char
  isName : Identifier.isName text = true

/-- A type and the name behind it. -/
structure Declarator where
  type : TypeExpr
  gap : Blanks
  gap_ne_nil : gap.text ≠ []
  /-- The marks of the type that are written on the side of the name. -/
  marks : List Char
  areMarkers : ∀ c ∈ marks, isMarker c = true
  name : PlainName

/-- A parameter with blanks around it. -/
structure ParameterExpr where
  front : Blanks
  declarator : Declarator
  back : Blanks

/-- What stands around the parameters of a function. -/
inductive FunctionForm where
  /-- A constructor, which has nothing but blanks behind its parameters. -/
  | bare (name : PlainName) (back : Blanks)
  /-- A function with a return type, which has any qualifiers behind its parameters. -/
  | returning (result : Declarator) (qualifiers : List Char)

/-- A signature. -/
structure SignatureExpr where
  front : Blanks
  form : FunctionForm
  /-- What stands in front of the parenthesis. -/
  gap : Blanks
  /-- What stands behind the parenthesis, which is all there is when there are no parameters. -/
  inside : Blanks
  parameters : List ParameterExpr

/-! ## Text -/

namespace Declarator

def text (d : Declarator) : List Char :=
  d.type.text ++ d.gap.text ++ (d.marks ++ d.name.text)

/-- The text of the type with all its marks on its own side. -/
def typeText (d : Declarator) : List Char :=
  Text.trim d.type.text ++ d.marks

end Declarator

def ParameterExpr.text (p : ParameterExpr) : List Char :=
  p.front.text ++ p.declarator.text ++ p.back.text

namespace FunctionForm

def name : FunctionForm → PlainName
  | bare n _ => n
  | returning d _ => d.name

/-- The text in front of the parameters. -/
def before : FunctionForm → List Char
  | bare n _ => n.text
  | returning d _ => d.text

/-- The text behind the parameters. -/
def behind : FunctionForm → List Char
  | bare _ back => back.text
  | returning _ qualifiers => qualifiers

end FunctionForm

namespace SignatureExpr

/-- The text between the parentheses. -/
def list (e : SignatureExpr) : List Char :=
  e.inside.text ++ [','].intercalate (e.parameters.map ParameterExpr.text)

def text (e : SignatureExpr) : List Char :=
  e.front.text ++ (e.form.before ++ e.gap.text ++ '(' :: (e.list ++ ')' :: e.form.behind))

end SignatureExpr

/-! ## What it reads as -/

variable {Member : Type}

/-- The name in a language. -/
def PlainName.shown (l : Language) (n : PlainName) : String :=
  Identifier.converted l (String.ofList n.text)

namespace Declarator

/-- What the type maps to. -/
def mapped (l : Language) (d : Declarator) : MappedType :=
  displayed l d.typeText (d.type.meaning (displayed l) l)

def parameter (l : Language) (d : Declarator) : Parameter Member :=
  { type := d.mapped l, name := d.name.shown l }

end Declarator

/-- The return type; there is none where the type is written as `void`. -/
def FunctionForm.returnType (l : Language) : FunctionForm → Option MappedType
  | bare _ _ => none
  | returning d _ => if d.typeText = "void".toList then none else some (d.mapped l)

namespace SignatureExpr

def declarators (e : SignatureExpr) : List Declarator :=
  e.parameters.map (·.declarator)

/-- The short form in a language. -/
def shortText (l : Language) (e : SignatureExpr) : String :=
  e.form.name.shown l ++ "(" ++ ", ".intercalate (e.declarators.map (·.name.shown l)) ++ ")"

/-- What the signature is seen as from a language. -/
def reading (l : Language) (e : SignatureExpr) : Signature Member :=
  { name := e.form.name.shown l
    parameters := e.declarators.map (·.parameter l)
    returnType := e.form.returnType l
    display := if l = .cpp then String.ofList (Text.trim e.text) else e.shortText l }

end SignatureExpr

end ApiSurface
