/-!
# Faults of canonical text

Types, parameters and signatures are written as short texts in descriptions. One kind of error
covers all the ways in which such a text can be malformed; positions count bytes.
-/

namespace ApiSurface

/-- Why a canonical text is malformed. -/
inductive ParseError where
  /-- A bracket has no partner. -/
  | unbalanced (text : String) (position : Nat)
  /-- A signature has no parenthesis that opens a parameter list. -/
  | missingParameterList (signature : String)
  /-- A signature is neither `Name(…)` nor `Type Name(…) qualifiers`. -/
  | malformedSignature (signature : String)
  /-- An item is not of the form `Type name`. -/
  | malformedParameter (item context : String)
  /-- Nothing is left of a type once its qualifiers are taken away. -/
  | emptyType (token : String)
deriving DecidableEq, Repr

/-- What is said about a fault. -/
def ParseError.message : ParseError → String
  | unbalanced text position =>
    "unbalanced brackets in `" ++ text ++ "` at byte " ++ toString position
  | missingParameterList signature => "signature `" ++ signature ++ "` has no parameter list"
  | malformedSignature signature => "malformed signature `" ++ signature ++ "`"
  | malformedParameter item context =>
    "malformed parameter `" ++ item ++ "` in `" ++ context ++ "`"
  | emptyType token => "empty type in `" ++ token ++ "`"

end ApiSurface
