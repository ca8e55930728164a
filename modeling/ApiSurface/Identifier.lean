import ApiSurface.Language
import ApiSurface.Text.Casing
import ApiSurface.Text.Letter

/-!
# Identifiers and their casing

Names of functions, parameters and properties follow the custom of each language. Lua names are one
lowercase word. JavaScript names begin with a small letter and write `_x` as `X`. C++ keeps the
canonical name.

Names of types may be scoped, as in `Font::Weight`. They are referred to by an id, which is one
lowercase word with the scopes joined by `_`, and are declared in TypeScript without the separators.
-/

namespace ApiSurface.Identifier

/-- Whether a text can be a name: letters, numbers and `_`, and at least one of them. -/
def isName (s : List Char) : Bool :=
  !s.isEmpty && s.all fun c => Text.isAlphanumeric c || c == '_'

/-- The Lua form of a name: no `_`, and every character in lowercase. -/
def luaCase (s : List Char) : List Char :=
  (s.filter (· != '_')).flatMap Text.lowerChar

/-- Writes every `_` before an ASCII letter and that letter as the capital letter. -/
def joinWords : List Char → List Char
  | [] => []
  | [c] => [c]
  | c :: d :: rest =>
    if c == '_' && d.isAlpha then d.toUpper :: joinWords rest else c :: joinWords (d :: rest)

/-- The JavaScript form of a name: the first character in lowercase, then `joinWords`. -/
def jsCase : List Char → List Char
  | [] => []
  | c :: rest => joinWords (Text.lowerChar c ++ rest)

/-- The form of a canonical name in a language. -/
def convert : Language → List Char → List Char
  | .cpp, s => s
  | .lua, s => luaCase s
  | .js, s => jsCase s

/-- The form of a name in a language, on strings. -/
def converted (l : Language) (name : String) : String :=
  String.ofList (convert l name.toList)

/-- Writes `joint` in place of every `::`. -/
def joinScopes (joint : List Char) : List Char → List Char
  | [] => []
  | [c] => [c]
  | c :: d :: rest =>
    if c == ':' && d == ':' then joint ++ joinScopes joint rest
    else c :: joinScopes joint (d :: rest)

/-- The id that a type of this name is referred to by. -/
def typeId (name : List Char) : List Char :=
  Text.lowercase (joinScopes ['_'] name)

/-- The name under which TypeScript declares a type. -/
def declaredName (name : String) : String :=
  String.ofList (joinScopes [] name.toList)

end ApiSurface.Identifier
