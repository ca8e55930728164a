import ApiSurface.Text.Blank

/-!
# Target languages

An API surface is described once and viewed in three languages: C++, in which descriptions are
written, and the scripting languages Lua and JavaScript. A node of a description may carry an
allow-list of languages; a node without one exists in all of them.
-/

namespace ApiSurface

/-- A language that the surface can be viewed in. -/
inductive Language where
  /-- C++, whose names and types are used as written. -/
  | cpp
  /-- Lua. -/
  | lua
  /-- JavaScript, which TypeScript declarations are made from too. -/
  | js
deriving DecidableEq, Repr

/-- A tag that names none of the languages. -/
structure UnknownLanguage where
  /-- The tag as it was written. -/
  tag : String
deriving DecidableEq, Repr

/-- What is said about an unknown tag. -/
def UnknownLanguage.message (e : UnknownLanguage) : String :=
  "unknown target language `" ++ e.tag ++ "` (expected cpp, lua or js)"

namespace Language

/-- The languages in the order in which output is made for them. -/
def all : List Language := [.cpp, .lua, .js]

/-- The short tag of a language, which also names its output directory. -/
def tag : Language → String
  | cpp => "cpp"
  | lua => "lua"
  | js => "js"

/-- The language whose short tag this is. -/
def ofTag? (s : String) : Option Language :=
  all.find? (·.tag == s)

/-- Whether a language is one of the scripting languages. -/
def isScripting : Language → Bool
  | cpp => false
  | lua | js => true

/-- Every spelling of a tag that is understood, in lowercase. -/
def spellings : List (String × Language) :=
  [("cpp", cpp), ("c++", cpp), ("lua", lua), ("js", js), ("javascript", js), ("node", js)]

/-- Reads a tag in any of its spellings, without regard to blanks around it or the case of ASCII
letters. -/
def read? (tag : List Char) : Option Language :=
  spellings.lookup (String.ofList ((Text.trim tag).map Char.toLower))

/-- Reads a tag from a string, with the error for one that is not known. -/
def parse (tag : String) : Except UnknownLanguage Language :=
  match read? tag.toList with
  | some l => .ok l
  | none => .error ⟨tag⟩

@[simp] theorem ofTag?_tag (l : Language) : ofTag? l.tag = some l := by
  cases l <;> rfl

end Language

/-- A set of languages, as an allow-list gives it. -/
structure LanguageSet where
  cpp : Bool := false
  lua : Bool := false
  js : Bool := false
deriving DecidableEq, Repr

namespace LanguageSet

/-- Whether a language belongs to the set. -/
def allows (s : LanguageSet) : Language → Bool
  | .cpp => s.cpp
  | .lua => s.lua
  | .js => s.js

/-- The set of the languages in a list. -/
def ofList (ls : List Language) : LanguageSet :=
  ⟨ls.contains .cpp, ls.contains .lua, ls.contains .js⟩

/-- The languages of a set, in the order of `Language.all`. -/
def toList (s : LanguageSet) : List Language :=
  Language.all.filter s.allows

/-- The set named by a list of tags. Tags of other languages add nothing, so a list of such tags
alone allows no language. -/
def ofTags (tags : List String) : LanguageSet :=
  ofList (tags.filterMap fun tag => Language.read? tag.toList)

end LanguageSet

/-- Whether a node with this optional allow-list exists in a language. -/
def retained (allow : Option LanguageSet) (l : Language) : Bool :=
  match allow with
  | none => true
  | some s => s.allows l

end ApiSurface
