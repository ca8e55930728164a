import ApiSurface.Language

/-!
# Vocabulary of built-in types

Every canonical primitive or collection name has one native name in each scripting language. C++
keeps its own spelling, and a row says only whether C++ counts the name as built in: a type that is
not built in has a page of its own to link to.

A few generic types are understood by what they hold rather than by name.
-/

namespace ApiSurface

namespace Vocabulary

/-- One canonical built-in name with its native names. -/
structure Row where
  canonical : String
  inCpp : Bool
  lua : String
  js : String
deriving DecidableEq, Repr

/-- The built-in names. -/
def rows : List Row := [
  ⟨"bool", true, "boolean", "Boolean"⟩,
  ⟨"float", true, "number", "Number"⟩,
  ⟨"double", true, "number", "Number"⟩,
  ⟨"int", true, "integer", "Integer"⟩,
  ⟨"unsigned", true, "integer", "Integer"⟩,
  ⟨"int32_t", true, "integer", "Integer"⟩,
  ⟨"uint32_t", true, "integer", "Integer"⟩,
  ⟨"int64_t", true, "integer", "Integer"⟩,
  ⟨"uint64_t", true, "integer", "Integer"⟩,
  ⟨"size_t", true, "integer", "Integer"⟩,
  ⟨"char", true, "string", "String"⟩,
  ⟨"std::string", true, "string", "String"⟩,
  ⟨"string", true, "string", "String"⟩,
  ⟨"std::u16string", true, "string", "String"⟩,
  ⟨"base::FilePath", false, "string", "String"⟩,
  ⟨"Dictionary", false, "table", "Object"⟩,
  ⟨"Array", false, "table", "Array"⟩,
  ⟨"Function", false, "function", "Function"⟩,
  ⟨"base::Callback", true, "function", "Function"⟩,
  ⟨"std::function", true, "function", "Function"⟩,
  ⟨"Buffer", false, "string", "Buffer"⟩,
  ⟨"Any", false, "any", "Any"⟩,
  ⟨"Args...", true, "any", "Any"⟩]

/-- The row of a canonical name. -/
def row? (canonical : String) : Option Row :=
  rows.find? (·.canonical == canonical)

/-- The native name that a scripting language has for a canonical name. C++ has none. -/
def native? (canonical : String) : Language → Option String
  | .cpp => none
  | .lua => (row? canonical).map (·.lua)
  | .js => (row? canonical).map (·.js)

/-- Whether a canonical name is built into a language. -/
def contains (canonical : String) : Language → Bool
  | .cpp => (row? canonical).any (·.inCpp)
  | .lua | .js => (row? canonical).isSome

/-- The name of tuples in a language. -/
def tuple : Language → String
  | .cpp => "std::tuple"
  | .lua => "table"
  | .js => "Tuple"

/-- The name of sequences in a language. -/
def sequence : Language → String
  | .cpp => "std::vector"
  | .lua => "table"
  | .js => "Array"

end Vocabulary

/-- A generic type that is understood by what it holds. -/
inductive Wrapper where
  /-- Says only who owns a value; stands for the value. -/
  | smartPointer
  /-- A value that may be absent. -/
  | optional
  /-- A fixed number of values in order. -/
  | tuple
  /-- Any number of values of one type. -/
  | container
deriving DecidableEq, Repr

/-- The wrapper of this canonical name. -/
def Wrapper.ofName? (outer : String) : Option Wrapper :=
  if ["scoped_refptr", "std::shared_ptr", "std::unique_ptr", "base::WeakPtr"].contains outer then
    some smartPointer
  else if ["std::optional", "optional", "absl::optional", "base::Optional"].contains outer then
    some optional
  else if ["std::tuple", "tuple"].contains outer then some tuple
  else if ["std::vector", "vector", "std::list", "std::set"].contains outer then some container
  else none

end ApiSurface
