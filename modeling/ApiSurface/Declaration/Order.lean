import ApiSurface.Text.Casing
import ApiSurface.View

/-!
# The order of declarations

A base class is declared before the classes derived from it. Classes come first: each class without
a base in turn, followed by everything derived from it, one branch after another. All other entities
follow, sorted.

The walk keeps two lists, the classes that wait their turn and the classes whose base has not been
met. Each step declares one class and moves those derived from it from the second list to the front
of the first; what is left of the second list at the end was never reached. Such a class has a base
outside the classes or sits on or below a cycle, which the way up from it shows.
-/

namespace ApiSurface

/-- Why classes cannot be ordered. -/
inductive OrderError where
  /-- The base of a class is no class. -/
  | danglingBase (derived base : String)
  /-- Classes are derived from each other in a cycle. -/
  | inheritanceCycle (members : List String)
  /-- Two classes have one name. -/
  | duplicateClass (name : String)
deriving DecidableEq, Repr

/-- What is said about a failure to order. -/
def OrderError.message : OrderError → String
  | danglingBase derived base =>
    "class `" ++ derived ++ "` inherits from `" ++ base ++ "`, which is not a declared class"
  | inheritanceCycle members => "inheritance cycle: " ++ " -> ".intercalate members
  | duplicateClass name => "class `" ++ name ++ "` is declared more than once"

namespace EntityView

/-- Whether an entity is a class. -/
def isClass (v : EntityView) : Bool :=
  v.kind? == some .classType

/-- The name of the base type. -/
def parentName? (v : EntityView) : Option String :=
  v.base.map (·.name)

/-- Whether an entity is derived from another one. -/
def derivesFrom (v parent : EntityView) : Bool :=
  v.parentName? == some parent.name

end EntityView

namespace Order

/-! ## Classes -/

/-- The first name that a list of entities holds a second time. -/
def firstRepeat? (seen : List String) : List EntityView → Option String
  | [] => none
  | v :: rest => if seen.contains v.name then some v.name else firstRepeat? (v.name :: seen) rest

/-- The entities in a list that are derived from one. -/
def below (v : EntityView) (vs : List EntityView) : List EntityView :=
  vs.filter (·.derivesFrom v)

/-- The entities in a list that are not derived from one. -/
def apart (v : EntityView) (vs : List EntityView) : List EntityView :=
  vs.filter (!·.derivesFrom v)

theorem length_below_add_apart (v : EntityView) (vs : List EntityView) :
    (below v vs).length + (apart v vs).length = vs.length := by
  induction vs with
  | nil => rfl
  | cons w rest ih =>
    simp only [below, apart, List.filter_cons] at ih ⊢
    cases w.derivesFrom v <;> simp <;> omega

/-- Declares the waiting classes and all that are derived from them. Returns the classes in order
and those that were not reached. -/
def walk : (waiting unmet : List EntityView) → List EntityView × List EntityView
  | [], unmet => ([], unmet)
  | v :: waiting, unmet =>
    let (ordered, left) := walk (below v unmet ++ waiting) (apart v unmet)
    (v :: ordered, left)
termination_by waiting unmet => waiting.length + unmet.length
decreasing_by
  have h := length_below_add_apart v unmet
  simp only [List.length_append, List.length_cons]
  omega

/-- The entities of other names. -/
def otherThan (name : String) (vs : List EntityView) : List EntityView :=
  vs.filter (·.name != name)

theorem length_otherThan_lt {name : String} {vs : List EntityView} {v : EntityView}
    (hv : v ∈ vs) (hname : v.name = name) : (otherThan name vs).length < vs.length :=
  List.length_filter_lt_length_iff_exists.mpr ⟨v, hv, by simp [hname]⟩

/-- Goes up from a class to the class it is derived from. `path` holds the names met so far, the
last one that of the class itself, and `unseen` the classes that are not on it. -/
def climb (path : List String) (unseen : List EntityView) (v : EntityView) : OrderError :=
  let base := v.parentName?.getD ""
  if path.contains base then .inheritanceCycle (path.dropWhile (· != base))
  else
    match _hnext : unseen.find? (·.name == base) with
    | none => .danglingBase v.name base
    | some next => climb (path ++ [base]) (otherThan base unseen) next
termination_by unseen.length
decreasing_by
  exact length_otherThan_lt (List.mem_of_find?_eq_some _hnext)
    (by simpa using List.find?_some _hnext)

/-- Why a class was not reached. -/
def stranded (classes : List EntityView) (v : EntityView) : OrderError :=
  climb [v.name] (otherThan v.name classes) v

/-! ## Other entities -/

/-- Whether an entity is assigned to a component or a module. -/
def isPlaced (v : EntityView) : Bool :=
  v.component.isSome || v.module.isSome

/-- How two other entities compare: those assigned to a component or module first, plain data before
the rest, then by name without regard to case, then by name. -/
def compareEntities (v w : EntityView) : Ordering :=
  (compare (!isPlaced v) (!isPlaced w)).then <|
  (compare (v.kind? != some .object) (w.kind? != some .object)).then <|
  (compare (Text.lowercased v.name) (Text.lowercased w.name)).then <|
  compare v.name w.name

/-- The entities that are no classes, sorted. -/
def others (vs : List EntityView) : List EntityView :=
  (vs.filter (!·.isClass)).mergeSort fun v w => (compareEntities v w).isLE

end Order

/-- The entities in the order of their declarations. -/
def declarationOrder (vs : List EntityView) : Except OrderError (List EntityView) :=
  let classes := vs.filter (·.isClass)
  match Order.firstRepeat? [] classes with
  | some name => .error (.duplicateClass name)
  | none =>
    let (roots, derived) := classes.partition (·.base.isNone)
    match Order.walk roots derived with
    | (ordered, []) => .ok (ordered ++ Order.others vs)
    | (_, v :: _) => .error (Order.stranded classes v)

end ApiSurface
