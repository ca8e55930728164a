import ApiSurface.Proofs.BracketNesting
import ApiSurface.Proofs.SignatureParts

/-!
# How signatures are nested

A text that reads as a signature is cut at the parenthesis that opens its parameters and at the one
that closes them. What stands before the first and between the two is balanced in each kind of
bracket, and so is each parameter. No reader looks for more: in a return type or a parameter the two
kinds may cross, as they do in the type arguments of `Foo<(>) F(View a)`. Crossing brackets never
reach out of them, so that a signature is nested exactly when they are (`parse_nested_iff`).
-/

namespace ApiSurface

open Nesting (Balanced BalancedByKind isBracket)

/-- A text cut at the parentheses around its parameters. -/
structure ParameterList (source : List Char) where
  before : List Char
  list : List Char
  behind : List Char
  source_eq : source = before ++ '(' :: (list ++ ')' :: behind)
  /-- The first parenthesis at the top opens the list. -/
  opens : Nesting.find? '(' source = .ok (some (before, '(' :: (list ++ ')' :: behind)))
  closes : Nesting.enclosed before ('(' :: (list ++ ')' :: behind)) = .ok (list, behind)

/-- The text up to the parenthesis that closes the list. -/
def ParameterList.upToClosing {source : List Char} (p : ParameterList source) : List Char :=
  p.before ++ '(' :: (p.list ++ [')'])

/-- There is only one way to cut a text. -/
theorem ParameterList.eq {source : List Char} (p q : ParameterList source) : p = q := by
  obtain ⟨before, list, behind, _, hopens, hcloses⟩ := p
  obtain ⟨before', list', behind', _, hopens', hcloses'⟩ := q
  obtain ⟨rfl, hopened⟩ := Prod.mk.inj (Option.some.inj (Except.ok.inj (hopens.symm.trans hopens')))
  rw [hopened, hcloses'] at hcloses
  obtain ⟨rfl, rfl⟩ := Prod.mk.inj (Except.ok.inj hcloses)
  rfl

variable {Member : Type}

/-- What reads as a list of parameters is split at its commas. -/
theorem split_of_readParameters {l : Language} {source list : List Char}
    {ps : List (Parameter Member)} (h : readParameters l source list = .ok ps) :
    ∃ items, Nesting.split ',' list = .ok items := by
  obtain ⟨hblank, -⟩ | ⟨items, hitems, -⟩ := readParameters_eq_ok h
  · -- a blank list has one empty piece
    refine ⟨[[]], ?_⟩
    rw [Nesting.split_eq_ok_iff, ← Nesting.trimmedCuts_trim (by decide), hblank]
    rfl
  · exact ⟨items, hitems⟩

/-- A text that reads as a signature has a list of parameters, which is split at its commas. -/
theorem exists_parameterList {l : Language} {text : List Char} {s : Signature Member}
    (h : readSignature l text = .ok s) :
    ∃ (p : ParameterList (Text.trim text)) (items : List (List Char)),
      BalancedByKind p.before ∧ Nesting.split ',' p.list = .ok items := by
  obtain ⟨before, opened, list, behind, name, hopens, hcloses, -, -, -, hps⟩ :=
    readSignature_eq_ok h
  obtain ⟨items, hitems⟩ := split_of_readParameters hps
  obtain ⟨rest, rfl, hsource, hbefore⟩ := Nesting.find?_eq_some hopens
  obtain ⟨closing, rfl, hclosing⟩ := Nesting.enclosed_eq_ok (k := .parens) hcloses
  obtain rfl : closing = ')' := hclosing (Nesting.split_eq_ok (by decide) hitems).1
  exact ⟨⟨before, list, behind, hsource, hopens, hcloses⟩, items, hbefore, hitems⟩

/-- **Where brackets may cross**: up to the parenthesis that closes its parameters, a text that
reads as a signature is balanced in each kind of bracket. It is nested exactly when the text before
its parameters and each of them are. -/
theorem Signature.parse_nested_iff {l : Language} {text : String} {s : Signature Member}
    (h : Signature.parse l text = .ok s) :
    ∃ (p : ParameterList (Text.trim text.toList)) (items : List (List Char)),
      Nesting.split ',' p.list = .ok items ∧
      BalancedByKind p.upToClosing ∧ BalancedByKind p.before ∧
      (∀ item ∈ items, BalancedByKind item) ∧
      (Balanced (fun _ => true) p.upToClosing ↔
        Balanced (fun _ => true) p.before ∧ ∀ item ∈ items, Balanced (fun _ => true) item) := by
  obtain ⟨p, items, hbefore, hitems⟩ := exists_parameterList h
  obtain ⟨hlist, hall, hnested⟩ := Nesting.split_eq_ok (by decide) hitems
  have hpart : BalancedByKind ('(' :: (p.list ++ [')'])) := hlist.enclosed .parens
  refine ⟨p, items, hitems, hbefore.append hpart, hbefore, hall, ?_⟩
  rw [ParameterList.upToClosing, Nesting.balanced_append_iff hbefore, ← hnested]
  exact and_congr_right fun _ => Nesting.balanced_enclosed_iff hlist .parens

/-- The type arguments of a name that wraps nothing are not read. -/
theorem mapToken_crossed (l : Language) :
    mapToken l "Foo<(>)".toList = .ok (displayAs l "Foo<(>)".toList (.linked "Foo".toList)) := by
  have hcut : Nesting.outermost? "Foo<(>)".toList = .ok (some ("Foo".toList, "(>".toList)) := rfl
  have hname : mapName l "Foo".toList = .linked "Foo".toList := by
    cases l <;> rfl
  rw [mapToken_eq]
  show (mapCore l "Foo<(>)".toList).map (displayAs l "Foo<(>)".toList) = _
  simp only [mapCore, hcut]
  exact congrArg (fun t => Except.ok (displayAs l _ t)) hname

/-- A constructor whose parameter has crossing brackets. -/
theorem Signature.parse_nested_iff_crossed :
    ∃ s : Signature Empty, Signature.parse .js "F(Foo<(>) a)" = .ok s ∧
      ∃ p : ParameterList (Text.trim "F(Foo<(>) a)".toList),
        p.before = "F".toList ∧ Nesting.split ',' p.list = .ok ["Foo<(>) a".toList] ∧
        BalancedByKind p.upToClosing ∧
        (Balanced (fun _ => true) p.upToClosing ↔ Balanced (fun _ => true) "Foo<(>) a".toList) := by
  have hopens : Nesting.find? '(' (Text.trim "F(Foo<(>) a)".toList) =
      .ok (some ("F".toList, "(Foo<(>) a)".toList)) := rfl
  have hcloses : Nesting.enclosed "F".toList "(Foo<(>) a)".toList =
      .ok ("Foo<(>) a".toList, []) := rfl
  have hsplit : Nesting.split ',' "Foo<(>) a".toList = .ok ["Foo<(>) a".toList] := rfl
  have hread : Signature.parse .js "F(Foo<(>) a)" =
      .ok (⟨"f", [⟨.linked "Foo".toList, "a", none, []⟩], none, "f(a)"⟩ : Signature Empty) := by
    have hhead : Nesting.splitLast? (Text.trimEnd "F".toList) = .ok none := rfl
    have hlist : ¬ (Text.trim "Foo<(>) a".toList).isEmpty = true := by decide
    have hitem : Nesting.splitLast? (Text.trim "Foo<(>) a".toList) =
        .ok (some ("Foo<(>)".toList, "a".toList)) := rfl
    have hmarkers : moveMarkers "Foo<(>)".toList "a".toList = ("Foo<(>)".toList, "a".toList) := rfl
    rw [Signature.parse, readSignature_eq]
    simp only [hopens, hcloses, readHead_eq, hhead, readParameters_eq, hlist, hsplit,
      List.mapM_cons, List.mapM_nil, readParameter_eq, hitem, hmarkers, mapToken_crossed]
    rfl
  obtain ⟨p, items, hitems, hkinds, -, -, hnested⟩ := Signature.parse_nested_iff hread
  obtain rfl : p = ⟨"F".toList, "Foo<(>) a".toList, [], rfl, hopens, hcloses⟩ := p.eq _
  obtain rfl := Except.ok.inj (hsplit.symm.trans hitems)
  have hname : Balanced (fun _ => true) "F".toList :=
    Nesting.balanced_of_forall (by simp [isBracket])
  refine ⟨_, hread, _, rfl, hsplit, hkinds, hnested.trans ?_⟩
  rw [List.forall_mem_singleton]
  exact and_iff_right hname

/-- The brackets of a return type that is accepted may cross. -/
theorem parse_crossed_returnType :
    ∃ (s : Signature Empty) (p : ParameterList (Text.trim "Foo<(>) F()".toList)),
      Signature.parse .js "Foo<(>) F()" = .ok s ∧
        ¬ Balanced (fun _ => true) p.upToClosing := by
  have hopens : Nesting.find? '(' (Text.trim "Foo<(>) F()".toList) =
      .ok (some ("Foo<(>) F".toList, "()".toList)) := rfl
  have hcloses : Nesting.enclosed "Foo<(>) F".toList "()".toList = .ok ([], []) := rfl
  have hhead : Nesting.splitLast? (Text.trimEnd "Foo<(>) F".toList) =
      .ok (some ("Foo<(>)".toList, "F".toList)) := rfl
  have hmarkers : moveMarkers "Foo<(>)".toList "F".toList = ("Foo<(>)".toList, "F".toList) := rfl
  have hread : Signature.parse .js "Foo<(>) F()" =
      .ok (⟨"f", [], some (.linked "Foo".toList), "f()"⟩ : Signature Empty) := by
    rw [Signature.parse, readSignature_eq]
    simp only [hopens, hcloses, readHead_eq, hhead, hmarkers, mapToken_crossed]
    rfl
  refine ⟨_, ⟨"Foo<(>) F".toList, [], [], rfl, hopens, hcloses⟩, hread, ?_⟩
  show ¬ Balanced (fun _ => true) "Foo<(>) F()".toList
  rw [Nesting.balanced_iff_after?]
  decide

end ApiSurface
