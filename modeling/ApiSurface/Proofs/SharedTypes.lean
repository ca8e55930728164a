import ApiSurface.Proofs.LanguageAgreement
import ApiSurface.Proofs.Outcomes

/-!
# One type in three languages

A type token that all languages can map means the same in each. `TypeViews` holds what it maps to,
and `TypeViews.Alike` says what these have in common: what is absent in one is absent in all, a link
in JavaScript is a link in the others, and a tuple has the same members in each, which are alike in
turn. Only JavaScript has the elements of a sequence, and C++ shows what was written.

With `mapToken_agree_of` that is all that a token can mean (`ofToken_alike`): C++ and Lua refuse the
same tokens, and JavaScript refuses more only where a sequence is named.
-/

namespace ApiSurface

/-- A token with what it maps to in each language. -/
structure TypeViews where
  token : List Char
  cpp : MappedType
  lua : MappedType
  js : MappedType
  cpp_eq : mapToken .cpp token = .ok cpp
  lua_eq : mapToken .lua token = .ok lua
  js_eq : mapToken .js token = .ok js

/-- What the languages make of a token has one meaning. The members of a tuple are mapped from parts
of the token. -/
inductive TypeViews.Alike : TypeViews → Prop
  | intro {v : TypeViews} (members : List TypeViews)
    (shown : v.cpp.name = String.ofList (Text.trim v.token))
    (nullable : v.cpp.nullable = v.js.nullable ∧ v.lua.nullable = v.js.nullable)
    (linked : v.lua.id = v.js.id ∧ ∀ id ∈ v.js.id, v.cpp.id = some id)
    (element : v.cpp.element = none ∧ v.lua.element = none)
    (cppArgs : v.cpp.args = members.map (·.cpp))
    (luaArgs : v.lua.args = members.map (·.lua))
    (jsArgs : v.js.args = members.map (·.js))
    (within : ∀ m ∈ members, m.token <:+: v.token)
    (alike : ∀ m ∈ members, m.Alike) : v.Alike

/-! ## Names -/

/-- A name is built into Lua when it is built into JavaScript, and one that is built into C++ is
built into both. -/
theorem mapName_linked (name : List Char) :
    (mapName .lua name).id = (mapName .js name).id ∧
      ∀ id ∈ (mapName .js name).id, (mapName .cpp name).id = some id := by
  cases hrow : Vocabulary.row? (String.ofList name) with
  | none => simp [mapName, Vocabulary.native?, Vocabulary.contains, hrow, MappedType.linked]
  | some row => simp [mapName, Vocabulary.native?, Vocabulary.contains, hrow, MappedType.named]

/-- A name by itself is neither absent nor made of other types. -/
theorem mapName_plain (l : Language) (name : List Char) :
    (mapName l name).nullable = false ∧ (mapName l name).element = none ∧
      (mapName l name).args = [] := by
  rw [mapName]
  split
  · exact ⟨rfl, rfl, rfl⟩
  · split <;> exact ⟨rfl, rfl, rfl⟩

/-! ## Forms -/

theorem exists_mapForm {l : Language} {token : List Char} {form : TypeForm} {t : MappedType}
    (hform : tokenForm token = .ok form) (h : mapToken l token = .ok t) :
    ∃ t', mapForm l form = .ok t' ∧ t = displayAs l (Text.trim token) t' := by
  rw [mapToken_of_form hform] at h
  obtain ⟨t', ht', rfl⟩ := map_eq_ok.mp h
  exact ⟨t', ht', rfl⟩

/-- Texts that are mapped in all languages are so one by one. -/
theorem exists_views {texts : List (List Char)} {cs us js : List MappedType}
    (hc : texts.mapM (mapToken .cpp) = .ok cs) (hu : texts.mapM (mapToken .lua) = .ok us)
    (hj : texts.mapM (mapToken .js) = .ok js) :
    ∃ members : List TypeViews, members.map (·.token) = texts ∧ cs = members.map (·.cpp) ∧
      us = members.map (·.lua) ∧ js = members.map (·.js) := by
  rw [mapM_eq_ok_iff] at hc hu hj
  induction texts generalizing cs us js with
  | nil =>
    cases hc; cases hu; cases hj
    exact ⟨[], rfl, rfl, rfl, rfl⟩
  | cons text texts ih =>
    obtain - | ⟨hc, hcs⟩ := hc
    obtain - | ⟨hu, hus⟩ := hu
    obtain - | ⟨hj, hjs⟩ := hj
    obtain ⟨members, rfl, rfl, rfl, rfl⟩ := ih hcs hus hjs
    exact ⟨⟨text, _, _, _, hc, hu, hj⟩ :: members, rfl, rfl, rfl, rfl⟩

namespace TypeViews

/-- A token is alike in all languages when the parts of its form are. -/
theorem alike_of_parts {v : TypeViews} {form : TypeForm} (hform : tokenForm v.token = .ok form)
    (hparts : ∀ m : TypeViews, m.token ∈ form.parts → m.Alike) : v.Alike := by
  obtain ⟨token, cpp, lua, js, hcpp, hlua, hjs⟩ := v
  replace hform : tokenForm token = .ok form := hform
  have hwithin := tokenForm_parts hform
  -- only C++ displays the token itself
  obtain ⟨c', hc', rfl⟩ := exists_mapForm hform hcpp
  obtain ⟨_, hu', rfl⟩ := exists_mapForm hform hlua
  obtain ⟨_, hj', rfl⟩ := exists_mapForm hform hjs
  cases form with
  | name name =>
    cases hc'; cases hu'; cases hj'
    obtain ⟨hcnullable, hcelement, hcargs⟩ := mapName_plain .cpp name
    obtain ⟨hunullable, huelement, huargs⟩ := mapName_plain .lua name
    obtain ⟨hjnullable, -, hjargs⟩ := mapName_plain .js name
    exact .intro [] rfl ⟨hcnullable.trans hjnullable.symm, hunullable.trans hjnullable.symm⟩
      (mapName_linked name) ⟨hcelement, huelement⟩ hcargs huargs hjargs (by simp) (by simp)
  | smartPointer inner =>
    have hinner := (hwithin inner List.mem_cons_self).1
    obtain ⟨members, -, hnullable, hlinked, helement, hcargs, huargs, hjargs, hmembers, halike⟩ :=
      hparts ⟨inner, c', lua, js, hc', hu', hj'⟩ List.mem_cons_self
    exact .intro members rfl hnullable hlinked helement hcargs huargs hjargs
      (fun m hm => (hmembers m hm).trans hinner) halike
  | optional inner =>
    have hinner := (hwithin inner List.mem_cons_self).1
    obtain ⟨c, hc, rfl⟩ := map_eq_ok.mp hc'
    obtain ⟨u, hu, rfl⟩ := map_eq_ok.mp hu'
    obtain ⟨j, hj, rfl⟩ := map_eq_ok.mp hj'
    obtain ⟨members, -, -, hlinked, helement, hcargs, huargs, hjargs, hmembers, halike⟩ :=
      hparts ⟨inner, c, u, j, hc, hu, hj⟩ List.mem_cons_self
    exact .intro members rfl ⟨rfl, rfl⟩ hlinked helement hcargs huargs hjargs
      (fun m hm => (hmembers m hm).trans hinner) halike
  | tuple pieces =>
    obtain ⟨cs, hcs, rfl⟩ := map_eq_ok.mp hc'
    obtain ⟨us, hus, rfl⟩ := map_eq_ok.mp hu'
    obtain ⟨ts, hts, rfl⟩ := map_eq_ok.mp hj'
    obtain ⟨members, rfl, rfl, rfl, rfl⟩ := exists_views hcs hus hts
    have hmember (m : TypeViews) (hm : m ∈ members) : m.token ∈ members.map (·.token) :=
      List.mem_map_of_mem hm
    exact .intro members rfl ⟨rfl, rfl⟩ ⟨rfl, fun _ hid => nomatch hid⟩ ⟨rfl, rfl⟩ rfl rfl rfl
      (fun m hm => (hwithin m.token (hmember m hm)).1) fun m hm => hparts m (hmember m hm)
  | sequence inner =>
    obtain ⟨e, -, rfl⟩ := map_eq_ok.mp hj'
    cases hc'; cases hu'
    exact .intro [] rfl ⟨rfl, rfl⟩ ⟨rfl, fun _ hid => nomatch hid⟩ ⟨rfl, rfl⟩ rfl rfl rfl
      (by simp) (by simp)

/-- What all languages can map is alike in them. -/
theorem alike (v : TypeViews) : v.Alike := by
  induction htoken : v.token using token_induction generalizing v with
  | h token ih =>
    obtain ⟨form, hform, -⟩ := bind_eq_ok.mp (mapToken_eq_form .cpp v.token ▸ v.cpp_eq)
    refine alike_of_parts hform fun m hm => ?_
    exact ih form (htoken ▸ hform) m.token hm m rfl

end TypeViews

/-! ## What a token can mean -/

/-- **One type in all languages.** C++ and Lua refuse the same tokens with the same faults. What
JavaScript can map they can map too, and they refuse nothing else unless the token names a sequence.
What all of them can map is alike in all of them. -/
theorem ofToken_alike (token : String) :
    (∀ e, MappedType.ofToken .cpp token = .error e ↔ MappedType.ofToken .lua token = .error e) ∧
    (∀ j, MappedType.ofToken .js token = .ok j →
      (∃ c, MappedType.ofToken .cpp token = .ok c) ∧ ∃ u, MappedType.ofToken .lua token = .ok u) ∧
    ((∀ word ∈ ["vector", "list", "set"], ¬ word.toList <:+: token.toList) →
      ∀ e, MappedType.ofToken .js token = .error e ↔ MappedType.ofToken .lua token = .error e) ∧
    ∀ (c u j : MappedType) (hc : MappedType.ofToken .cpp token = .ok c)
      (hu : MappedType.ofToken .lua token = .ok u) (hj : MappedType.ofToken .js token = .ok j),
      TypeViews.Alike ⟨token.toList, c, u, j, hc, hu, hj⟩ := by
  refine ⟨fun e => ?_, fun j hj => ⟨?_, ?_⟩, fun hnone e => ?_, fun c u j hc hu hj => ?_⟩
  · have hagree := mapToken_agree (a := .cpp) (b := .lua) (fun h => by cases h) token.toList
    exact hagree.error_iff (by decide) e
  · have hagree := mapToken_agree (a := .js) (b := .cpp) (fun h => by cases h) token.toList
    rw [← MappedType.ofToken, hj] at hagree
    obtain ⟨c, hc, -⟩ := hagree.exists_ok
    exact ⟨c, hc⟩
  · have hagree := mapToken_agree (a := .js) (b := .lua) (fun h => by cases h) token.toList
    rw [← MappedType.ofToken, hj] at hagree
    obtain ⟨u, hu, -⟩ := hagree.exists_ok
    exact ⟨u, hu⟩
  · have hagree := mapToken_agree_of (a := .js) (b := .lua) (fun h => by cases h) token.toList
    refine hagree.error_iff ?_ e
    rintro ⟨-, word, hword, hwithin⟩
    exact hnone word hword hwithin
  · exact TypeViews.alike _

/-- A pair of a number and a pointer that may be absent. -/
theorem ofToken_alike_pair :
    (∀ word ∈ ["vector", "list", "set"], ¬ word.toList <:+: "tuple<int, optional<View*>>".toList) ∧
      (∀ e, MappedType.ofToken .js "tuple<int, optional<View*>>" = .error e ↔
        MappedType.ofToken .lua "tuple<int, optional<View*>>" = .error e) ∧
      ∃ c u j hc hu hj, j.args.map (·.nullable) = [false, true] ∧
        TypeViews.Alike ⟨"tuple<int, optional<View*>>".toList, c, u, j, hc, hu, hj⟩ := by
  have hnone : ∀ word ∈ ["vector", "list", "set"],
      ¬ word.toList <:+: "tuple<int, optional<View*>>".toList := by
    have hletters : 'v' ∉ "tuple<int, optional<View*>>".toList ∧
      's' ∉ "tuple<int, optional<View*>>".toList := by decide
    intro word hword hwithin
    simp only [List.mem_cons, List.not_mem_nil, or_false] at hword
    rcases hword with rfl | rfl | rfl
    · exact hletters.1 (hwithin.subset (by decide))
    · exact hletters.2 (hwithin.subset (by decide))
    · exact hletters.2 (hwithin.subset (by decide))
  have hnumber : tokenForm "int".toList = .ok (.name "int".toList) := rfl
  have hpointer : tokenForm "View*".toList = .ok (.name "View".toList) := rfl
  have hoptional : tokenForm "optional<View*>".toList = .ok (.optional "View*".toList) := rfl
  have hpair : tokenForm "tuple<int, optional<View*>>".toList
      = .ok (.tuple ["int".toList, "optional<View*>".toList]) := rfl
  have hview (l : Language) : mapToken l "optional<View*>".toList =
      .ok (displayAs l "optional<View*>".toList
        { displayAs l "View*".toList (mapName l "View".toList) with nullable := true }) := by
    rw [mapToken_of_form hoptional, mapForm, mapToken_of_name hpointer]
    rfl
  have hmap (l : Language) : ∃ t, mapToken l "tuple<int, optional<View*>>".toList = .ok t ∧
      (l = .js → t.args.map (·.nullable) = [false, true]) := by
    rw [mapToken_of_form hpair, mapForm, List.mapM_cons, List.mapM_cons, mapToken_of_name hnumber,
      hview]
    refine ⟨_, rfl, ?_⟩
    rintro rfl
    exact congrArg ([·, true]) (mapName_plain .js "int".toList).1
  obtain ⟨c, hc, -⟩ := hmap .cpp
  obtain ⟨u, hu, -⟩ := hmap .lua
  obtain ⟨j, hj, hargs⟩ := hmap .js
  obtain ⟨-, -, herrors, halike⟩ := ofToken_alike "tuple<int, optional<View*>>"
  exact ⟨hnone, herrors hnone, c, u, j, hc, hu, hj, hargs rfl, halike c u j hc hu hj⟩

end ApiSurface
