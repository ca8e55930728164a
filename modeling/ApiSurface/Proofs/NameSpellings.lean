import ApiSurface.Proofs.DistinctAnchors
import ApiSurface.Proofs.ParameterNotes

/-!
# One Lua name for every spelling

The JavaScript form of a name differs from the canonical one in underscores and in the case of
letters, and just these are what the Lua form leaves out. `joinWords` looks at two characters at a
time and `jsCase` begins with a lowercase form that may be several characters long, but Lua forms
are made piece by piece (`luaCase_append`), so it is enough that no piece that is written anew
changes its Lua form.

Whatever is found by the Lua form of a name is therefore found by any spelling of that name: the
anchor of a function by the names that a language shows, and the parameter of a note by its key in
the case of any language.
-/

namespace ApiSurface

namespace Identifier

/-! ## Names -/

theorem luaCase_append (s t : List Char) : luaCase (s ++ t) = luaCase s ++ luaCase t := by
  rw [luaCase, List.filter_append, List.flatMap_append]
  rfl

theorem luaCase_cons (c : Char) (s : List Char) : luaCase (c :: s) = luaCase [c] ++ luaCase s :=
  luaCase_append [c] s

theorem luaCase_underscore : luaCase ['_'] = [] := rfl

theorem luaCase_singleton {c : Char} (h : c ≠ '_') : luaCase [c] = Text.lowerChar c := by
  have hkept : [c].filter (· != '_') = [c] := List.filter_eq_self.mpr (by simpa using h)
  rw [luaCase, hkept, List.flatMap_singleton]

/-- ASCII letters are lowercased alike whatever case they are in. -/
theorem luaCase_toUpper {c : Char} (h : c.isAlpha = true) : luaCase [c.toUpper] = luaCase [c] := by
  have hall : ∀ n < 128, (Char.ofNat n).isAlpha = true →
      luaCase [(Char.ofNat n).toUpper] = luaCase [Char.ofNat n] := by
    decide +kernel
  have hsmall : c.toNat < 128 := by
    obtain hupper | hlower := Bool.or_eq_true_iff.mp h
    · have hlast : c.toNat ≤ 90 := UInt32.le_iff_toNat_le.mp (of_decide_eq_true hupper).2
      exact Nat.lt_of_le_of_lt hlast (by decide)
    · have hlast : c.toNat ≤ 122 :=
        UInt32.le_iff_toNat_le.mp (of_decide_eq_true (Bool.and_eq_true_iff.mp hlower).2)
      exact Nat.lt_of_le_of_lt hlast (by decide)
  have hself := hall c.toNat hsmall
  rw [Char.ofNat_toNat] at hself
  exact hself h

/-- A lowercase form has the Lua form of its character. -/
theorem luaCase_lowerChar (c : Char) : luaCase (Text.lowerChar c) = luaCase [c] := by
  by_cases hc : c = '_'
  · subst hc
    decide +kernel
  · rw [← luaCase_singleton hc, luaCase_luaCase]

/-- A capital letter has the Lua form of the underscore and the letter that it stands for. -/
theorem luaCase_joinWords (s : List Char) : luaCase (joinWords s) = luaCase s := by
  induction s using joinWords.induct with
  | case1 => rfl
  | case2 c => rfl
  | case3 c d rest hword ih =>
    obtain ⟨hc, hd⟩ : c = '_' ∧ d.isAlpha = true := by simpa using hword
    calc luaCase (joinWords (c :: d :: rest))
        = luaCase [d.toUpper] ++ luaCase (joinWords rest) := by
          rw [joinWords, if_pos hword, luaCase_cons]
      _ = luaCase ['_'] ++ (luaCase [d] ++ luaCase rest) := by
          rw [luaCase_toUpper hd, ih, luaCase_underscore, List.nil_append]
      _ = luaCase (c :: d :: rest) := by rw [hc, ← luaCase_cons, ← luaCase_cons]
  | case4 c d rest hword ih => rw [joinWords, if_neg hword, luaCase_cons, ih, ← luaCase_cons]

theorem luaCase_jsCase (s : List Char) : luaCase (jsCase s) = luaCase s := by
  cases s with
  | nil => rfl
  | cons c rest =>
    rw [jsCase, luaCase_joinWords, luaCase_append, luaCase_lowerChar, ← luaCase_cons]

theorem luaCase_convert (l : Language) (s : List Char) : luaCase (convert l s) = luaCase s := by
  cases l with
  | cpp => rfl
  | lua => exact luaCase_luaCase s
  | js => exact luaCase_jsCase s

theorem converted_lua_converted (l : Language) (name : String) :
    converted .lua (converted l name) = converted .lua name := by
  have hforms := luaCase_convert l name.toList
  rw [converted, converted, converted, String.toList_ofList]
  exact congrArg String.ofList hforms

/-! ## Anchors -/

theorem luaCase_intercalate (separator : List Char) (texts : List (List Char)) :
    luaCase (separator.intercalate texts) = (luaCase separator).intercalate (texts.map luaCase) := by
  induction texts with
  | nil => rfl
  | cons text texts ih =>
    cases texts with
    | nil => rw [List.map_singleton, List.intercalate_singleton, List.intercalate_singleton]
    | cons text' texts =>
      rw [List.intercalate_cons_cons, luaCase_append, luaCase_append, ih]
      simp only [List.map_cons, List.intercalate_cons_cons]

/-- Names in an anchor are converted one by one. -/
theorem converted_lua_intercalate (names : List String) :
    converted .lua (Anchor.separator.intercalate names) =
      Anchor.separator.intercalate (names.map (converted .lua)) := by
  have hseparator : luaCase Anchor.separator.toList = Anchor.separator.toList := by decide +kernel
  refine String.toList_injective ?_
  rw [converted, String.toList_ofList, String.toList_intercalate, String.toList_intercalate]
  show luaCase _ = _
  rw [luaCase_intercalate, hseparator, List.map_map, List.map_map]
  refine congrArg _ (List.map_congr_left fun name _ => ?_)
  simp [converted, convert]

end Identifier

variable {Member : Type} {l : Language} {text : String}

/-- The names that a signature shows. -/
def Signature.shownNames (s : Signature Member) : List String :=
  s.name :: s.parameters.map (·.name)

/-- A signature in any language has the Lua names of the canonical one. -/
theorem Signature.Shows.luaNames_eq {Member' : Type} {c : Signature Member}
    {s : Signature Member'} (h : c.Shows l s) :
    s.shownNames.map (Identifier.converted .lua) = c.luaNames := by
  rw [shownNames, List.map_cons, h.name, h.names, List.map_map, Identifier.converted_lua_converted]
  refine congrArg _ (List.map_congr_left fun p _ => ?_)
  exact Identifier.converted_lua_converted l p.name

/-! ## Notes -/

/-- Among Lua names a key finds what its Lua form finds. -/
theorem target?_lua {shown : List String}
    (h : ∀ name ∈ shown, Identifier.converted .lua name = name) (key : String) :
    target? .lua shown key = shown.findIdx? fun name => name = Identifier.converted .lua key := by
  induction shown with
  | nil => rfl
  | cons name shown ih =>
    obtain ⟨hname, hshown⟩ := List.forall_mem_cons.mp h
    have hcondition : (name = key ∨ name = Identifier.converted .lua key) ↔
        name = Identifier.converted .lua key := by
      refine or_iff_right_of_imp ?_
      rintro rfl
      exact hname.symm
    rw [target?, List.findIdx?_cons, List.findIdx?_cons, ← target?, ih hshown]
    simp only [hcondition]

/-- The names of parameters that were read in Lua are Lua names. -/
theorem converted_lua_of_parse {s : Signature Member} (h : Signature.parse .lua text = .ok s) :
    ∀ name ∈ s.parameters.map (·.name), Identifier.converted .lua name = name := by
  obtain ⟨c, -, hshows⟩ := Signature.exists_parse_cpp Member h
  rw [hshows.names]
  refine List.forall_mem_map.mpr fun p _ => ?_
  exact Identifier.converted_lua_converted .lua p.name

/-- **One Lua name for every spelling.** The form of a name in any language has the Lua form of the
name, so the Lua form of a JavaScript name and of a Lua name too. The anchor of a function is the
Lua form of the names that any language shows of it, joined; and in Lua a note goes to the same
parameter whichever language its key is spelled for. -/
theorem spellings_share_lua :
    (∀ (l : Language) (name : String),
      Identifier.converted .lua (Identifier.converted l name) = Identifier.converted .lua name) ∧
    (∀ (l : Language) (text : String) (s : Signature Member), Signature.parse l text = .ok s →
      Anchor.ofSignature text =
        .ok (Identifier.converted .lua (Anchor.separator.intercalate s.shownNames))) ∧
    ∀ (l : Language) (text key : String) (note : ParameterNote) (s : Signature MemberView),
      Signature.parse .lua text = .ok s →
      attachNote .lua (Identifier.converted l key) note s.parameters =
        attachNote .lua key note s.parameters := by
  refine ⟨Identifier.converted_lua_converted, fun l text s hs => ?_, fun l text key note s hs => ?_⟩
  · obtain ⟨c, hc, hshows⟩ := Signature.exists_parse_cpp Member hs
    rw [Anchor.ofSignature_eq_intercalate hc, Identifier.converted_lua_intercalate,
      hshows.luaNames_eq]
  · have hnames := converted_lua_of_parse hs
    rw [attachNote_eq, attachNote_eq, target?_lua hnames, target?_lua hnames,
      Identifier.converted_lua_converted]

/-- The JavaScript names `f`, `A` and `a` give the anchor, and `A` is a key for the parameter `_a`. -/
theorem spellings_share_lua_shadowing :
    let text := "void F(int _a, int A)"
    let note : ParameterNote := ⟨some "d", .ok []⟩
    let s : Signature MemberView := shadowing.reading .lua
    Signature.parse .js text = .ok (shadowing.reading .js : Signature MemberView) ∧
      Anchor.ofSignature text = .ok (Identifier.converted .lua "f-A-a") ∧
      Signature.parse .lua text = .ok s ∧
      Identifier.converted .js "_a" = "A" ∧
      attachNote .lua "A" note s.parameters = attachNote .lua "_a" note s.parameters := by
  intro text note s
  have hlua : Signature.parse .lua text = .ok s := parse_shadowing .lua
  have hkey : Identifier.converted .js "_a" = "A" := by decide +kernel
  obtain ⟨-, hanchor, hnote⟩ := @spellings_share_lua MemberView
  refine ⟨parse_shadowing .js, hanchor .js text _ (parse_shadowing .js), hlua, hkey, ?_⟩
  exact hkey ▸ hnote .js text "_a" note s hlua

end ApiSurface
