import ApiSurface.Proofs.LanguageAgreement
import ApiSurface.Proofs.LowercaseForms
import ApiSurface.Proofs.SignatureParts
import ApiSurface.Proofs.SignatureReading

/-!
# Which functions share an anchor

An anchor is the Lua names of a function and its parameters with hyphens between them. A hyphen is
in no identifier and in the lowercase form of no other character, so it is in no Lua name either,
and the names can be read off an anchor again, also where some of them are empty. Two functions
share an anchor exactly when they have the same Lua names in the same order
(`Anchor.ofSignature_eq_iff`).
-/

namespace ApiSurface

/-- Texts without the separator between them can be told apart once they are joined. -/
theorem intercalate_eq_intercalate_iff {separator : Char} {texts texts' : List String}
    (h : ∀ text ∈ texts, separator ∉ text.toList)
    (h' : ∀ text ∈ texts', separator ∉ text.toList) (hne : texts ≠ []) (hne' : texts' ≠ []) :
    (String.singleton separator).intercalate texts = (String.singleton separator).intercalate texts'
      ↔ texts = texts' := by
  have hsplit {texts : List String} (h : ∀ text ∈ texts, separator ∉ text.toList)
      (hne : texts ≠ []) : ((String.singleton separator).intercalate texts).toList.splitOn separator
        = texts.map String.toList := by
    rw [String.toList_intercalate, String.toList_singleton]
    exact List.splitOn_intercalate separator (by simpa using h) (by simpa using hne)
  refine ⟨fun hjoined => ?_, fun heq => heq ▸ rfl⟩
  have hlists := hsplit h hne
  rw [hjoined, hsplit h' hne'] at hlists
  exact (List.map_injective_iff.mpr (fun _ _ => String.toList_injective) hlists).symm

namespace Identifier

/-- No hyphen is in the Lua form of an identifier. -/
theorem hyphen_notMem_luaCase {name : List Char} (h : isName name = true) :
    '-' ∉ luaCase name := by
  intro hmem
  obtain ⟨c, hc, hform⟩ := List.mem_flatMap.mp hmem
  obtain rfl := Text.eq_of_mem_lowerChar hform (by decide)
  rw [isName, Bool.and_eq_true, List.all_eq_true] at h
  have hchar := h.2 '-' (List.mem_of_mem_filter hc)
  revert hchar
  decide

end Identifier

variable {Member Member' : Type} {a b : Language} {s t : String}

/-- C++ shows an identifier as it is. -/
theorem ShowsName.isName {shown : String} (h : ShowsName .cpp shown) :
    Identifier.isName shown.toList = true := by
  obtain ⟨name, hname, rfl⟩ := h
  rwa [String.toList_ofList]

theorem hyphen_notMem_luaNames {c : Signature Member} (h : Signature.parse .cpp s = .ok c) :
    ∀ name ∈ c.luaNames, '-' ∉ name.toList := by
  have hlua {shown : String} (hshown : ShowsName .cpp shown) :
      '-' ∉ (Identifier.converted .lua shown).toList := by
    rw [Identifier.converted, String.toList_ofList]
    exact Identifier.hyphen_notMem_luaCase hshown.isName
  obtain ⟨hname, hparameters⟩ := readSignature_showsNames h
  rw [Signature.luaNames, List.forall_mem_cons, List.forall_mem_map]
  exact ⟨hlua hname, fun p hp => hlua (hparameters p hp)⟩

/-- **Which functions share an anchor**: two texts that read as signatures, in whatever languages,
have the same anchor exactly when the Lua forms of the names of the functions are equal and so are,
one by one, those of their parameters. So functions that share one take as many parameters. -/
theorem Anchor.ofSignature_eq_iff {u : Signature Member} {v : Signature Member'}
    (hs : Signature.parse a s = .ok u) (ht : Signature.parse b t = .ok v) :
    ∃ (c d : Signature Empty) (anchor anchor' : String),
      Signature.parse .cpp s = .ok c ∧ Signature.parse .cpp t = .ok d ∧
      ofSignature s = .ok anchor ∧ ofSignature t = .ok anchor' ∧
      (anchor = anchor' ↔
        Identifier.converted .lua c.name = Identifier.converted .lua d.name ∧
        c.parameters.map (fun p => Identifier.converted .lua p.name)
          = d.parameters.map fun p => Identifier.converted .lua p.name) ∧
      (anchor = anchor' → u.parameters.length = v.parameters.length) := by
  obtain ⟨c, hc, hcu⟩ := Signature.exists_parse_cpp Empty hs
  obtain ⟨d, hd, hdv⟩ := Signature.exists_parse_cpp Empty ht
  have hiff : separator.intercalate c.luaNames = separator.intercalate d.luaNames ↔
      Identifier.converted .lua c.name = Identifier.converted .lua d.name ∧
        c.parameters.map (fun p => Identifier.converted .lua p.name)
          = d.parameters.map fun p => Identifier.converted .lua p.name := by
    have hjoined := intercalate_eq_intercalate_iff (hyphen_notMem_luaNames hc)
      (hyphen_notMem_luaNames hd) (List.cons_ne_nil _ _) (List.cons_ne_nil _ _)
    exact hjoined.trans List.cons_eq_cons
  refine ⟨c, d, _, _, hc, hd, ofSignature_eq_intercalate hc, ofSignature_eq_intercalate hd, hiff,
    fun hanchor => ?_⟩
  have hlength := congrArg List.length (hiff.mp hanchor).2
  rw [List.length_map, List.length_map] at hlength
  rw [hcu.length_eq, hdv.length_eq, hlength]

/-- `Name(Type *parameter)`, a constructor with one parameter. -/
def constructorFrom (name : PlainName) (type : ScopedName) (parameter : PlainName) :
    SignatureExpr :=
  let nothing : Blanks := ⟨[], by simp⟩
  { front := nothing
    form := .bare name nothing
    gap := nothing
    inside := nothing
    parameters :=
      [⟨nothing, ⟨.name {} type, ⟨[' '], List.forall_mem_singleton.mpr rfl⟩,
        List.cons_ne_nil _ _, ['*'], List.forall_mem_singleton.mpr rfl, parameter⟩, nothing⟩] }

def colorPicker : SignatureExpr :=
  constructorFrom ⟨"ColorPicker".toList, by decide⟩
    ⟨["Color".toList], by decide, by decide, by decide⟩ ⟨['_'], by decide⟩

def colorPickerInView : SignatureExpr :=
  constructorFrom ⟨"Color_picker".toList, by decide⟩
    ⟨["View".toList], by decide, by decide, by decide⟩ ⟨['_', '_'], by decide⟩

/-- Two constructors that differ in case, underscores and types share an anchor; the Lua name of
their parameter is empty. -/
theorem Anchor.ofSignature_eq_iff_pickers :
    let s := "ColorPicker(Color *_)"
    let t := "Color_picker(View *__)"
    (Signature.parse .js s : Except ParseError (Signature Empty))
        = .ok (colorPicker.reading .js) ∧
      (Signature.parse .cpp t : Except ParseError (Signature Empty))
        = .ok (colorPickerInView.reading .cpp) ∧
      ∃ anchor, ofSignature s = .ok anchor ∧ ofSignature t = .ok anchor := by
  intro s t
  have hparse (e : SignatureExpr) (text : String) (htext : text.toList = e.text) (l : Language) :
      (Signature.parse l text : Except ParseError (Signature Empty)) = .ok (e.reading l) := by
    rw [Signature.parse, htext, e.readSignature_text]
  have hs := hparse colorPicker s (by decide)
  have ht := hparse colorPickerInView t (by decide)
  obtain ⟨c, d, anchor, anchor', hc, hd, hanchor, hanchor', hiff, -⟩ :=
    ofSignature_eq_iff (hs .js) (ht .cpp)
  obtain rfl := Except.ok.inj (hc.symm.trans (hs .cpp))
  obtain rfl := Except.ok.inj (hd.symm.trans (ht .cpp))
  obtain rfl := hiff.mpr ⟨by decide +kernel, by decide +kernel⟩
  exact ⟨hs .js, ht .cpp, anchor, hanchor, hanchor'⟩

end ApiSurface
