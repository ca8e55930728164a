import Mathlib.Data.List.Forall2
import ApiSurface.Proofs.SignatureGrammar

/-!
# Reading undoes writing

The text of a signature is cut four times, and each cut is shown to fall where the text was joined:
at the parenthesis in front of the parameters, since every parenthesis of a type stands in angle
brackets (`shielded_text`); at its partner, since parameters are balanced; at the commas, since no
parameter has one at its top; and at the blanks in front of a name (`Declarator.splitLast?_text`).
The marks on the side of a name go back to its type, so what is mapped is `Declarator.typeText`.

`readSignature_text` gives the whole signature, and `parse_text` says the same without the
translation of types.
-/

namespace ApiSurface

open Nesting (Balanced Shielded isBracket)

variable {Member : Type}

/-! ## Characters -/

theorem PlainName.isNameChar_of_mem (n : PlainName) {c : Char} (h : c ∈ n.text) :
    isNameChar c = true := by
  have hname := n.isName
  simp only [Identifier.isName, Bool.and_eq_true, List.all_eq_true] at hname
  have hc := hname.2 c h
  simp only [isNameChar, hc, Bool.true_or]

theorem PlainName.text_ne_nil (n : PlainName) : n.text ≠ [] := by
  have hname := n.isName
  intro h
  rw [h] at hname
  cases hname

theorem PlainName.shown_eq (n : PlainName) (l : Language) :
    n.shown l = String.ofList (Identifier.convert l n.text) := by
  rw [shown, Identifier.converted, String.toList_ofList]

/-- A name is a word. -/
theorem PlainName.isWord (n : PlainName) :
    ∀ c ∈ n.text, isBracket c = false ∧ Text.isBlank c = false := by
  intro c hc
  have hchar := n.isNameChar_of_mem hc
  exact ⟨isBracket_of_isNameChar hchar, isBlank_of_isNameChar hchar⟩

theorem isMark_of_isMarker {c : Char} (h : isMarker c = true) : isMark c = true := by
  rw [isMark, Bool.or_eq_true]
  exact .inl h

theorem isMarker_of_isNameChar {c : Char} (h : isNameChar c = true) : isMarker c = false := by
  have hmark := isMark_of_isNameChar h
  rw [isMark, Bool.or_eq_false_iff] at hmark
  exact hmark.1

theorem Blanks.isBracket_of_mem (b : Blanks) {c : Char} (h : c ∈ b.text) : isBracket c = false :=
  Nesting.isBracket_of_isBlank (b.blank c h)

/-- The marks of a type on the side of the name and the name itself are a word. -/
theorem Declarator.isWord (d : Declarator) :
    ∀ c ∈ d.marks ++ d.name.text, isBracket c = false ∧ Text.isBlank c = false := by
  refine List.forall_mem_append.mpr ⟨fun c hc => ?_, d.name.isWord⟩
  have hmarker := d.areMarkers c hc
  simp only [isMarker, Bool.or_eq_true, beq_iff_eq] at hmarker
  rcases hmarker with rfl | rfl <;> decide

/-! ## Brackets -/

/-- A text without brackets shields the parenthesis. -/
theorem shielded_of_not_isBracket {text : List Char} (h : ∀ c ∈ text, isBracket c = false) :
    Shielded '(' text := by
  refine Nesting.shielded_of_forall fun c hc => ⟨h c hc, ?_⟩
  rintro rfl
  cases h _ hc

theorem Head.shielded_applied {wraps : Option Wrapper} (h : Head wraps) {inside : List Char}
    (hinside : Balanced (fun _ => true) inside) : Shielded '(' (h.applied inside) := by
  have hfront : Shielded '(' (h.name.text ++ spaces h.gap) := by
    refine shielded_of_not_isBracket (List.forall_mem_append.mpr ⟨fun c hc => ?_, fun c hc => ?_⟩)
    · exact isBracket_of_isNameChar (h.name.isNameChar_of_mem hc)
    · exact Nesting.isBracket_of_isBlank (isBlank_of_mem_spaces hc)
  exact hfront.append (.brackets .angles (by decide) hinside .nil)

/-- Every parenthesis of a type stands in angle brackets. -/
theorem TypeExpr.shielded_text (e : TypeExpr) : Shielded '(' e.text := by
  have hcore : Shielded '(' e.core := by
    cases e with
    | name _ n =>
      exact shielded_of_not_isBracket fun c hc => isBracket_of_isNameChar (n.isNameChar_of_mem hc)
    | smartPointer _ h inner => exact h.shielded_applied (balanced_anywhere inner.balanced_text)
    | optional _ h inner => exact h.shielded_applied (balanced_anywhere inner.balanced_text)
    | container _ h inner => exact h.shielded_applied (balanced_anywhere inner.balanced_text)
    | other _ h _ hinside => exact h.shielded_applied hinside
    | tuple _ h lead items => exact h.shielded_applied (balanced_items lead items)
  have hspaces : Shielded '(' (spaces e.qualifiers.lead) :=
    shielded_of_not_isBracket fun c hc => Nesting.isBracket_of_isBlank (isBlank_of_mem_spaces hc)
  have hfront : Shielded '(' e.qualifiers.front := by
    refine shielded_of_not_isBracket fun c hc => ?_
    unfold Qualifiers.front at hc
    split at hc
    · have hnone : constQualifier.all (!isBracket ·) = true := by decide
      simpa using List.all_eq_true.mp hnone c hc
    · cases hc
  have hmarks : Shielded '(' (e.qualifiers.marks.map Mark.char) := by
    refine shielded_of_not_isBracket fun c hc => ?_
    obtain ⟨m, -, rfl⟩ := List.mem_map.mp hc
    cases m <;> decide
  exact hspaces.append ((hfront.append hcore).append hmarks)

namespace Declarator

variable (d : Declarator)

theorem shielded_text : Shielded '(' d.text := by
  have hgap : Shielded '(' d.gap.text :=
    shielded_of_not_isBracket fun _ hc => d.gap.isBracket_of_mem hc
  have hname : Shielded '(' (d.marks ++ d.name.text) :=
    shielded_of_not_isBracket fun c hc => (d.isWord c hc).1
  exact (d.type.shielded_text.append hgap).append hname

/-! ## The two sides of a declarator -/

/-- Trimming takes only blanks in front of the type. -/
theorem trim_text :
    Text.trim d.text =
      Text.trimStart d.type.text ++ d.gap.text ++ (d.marks ++ d.name.text) := by
  have hword : Text.Tight (d.marks ++ d.name.text) :=
    Text.tight_of_forall fun c hc => (d.isWord c hc).2
  have hne : d.marks ++ d.name.text ≠ [] :=
    List.append_ne_nil_of_right_ne_nil _ d.name.text_ne_nil
  have htype : ¬ (Text.trimStart d.type.text).isEmpty = true := by
    intro h
    refine d.type.trim_text_ne_nil ?_
    rw [Text.trim, List.isEmpty_iff.mp h]
    rfl
  rw [text, Text.trim_append_tight hword hne]
  congr 1
  exact (List.dropWhile_append ..).trans (if_neg htype)

/-- A declarator falls into its type and its name. -/
theorem splitLast?_text :
    Nesting.splitLast? (Text.trim d.text) =
      .ok (some (Text.trim d.type.text, d.marks ++ d.name.text)) := by
  have hbalanced : Balanced (fun _ => true) (Text.trimStart d.type.text) :=
    d.type.shielded_text.trimStart.balanced
  rw [trim_text, Nesting.splitLast?_gap hbalanced d.gap.blank d.gap_ne_nil d.isWord,
    Text.trim_trimStart]

/-- The marks on the side of the name go to the type. -/
theorem moveMarkers_eq :
    moveMarkers (Text.trim d.type.text) (d.marks ++ d.name.text) = (d.typeText, d.name.text) := by
  -- the marks end where the name begins, since it begins with a character that is none
  obtain ⟨c, rest, hname⟩ := List.exists_cons_of_ne_nil d.name.text_ne_nil
  have hc : isMarker c = false :=
    isMarker_of_isNameChar (d.name.isNameChar_of_mem (hname ▸ List.mem_cons_self))
  rw [moveMarkers, List.takeWhile_append_of_pos d.areMarkers,
    List.dropWhile_append_of_pos d.areMarkers, hname,
    List.takeWhile_cons_of_neg (by simp [hc]), List.dropWhile_cons_of_neg (by simp [hc]),
    List.append_nil, typeText]

end Declarator

/-! ## Types of declarators -/

/-- The core of a type means what the type does. -/
theorem TypeExpr.mapCore_core_eq (l : Language) (e : TypeExpr) :
    mapCore l e.core = .ok (e.meaning (displayed l) l) := by
  induction e using TypeExpr.induct with
  | node e ih =>
    refine mapCore_core fun i hi => ?_
    rw [mapToken_text_eq, ih i hi, displayAs_trim]
    rfl

/-- Whatever qualifiers stand around the core of a type, it means the same. -/
theorem TypeExpr.mapToken_around (l : Language) (e : TypeExpr) (q : Qualifiers) :
    mapToken l (q.around e.core) =
      .ok (displayed l (q.around e.core) (e.meaning (displayed l) l)) := by
  rw [mapToken_eq, dropQualifiers_around q e.isCore]
  simp only [List.isEmpty_iff, e.core_ne_nil, if_false, e.mapCore_core_eq, displayAs_trim]
  rfl

/-- Characters that may follow a type are its marks. -/
theorem exists_marks {text : List Char} (h : ∀ c ∈ text, isMark c = true) :
    ∃ marks : List Mark, marks.map Mark.char = text := by
  induction text with
  | nil => exact ⟨[], rfl⟩
  | cons c rest ih =>
    obtain ⟨hc, hrest⟩ := List.forall_mem_cons.mp h
    obtain ⟨marks, rfl⟩ := ih hrest
    simp only [isMark, Bool.or_eq_true, beq_iff_eq] at hc
    rcases hc with (rfl | rfl) | rfl
    · exact ⟨.pointer :: marks, rfl⟩
    · exact ⟨.reference :: marks, rfl⟩
    · exact ⟨.space :: marks, rfl⟩

/-- The type of a declarator maps to what it means, with the marks of the name's side. -/
theorem Declarator.mapToken_typeText (l : Language) (d : Declarator) :
    mapToken l d.typeText = .ok (d.mapped l) := by
  -- the marks of the name's side are more qualifiers of the same core
  obtain ⟨marks, hmarks, htrim⟩ := trim_around d.type.qualifiers d.type.isCore
  have hmark : ∀ c ∈ marks ++ d.marks, isMark c = true :=
    List.forall_mem_append.mpr ⟨hmarks, fun c hc => isMark_of_isMarker (d.areMarkers c hc)⟩
  obtain ⟨all, hall⟩ := exists_marks hmark
  have htext : d.typeText =
      Qualifiers.around { isConst := d.type.qualifiers.isConst, marks := all } d.type.core := by
    rw [typeText, TypeExpr.text, htrim, List.append_assoc, ← hall]
    rfl
  rw [htext, TypeExpr.mapToken_around, mapped, htext]

/-! ## Parameters -/

/-- A declarator with blanks around it reads as a parameter. -/
theorem Declarator.readParameter (l : Language) (d : Declarator) {text : List Char}
    (htext : Text.trim text = Text.trim d.text) (context : List Char) :
    readParameter l context text = .ok (d.parameter l : Parameter Member) := by
  have hname : Identifier.isName d.name.text = true := d.name.isName
  have htype : d.typeText.isEmpty = false := by
    rw [List.isEmpty_eq_false_iff]
    exact List.append_ne_nil_of_left_ne_nil d.type.trim_text_ne_nil _
  rw [readParameter_eq, htext, d.splitLast?_text]
  simp only [d.moveMarkers_eq, hname, htype, d.mapToken_typeText l, Bool.not_true, Bool.or_self,
    Bool.false_eq_true, if_false, Except.map, parameter, PlainName.shown_eq]

namespace ParameterExpr

variable (p : ParameterExpr)

theorem trim_text : Text.trim p.text = Text.trim p.declarator.text := by
  rw [text, Text.trim_append_blanks p.back.blank, Text.trim_blanks_append p.front.blank]

theorem trim_text_ne_nil : Text.trim p.text ≠ [] := by
  rw [trim_text, p.declarator.trim_text]
  exact List.append_ne_nil_of_right_ne_nil _
    (List.append_ne_nil_of_right_ne_nil _ p.declarator.name.text_ne_nil)

/-- A parameter is balanced and has no comma at its top. -/
theorem balanced_text : Balanced (· != ',') p.text := by
  have hblanks (b : Blanks) : Balanced (· != ',') b.text := by
    refine Nesting.balanced_of_forall fun c hc => ⟨b.isBracket_of_mem hc, ?_⟩
    rw [bne_iff_ne]
    rintro rfl
    cases b.blank _ hc
  have hword : Balanced (· != ',') (p.declarator.marks ++ p.declarator.name.text) := by
    refine balanced_of_isNameChar_or_isMark (List.forall_mem_append.mpr ⟨?_, ?_⟩)
    · exact fun c hc => .inr (isMark_of_isMarker (p.declarator.areMarkers c hc))
    · exact fun c hc => .inl (p.declarator.name.isNameChar_of_mem hc)
  have hdeclarator : Balanced (· != ',') p.declarator.text :=
    (p.declarator.type.balanced_text.append (hblanks p.declarator.gap)).append hword
  exact ((hblanks p.front).append hdeclarator).append (hblanks p.back)

end ParameterExpr

namespace SignatureExpr

variable (e : SignatureExpr)

theorem balanced_list : Balanced (fun _ => true) e.list := by
  have hinside : Balanced (fun _ => true) e.inside.text :=
    Nesting.balanced_of_forall fun _ hc => ⟨e.inside.isBracket_of_mem hc, rfl⟩
  refine hinside.append (balanced_intercalate (List.forall_mem_map.mpr fun p _ => ?_))
  exact TypeExpr.balanced_anywhere p.balanced_text

/-- The parameters are split where they were joined. -/
theorem split_list (h : e.parameters ≠ []) :
    Nesting.split ',' e.list = .ok (e.parameters.map fun p => Text.trim p.text) := by
  have hblank : Text.isBlank ',' = false := by decide
  have hbalanced : ∀ text ∈ e.parameters.map ParameterExpr.text, Balanced (· != ',') text :=
    List.forall_mem_map.mpr fun p _ => p.balanced_text
  have hpieces := Nesting.split_intercalate (by decide) hblank hbalanced (by simpa using h)
  rw [Nesting.split_eq_ok_iff, Nesting.trimmedCuts_trim hblank, List.map_map] at hpieces
  rw [Nesting.split_eq_ok_iff, ← Nesting.trimmedCuts_trim hblank, list,
    Text.trim_blanks_append e.inside.blank, Nesting.trimmedCuts_trim hblank]
  exact hpieces

/-- What stands between the parentheses reads as the parameters. -/
theorem readParameters_list (l : Language) (source : List Char) :
    readParameters l source e.list =
      .ok (e.declarators.map (·.parameter l) : List (Parameter Member)) := by
  rw [readParameters_eq]
  by_cases hnone : e.parameters = []
  · have hblank : Text.trim e.list = [] := by
      rw [list, Text.trim_blanks_append e.inside.blank, hnone]
      rfl
    rw [hblank, declarators, hnone]
    rfl
  · have hsplit := e.split_list hnone
    have hsome : ¬ (Text.trim e.list).isEmpty = true := by
      -- a blank list has one empty piece, but no parameter is empty
      intro hempty
      rw [Nesting.split_eq_ok_iff, ← Nesting.trimmedCuts_trim (by decide),
        List.isEmpty_iff.mp hempty] at hsplit
      have hpieces : [[]] = e.parameters.map fun p => Text.trim p.text :=
        Option.some.inj hsplit
      obtain ⟨p, -, hp⟩ := List.mem_map.mp (hpieces ▸ List.mem_singleton_self _)
      exact p.trim_text_ne_nil hp
    have hread : ∀ p ∈ e.parameters,
        (if (Text.trim p.text).isEmpty then .error (.malformedParameter "" (String.ofList source))
          else readParameter l source (Text.trim p.text)) =
          (.ok (p.declarator.parameter l) : Except ParseError (Parameter Member)) := by
      intro p _
      rw [if_neg (by simpa using p.trim_text_ne_nil)]
      exact p.declarator.readParameter l ((Text.trim_trim _).trans p.trim_text) source
    rw [if_neg hsome, hsplit]
    simp only [List.mapM_map]
    exact (mapM_eq_ok hread).trans (by rw [declarators, List.map_map]; rfl)

end SignatureExpr

namespace FunctionForm

variable (f : FunctionForm)

theorem shielded_before : Shielded '(' f.before := by
  cases f with
  | bare n _ => exact shielded_of_not_isBracket fun c hc => (n.isWord c hc).1
  | returning d _ => exact d.shielded_text

/-- What stands in front of the parameters reads as the return type and the name. -/
theorem readHead_before (l : Language) (source : List Char) :
    readHead l source (Text.trim f.before) (Text.trim f.behind) =
      .ok (f.returnType l, f.name.text) := by
  cases f with
  | bare n back =>
    have hname : Text.trim n.text = n.text :=
      (Text.tight_of_forall fun c hc => (n.isWord c hc).2).trim
    have hback : Text.trim back.text = [] := Text.trim_append_blanks back.blank []
    rw [readHead_eq, before, behind, hname, Nesting.splitLast?_word n.isWord, hback]
    rfl
  | returning d qualifiers =>
    rw [readHead_eq, before, d.splitLast?_text]
    simp only [d.moveMarkers_eq, d.mapToken_typeText, returnType]
    split <;> rfl

end FunctionForm

namespace SignatureExpr

variable (e : SignatureExpr)

/-- Trimming takes only blanks at the two ends. -/
theorem trim_text :
    Text.trim e.text =
      Text.trimStart (e.form.before ++ e.gap.text) ++
        '(' :: (e.list ++ ')' :: Text.trimEnd e.form.behind) := by
  have hopening : Text.isBlank '(' = false := by decide
  have hclosing : Text.isBlank ')' = false := by decide
  have hassoc : e.form.before ++ e.gap.text ++ '(' :: (e.list ++ ')' :: e.form.behind) =
      (e.form.before ++ e.gap.text ++ '(' :: e.list) ++ ')' :: e.form.behind := by simp
  rw [text, Text.trim_blanks_append e.front.blank, hassoc, Text.trim_append_cons hclosing,
    Text.trimStart_append_cons hopening, List.append_assoc, List.cons_append]

/-- A signature is cut in front of the parenthesis that opens its parameters. -/
theorem find?_text :
    Nesting.find? '(' (Text.trim e.text) =
      .ok (some (Text.trimStart (e.form.before ++ e.gap.text),
        '(' :: (e.list ++ ')' :: Text.trimEnd e.form.behind))) := by
  have hgap : Shielded '(' e.gap.text :=
    shielded_of_not_isBracket fun _ hc => e.gap.isBracket_of_mem hc
  rw [trim_text]
  exact Nesting.find?_shielded (e.form.shielded_before.append hgap).trimStart _

/-- The text of a signature reads as what was written. -/
theorem readSignature_text (l : Language) :
    readSignature l e.text = .ok (e.reading l : Signature Member) := by
  have henclosed (before behind : List Char) :
      Nesting.enclosed before ('(' :: (e.list ++ ')' :: behind)) = .ok (e.list, behind) := by
    rw [Nesting.enclosed, Nesting.closeFrom_pair .parens e.balanced_list, Nesting.inText_ok]
    rfl
  have hbefore : Text.trimEnd (Text.trimStart (e.form.before ++ e.gap.text)) =
      Text.trim e.form.before := Text.trim_append_blanks e.gap.blank _
  have hname : ¬ (!Identifier.isName e.form.name.text) = true := by simp [e.form.name.isName]
  have hcall : ", ".intercalate ((e.declarators.map (·.parameter l : _ → Parameter Member)).map
      (·.name)) = ", ".intercalate (e.declarators.map (·.name.shown l)) := by
    rw [List.map_map]
    rfl
  rw [readSignature_eq]
  simp only [e.find?_text, henclosed, hbefore, Text.trim_trimEnd, e.form.readHead_before,
    e.readParameters_list]
  show (if _ then _ else _) = _
  rw [if_neg hname, ← e.form.name.shown_eq]
  simp only [Except.map, Signature.callText, hcall]
  rfl

/-- A signature in a language says what was written. -/
structure Says (l : Language) (s : Signature Member) : Prop where
  name : s.name = e.form.name.shown l
  /-- There are as many parameters as were written, in their order. -/
  parameters : List.Forall₂
    (fun (d : Declarator) (p : Parameter Member) =>
      mapToken l d.typeText = .ok p.type ∧ p.name = d.name.shown l ∧
        p.description = none ∧ p.properties = [])
    e.declarators s.parameters
  returnType :
    match e.form with
    | .bare _ _ => s.returnType = none
    | .returning d _ =>
      if d.typeText = "void".toList then s.returnType = none
      else ∃ t, mapToken l d.typeText = .ok t ∧ s.returnType = some t
  display : s.display =
    match l with
    | .cpp => String.ofList (Text.trim e.text)
    | .lua | .js => e.shortText l

theorem says_reading (l : Language) : e.Says l (e.reading l : Signature Member) := by
  refine ⟨rfl, ?_, ?_, ?_⟩
  · show List.Forall₂ _ e.declarators (e.declarators.map _)
    rw [List.forall₂_map_right_iff]
    exact List.forall₂_same.mpr fun d _ => ⟨d.mapToken_typeText l, rfl, rfl, rfl⟩
  · cases hform : e.form with
    | bare n back => simp only [reading, hform, FunctionForm.returnType]
    | returning d qualifiers =>
      simp only [reading, hform, FunctionForm.returnType]
      split
      · rfl
      · exact ⟨d.mapped l, d.mapToken_typeText l, rfl⟩
  · cases l <;> rfl

/-- The text of a signature can be read in every language, and says what was written. -/
theorem parse_text (l : Language) :
    ∃ s : Signature Member, Signature.parse l (String.ofList e.text) = .ok s ∧ e.Says l s := by
  refine ⟨e.reading l, ?_, e.says_reading l⟩
  rw [Signature.parse, String.toList_ofList, readSignature_text]

end SignatureExpr

/-- A mark on the side of the name, blanks of several kinds, and a comma and parentheses in angle
brackets. -/
example :
    let blanks (n : Nat) : Blanks := ⟨spaces n, fun _ hc => isBlank_of_mem_spaces hc⟩
    let view : TypeExpr := .name {} ⟨["View".toList], by decide, by decide, by decide⟩
    let handler : TypeExpr :=
      .other { marks := [.reference] }
        ⟨⟨["base".toList, "Callback".toList], by decide, by decide, by decide⟩, 0, by decide⟩
        ("void".toList ++ '(' :: ("int, int".toList ++ [')']))
        ((Nesting.balanced_of_forall (by simp; decide)).append
          (.brackets .parens (Nesting.balanced_of_forall (by simp; decide)) .nil))
    let e : SignatureExpr :=
      { front := blanks 0
        form := .returning
          ⟨view, blanks 1, by decide, ['*'], by simp; rfl, ⟨"Get".toList, by decide⟩⟩ " const".toList
        gap := blanks 0
        inside := blanks 0
        parameters :=
          [⟨blanks 0, ⟨handler, blanks 1, by decide, [], by simp, ⟨"on_done".toList, by decide⟩⟩,
            blanks 0⟩] }
    String.ofList e.text = "View *Get(base::Callback<void(int, int)>& on_done) const" ∧
      e.shortText .js = "get(onDone)" := by
  exact ⟨rfl, rfl⟩

end ApiSurface
