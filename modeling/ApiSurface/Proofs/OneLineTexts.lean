import ApiSurface.Declaration
import ApiSurface.Proofs.BracketNesting
import ApiSurface.Proofs.LowercaseForms
import ApiSurface.Proofs.ParameterNotes
import ApiSurface.Proofs.TypeTextMeaning
import ApiSurface.View.OfDescriptor

/-!
# Texts on one line

A canonical text without a line feed is cut into texts without one, and neither the conversion of
names nor the vocabulary brings one in. So all that is read from a text on one line is on one line:
the names and types of a signature (`readSignature_oneLine`) and what is viewed of a member
(`Member.view_oneLine`). Types and functions are then written on one line as well, unless a rule
replaces a name by a text that is not (`TypeTextRules.typeText_oneLine`).
-/

namespace ApiSurface

namespace Text

/-- A text without a line feed. -/
def OneLine (s : List Char) : Prop :=
  '\n' ∉ s

instance (s : List Char) : Decidable (OneLine s) :=
  inferInstanceAs (Decidable ('\n' ∉ s))

variable {s t : List Char}

theorem OneLine.of_subset (h : OneLine t) (hs : s ⊆ t) : OneLine s :=
  fun hmem => h (hs hmem)

theorem oneLine_cons_iff {c : Char} : OneLine (c :: s) ↔ '\n' ≠ c ∧ OneLine s := by
  rw [OneLine, OneLine, List.mem_cons, not_or]

theorem oneLine_append_iff : OneLine (s ++ t) ↔ OneLine s ∧ OneLine t := by
  rw [OneLine, OneLine, OneLine, List.mem_append, not_or]

theorem OneLine.intercalate {separator : List Char} {texts : List (List Char)}
    (h : OneLine separator) (htexts : ∀ text ∈ texts, OneLine text) :
    OneLine (separator.intercalate texts) := by
  intro hmem
  obtain hmem | ⟨text, htext, hmem⟩ := mem_intercalate hmem
  · exact h hmem
  · exact htexts text htext hmem

/-- A line feed ends the first run. -/
theorem lineRuns_append (h : OneLine s) (rest : List Char) :
    lineRuns (s ++ '\n' :: rest) = (s ++ ['\n']) :: lineRuns rest := by
  induction s with
  | nil => rfl
  | cons c s ih =>
    obtain ⟨hc, hs⟩ := oneLine_cons_iff.mp h
    rw [List.cons_append, lineRuns, if_neg (Ne.symm hc), ih hs, List.cons_append]

end Text

open Text (OneLine)

/-! ## Names -/

namespace Identifier

variable {s : List Char}

theorem toUpper_ne_lineFeed {c : Char} (h : c.isAlpha = true) : c.toUpper ≠ '\n' := by
  intro heq
  unfold Char.toUpper at heq
  split at heq
  · next hsmall =>
    obtain ⟨hfirst, hlast⟩ := hsmall
    have hval := congrArg (fun c => c.val.toNat) heq
    rw [UInt32.le_iff_toNat_le] at hfirst hlast
    simp at hval hfirst hlast
    omega
  · rw [heq] at h
    cases h

/-- The letters that are capitalised stay letters. -/
theorem oneLine_joinWords (h : OneLine s) : OneLine (joinWords s) := by
  induction s using joinWords.induct with
  | case1 => exact h
  | case2 c => exact h
  | case3 c d rest hword ih =>
    obtain ⟨-, hrest⟩ := Text.oneLine_cons_iff.mp h
    rw [joinWords, if_pos hword, Text.oneLine_cons_iff]
    rw [Bool.and_eq_true] at hword
    exact ⟨(toUpper_ne_lineFeed hword.2).symm, ih (Text.oneLine_cons_iff.mp hrest).2⟩
  | case4 c d rest hword ih =>
    obtain ⟨hc, hrest⟩ := Text.oneLine_cons_iff.mp h
    rw [joinWords, if_neg hword, Text.oneLine_cons_iff]
    exact ⟨hc, ih hrest⟩

/-- The form of a name in a language is on one line when the name is. -/
theorem oneLine_convert (l : Language) (h : OneLine s) : OneLine (convert l s) := by
  have hlower {c : Char} (hmem : '\n' ∈ Text.lowerChar c) : c = '\n' :=
    Text.eq_of_mem_lowerChar hmem (by decide)
  cases l with
  | cpp => exact h
  | lua =>
    intro hmem
    obtain ⟨c, hc, hmem⟩ := List.mem_flatMap.mp hmem
    rw [hlower hmem] at hc
    exact h (List.mem_of_mem_filter hc)
  | js =>
    cases s with
    | nil => exact h
    | cons c rest =>
      obtain ⟨hc, hrest⟩ := Text.oneLine_cons_iff.mp h
      refine oneLine_joinWords (Text.oneLine_append_iff.mpr ⟨fun hmem => ?_, hrest⟩)
      exact hc (hlower hmem).symm

theorem oneLine_joinScopes {joint : List Char} (hjoint : OneLine joint) (h : OneLine s) :
    OneLine (joinScopes joint s) := by
  induction s using joinScopes.induct with
  | case1 => exact h
  | case2 c => exact h
  | case3 c d rest hseparator ih =>
    obtain ⟨-, hrest⟩ := Text.oneLine_cons_iff.mp h
    rw [joinScopes, if_pos hseparator, Text.oneLine_append_iff]
    exact ⟨hjoint, ih (Text.oneLine_cons_iff.mp hrest).2⟩
  | case4 c d rest hseparator ih =>
    obtain ⟨hc, hrest⟩ := Text.oneLine_cons_iff.mp h
    rw [joinScopes, if_neg hseparator, Text.oneLine_cons_iff]
    exact ⟨hc, ih hrest⟩

end Identifier

/-! ## Cuts -/

namespace Nesting

variable {text before after : List Char}

theorem splitLast?_subset (h : splitLast? text = .ok (some (before, after))) :
    before ⊆ text ∧ after ⊆ text := by
  obtain ⟨found, hfound, h⟩ := map_eq_ok.mp h
  obtain ⟨⟨front, back⟩, rfl, h⟩ := Option.map_eq_some_iff.mp h
  cases h
  rw [lastBlankFrom_eq_some (ok_of_mapError hfound)]
  exact ⟨List.subset_append_of_subset_left _ (Text.trim_subset front),
    List.subset_append_of_subset_right _ (Text.trim_subset back)⟩

theorem enclosed_subset {opened inside behind : List Char}
    (h : enclosed before opened = .ok (inside, behind)) : inside ⊆ opened ∧ behind ⊆ opened := by
  obtain ⟨⟨front, closed⟩, hfront, hdrop⟩ := map_eq_ok.mp h
  obtain ⟨closing, rest, rfl, rfl, -⟩ := closeFrom_eq_ok (ok_of_mapError hfront)
  cases hdrop
  exact ⟨List.subset_append_of_subset_left _ (List.drop_subset 1 front),
    List.subset_append_of_subset_right _ (List.subset_cons_self closing rest)⟩

end Nesting

/-! ## Types -/

/-- A type with names on one line. -/
inductive MappedType.OneLine : MappedType → Prop
  | node {t : MappedType} : Text.OneLine t.name.toList → (∀ e, t.element = some e → e.OneLine) →
      (∀ a ∈ t.args, a.OneLine) → t.OneLine

namespace MappedType

theorem OneLine.name {t : MappedType} (h : t.OneLine) : Text.OneLine t.name.toList := by
  cases h with
  | node hname _ _ => exact hname

theorem oneLine_named {name : String} (h : Text.OneLine name.toList) : (named name).OneLine :=
  .node h (fun _ he => nomatch he) fun _ ha => nomatch ha

theorem oneLine_linked {name : List Char} (h : Text.OneLine name) : (linked name).OneLine :=
  .node (by rwa [linked, String.toList_ofList]) (fun _ he => nomatch he) fun _ ha => nomatch ha

end MappedType

theorem Vocabulary.oneLine_of_native? {canonical native : String} {l : Language}
    (h : native? canonical l = some native) : OneLine native.toList := by
  have hrows : ∀ row ∈ rows, OneLine row.lua.toList ∧ OneLine row.js.toList := by decide
  have hrow {row : Row} (h : row? canonical = some row) : row ∈ rows := List.mem_of_find?_eq_some h
  cases l with
  | cpp => cases h
  | lua =>
    obtain ⟨row, hfound, rfl⟩ := Option.map_eq_some_iff.mp h
    exact (hrows row (hrow hfound)).1
  | js =>
    obtain ⟨row, hfound, rfl⟩ := Option.map_eq_some_iff.mp h
    exact (hrows row (hrow hfound)).2

theorem Vocabulary.oneLine_tuple (l : Language) : OneLine (tuple l).toList := by
  cases l <;> decide

theorem Vocabulary.oneLine_sequence (l : Language) : OneLine (sequence l).toList := by
  cases l <;> decide

variable {l : Language} {t : MappedType}

theorem oneLine_mapName {name : List Char} (h : OneLine name) : (mapName l name).OneLine := by
  rw [mapName]
  split
  · next native hnative => exact MappedType.oneLine_named (Vocabulary.oneLine_of_native? hnative)
  · split
    · exact MappedType.oneLine_named (by rwa [String.toList_ofList])
    · exact MappedType.oneLine_linked h

theorem oneLine_displayAs {written : List Char} (h : OneLine written) (ht : t.OneLine) :
    (displayAs l written t).OneLine := by
  rw [displayAs]
  split
  · cases ht with
    | node _ helement hargs => exact .node (by rwa [String.toList_ofList]) helement hargs
  · exact ht

/-- A form is mapped to names on one line when its own name is on one line and its parts are mapped
to such names. -/
theorem mapForm_oneLine {form : TypeForm} (hname : ∀ name, form = .name name → OneLine name)
    (hparts : ∀ part ∈ form.parts, ∀ t, mapToken l part = .ok t → t.OneLine)
    (h : mapForm l form = .ok t) : t.OneLine := by
  cases form with
  | name name =>
    cases h
    exact oneLine_mapName (hname name rfl)
  | smartPointer inner => exact hparts inner List.mem_cons_self t h
  | optional inner =>
    obtain ⟨t', ht', rfl⟩ := map_eq_ok.mp h
    cases hparts inner List.mem_cons_self t' ht' with
    | node hname helement hargs => exact .node hname helement hargs
  | tuple pieces =>
    obtain ⟨args, hargs, rfl⟩ := map_eq_ok.mp h
    refine .node (Vocabulary.oneLine_tuple l) (fun e he => by cases he) fun a ha => ?_
    obtain ⟨piece, hpiece, ha⟩ := exists_mem_of_mapM_eq_ok hargs ha
    exact hparts piece hpiece a ha
  | sequence inner =>
    rw [mapForm] at h
    split at h
    · obtain ⟨e, he, rfl⟩ := map_eq_ok.mp h
      refine .node (Vocabulary.oneLine_sequence l) (fun e' he' => ?_)
        fun a ha => absurd ha List.not_mem_nil
      obtain rfl := Option.some.inj he'
      exact hparts inner List.mem_cons_self e he
    · cases h
      exact MappedType.oneLine_named (Vocabulary.oneLine_sequence l)

/-- What a token on one line maps to has names on one line. -/
theorem mapToken_oneLine {token : List Char} (htoken : OneLine token)
    (h : mapToken l token = .ok t) : t.OneLine := by
  induction token using token_induction generalizing t with
  | h token ih =>
    rw [mapToken_eq_form] at h
    obtain ⟨form, hform, h⟩ := bind_eq_ok.mp h
    obtain ⟨t', ht', rfl⟩ := map_eq_ok.mp h
    refine oneLine_displayAs (htoken.of_subset (Text.trim_subset token)) ?_
    refine mapForm_oneLine (fun name hname => ?_) (fun part hpart t ht => ?_) ht'
    · exact htoken.of_subset (tokenForm_name (hname ▸ hform)).subset
    · have hwithin := (tokenForm_parts hform part hpart).1
      exact ih form hform part hpart (htoken.of_subset hwithin.subset) ht

/-! ## Signatures -/

variable {Member : Type}

/-- A parameter whose name and type are on one line. -/
structure Parameter.OneLine (p : Parameter Member) : Prop where
  name : Text.OneLine p.name.toList
  type : p.type.OneLine

/-- A function with names and types on one line. -/
structure Signature.OneLine (s : Signature Member) : Prop where
  name : Text.OneLine s.name.toList
  parameters : ∀ p ∈ s.parameters, p.OneLine
  returnType : ∀ t, s.returnType = some t → t.OneLine

theorem moveMarkers_subset (type name : List Char) :
    (moveMarkers type name).1 ⊆ type ++ name ∧ (moveMarkers type name).2 ⊆ name :=
  ⟨List.append_subset.mpr ⟨List.subset_append_left _ _,
      List.subset_append_of_subset_right _ (List.takeWhile_subset _)⟩,
    List.dropWhile_subset _⟩

theorem readParameter_oneLine {context text : List Char} {p : Parameter Member}
    (htext : OneLine text) (h : readParameter l context text = .ok p) : p.OneLine := by
  obtain ⟨before, after, t, hcut, -, ht, rfl⟩ := readParameter_eq_ok h
  obtain ⟨hbefore, hafter⟩ := Nesting.splitLast?_subset hcut
  have hitem := htext.of_subset (Text.trim_subset text)
  obtain ⟨htype, hname⟩ := moveMarkers_subset before after
  have hparts := Text.oneLine_append_iff.mpr ⟨hitem.of_subset hbefore, hitem.of_subset hafter⟩
  refine ⟨?_, mapToken_oneLine (hparts.of_subset htype) ht⟩
  rw [String.toList_ofList]
  exact Identifier.oneLine_convert l ((hitem.of_subset hafter).of_subset hname)

theorem readParameters_oneLine {source list : List Char} {ps : List (Parameter Member)}
    (hlist : OneLine list) (h : readParameters l source list = .ok ps) :
    ∀ p ∈ ps, p.OneLine := by
  intro p hp
  obtain ⟨items, item, hitems, hitem, hparameter⟩ := exists_item_of_readParameters h hp
  have hwithin := Nesting.split_within hitems item hitem
  exact readParameter_oneLine (hlist.of_subset hwithin.subset) hparameter

theorem readHead_oneLine {source head trailing name : List Char} {returnType : Option MappedType}
    (hhead : OneLine head) (h : readHead l source head trailing = .ok (returnType, name)) :
    OneLine name ∧ ∀ t, returnType = some t → t.OneLine := by
  obtain ⟨-, rfl, rfl⟩ | ⟨before, after, hcut, rfl, hmapped⟩ := readHead_eq_ok h
  · exact ⟨hhead, fun t ht => nomatch ht⟩
  · obtain ⟨hbefore, hafter⟩ := Nesting.splitLast?_subset hcut
    obtain ⟨htype, hname⟩ := moveMarkers_subset before after
    have hparts := Text.oneLine_append_iff.mpr ⟨hhead.of_subset hbefore, hhead.of_subset hafter⟩
    exact ⟨(hhead.of_subset hafter).of_subset hname,
      fun t ht => mapToken_oneLine (hparts.of_subset htype) (hmapped t ht)⟩

/-- What is read from a signature on one line is on one line. -/
theorem readSignature_oneLine {text : List Char} {s : Signature Member} (htext : OneLine text)
    (h : readSignature l text = .ok s) : s.OneLine := by
  obtain ⟨before, opened, list, behind, name, hcut, henclosed, hhead, -, hshown, hps⟩ :=
    readSignature_eq_ok h
  obtain ⟨rest, rfl, hsource, -⟩ := Nesting.find?_eq_some hcut
  have hparts := htext.of_subset (Text.trim_subset text)
  rw [hsource, Text.oneLine_append_iff] at hparts
  obtain ⟨hbefore, hopened⟩ := hparts
  have hlist := (Nesting.enclosed_subset henclosed).1
  have htrimmed : Text.trimEnd before ⊆ before :=
    (List.rdropWhile_prefix Text.isBlank before).subset
  obtain ⟨hname, hreturn⟩ := readHead_oneLine (hbefore.of_subset htrimmed) hhead
  refine ⟨?_, readParameters_oneLine (hopened.of_subset hlist) hps, hreturn⟩
  rw [hshown, String.toList_ofList]
  exact Identifier.oneLine_convert l hname

/-! ## Members -/

/-- A member with canonical text and a name on one line. -/
structure Member.OneLine (m : ApiSurface.Member) : Prop where
  signature : ∀ text, m.signature = some text → Text.OneLine text.toList
  callback : ∀ text, m.callback = some text → Text.OneLine text.toList
  property : ∀ text, m.property = some text → Text.OneLine text.toList
  name : ∀ name, m.name = some name → Text.OneLine name.toList

/-- A view with names and types on one line. -/
structure MemberView.OneLine (v : MemberView) : Prop where
  name : ∀ name, v.name = some name → Text.OneLine name.toList
  type : ∀ t, v.type = some t → t.OneLine
  callable : ∀ s, v.callable = some s → s.OneLine

theorem MemberView.OneLine.shownName {v : MemberView} (h : v.OneLine) :
    Text.OneLine v.shownName.toList := by
  rw [MemberView.shownName]
  split
  · next s hs => exact (h.callable s hs).name
  · cases hname : v.name with
    | none => decide
    | some name => exact h.name name hname

/-- Notes on parameters leave a signature on one line. -/
theorem readDocumented_oneLine {text : String} {notes : List (String × ParameterNote)}
    {s : Signature MemberView} (htext : OneLine text.toList)
    (h : readDocumented l text notes = .ok s) : s.OneLine := by
  rw [readDocumented_eq] at h
  obtain ⟨plain, hplain, h⟩ := bind_eq_ok.mp h
  obtain ⟨ps, hps, rfl⟩ := map_eq_ok.mp h
  have hone := readSignature_oneLine htext hplain
  refine ⟨hone.name, fun p hp => ?_, hone.returnType⟩
  -- a note changes neither the type nor the name of a parameter
  have hwritten : p.written ∈ ps.map (·.written) := List.mem_map_of_mem hp
  rw [(attachNotes_spec hps).1] at hwritten
  obtain ⟨q, hq, heq⟩ := List.mem_map.mp hwritten
  obtain ⟨htype, hname⟩ := Prod.mk.inj heq
  exact ⟨hname ▸ (hone.parameters q hq).name, htype ▸ (hone.parameters q hq).type⟩

namespace Member

variable {m : ApiSurface.Member} {text : String}

theorem OneLine.functionText (hm : m.OneLine) (h : m.definition.functionText? = some text) :
    Text.OneLine text.toList := by
  rw [definition] at h
  split at h
  · next hsignature => exact hm.signature text (hsignature.trans h)
  · cases h
  · next hcallback => exact hm.callback text (hcallback.trans h)
  · cases h

theorem OneLine.propertyText (hm : m.OneLine) (h : m.definition = .property text) :
    Text.OneLine text.toList := by
  rw [definition] at h
  split at h
  · cases h
  · next hproperty =>
    cases h
    exact hm.property text hproperty
  · cases h
  · cases h

/-- What is viewed of a member on one line is on one line. -/
theorem view_oneLine {v : MemberView} (hm : m.OneLine) (h : m.view l = .ok v) : v.OneLine := by
  cases viewedAs h with
  | signature hdefinition _ hs | callback hdefinition _ hs =>
    have hone := readDocumented_oneLine (hm.functionText (congrArg _ hdefinition)) hs
    exact ⟨fun _ h => (nomatch h), fun _ h => (nomatch h), fun _ h => Option.some.inj h ▸ hone⟩
  | property hdefinition _ hp =>
    have hone := readParameter_oneLine (hm.propertyText hdefinition) hp
    exact ⟨fun _ h => Option.some.inj h ▸ hone.name, fun _ h => Option.some.inj h ▸ hone.type,
      fun _ h => (nomatch h)⟩
  | plain _ => exact ⟨hm.name, fun _ h => (nomatch h), fun _ h => (nomatch h)⟩

end Member

/-! ## Texts of types -/

namespace TypeTextRules

/-- Rules that replace names by texts on one line. -/
def OneLine (r : TypeTextRules) : Prop :=
  ∀ position, ∀ entry ∈ r.replacements position, Text.OneLine entry.2.toList

variable {r : TypeTextRules} {position : TypePosition}

theorem oneLine_of_lookup {entries : List (String × String)} {name text : String}
    (hentries : ∀ entry ∈ entries, Text.OneLine entry.2.toList)
    (h : entries.lookup name = some text) : Text.OneLine text.toList := by
  obtain ⟨before, after, rfl, -⟩ := List.lookup_eq_some_iff.mp h
  exact hentries (name, text) (by simp)

theorem oneLine_of_replaced? (hr : r.OneLine) {name text : String}
    (h : r.replaced? position name = some text) : Text.OneLine text.toList := by
  rw [replaced?] at h
  split at h
  · next hlookup =>
    obtain rfl := Option.some.inj h
    exact oneLine_of_lookup (hr position) hlookup
  · split at h
    · obtain rfl := Option.some.inj h
      decide
    · cases h

theorem oneLine_of_nativeText? {name text : String} (h : nativeText? name = some text) :
    Text.OneLine text.toList :=
  oneLine_of_lookup (by decide) h

theorem oneLine_of_word {name text : String} (hname : Text.OneLine name.toList)
    (h : r.form position name = .word text) : Text.OneLine text.toList := by
  rw [form] at h
  split at h
  · cases h
  · split at h
    · next hnative =>
      cases h
      exact oneLine_of_nativeText? hnative
    · split at h
      · cases h
      · split at h
        · cases h
        · cases h
          rw [Identifier.declaredName, String.toList_ofList]
          exact Identifier.oneLine_joinScopes (by decide) hname

theorem arrayText_oneLine {element : Option MappedType}
    (h : ∀ e, element = some e → Text.OneLine (r.typeText position e).toList) :
    Text.OneLine (r.arrayText position element).toList := by
  cases element with
  | none =>
    rw [arrayText]
    decide
  | some e =>
    have helement := h e rfl
    rw [arrayText]
    split
    · simp only [String.toList_append, Text.oneLine_append_iff]
      exact ⟨⟨by decide, helement⟩, by decide⟩
    · simp only [String.toList_append, Text.oneLine_append_iff]
      exact ⟨helement, by decide⟩

/-- A type with names on one line is written on one line. -/
theorem typeText_oneLine (hr : r.OneLine) {t : MappedType} (ht : t.OneLine) :
    Text.OneLine (r.typeText position t).toList := by
  induction ht with
  | @node t hname _ _ ihelement ihargs =>
    have hnull (base : String) (h : Text.OneLine base.toList) :
        Text.OneLine (if t.nullable then base ++ " | null" else base).toList := by
      split
      · rw [String.toList_append, Text.oneLine_append_iff]
        exact ⟨h, by decide⟩
      · exact h
    rw [typeText_eq]
    refine hnull _ ?_
    cases hform : r.form position t.name with
    | replaced text => exact oneLine_of_replaced? hr (form_eq_replaced_iff.mp hform)
    | word text => exact oneLine_of_word hname hform
    | list => exact arrayText_oneLine ihelement
    | tuple =>
      simp only [String.toList_append, Text.oneLine_append_iff, String.toList_intercalate,
        List.map_map]
      refine ⟨⟨by decide, .intercalate (by decide) ?_⟩, by decide⟩
      exact List.forall_mem_map.mpr ihargs

/-! ## Texts of functions -/

theorem parameterList_oneLine (hr : r.OneLine) {s : Signature Member} (hs : s.OneLine) :
    Text.OneLine (r.parameterList s).toList := by
  simp only [parameterList, String.toList_append, Text.oneLine_append_iff,
    String.toList_intercalate, List.map_map]
  refine ⟨⟨by decide, .intercalate (by decide) ?_⟩, by decide⟩
  refine List.forall_mem_map.mpr fun p hp => ?_
  simp only [Function.comp_apply, String.toList_append, Text.oneLine_append_iff]
  exact ⟨⟨(hs.parameters p hp).name, by decide⟩, typeText_oneLine hr (hs.parameters p hp).type⟩

theorem resultText_oneLine (hr : r.OneLine) {s : Signature Member} (hs : s.OneLine) :
    Text.OneLine (r.resultText s).toList := by
  rw [resultText]
  split
  · next t ht => exact typeText_oneLine hr (hs.returnType t ht)
  · decide

theorem methodText_oneLine (hr : r.OneLine) {s : Signature Member} (hs : s.OneLine) :
    Text.OneLine (r.methodText s).toList := by
  simp only [methodText, String.toList_append, Text.oneLine_append_iff]
  exact ⟨⟨parameterList_oneLine hr hs, by decide⟩, resultText_oneLine hr hs⟩

theorem arrowText_oneLine (hr : r.OneLine) {s : Signature Member} (hs : s.OneLine) :
    Text.OneLine (r.arrowText s).toList := by
  simp only [arrowText, String.toList_append, Text.oneLine_append_iff]
  exact ⟨⟨parameterList_oneLine hr hs, by decide⟩, resultText_oneLine hr hs⟩

end TypeTextRules

end ApiSurface
