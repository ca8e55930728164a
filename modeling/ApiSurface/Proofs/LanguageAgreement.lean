import Mathlib.Data.List.Forall2
import ApiSurface.Anchor
import ApiSurface.Proofs.TypeForms

/-!
# One signature in three languages

Reading a signature takes the same steps in every language. What differs is how names are cased and
what types map to, and of the latter only this matters here: JavaScript maps the elements of a
sequence and may find a fault there that the other two do not see.

`Agree` relates two readings of one text, and each step of reading keeps it, from `mapToken` up to
`readSignature`. So C++ and Lua come to the same faults, and what can be read in JavaScript can be
read in both. Since C++ leaves names alone, its signature has the canonical names, and the other
languages show these in their own case (`Signature.Shows`).
-/

namespace ApiSurface

/-! ## Readings that agree -/

/-- Two readings come to values that are related, or to the same fault. Under `lenient`, a fault of
the first says nothing about the second. -/
inductive Agree {ε α β : Type} (lenient : Prop) (related : α → β → Prop) :
    Except ε α → Except ε β → Prop
  | value {a : α} {b : β} : related a b → Agree lenient related (.ok a) (.ok b)
  | fault (e : ε) : Agree lenient related (.error e) (.error e)
  | waived (e : ε) (r : Except ε β) : lenient → Agree lenient related (.error e) r

namespace Agree

variable {ε α β γ δ : Type} {lenient : Prop} {related : α → β → Prop} {related' : γ → δ → Prop}
variable {r : Except ε α} {r' : Except ε β}

theorem bind {f : α → Except ε γ} {g : β → Except ε δ} (h : Agree lenient related r r')
    (hfg : ∀ a b, related a b → Agree lenient related' (f a) (g b)) :
    Agree lenient related' (r >>= f) (r' >>= g) := by
  cases h with
  | value hab => exact hfg _ _ hab
  | fault e => exact .fault e
  | waived e _ hlenient => exact .waived e _ hlenient

/-- More may be left open. -/
theorem weaken {lenient' : Prop} (h : Agree lenient related r r') (himp : lenient → lenient') :
    Agree lenient' related r r' := by
  cases h with
  | value hab => exact .value hab
  | fault e => exact .fault e
  | waived e _ hlenient => exact .waived e _ (himp hlenient)

theorem map {f : α → γ} {g : β → δ} (h : Agree lenient related r r')
    (hfg : ∀ a b, related a b → related' (f a) (g b)) :
    Agree lenient related' (r.map f) (r'.map g) := by
  cases h with
  | value hab => exact .value (hfg _ _ hab)
  | fault e => exact .fault e
  | waived e _ hlenient => exact .waived e _ hlenient

/-- Lists are read alike when each of their members is. -/
theorem mapM {ι : Type} {f : ι → Except ε α} {g : ι → Except ε β} {items : List ι}
    (h : ∀ i ∈ items, Agree lenient related (f i) (g i)) :
    Agree lenient (List.Forall₂ related) (items.mapM f) (items.mapM g) := by
  induction items with
  | nil => exact .value .nil
  | cons i items ih =>
    obtain ⟨hi, hitems⟩ := List.forall_mem_cons.mp h
    rw [List.mapM_cons, List.mapM_cons]
    refine hi.bind fun a b hab => (ih hitems).bind fun as bs habs => ?_
    exact .value (.cons hab habs)

/-- Where the first reading comes to a value, so does the second. -/
theorem exists_ok {a : α} (h : Agree lenient related (.ok a) r') :
    ∃ b, r' = .ok b ∧ related a b := by
  cases h with
  | value hab => exact ⟨_, rfl, hab⟩

/-- Unless faults are left open, both readings come to the same ones. -/
theorem error_iff (h : Agree lenient related r r') (hlenient : ¬ lenient) (e : ε) :
    r = .error e ↔ r' = .error e := by
  cases h with
  | value _ => simp
  | fault _ => simp
  | waived _ _ h => exact absurd h hlenient

end Agree

/-! ## Types -/

variable {a b : Language}

/-- Only JavaScript looks inside a sequence. -/
theorem mapForm_agree {lenient : Prop} (hjs : b = .js → a = .js) {form : TypeForm}
    (hparts : ∀ part ∈ form.parts,
      Agree lenient (fun _ _ => True) (mapToken a part) (mapToken b part))
    (hsequence : ∀ inner, form = .sequence inner → a = .js → lenient) :
    Agree lenient (fun _ _ => True) (mapForm a form) (mapForm b form) := by
  cases form with
  | name name => exact .value trivial
  | smartPointer inner => exact hparts inner List.mem_cons_self
  | optional inner => exact (hparts inner List.mem_cons_self).map fun _ _ _ => trivial
  | tuple pieces => exact (Agree.mapM hparts).map fun _ _ _ => trivial
  | sequence inner =>
    rw [mapForm, mapForm]
    by_cases hb : b = .js
    · rw [if_pos (hjs hb), if_pos hb]
      exact (hparts inner List.mem_cons_self).map fun _ _ _ => trivial
    · rw [if_neg hb]
      split
      · next ha =>
        -- only the first language maps the elements
        cases mapToken a inner with
        | error e => exact .waived e _ (hsequence inner rfl ha)
        | ok element => exact .value trivial
      · exact .value trivial

/-- A type that JavaScript can map can be mapped in every language, and the other two come to the
same faults. So does JavaScript with a token that names no sequence. -/
theorem mapToken_agree_of (hjs : b = .js → a = .js) (token : List Char) :
    Agree (a = .js ∧ NamesSequence token) (fun _ _ => True) (mapToken a token)
      (mapToken b token) := by
  induction token using token_induction with
  | h token ih =>
    rw [mapToken_eq_form, mapToken_eq_form]
    cases hform : tokenForm token with
    | error e => exact .fault e
    | ok form =>
      have hparts : ∀ part ∈ form.parts, Agree (a = .js ∧ NamesSequence token) (fun _ _ => True)
          (mapToken a part) (mapToken b part) := fun part hpart =>
        (ih form hform part hpart).weaken <| And.imp_right fun hnames =>
          hnames.mono (tokenForm_parts hform part hpart).1
      have hagree := mapForm_agree hjs hparts fun inner hinner ha =>
        ⟨ha, namesSequence_of_tokenForm (hinner ▸ hform)⟩
      exact hagree.map fun _ _ _ => trivial

theorem mapToken_agree (hjs : b = .js → a = .js) (token : List Char) :
    Agree (a = .js) (fun _ _ => True) (mapToken a token) (mapToken b token) :=
  (mapToken_agree_of hjs token).weaken And.left

/-! ## Names -/

/-- Two names are the forms of one canonical name in two languages. -/
def SameName (a b : Language) (x y : String) : Prop :=
  ∃ name : List Char,
    x = String.ofList (Identifier.convert a name) ∧ y = String.ofList (Identifier.convert b name)

/-- C++ shows the canonical name. -/
theorem SameName.eq_converted {x y : String} (h : SameName a .cpp x y) :
    x = Identifier.converted a y := by
  obtain ⟨name, rfl, rfl⟩ := h
  rw [Identifier.converted, String.toList_ofList]
  rfl

/-! ## Signatures -/

variable {Member Member' : Type}

theorem readParameter_agree (hjs : b = .js → a = .js) (context text : List Char) :
    Agree (a = .js)
      (fun (p : Parameter Member) (p' : Parameter Member') => SameName a b p.name p'.name)
      (readParameter a context text) (readParameter b context text) := by
  rw [readParameter_eq, readParameter_eq]
  simp only []
  split
  · exact .fault _
  · exact .fault _
  · split
    · exact .fault _
    · exact (mapToken_agree hjs _).map fun _ _ _ => ⟨_, rfl, rfl⟩

theorem readParameters_agree (hjs : b = .js → a = .js) (source list : List Char) :
    Agree (a = .js)
      (List.Forall₂ fun (p : Parameter Member) (p' : Parameter Member') =>
        SameName a b p.name p'.name)
      (readParameters a source list) (readParameters b source list) := by
  rw [readParameters_eq, readParameters_eq]
  split
  · exact .value .nil
  · split
    · exact .fault _
    · refine Agree.mapM fun item _ => ?_
      split
      · exact .fault _
      · exact readParameter_agree hjs source item

theorem readHead_agree (hjs : b = .js → a = .js) (source head trailing : List Char) :
    Agree (a = .js) (fun h h' => h.2 = h'.2 ∧ h.1.isSome = h'.1.isSome)
      (readHead a source head trailing) (readHead b source head trailing) := by
  rw [readHead_eq, readHead_eq]
  split
  · exact .fault _
  · split
    · exact .value ⟨rfl, rfl⟩
    · exact .fault _
  · simp only []
    split
    · exact .value ⟨rfl, rfl⟩
    · exact (mapToken_agree hjs _).map fun _ _ _ => ⟨rfl, rfl⟩

/-- The names of a signature in two languages come from the same canonical ones, and it returns
something in both or in none. -/
structure SameSignature (a b : Language) (s : Signature Member) (s' : Signature Member') :
    Prop where
  name : SameName a b s.name s'.name
  parameters : List.Forall₂ (fun p p' => SameName a b p.name p'.name) s.parameters s'.parameters
  returns : s.returnType.isSome = s'.returnType.isSome

theorem readSignature_agree (hjs : b = .js → a = .js) (text : List Char) :
    Agree (a = .js) (SameSignature a b)
      (readSignature a text : Except ParseError (Signature Member))
      (readSignature b text : Except ParseError (Signature Member')) := by
  rw [readSignature_eq, readSignature_eq]
  simp only []
  split
  · exact .fault _
  · exact .fault _
  · split
    · exact .fault _
    · refine (readHead_agree hjs _ _ _).bind fun ⟨returnType, name⟩ ⟨returnType', name'⟩ hhead => ?_
      -- both heads leave the same name, so its check comes out alike
      obtain ⟨rfl, hreturns⟩ := hhead
      simp only []
      split
      · exact .fault _
      · exact (readParameters_agree hjs _ _).map fun _ _ hparameters =>
          ⟨⟨name, rfl, rfl⟩, hparameters, hreturns⟩

/-! ## What the languages share -/

/-- A signature in a language shows the names of the canonical one in its own case, and returns
something when that does. -/
structure Signature.Shows (l : Language) (c : Signature Member) (s : Signature Member') : Prop where
  name : s.name = Identifier.converted l c.name
  names : s.parameters.map (·.name) = c.parameters.map fun p => Identifier.converted l p.name
  returns : s.returnType.isSome = c.returnType.isSome

theorem Signature.Shows.length_eq {l : Language} {c : Signature Member} {s : Signature Member'}
    (h : c.Shows l s) : s.parameters.length = c.parameters.length := by
  simpa using congrArg List.length h.names

theorem SameSignature.shows {s : Signature Member} {c : Signature Member'}
    (h : SameSignature a .cpp s c) : c.Shows a s := by
  refine ⟨h.name.eq_converted, ?_, h.returns⟩
  rw [← List.forall₂_eq_eq_eq, List.forall₂_map_left_iff, List.forall₂_map_right_iff]
  exact h.parameters.imp fun _ _ hname => hname.eq_converted

variable (Member') in
/-- What can be read in some language can be read in C++ and shows the names of that signature. -/
theorem Signature.exists_parse_cpp {text : String} {s : Signature Member}
    (h : Signature.parse a text = .ok s) :
    ∃ c : Signature Member', Signature.parse .cpp text = .ok c ∧ c.Shows a s := by
  have hagree := @readSignature_agree a .cpp Member Member' (fun h => by cases h) text.toList
  rw [← Signature.parse, h] at hagree
  obtain ⟨c, hc, hsame⟩ := hagree.exists_ok
  exact ⟨c, hc, hsame.shows⟩

variable (Member') in
/-- The name of a parameter in some language is the canonical one, which C++ shows, in its case. -/
theorem Parameter.exists_parse_cpp {text : String} {p : Parameter Member}
    (h : Parameter.parse a text = .ok p) :
    ∃ c : Parameter Member', Parameter.parse .cpp text = .ok c ∧
      p.name = Identifier.converted a c.name := by
  have hagree := @readParameter_agree a .cpp Member Member' (fun h => by cases h)
    text.toList text.toList
  rw [← Parameter.parse, h] at hagree
  obtain ⟨c, hc, hname⟩ := hagree.exists_ok
  exact ⟨c, hc, hname.eq_converted⟩

variable (Member') in
/-- What can be read in C++ can be read in Lua. -/
theorem Signature.exists_parse_lua {text : String} {c : Signature Member}
    (h : Signature.parse .cpp text = .ok c) :
    ∃ s : Signature Member', Signature.parse .lua text = .ok s ∧ c.Shows .lua s := by
  have hagree := @readSignature_agree .cpp .lua Member Member' (fun h => by cases h) text.toList
  rw [← Signature.parse, h] at hagree
  obtain ⟨s, hs, -⟩ := hagree.exists_ok
  obtain ⟨c', hc', hshows⟩ := Signature.exists_parse_cpp Member hs
  obtain rfl : c = c' := Except.ok.inj (h.symm.trans hc')
  exact ⟨s, hs, hshows⟩

theorem intercalate_eq_foldl (separator first : String) (rest : List String) :
    separator.intercalate (first :: rest) =
      rest.foldl (fun text s => text ++ separator ++ s) first := by
  induction rest generalizing first with
  | nil => rfl
  | cons s rest ih => exact ih (first ++ separator ++ s)

/-- The Lua forms of the names of a canonical signature, with that of the function in front. -/
def Signature.luaNames (c : Signature Member) : List String :=
  Identifier.converted .lua c.name :: c.parameters.map fun p => Identifier.converted .lua p.name

/-- The anchor of a function is made of the Lua forms of its canonical names. -/
theorem Anchor.ofSignature_eq_intercalate {text : String} {c : Signature Member}
    (h : Signature.parse .cpp text = .ok c) :
    Anchor.ofSignature text = .ok (Anchor.separator.intercalate c.luaNames) := by
  obtain ⟨s, hs, hshows⟩ := Signature.exists_parse_lua Empty h
  rw [Anchor.ofSignature, hs]
  show Except.ok (Anchor.separator.intercalate (s.name :: s.parameters.map (·.name))) = _
  rw [hshows.name, hshows.names]
  rfl

theorem Anchor.ofSignature_eq {text : String} {c : Signature Member}
    (h : Signature.parse .cpp text = .ok c) :
    Anchor.ofSignature text =
      .ok (c.parameters.foldl (fun id p => id ++ "-" ++ Identifier.converted .lua p.name)
        (Identifier.converted .lua c.name)) := by
  rw [Anchor.ofSignature_eq_intercalate h, Signature.luaNames, intercalate_eq_foldl, List.foldl_map]
  rfl

/-- The languages see one signature. C++ and Lua find the same fault in a text or none, and a text
that JavaScript can read they can read too. All that can read a text see as many parameters, and a
return type or none; the names they show are the canonical ones in their own case, and the anchor is
made of these too. -/
theorem parse_agree (text : String) :
    (∀ e, (Signature.parse .cpp text : Except ParseError (Signature Member)) = .error e ↔
      (Signature.parse .lua text : Except ParseError (Signature Member)) = .error e) ∧
    (∀ s : Signature Member, Signature.parse .js text = .ok s →
      (∃ c : Signature Member, Signature.parse .cpp text = .ok c) ∧
        ∃ u : Signature Member, Signature.parse .lua text = .ok u) ∧
    ∀ (a b : Language) (s s' : Signature Member),
      Signature.parse a text = .ok s → Signature.parse b text = .ok s' →
      s.parameters.length = s'.parameters.length ∧
      s.returnType.isSome = s'.returnType.isSome ∧
      ∃ c : Signature Member, Signature.parse .cpp text = .ok c ∧ c.Shows a s ∧ c.Shows b s' ∧
        Anchor.ofSignature text =
          .ok (c.parameters.foldl (fun id p => id ++ "-" ++ Identifier.converted .lua p.name)
            (Identifier.converted .lua c.name)) := by
  refine ⟨fun e => ?_, fun s hs => ?_, fun a b s s' hs hs' => ?_⟩
  · have hagree := @readSignature_agree .cpp .lua Member Member (fun h => by cases h) text.toList
    exact hagree.error_iff (by decide) e
  · obtain ⟨c, hc, -⟩ := Signature.exists_parse_cpp Member hs
    obtain ⟨u, hu, -⟩ := Signature.exists_parse_lua Member hc
    exact ⟨⟨c, hc⟩, u, hu⟩
  · obtain ⟨c, hc, hshows⟩ := Signature.exists_parse_cpp Member hs
    obtain ⟨c', hc', hshows'⟩ := Signature.exists_parse_cpp Member hs'
    obtain rfl : c = c' := Except.ok.inj (hc.symm.trans hc')
    have hlength : s.parameters.length = s'.parameters.length := by
      rw [hshows.length_eq, hshows'.length_eq]
    exact ⟨hlength, hshows.returns.trans hshows'.returns.symm, c, hc, hshows, hshows',
      Anchor.ofSignature_eq hc⟩

/-- The JavaScript and the Lua form of a function show the names of one canonical signature. -/
theorem parse_agree_function :
    let text := "Menu* Add_Item(const std::string& Item_Title, int Index)"
    ∃ s u : Signature Empty, Signature.parse .js text = .ok s ∧ Signature.parse .lua text = .ok u ∧
      (s.display = "addItem(itemTitle, index)" ∧
        s.parameters.map (·.type.name) = ["String", "Integer"] ∧
        s.returnType.map (·.name) = some "Menu") ∧
      (u.display = "additem(itemtitle, index)" ∧
        u.parameters.map (·.type.name) = ["string", "integer"] ∧
        u.returnType.map (·.name) = some "Menu") ∧
      ∃ c : Signature Empty, Signature.parse .cpp text = .ok c ∧ c.Shows .js s ∧ c.Shows .lua u ∧
        Anchor.ofSignature text =
          .ok (c.parameters.foldl (fun id p => id ++ "-" ++ Identifier.converted .lua p.name)
            (Identifier.converted .lua c.name)) := by
  intro text
  have hjs := eq_ok_of_isOk (r := (Signature.parse .js text : Except _ (Signature Empty)))
    (by decide +kernel) ⟨"", [], none, ""⟩
  have hlua := eq_ok_of_isOk (r := (Signature.parse .lua text : Except _ (Signature Empty)))
    (by decide +kernel) ⟨"", [], none, ""⟩
  refine ⟨_, _, hjs, hlua, by decide +kernel, by decide +kernel, ?_⟩
  exact ((parse_agree text).2.2 .js .lua _ _ hjs hlua).2.2

end ApiSurface
