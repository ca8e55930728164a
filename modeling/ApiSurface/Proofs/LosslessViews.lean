import Mathlib.Data.List.Forall2
import ApiSurface.Proofs.TypeTextMeaning
import ApiSurface.View.Json

/-!
# Views as documents lose nothing

A view is written without its absent options, its flags that are off and its empty lists. What was
left out can still be told from the rest: a record is written under distinct keys, each value is
found under its own key, and nothing is ever written that says the same as a field left out. So
documents that say the same come from equal views, through all members, signatures, parameters and
types, and a type is read back from its document.
-/

namespace ApiSurface

open Document (Value)

attribute [ext] MappedType Parameter Signature MemberView EntityView

/-! ## Documents that say the same -/

/-- Two documents say the same when they agree at every place; the fields of a mapping may come in
any order. -/
inductive Document.Value.Same : Value → Value → Prop
  | null : Same .null .null
  | bool (b : Bool) : Same (.bool b) (.bool b)
  | integer (n : Int) : Same (.integer n) (.integer n)
  | real (written : String) : Same (.real written) (.real written)
  | text (s : String) : Same (.text s) (.text s)
  | list {items items' : List Value} (h : List.Forall₂ Same items items') :
    Same (.list items) (.list items')
  | map {fields fields' : List (String × Value)}
    (h : ∀ key, Option.Rel Same (fields.lookup key) (fields'.lookup key)) :
    Same (.map fields) (.map fields')

theorem mem_of_lookup_eq_some {fields : List (String × Value)} {key : String} {v : Value}
    (h : fields.lookup key = some v) : (key, v) ∈ fields := by
  obtain ⟨before, after, rfl, -⟩ := List.lookup_eq_some_iff.mp h
  exact List.mem_append_right _ List.mem_cons_self

/-- A document says the same as itself. -/
theorem Document.Value.Same.refl : ∀ v : Value, v.Same v
  | .null => .null
  | .bool b => .bool b
  | .integer n => .integer n
  | .real written => .real written
  | .text s => .text s
  | .list items => .list (List.forall₂_same.mpr fun v _ => refl v)
  | .map fields => .map fun key => by
    cases hlookup : fields.lookup key with
    | none => exact .none
    | some v => exact .some (refl v)
termination_by v => sizeOf v
decreasing_by
  · next hv =>
    have hlt := List.sizeOf_lt_of_mem hv
    simp only [Value.list.sizeOf_spec]
    omega
  · have hlt := List.sizeOf_lt_of_mem (mem_of_lookup_eq_some hlookup)
    simp only [Prod.mk.sizeOf_spec, Value.map.sizeOf_spec] at hlt ⊢
    omega

@[simp] theorem same_text_iff {s s' : String} : (Value.text s).Same (.text s') ↔ s = s' :=
  ⟨fun h => by cases h; rfl, fun h => h ▸ .text s⟩

@[simp] theorem same_list_iff {items items' : List Value} :
    (Value.list items).Same (.list items') ↔ List.Forall₂ Value.Same items items' :=
  ⟨fun h => by cases h; assumption, .list⟩

@[simp] theorem same_map_iff {fields fields' : List (String × Value)} :
    (Value.map fields).Same (.map fields') ↔
      ∀ key, Option.Rel Value.Same (fields.lookup key) (fields'.lookup key) :=
  ⟨fun h => by cases h; assumption, .map⟩

@[simp] theorem rel_some_iff {v v' : Value} :
    Option.Rel Value.Same (some v) (some v') ↔ v.Same v' :=
  ⟨fun h => by cases h; assumption, .some⟩

@[simp] theorem not_rel_none_some {v : Value} : ¬Option.Rel Value.Same none (some v) :=
  nofun

@[simp] theorem not_rel_some_none {v : Value} : ¬Option.Rel Value.Same (some v) none :=
  nofun

/-! ## Records -/

/-- The fields of a record that have something to write. -/
def present (entries : List (String × Option Value)) : List (String × Value) :=
  entries.flatMap fun (key, value) => optionField key value

theorem present_cons (key : String) (value : Option Value) (entries : List (String × Option Value)) :
    present ((key, value) :: entries) = optionField key value ++ present entries :=
  rfl

theorem present_append (entries entries' : List (String × Option Value)) :
    present (entries ++ entries') = present entries ++ present entries' :=
  List.flatMap_append

theorem mem_keys_of_present {entries : List (String × Option Value)} {key : String} {value : Value}
    (h : (key, value) ∈ present entries) : key ∈ entries.map Prod.fst := by
  obtain ⟨⟨k, v?⟩, hentry, hmem⟩ := List.mem_flatMap.mp h
  cases v? with
  | none => cases hmem
  | some v =>
    obtain ⟨rfl, -⟩ := Prod.mk.inj (List.mem_singleton.mp hmem)
    exact List.mem_map.mpr ⟨_, hentry, rfl⟩

theorem lookup_present_eq_none {entries : List (String × Option Value)} {key : String}
    (h : key ∉ entries.map Prod.fst) : (present entries).lookup key = none := by
  rw [List.lookup_eq_none_iff]
  rintro ⟨k, value⟩ hmem
  have hne : key ≠ k := fun hk => h (hk ▸ mem_keys_of_present hmem)
  simpa using hne

/-- With distinct keys, looking up a key finds its own value or, when that was left out, nothing. -/
theorem lookup_present {entries : List (String × Option Value)} {key : String}
    {value : Option Value} (hnodup : (entries.map Prod.fst).Nodup) (hmem : (key, value) ∈ entries) :
    (present entries).lookup key = value := by
  induction entries with
  | nil => cases hmem
  | cons entry entries ih =>
    obtain ⟨hfresh, hdistinct⟩ := List.nodup_cons.mp hnodup
    obtain ⟨k, v?⟩ := entry
    rw [present_cons]
    cases List.mem_cons.mp hmem with
    | inl hfirst =>
      obtain ⟨rfl, rfl⟩ := Prod.mk.inj hfirst
      cases value with
      | none => exact lookup_present_eq_none hfresh
      | some v => exact List.lookup_cons_self
    | inr hrest =>
      have hne : (key == k) = false :=
        beq_false_of_ne fun hk => hfresh (hk ▸ List.mem_map.mpr ⟨_, hrest, rfl⟩)
      cases v? with
      | none => exact ih hdistinct hrest
      | some v =>
        rw [optionField, List.singleton_append, List.lookup_cons, hne]
        exact ih hdistinct hrest

/-- A flag as it is written. -/
def flagValue (flag : Bool) : Option Value :=
  if flag then some (.bool true) else none

/-- A list as it is written. -/
def listValue (items : List Value) : Option Value :=
  if items.isEmpty then none else some (.list items)

theorem flagField_eq (key : String) (flag : Bool) :
    flagField key flag = optionField key (flagValue flag) := by
  cases flag <;> rfl

theorem listField_eq (key : String) (items : List Value) :
    listField key items = optionField key (listValue items) := by
  cases items <;> rfl

/-- Records with the same distinct keys that say the same do so field by field. -/
theorem forall₂_of_same_present {entries entries' : List (String × Option Value)}
    (h : (Value.map (present entries)).Same (.map (present entries')))
    (hkeys : entries.map Prod.fst = entries'.map Prod.fst)
    (hnodup : (entries.map Prod.fst).Nodup) :
    List.Forall₂ (fun e e' => Option.Rel Value.Same e.2 e'.2) entries entries' := by
  have hlength : entries.length = entries'.length := by simpa using congrArg List.length hkeys
  refine List.forall₂_iff_get.mpr ⟨hlength, fun i hi hi' => ?_⟩
  have hkey : (entries.get ⟨i, hi⟩).1 = (entries'.get ⟨i, hi'⟩).1 := by
    have := List.getElem_of_eq hkeys (i := i) (by simpa using hi)
    simpa using this
  have hrel := same_map_iff.mp h (entries.get ⟨i, hi⟩).1
  rw [lookup_present hnodup (List.get_mem entries ⟨i, hi⟩), hkey,
    lookup_present (hkeys ▸ hnodup) (List.get_mem entries' ⟨i, hi'⟩)] at hrel
  exact hrel

@[simp] theorem rel_flagValue_iff {flag flag' : Bool} :
    Option.Rel Value.Same (flagValue flag) (flagValue flag') ↔ flag = flag' := by
  cases flag <;> cases flag' <;> simp [flagValue, Value.Same.refl]

@[simp] theorem rel_listValue_iff {items items' : List Value} :
    Option.Rel Value.Same (listValue items) (listValue items') ↔
      List.Forall₂ Value.Same items items' := by
  cases items <;> cases items' <;> simp [listValue]

section

variable {α : Type} {f : α → Value}

theorem eq_of_forall₂_map {as bs : List α} (h : ∀ a ∈ as, ∀ b, (f a).Same (f b) → a = b)
    (hsame : List.Forall₂ Value.Same (as.map f) (bs.map f)) : as = bs := by
  induction as generalizing bs with
  | nil => exact (List.map_eq_nil_iff.mp (List.forall₂_nil_left_iff.mp hsame)).symm
  | cons a as ih =>
    cases bs with
    | nil => cases hsame
    | cons b bs =>
      obtain ⟨ha, has⟩ := List.forall_mem_cons.mp h
      obtain ⟨hfirst, hrest⟩ := List.forall₂_cons.mp hsame
      rw [ha b hfirst, ih has hrest]

theorem eq_of_rel_map {a? b? : Option α} (h : ∀ a, a? = some a → ∀ b, (f a).Same (f b) → a = b)
    (hsame : Option.Rel Value.Same (a?.map f) (b?.map f)) : a? = b? := by
  cases a? with
  | none =>
    cases b? with
    | none => rfl
    | some b => cases hsame
  | some a =>
    cases b? with
    | none => cases hsame
    | some b => rw [h a rfl b (rel_some_iff.mp hsame)]

end

@[simp] theorem rel_map_text_iff {s s' : Option String} :
    Option.Rel Value.Same (s.map .text) (s'.map .text) ↔ s = s' := by
  cases s <;> cases s' <;> simp

/-! ## Types -/

theorem typeValues_eq_map (ts : List MappedType) :
    typeValues ts = ts.map MappedType.toValue := by
  induction ts with
  | nil => rfl
  | cons t ts ih => rw [typeValues, ih, List.map_cons]

theorem MappedType.toValue_eq (t : MappedType) :
    t.toValue = .map (present [("name", some (.text t.name)), ("id", t.id.map .text),
      ("nullable", flagValue t.nullable), ("elementType", t.element.map toValue),
      ("args", listValue (t.args.map toValue))]) := by
  obtain ⟨name, id, nullable, element, args⟩ := t
  rw [toValue, typeValues_eq_map, flagField_eq, listField_eq]
  cases element <;> simp [present, elementField, textField, optionalTextField, optionField]

/-- The fields of a type are read one after another. -/
theorem decodeTypeFields_append (t : MappedType) (fields more : List (String × Value)) :
    decodeTypeFields t (fields ++ more) =
      decodeTypeFields t fields >>= fun t => decodeTypeFields t more := by
  induction fields generalizing t with
  | nil =>
    conv_rhs => rw [decodeTypeFields.eq_def]
    rfl
  | cons field fields ih =>
    obtain ⟨key, value⟩ := field
    rw [List.cons_append, decodeTypeFields.eq_def]
    conv_rhs => rw [decodeTypeFields.eq_def]
    dsimp only
    split <;> simp [ih, Option.bind_assoc]

section

variable {name : String} {id : Option String} {nullable : Bool} {element : Option MappedType}
  {args : List MappedType}

theorem decodeTypeFields_name :
    decodeTypeFields { name } (optionField "name" (some (.text name))) = some { name } := by
  simp [optionField, decodeTypeFields]

theorem decodeTypeFields_id :
    decodeTypeFields { name } (optionField "id" (id.map .text)) = some { name, id } := by
  cases id <;> simp [optionField, decodeTypeFields]

theorem decodeTypeFields_nullable :
    decodeTypeFields { name, id } (optionField "nullable" (flagValue nullable)) =
      some { name, id, nullable } := by
  cases nullable <;> simp [optionField, flagValue, decodeTypeFields]

theorem decodeTypeFields_element (h : ∀ e ∈ element, MappedType.decode e.toValue = some e) :
    decodeTypeFields { name, id, nullable }
        (optionField "elementType" (element.map MappedType.toValue)) =
      some { name, id, nullable, element } := by
  cases element with
  | none => simp [optionField, decodeTypeFields]
  | some e =>
    have he := h e rfl
    rw [MappedType.toValue_eq] at he
    simp [optionField, decodeTypeFields, MappedType.toValue_eq, he]

theorem decodeTypes_map (h : ∀ a ∈ args, MappedType.decode a.toValue = some a) :
    decodeTypes (args.map MappedType.toValue) = some args := by
  induction args with
  | nil => rw [List.map_nil, decodeTypes]
  | cons a args ih =>
    obtain ⟨ha, hargs⟩ := List.forall_mem_cons.mp h
    rw [List.map_cons, decodeTypes, ha, ih hargs]
    rfl

theorem decodeTypeFields_args (h : ∀ a ∈ args, MappedType.decode a.toValue = some a) :
    decodeTypeFields { name, id, nullable, element }
        (optionField "args" (listValue (args.map MappedType.toValue))) =
      some { name, id, nullable, element, args } := by
  have hargs := decodeTypes_map h
  cases args with
  | nil => simp [listValue, optionField, decodeTypeFields]
  | cons a args =>
    rw [List.map_cons] at hargs
    simp [listValue, optionField, decodeTypeFields, hargs]

end

/-- A type is read back from its document. -/
theorem MappedType.decode_toValue (t : MappedType) : decode t.toValue = some t := by
  induction t using MappedType.induct with
  | node t ihelement ihargs =>
    obtain ⟨name, id, nullable, element, args⟩ := t
    have hname : (present [("name", some (.text name)), ("id", id.map .text),
        ("nullable", flagValue nullable), ("elementType", element.map toValue),
        ("args", listValue (args.map toValue))]).lookup "name" = some (.text name) := by
      rw [present_cons]
      rfl
    rw [toValue_eq, decode, hname]
    show decodeTypeFields { name } (present _) = _
    simp only [present_cons, decodeTypeFields_append, decodeTypeFields_name, decodeTypeFields_id,
      decodeTypeFields_nullable, Option.bind_eq_bind, Option.bind_some,
      decodeTypeFields_element ihelement, decodeTypeFields_args ihargs]
    rfl

/-- Types whose documents say the same are equal. -/
theorem MappedType.eq_of_same (t : MappedType) : ∀ t', t.toValue.Same t'.toValue → t = t' := by
  induction t using MappedType.induct with
  | node t ihelement ihargs =>
    intro t' h
    rw [toValue_eq, toValue_eq] at h
    have hfields := forall₂_of_same_present h rfl (by simp)
    simp only [List.forall₂_cons, rel_some_iff, same_text_iff, rel_map_text_iff, rel_flagValue_iff,
      rel_listValue_iff] at hfields
    obtain ⟨hname, hid, hnullable, helement, hargs, -⟩ := hfields
    exact MappedType.ext hname hid hnullable (eq_of_rel_map ihelement helement)
      (eq_of_forall₂_map ihargs hargs)

theorem eq_of_rel_map_type {t t' : Option MappedType}
    (h : Option.Rel Value.Same (t.map MappedType.toValue) (t'.map MappedType.toValue)) : t = t' :=
  eq_of_rel_map (fun t _ => t.eq_of_same) h

/-! ## Members -/

theorem Signature.sizeOf_property_lt {Member : Type} [SizeOf Member] {s : Signature Member}
    {p : Parameter Member} {q : Member} (hp : p ∈ s.parameters) (hq : q ∈ p.properties) :
    sizeOf q < sizeOf s := by
  have hlist := List.sizeOf_lt_of_mem hp
  have hitem := List.sizeOf_lt_of_mem hq
  obtain ⟨type, name, description, properties⟩ := p
  obtain ⟨name', parameters, returnType, display⟩ := s
  simp only [Parameter.mk.sizeOf_spec, Signature.mk.sizeOf_spec] at hlist hitem ⊢
  omega

/-- Induction on a member through the properties of its parameters. -/
theorem MemberView.induct {motive : MemberView → Prop}
    (node : ∀ m : MemberView,
      (∀ s, m.signature = some s → ∀ p ∈ s.parameters, ∀ q ∈ p.properties, motive q) →
      (∀ s, m.callback = some s → ∀ p ∈ s.parameters, ∀ q ∈ p.properties, motive q) → motive m) :
    ∀ m : MemberView, motive m
  | ⟨_, _, _, _, _, _, _, _, _⟩ =>
    node _ (fun _ _ _ _ q _ => MemberView.induct node q)
      (fun _ _ _ _ q _ => MemberView.induct node q)
termination_by m => sizeOf m
decreasing_by
  all_goals
    next hs p hp hq =>
    have hlt := Signature.sizeOf_property_lt hp hq
    obtain rfl := hs
    simp only [MemberView.mk.sizeOf_spec, Option.some.sizeOf_spec]
    omega

theorem memberValues_eq_map (ms : List MemberView) :
    memberValues ms = ms.map MemberView.toValue := by
  induction ms with
  | nil => rfl
  | cons m ms ih => rw [memberValues, ih, List.map_cons]

theorem parameterValues_eq_map (ps : List (Parameter MemberView)) :
    parameterValues ps = ps.map parameterValue := by
  induction ps with
  | nil => rfl
  | cons p ps ih => rw [parameterValues, ih, List.map_cons]

/-- The entries of a parameter. -/
theorem parameterValue_eq (p : Parameter MemberView) :
    parameterValue p = .map (present [("type", some p.type.toValue), ("name", some (.text p.name)),
      ("description", p.description.map .text),
      ("properties", listValue (p.properties.map MemberView.toValue))]) := by
  obtain ⟨type, name, description, properties⟩ := p
  rw [parameterValue, memberValues_eq_map, listField_eq]
  simp [present, textField, optionalTextField, optionField]

theorem signatureValue_eq (s : Signature MemberView) :
    signatureValue s = .map (present [("name", some (.text s.name)),
      ("parameters", some (.list (s.parameters.map parameterValue))),
      ("returnType", s.returnType.map MappedType.toValue), ("str", some (.text s.display))]) := by
  obtain ⟨name, parameters, returnType, display⟩ := s
  rw [signatureValue, parameterValues_eq_map]
  simp [present, textField, optionField]

theorem signatureField_eq (key : String) (s : Option (Signature MemberView)) :
    signatureField key s = optionField key (s.map signatureValue) := by
  cases s <;> rfl

theorem MemberView.toValue_eq (m : MemberView) :
    m.toValue = .map (present [("id", m.id.map .text), ("name", m.name.map .text),
      ("type", m.type.map MappedType.toValue), ("signature", m.signature.map signatureValue),
      ("callback", m.callback.map signatureValue), ("description", m.description.map .text),
      ("detail", m.detail.map .text), ("abstract", flagValue m.isAbstract),
      ("optional", flagValue m.isOptional)]) := by
  obtain ⟨id, name, type, signature, callback, description, detail, isAbstract, isOptional⟩ := m
  rw [toValue, signatureField_eq, signatureField_eq, flagField_eq, flagField_eq]
  simp [present, optionalTextField]

section

variable {p p' : Parameter MemberView} {s s' : Signature MemberView}

theorem Parameter.eq_of_same
    (hproperties : ∀ q ∈ p.properties, ∀ q', q.toValue.Same q'.toValue → q = q')
    (h : (parameterValue p).Same (parameterValue p')) : p = p' := by
  rw [parameterValue_eq, parameterValue_eq] at h
  have hfields := forall₂_of_same_present h rfl (by simp)
  simp only [List.forall₂_cons, rel_some_iff, same_text_iff, rel_map_text_iff,
    rel_listValue_iff] at hfields
  obtain ⟨htype, hname, hdescription, hlist, -⟩ := hfields
  exact Parameter.ext (MappedType.eq_of_same _ _ htype) hname hdescription
    (eq_of_forall₂_map hproperties hlist)

theorem Signature.eq_of_same
    (hproperties : ∀ p ∈ s.parameters, ∀ q ∈ p.properties, ∀ q', q.toValue.Same q'.toValue → q = q')
    (h : (signatureValue s).Same (signatureValue s')) : s = s' := by
  rw [signatureValue_eq, signatureValue_eq] at h
  have hfields := forall₂_of_same_present h rfl (by simp)
  simp only [List.forall₂_cons, rel_some_iff, same_text_iff, same_list_iff] at hfields
  obtain ⟨hname, hparameters, hreturn, hdisplay, -⟩ := hfields
  exact Signature.ext hname
    (eq_of_forall₂_map (fun p hp _ => Parameter.eq_of_same (hproperties p hp)) hparameters)
    (eq_of_rel_map_type hreturn) hdisplay

end

/-- Members whose documents say the same are equal. -/
theorem MemberView.eq_of_same (m : MemberView) : ∀ m', m.toValue.Same m'.toValue → m = m' := by
  induction m using MemberView.induct with
  | node m ihsignature ihcallback =>
    intro m' h
    rw [toValue_eq, toValue_eq] at h
    have hfields := forall₂_of_same_present h rfl (by simp)
    simp only [List.forall₂_cons, rel_map_text_iff, rel_flagValue_iff] at hfields
    obtain ⟨hid, hname, htype, hsignature, hcallback, hdescription, hdetail, habstract, hoptional,
      -⟩ := hfields
    exact MemberView.ext hid hname (eq_of_rel_map_type htype)
      (eq_of_rel_map (fun s hs _ => Signature.eq_of_same (ihsignature s hs)) hsignature)
      (eq_of_rel_map (fun s hs _ => Signature.eq_of_same (ihcallback s hs)) hcallback)
      hdescription hdetail habstract hoptional

/-! ## Entities -/

theorem sectionFields_eq (s : Sections MemberView) :
    sectionFields s =
      present (Category.all.map fun c => (c.key, listValue ((s.get c).map MemberView.toValue))) := by
  simp only [sectionFields, present, List.flatMap_map, memberValues_eq_map, listField_eq]

theorem Category.mem_all (c : Category) : c ∈ Category.all := by
  cases c <;> decide

/-- The members of all categories together are what an entity has. -/
theorem Sections.ext_get {α : Type} {s s' : Sections α} (h : ∀ c, s.get c = s'.get c) : s = s' := by
  obtain ⟨globalFunctions, constructors, classProperties, classMethods, properties, methods, events,
    delegates, enums⟩ := s
  obtain rfl : globalFunctions = _ := h .globalFunctions
  obtain rfl : constructors = _ := h .constructors
  obtain rfl : classProperties = _ := h .classProperties
  obtain rfl : classMethods = _ := h .classMethods
  obtain rfl : properties = _ := h .properties
  obtain rfl : methods = _ := h .methods
  obtain rfl : events = _ := h .events
  obtain rfl : delegates = _ := h .delegates
  obtain rfl : enums = _ := h .enums
  rfl

/-- What is written of an entity besides its members. -/
def EntityView.ownEntries (v : EntityView) : List (String × Option Value) :=
  [("id", some (.text v.id)), ("name", some (.text v.name)), ("type", some (.text v.kind)),
    ("component", v.component.map .text), ("module", v.module.map .text),
    ("header", v.header.map .text), ("namespace", v.scope.map .text),
    ("inherit", v.base.map MappedType.toValue), ("description", v.description.map .text),
    ("detail", v.detail.map .text), ("singleton", flagValue v.isSingleton)]

/-- What is written of the members of an entity. -/
def EntityView.memberEntries (v : EntityView) : List (String × Option Value) :=
  Category.all.map fun c => (c.key, listValue ((v.members.get c).map MemberView.toValue))

theorem EntityView.toValue_eq (v : EntityView) :
    v.toValue = .map (present (v.ownEntries ++ v.memberEntries)) := by
  rw [toValue, present_append, memberEntries, ← sectionFields_eq, flagField_eq]
  simp [present, ownEntries, textField, optionalTextField, optionField]

/-- No two fields of an entity have one key. -/
theorem EntityView.nodup_keys (v : EntityView) :
    ((v.ownEntries ++ v.memberEntries).map Prod.fst).Nodup := by
  have hkeys : (v.ownEntries ++ v.memberEntries).map Prod.fst =
      ["id", "name", "type", "component", "module", "header", "namespace", "inherit",
        "description", "detail", "singleton"] ++ Category.all.map Category.key := by
    simp [ownEntries, memberEntries]
  rw [hkeys]
  decide

/-- Entities whose documents say the same are equal. -/
theorem EntityView.eq_of_same {v w : EntityView} (h : v.toValue.Same w.toValue) : v = w := by
  rw [toValue_eq, toValue_eq] at h
  have hfields := forall₂_of_same_present h (by simp [ownEntries, memberEntries]) v.nodup_keys
  simp only [ownEntries, memberEntries, List.cons_append, List.nil_append, List.forall₂_cons,
    List.forall₂_map_left_iff, List.forall₂_map_right_iff, List.forall₂_same, rel_some_iff,
    same_text_iff, rel_map_text_iff, rel_flagValue_iff, rel_listValue_iff] at hfields
  obtain ⟨hid, hname, hkind, hcomponent, hmodule, hheader, hscope, hbase, hdescription, hdetail,
    hsingleton, hmembers⟩ := hfields
  have hget : ∀ c, v.members.get c = w.members.get c := fun c =>
    eq_of_forall₂_map (fun m _ => m.eq_of_same)
      ((List.forall₂_map_left_iff.trans List.forall₂_map_right_iff).mpr (hmembers c c.mem_all))
  exact EntityView.ext hid hname hkind hcomponent hmodule hheader hscope (eq_of_rel_map_type hbase)
    hdescription hdetail hsingleton (Sections.ext_get hget)

/-- **Documents lose nothing**: a type is read back from its document, and entities are told apart
by their documents, even when the order of fields does not count. -/
theorem views_lossless :
    (∀ t : MappedType, MappedType.decode t.toValue = some t) ∧
      ∀ v w : EntityView,
        (v.toValue = w.toValue ↔ v = w) ∧ (v.toValue.Same w.toValue ↔ v = w) := by
  refine ⟨MappedType.decode_toValue, fun v w => ?_⟩
  have hsame : v = w → v.toValue.Same w.toValue := fun h => h ▸ Value.Same.refl v.toValue
  exact ⟨⟨fun h => EntityView.eq_of_same (h ▸ Value.Same.refl v.toValue), congrArg _⟩,
    EntityView.eq_of_same, hsame⟩

end ApiSurface
