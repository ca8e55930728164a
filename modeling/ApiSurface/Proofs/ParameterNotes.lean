import Mathlib.Data.List.Pairwise
import ApiSurface.Proofs.LanguageAgreement
import ApiSurface.Proofs.LowercaseForms
import ApiSurface.Proofs.Outcomes
import ApiSurface.Proofs.SignatureParts
import ApiSurface.Proofs.SignatureReading
import ApiSurface.Proofs.ViewOrigins

/-!
# Notes and the parameters they are written for

A note is written for a canonical name and is attached by its key: to the first parameter that shows
the key itself or its converted form (`target?`). The converted form is what the parameter of that
name shows, but an earlier parameter may show the key itself, and then gets the note instead. In
JavaScript this happens with `_a` and `A`, which show `A` and `a`.

A parameter has in the end what some note says whose target it is, or nothing where there is no such
note (`attachNotes_spec`, from what one note does by induction over the notes). So all notes reach
the parameters they were written for just when none of the documented names is shown by an earlier
parameter (`Unshadowed`). That holds in C++ and in Lua, whose converted names stay as they are when
they are converted again.
-/

namespace ApiSurface

/-! ## One note -/

variable {l : Language} {key : String} {note : ParameterNote}
  {ps ps' : List (Parameter MemberView)}

/-- The place of the parameter that a note goes to, given the names that the parameters show. -/
def target? (l : Language) (shown : List String) (key : String) : Option Nat :=
  shown.findIdx? fun name => name = key ∨ name = Identifier.converted l key

/-- What the signature itself says of a parameter. -/
def Parameter.written (p : Parameter MemberView) : MappedType × String :=
  (p.type, p.name)

/-- The parameter has what the note says. -/
structure Parameter.Bears (note : ParameterNote) (p : Parameter MemberView) : Prop where
  description : p.description = note.description
  properties : note.properties = .ok p.properties

theorem attachNote_eq (l : Language) (key : String) (note : ParameterNote)
    (ps : List (Parameter MemberView)) :
    attachNote l key note ps =
      match target? l (ps.map (·.name)) key with
      | none => .ok ps
      | some i => note.properties.map fun properties =>
        ps.modify i fun p => { p with description := note.description, properties } := by
  induction ps with
  | nil => rfl
  | cons p ps ih =>
    rw [attachNote, List.map_cons, target?, List.findIdx?_cons]
    split
    · next h =>
      rw [if_pos (decide_eq_true h)]
      cases note.properties <;> rfl
    · next h =>
      rw [if_neg (by simpa using h), ← target?, ih]
      cases target? l (ps.map (·.name)) key with
      | none => rfl
      | some i => cases note.properties <;> rfl

/-- A note changes the parameter that is its target and no other, and leaves types and names as they
are. -/
theorem attachNote_spec (h : attachNote l key note ps = .ok ps') :
    ps'.map (·.written) = ps.map (·.written) ∧
      ∀ j p, ps'[j]? = some p →
        if target? l (ps.map (·.name)) key = some j then p.Bears note else ps[j]? = some p := by
  rw [attachNote_eq] at h
  cases htarget : target? l (ps.map (·.name)) key with
  | none =>
    rw [htarget] at h
    cases h
    exact ⟨rfl, fun j p hp => hp⟩
  | some i =>
    simp only [htarget] at h
    cases hproperties : note.properties with
    | error e =>
      rw [hproperties] at h
      cases h
    | ok properties =>
      rw [hproperties] at h
      cases h
      refine ⟨List.ext_getElem? fun j => ?_, fun j p hp => ?_⟩
      · rw [List.getElem?_map, List.getElem?_modify, List.getElem?_map]
        cases ps[j]? with
        | none => rfl
        | some p =>
          show some (Parameter.written (if i = j then _ else _)) = some p.written
          split <;> rfl
      · rw [List.getElem?_modify] at hp
        obtain ⟨q, hq, hqp⟩ := Option.map_eq_some_iff.mp hp
        split
        · next hij =>
          rw [if_pos (Option.some.inj hij)] at hqp
          exact hqp ▸ ⟨rfl, hproperties⟩
        · next hij =>
          rw [if_neg fun h => hij (congrArg some h)] at hqp
          rw [hq, hqp]

/-! ## All notes -/

variable {notes : List (String × ParameterNote)}

/-- Attaches notes one after another. -/
def attachNotes (l : Language) (notes : List (String × ParameterNote))
    (ps : List (Parameter MemberView)) : Except ParseError (List (Parameter MemberView)) :=
  notes.foldlM (fun ps (key, note) => attachNote l key note ps) ps

theorem attachNotes_cons (l : Language) (key : String) (note : ParameterNote)
    (notes : List (String × ParameterNote)) (ps : List (Parameter MemberView)) :
    attachNotes l ((key, note) :: notes) ps = attachNote l key note ps >>= attachNotes l notes :=
  List.foldlM_cons

theorem map_name_eq_of_written (h : ps'.map (·.written) = ps.map (·.written)) :
    ps'.map (·.name) = ps.map (·.name) := by
  have hnames := congrArg (List.map Prod.snd) h
  rwa [List.map_map, List.map_map] at hnames

/-- After all notes, a parameter has what some note says whose target it is, or is as it was when it
is the target of none. -/
theorem attachNotes_spec (h : attachNotes l notes ps = .ok ps') :
    ps'.map (·.written) = ps.map (·.written) ∧
      ∀ j p, ps'[j]? = some p →
        (∃ n ∈ notes, target? l (ps.map (·.name)) n.1 = some j ∧ p.Bears n.2) ∨
          (∀ n ∈ notes, target? l (ps.map (·.name)) n.1 ≠ some j) ∧ ps[j]? = some p := by
  induction notes generalizing ps with
  | nil =>
    cases h
    exact ⟨rfl, fun j p hp => .inr ⟨fun n hn => (nomatch hn), hp⟩⟩
  | cons n notes ih =>
    obtain ⟨key, note⟩ := n
    rw [attachNotes_cons] at h
    cases hfirst : attachNote l key note ps with
    | error e =>
      rw [hfirst] at h
      cases h
    | ok middle =>
      rw [hfirst] at h
      obtain ⟨hwritten, hstep⟩ := attachNote_spec hfirst
      obtain ⟨hwritten', hrest⟩ := ih h
      -- the first note changes no name, so it moves no target
      rw [map_name_eq_of_written hwritten] at hrest
      refine ⟨hwritten'.trans hwritten, fun j p hp => ?_⟩
      obtain ⟨n, hn, hbears⟩ | ⟨hnone, hmiddle⟩ := hrest j p hp
      · exact .inl ⟨n, .tail _ hn, hbears⟩
      · have hp := hstep j p hmiddle
        split at hp
        · next htarget => exact .inl ⟨_, .head _, htarget, hp⟩
        · next htarget => exact .inr ⟨List.forall_mem_cons.mpr ⟨htarget, hnone⟩, hp⟩

/-- Notes whose properties can be viewed can be attached. -/
theorem exists_attachNotes (h : ∀ n ∈ notes, ∃ vs, n.2.properties = .ok vs) :
    ∃ ps', attachNotes l notes ps = .ok ps' := by
  induction notes generalizing ps with
  | nil => exact ⟨ps, rfl⟩
  | cons n notes ih =>
    obtain ⟨key, note⟩ := n
    obtain ⟨⟨vs, hvs⟩, hnotes⟩ := List.forall_mem_cons.mp h
    rw [attachNotes_cons, attachNote_eq, hvs]
    cases target? l (ps.map (·.name)) key with
    | none => exact ih hnotes
    | some i => exact ih hnotes

/-! ## What is read has no notes -/

/-- Nothing is said about the parameter. -/
def Parameter.Bare (p : Parameter MemberView) : Prop :=
  p.description = none ∧ p.properties = []

theorem readParameter_bare {context text : List Char} {p : Parameter MemberView}
    (h : readParameter l context text = .ok p) : p.Bare := by
  obtain ⟨_, _, _, -, -, -, rfl⟩ := readParameter_eq_ok h
  exact ⟨rfl, rfl⟩

theorem readSignature_bare {text : List Char} {s : Signature MemberView}
    (h : readSignature l text = .ok s) : ∀ p ∈ s.parameters, p.Bare := by
  obtain ⟨_, _, _, _, _, -, -, -, -, -, hparameters⟩ := readSignature_eq_ok h
  intro p hp
  obtain ⟨_, _, -, -, hitem⟩ := exists_item_of_readParameters hparameters hp
  exact readParameter_bare hitem

/-! ## The parameter that a note was written for -/

def Signature.names (s : Signature MemberView) : List String :=
  s.parameters.map (·.name)

/-- No parameter shows the canonical name of a documented one behind it. -/
def Unshadowed (l : Language) (names keys : List String) : Prop :=
  names.Pairwise fun earlier later => later ∈ keys → Identifier.converted l earlier ≠ later

instance (l : Language) (names keys : List String) : Decidable (Unshadowed l names keys) :=
  inferInstanceAs (Decidable (List.Pairwise _ names))

variable {names keys : List String}

/-- Names are unshadowed just when each note goes to the parameter it was written for. -/
theorem unshadowed_iff (hshown : (names.map (Identifier.converted l)).Nodup) :
    Unshadowed l names keys ↔ ∀ (j : Nat) (hj : j < names.length), names[j] ∈ keys →
      target? l (names.map (Identifier.converted l)) names[j] = some j := by
  rw [Unshadowed, List.pairwise_iff_getElem]
  constructor
  · intro h j hj hkey
    rw [target?, List.findIdx?_eq_some_iff_getElem]
    refine ⟨by simpa using hj, by simp, fun i hij => ?_⟩
    have hshadow := h i j (by omega) hj hij hkey
    have hdistinct :=
      List.pairwise_iff_getElem.mp hshown i j (by simp; omega) (by simpa using hj) hij
    simp only [List.getElem_map] at hdistinct ⊢
    simp [hshadow, hdistinct]
  · intro h i j hi hj hij hkey heq
    obtain ⟨_, _, hfirst⟩ := List.findIdx?_eq_some_iff_getElem.mp (h j hj hkey)
    exact hfirst i hij (by simp [heq])

theorem Identifier.converted_converted (hl : l ≠ .js) (name : String) :
    converted l (converted l name) = converted l name := by
  cases l with
  | cpp => simp [converted, convert]
  | lua => simp [converted, convert, luaCase_luaCase]
  | js => exact absurd rfl hl

/-- In C++ and Lua, a parameter that shows the name of another one shows what that one shows. -/
theorem unshadowed_of_ne_js (hl : l ≠ .js) (hshown : (names.map (Identifier.converted l)).Nodup) :
    Unshadowed l names keys := by
  refine (List.pairwise_map.mp hshown).imp fun {earlier later} hne _ heq => hne ?_
  rw [← heq, Identifier.converted_converted hl]

/-! ## Documented signatures -/

/-- The note that an entry makes. -/
def noteOf (l : Language) (entry : ParameterEntry Member) : ParameterNote :=
  ⟨entry.description, memberViews l entry.properties⟩

theorem parameterNotes_eq_map (l : Language) (entries : List (String × ParameterEntry Member)) :
    parameterNotes l entries = entries.map fun entry => (entry.1, noteOf l entry.2) := by
  induction entries with
  | nil => rw [parameterNotes, List.map_nil]
  | cons entry entries ih =>
    rw [parameterNotes, List.map_cons, ih]
    rfl

/-- The parameter has what the entry for it says, or nothing if there is none. -/
def Parameter.Carries (l : Language) (p : Parameter MemberView) :
    Option (ParameterEntry Member) → Prop
  | some entry => p.Bears (noteOf l entry)
  | none => p.Bare

/-- A signature as it was read, with each entry at the parameter of its canonical name and nothing
at the others. -/
structure Signature.Documented (l : Language) (entries : List (String × ParameterEntry Member))
    (names : List String) (plain s : Signature MemberView) : Prop where
  name : s.name = plain.name
  returnType : s.returnType = plain.returnType
  display : s.display = plain.display
  written : s.parameters.map (·.written) = plain.parameters.map (·.written)
  carries : List.Forall₂ (fun name p => p.Carries l (entries.lookup name)) names s.parameters

theorem lookup_eq_some_iff {α : Type} {entries : List (String × α)}
    (h : (entries.map (·.1)).Nodup) {key : String} {a : α} :
    entries.lookup key = some a ↔ (key, a) ∈ entries := by
  induction entries with
  | nil => simp
  | cons entry entries ih =>
    obtain ⟨k, b⟩ := entry
    obtain ⟨hk, hentries⟩ := List.nodup_cons.mp h
    rw [List.lookup_cons, List.mem_cons]
    by_cases hkey : key = k
    · subst hkey
      have habsent : (key, a) ∉ entries := fun ha => hk (List.mem_map.mpr ⟨_, ha, rfl⟩)
      simp [habsent, eq_comm]
    · have hfalse : (key == k) = false := beq_false_of_ne hkey
      simp [hfalse, hkey, ih hentries]

variable {entries : List (String × ParameterEntry Member)}

/-- When each note goes to the parameter it was written for, each parameter carries its entry. -/
theorem carries_of_attachNotes (hkeys : (entries.map (·.1)).Nodup)
    (hsubset : entries.map (·.1) ⊆ names)
    (htarget : ∀ (j : Nat) (hj : j < names.length), names[j] ∈ entries.map (·.1) →
      target? l (names.map (Identifier.converted l)) names[j] = some j)
    (hnames : ps.map (·.name) = names.map (Identifier.converted l)) (hbare : ∀ p ∈ ps, p.Bare)
    (h : attachNotes l (parameterNotes l entries) ps = .ok ps') :
    List.Forall₂ (fun name p => p.Carries l (entries.lookup name)) names ps' := by
  obtain ⟨hwritten, hspec⟩ := attachNotes_spec h
  rw [hnames, parameterNotes_eq_map] at hspec
  have hlength : names.length = ps'.length := by
    simpa using (congrArg List.length ((map_name_eq_of_written hwritten).trans hnames)).symm
  rw [List.forall₂_iff_get]
  refine ⟨hlength, fun j hj hj' => ?_⟩
  simp only [List.get_eq_getElem]
  obtain ⟨n, hn, hj, hbears⟩ | ⟨hnone, hsame⟩ := hspec j ps'[j] (List.getElem?_eq_getElem hj')
  · obtain ⟨⟨key, entry⟩, hentry, rfl⟩ := List.mem_map.mp hn
    have hkey : key ∈ entries.map (·.1) := List.mem_map.mpr ⟨_, hentry, rfl⟩
    -- the key is the name at some place, and its target is that place, so that is the place here
    obtain ⟨i, hi, rfl⟩ := List.mem_iff_getElem.mp (hsubset hkey)
    obtain rfl : i = j := Option.some.inj ((htarget i hi hkey).symm.trans hj)
    rw [(lookup_eq_some_iff hkeys).mpr hentry]
    exact hbears
  · cases hlookup : entries.lookup names[j] with
    | none => exact hbare _ (List.mem_of_getElem? hsame)
    | some entry =>
      have hentry := (lookup_eq_some_iff hkeys).mp hlookup
      have hkey : names[j] ∈ entries.map (·.1) := List.mem_map.mpr ⟨_, hentry, rfl⟩
      exact absurd (htarget j hj hkey) (hnone _ (List.mem_map.mpr ⟨_, hentry, rfl⟩))

/-! ## Members -/

/-- The text of the function that a member is or takes. -/
def MemberDefinition.functionText? : MemberDefinition → Option String
  | .signature text | .callback text => some text
  | .property _ | .plain => none

theorem readDocumented_eq (l : Language) (text : String) (notes : List (String × ParameterNote)) :
    readDocumented l text notes =
      Signature.parse l text >>= fun s =>
        (attachNotes l notes s.parameters).map fun parameters => { s with parameters } := by
  unfold readDocumented attachNotes
  refine bind_congr fun s => ?_
  cases notes.foldlM (fun ps (key, note) => attachNote l key note ps) s.parameters <;> rfl

/-- The view of a function is made when its anchor can be and its signature can be read and
documented. -/
theorem Member.map_callable_view {m : Member} {text : String}
    (htext : m.definition.functionText? = some text) :
    (m.view l).map (·.callable) =
      Anchor.ofSignature text >>= fun _ =>
        (readDocumented l text (parameterNotes l m.parameters)).map some := by
  rw [Member.view_eq]
  unfold viewWithNotes
  cases hdefinition : m.definition with
  | signature t | callback t =>
    obtain rfl : t = text := by
      rw [hdefinition] at htext
      exact Option.some.inj htext
    simp only []
    cases Anchor.ofSignature t with
    | error e => rfl
    | ok id => cases readDocumented l t (parameterNotes l m.parameters) <;> rfl
  | property t | plain =>
    rw [hdefinition] at htext
    cases htext

variable {m : Member} {text : String} {c plain : Signature MemberView}

/-- The view of a function is its signature as it was read, with the notes attached. -/
theorem Member.callable_of_view (htext : m.definition.functionText? = some text)
    (hplain : Signature.parse l text = .ok plain) {v : MemberView} (h : m.view l = .ok v) :
    ∃ ps, attachNotes l (parameterNotes l m.parameters) plain.parameters = .ok ps ∧
      v.callable = some { plain with parameters := ps } := by
  have hcallable := Member.map_callable_view (l := l) htext
  rw [h] at hcallable
  obtain ⟨id, -, hdocumented⟩ := bind_eq_ok.mp hcallable.symm
  obtain ⟨s, hs, hv⟩ := map_eq_ok.mp hdocumented
  rw [readDocumented_eq, hplain] at hs
  obtain ⟨ps, hps, rfl⟩ := map_eq_ok.mp hs
  exact ⟨ps, hps, hv.symm⟩

/-- Where the notes can be attached, the function has a view. -/
theorem Member.exists_view (htext : m.definition.functionText? = some text)
    (hc : Signature.parse .cpp text = .ok c) (hplain : Signature.parse l text = .ok plain)
    (h : attachNotes l (parameterNotes l m.parameters) plain.parameters = .ok ps) :
    ∃ v, m.view l = .ok v ∧ v.callable = some { plain with parameters := ps } := by
  have hcallable := Member.map_callable_view (l := l) htext
  rw [Anchor.ofSignature_eq hc, readDocumented_eq, hplain] at hcallable
  refine map_eq_ok.mp (hcallable.trans ?_)
  show ((attachNotes l (parameterNotes l m.parameters) plain.parameters).map _).map some = _
  rw [h]
  rfl

/-- A function whose documented parameters are described by their own names. -/
def selfDescribing (text : String) (keys : List String) : Member :=
  { signature := some text
    parameters := keys.map fun key => (key, { description := some key }) }

theorem exists_attachNotes_selfDescribing (l : Language) (text : String) (keys : List String)
    (ps : List (Parameter MemberView)) :
    ∃ ps', attachNotes l (parameterNotes l (selfDescribing text keys).parameters) ps = .ok ps' := by
  refine exists_attachNotes fun n hn => ⟨[], ?_⟩
  rw [parameterNotes_eq_map, selfDescribing, List.map_map] at hn
  obtain ⟨key, -, rfl⟩ := List.mem_map.mp hn
  show memberViews l [] = .ok []
  rw [memberViews]

/-- The target of a key whose own name a parameter has come to be described by. -/
theorem target?_of_selfDescribing (hbare : ∀ p ∈ ps, p.Bare)
    (h : attachNotes l (parameterNotes l (selfDescribing text keys).parameters) ps = .ok ps')
    {j : Nat} {p : Parameter MemberView} (hp : ps'[j]? = some p) (hkey : p.description = some key) :
    target? l (ps.map (·.name)) key = some j := by
  obtain ⟨n, hn, htarget, hbears⟩ | ⟨-, hsame⟩ := (attachNotes_spec h).2 j p hp
  · rw [parameterNotes_eq_map, selfDescribing, List.map_map] at hn
    obtain ⟨key', -, rfl⟩ := List.mem_map.mp hn
    obtain rfl : key' = key := Option.some.inj (hbears.description.symm.trans hkey)
    exact htarget
  · have hnone := (hbare p (List.mem_of_getElem? hsame)).1
    rw [hkey] at hnone
    cases hnone

/-- Let the parameters of a function show distinct names in a language, and let entries be written
for some of its canonical names. Then whatever the entries say, they document the parameters they
were written for, just when none of these names is shown by an earlier parameter. In C++ and Lua
none ever is. -/
theorem documented_iff_unshadowed (hc : Signature.parse .cpp text = .ok c)
    (hplain : Signature.parse l text = .ok plain) (hshown : plain.names.Nodup)
    (hkeys : keys.Nodup) (hsubset : keys ⊆ c.names) :
    (Unshadowed l c.names keys ↔
      ∀ (m : Member) (v : MemberView), m.definition.functionText? = some text →
        m.parameters.map (·.1) = keys → m.view l = .ok v →
        ∃ s, v.callable = some s ∧ plain.Documented l m.parameters c.names s) ∧
    (l ≠ .js → Unshadowed l c.names keys) := by
  obtain ⟨c', hc', hshows⟩ := Signature.exists_parse_cpp MemberView hplain
  obtain rfl : c = c' := Except.ok.inj (hc.symm.trans hc')
  have hnames : plain.names = c.names.map (Identifier.converted l) := by
    rw [Signature.names, hshows.names, Signature.names, List.map_map]
    rfl
  have hbare : ∀ p ∈ plain.parameters, p.Bare := readSignature_bare hplain
  rw [hnames] at hshown
  refine ⟨⟨fun hunshadowed m v htext hm hv => ?_, fun h => ?_⟩,
    fun hl => unshadowed_of_ne_js hl hshown⟩
  · subst hm
    obtain ⟨ps, hps, hcallable⟩ := Member.callable_of_view htext hplain hv
    refine ⟨_, hcallable, rfl, rfl, rfl, (attachNotes_spec hps).1, ?_⟩
    exact carries_of_attachNotes hkeys hsubset ((unshadowed_iff hshown).mp hunshadowed) hnames hbare
      hps
  · -- a description that is the key it is written under shows where its note went
    obtain ⟨ps, hps⟩ := exists_attachNotes_selfDescribing l text keys plain.parameters
    obtain ⟨v, hv, hcallable⟩ := Member.exists_view rfl hc hplain hps
    have hm : (selfDescribing text keys).parameters.map (·.1) = keys := by
      simp [selfDescribing, Function.comp_def]
    obtain ⟨s, hs, hdocumented⟩ := h _ v rfl hm hv
    obtain rfl := Option.some.inj (hs.symm.trans hcallable)
    rw [unshadowed_iff hshown, ← hnames]
    intro j hj hkey
    obtain ⟨hlength, hcarries⟩ := List.forall₂_iff_get.mp hdocumented.carries
    have hj' : j < ps.length := hlength ▸ hj
    have hentry : (selfDescribing text keys).parameters.lookup c.names[j] =
        some { description := some c.names[j] } := by
      rw [lookup_eq_some_iff (by rw [hm]; exact hkeys)]
      exact List.mem_map.mpr ⟨_, hkey, rfl⟩
    have hdescribed := hcarries j hj hj'
    simp only [List.get_eq_getElem, hentry] at hdescribed
    exact target?_of_selfDescribing hbare hps (List.getElem?_eq_getElem hj') hdescribed.description

/-- `void F(int _a, int A)`, whose first parameter shows the canonical name of the second in
JavaScript. -/
def shadowing : SignatureExpr :=
  let blanks (n : Nat) : Blanks := ⟨spaces n, fun _ hc => isBlank_of_mem_spaces hc⟩
  let int : TypeExpr := .name {} ⟨["int".toList], by decide, by decide, by decide⟩
  let void : TypeExpr := .name {} ⟨["void".toList], by decide, by decide, by decide⟩
  { front := blanks 0
    form := .returning ⟨void, blanks 1, by decide, [], by simp, ⟨['F'], by decide⟩⟩ []
    gap := blanks 0
    inside := blanks 0
    parameters :=
      [⟨blanks 0, ⟨int, blanks 1, by decide, [], by simp, ⟨['_', 'a'], by decide⟩⟩, blanks 0⟩,
        ⟨blanks 1, ⟨int, blanks 1, by decide, [], by simp, ⟨['A'], by decide⟩⟩, blanks 0⟩] }

theorem parse_shadowing (l : Language) :
    (Signature.parse l "void F(int _a, int A)" : Except ParseError (Signature MemberView)) =
      .ok (shadowing.reading l) :=
  shadowing.readSignature_text l

/-- An entry for `_a` documents the parameter of that name in JavaScript too. -/
theorem documented_iff_unshadowed_first :
    let c : Signature MemberView := shadowing.reading .cpp
    let plain : Signature MemberView := shadowing.reading .js
    Signature.parse .cpp "void F(int _a, int A)" = .ok c ∧
      Signature.parse .js "void F(int _a, int A)" = .ok plain ∧
      c.names = ["_a", "A"] ∧ plain.names = ["A", "a"] ∧
      ∀ (m : Member) (v : MemberView),
        m.definition.functionText? = some "void F(int _a, int A)" →
        m.parameters.map (·.1) = ["_a"] → m.view .js = .ok v →
        ∃ s, v.callable = some s ∧ plain.Documented .js m.parameters c.names s :=
  ⟨parse_shadowing .cpp, parse_shadowing .js, rfl, rfl,
    (documented_iff_unshadowed (parse_shadowing .cpp) (parse_shadowing .js) (by decide) (by decide)
      (by decide)).1.mp (by decide)⟩

/-- An entry for `A` documents the parameter `_a` in JavaScript, which shows `A`. -/
theorem documented_iff_unshadowed_second :
    let entries : List (String × ParameterEntry Member) := [("A", { description := some "d" })]
    let m : Member := { signature := some "void F(int _a, int A)", parameters := entries }
    let c : Signature MemberView := shadowing.reading .cpp
    let plain : Signature MemberView := shadowing.reading .js
    Signature.parse .cpp "void F(int _a, int A)" = .ok c ∧
      Signature.parse .js "void F(int _a, int A)" = .ok plain ∧
      c.names = ["_a", "A"] ∧ plain.names = ["A", "a"] ∧
      ∃ v s, m.view .js = .ok v ∧ v.callable = some s ∧
        s.parameters.map (·.description) = [some "d", none] ∧
        ¬ plain.Documented .js entries c.names s := by
  intro entries m c plain
  have hplain : Signature.parse .js "void F(int _a, int A)" = .ok plain := parse_shadowing .js
  have hc : Signature.parse .cpp "void F(int _a, int A)" = .ok c := parse_shadowing .cpp
  obtain ⟨ps, hps, hdescriptions⟩ :
      ∃ ps, attachNotes .js (parameterNotes .js m.parameters) plain.parameters = .ok ps ∧
        ps.map (·.description) = [some "d", none] := by
    have htarget : target? .js (plain.parameters.map (·.name)) "A" = some 0 := by decide
    have hproperties : memberViews .js [] = .ok [] := by rw [memberViews]
    refine ⟨plain.parameters.modify 0 fun p => { p with description := some "d" }, ?_, rfl⟩
    rw [parameterNotes_eq_map, List.map_cons, List.map_nil, attachNotes_cons, attachNote_eq, htarget]
    simp only [noteOf, hproperties]
    rfl
  obtain ⟨v, hv, hcallable⟩ := Member.exists_view rfl hc hplain hps
  refine ⟨hc, hplain, rfl, rfl, v, _, hv, hcallable, hdescriptions, fun hdocumented => ?_⟩
  have hcarries :
      List.Forall₂ (fun name p => p.Carries .js (entries.lookup name)) ["_a", "A"] ps :=
    hdocumented.carries
  obtain _ | ⟨hfirst, -⟩ := hcarries
  have hbare : Parameter.Bare _ := hfirst
  exact absurd (hbare.1.symm.trans (List.cons.inj hdescriptions).1) (by decide)

end ApiSurface
