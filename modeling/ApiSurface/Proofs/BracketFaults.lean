import ApiSurface.Anchor
import ApiSurface.Proofs.TypeForms

/-!
# Where the brackets of a text fail

All cuts of `Nesting` go through a text with the same counters, and fail for one of two reasons: a
bracket closes what is not open, or the text ends while something is open (`Depth.Stuck`). So each
of them fails where the brackets do (`stopsAt_of_error`). The counters start in front of the text,
or in front of its first angle bracket; a cut that starts at the parenthesis of a parameter list
has balanced text before it and fails where counters from the start would have.

The texts of types and parameters are taken apart again and again, and some are put together from
two pieces. A fault names the text in which the brackets were counted, so that its position is a
place in that text (`unbalanced_pointsAt`).
-/

namespace ApiSurface

namespace Nesting

/-! ## What a fault says -/

/-- Counting the brackets of a stretch of text comes to an end at what stands behind it: a bracket
that closes what is not open, or the end of the text with a bracket open. -/
inductive Unmatched (stretch : List Char) : List Char → Prop
  | closing {k : BracketKind} {rest : List Char} :
      stretch.count k.opening = stretch.count k.closing →
      (∀ front, front <+: stretch → front.count k.closing ≤ front.count k.opening) →
      Unmatched stretch (k.closing :: rest)
  | ending {k : BracketKind} : stretch.count k.closing < stretch.count k.opening →
      (∀ (k : BracketKind) (front : List Char), front <+: stretch →
        front.count k.closing ≤ front.count k.opening) →
      Unmatched stretch []

/-- Counted from the start of a text or from its first angle bracket, the brackets fail at a
position. -/
def FailsAt (text : List Char) (position : Nat) : Prop :=
  ∃ skipped stretch rest, text = skipped ++ stretch ++ rest ∧
    position = Text.byteLength (skipped ++ stretch) ∧
    (skipped = [] ∨ '<' ∉ skipped ∧ (stretch ++ rest).head? = some '<') ∧ Unmatched stretch rest

/-! ## How the counters fail -/

variable {text rest : List Char} {d d' : Depth} {position : Nat} {c : Char}

/-- No step leads on from a depth, and this is not the end to come to. -/
inductive Depth.Stuck (d : Depth) : List Char → Prop
  | closing (k : BracketKind) (rest : List Char) : d.height k = 0 → Stuck d (k.closing :: rest)
  | ending : d.isTop = false → Stuck d []

theorem Depth.stuck_of_step? (h : d.step? c = none) (rest : List Char) : d.Stuck (c :: rest) := by
  rcases charRole c with ⟨k, rfl⟩ | ⟨k, rfl⟩ | hplain
  · obtain ⟨inside, hopening, -⟩ := k.pair.exists_inside d
    cases h.symm.trans hopening
  · refine .closing k rest ?_
    cases k <;> simpa [step?, height, BracketKind.closing] using h
  · cases h.symm.trans (step?_of_not_isBracket hplain d)

/-- A stretch that the counters get through before they are stuck. -/
theorem unmatched_of_stuck {stretch : List Char} (h : Depth.after? {} stretch = some d)
    (hstuck : d.Stuck rest) : Unmatched stretch rest := by
  obtain ⟨hfronts, htotal⟩ := Depth.after?_eq_some_iff.mp h
  simp only [Depth.height_empty, Nat.zero_add] at hfronts htotal
  cases hstuck with
  | closing k rest hzero =>
    refine .closing ?_ (hfronts k)
    rw [← htotal k, hzero, Nat.zero_add]
  | ending hopen =>
    obtain ⟨k, hk⟩ : ∃ k, d.height k ≠ 0 := by
      by_contra hall
      have hempty : d = {} := Depth.ext_height fun k => by
        simpa using not_exists_not.mp hall k
      rw [Depth.isTop_iff.mpr hempty] at hopen
      cases hopen
    refine .ending (k := k) ?_ hfronts
    have := htotal k
    omega

/-- Counting from a depth and a position on, the brackets of a text fail at another position. -/
def StopsAt (d : Depth) (start : Nat) (text : List Char) (position : Nat) : Prop :=
  ∃ stretch rest d', text = stretch ++ rest ∧ position = start + Text.byteLength stretch ∧
    d.after? stretch = some d' ∧ d'.Stuck rest

theorem StopsAt.cons {start : Nat} (hstep : d.step? c = some d')
    (h : StopsAt d' (start + c.utf8Size) text position) : StopsAt d start (c :: text) position := by
  obtain ⟨stretch, rest, d'', rfl, rfl, hafter, hstuck⟩ := h
  refine ⟨c :: stretch, rest, d'', rfl, ?_, ?_, hstuck⟩
  · rw [Text.byteLength, Nat.add_assoc]
  · rw [Depth.after?_cons, hstep, Option.bind_some, hafter]

/-- A scan fails where the brackets do if its steps are those of the counters. It may keep to depths
of some kind, and ends badly only while something is open. -/
theorem stopsAt_of_error {α : Type} (kept : Depth → Prop)
    {scan : Depth → Nat → List Char → Except Nat α}
    (hend : ∀ {d start e}, kept d → scan d start [] = .error e → e = start ∧ d.isTop = false)
    (hstep : ∀ {d start c rest e}, kept d → scan d start (c :: rest) = .error e →
      (d.step? c = none ∧ e = start) ∨
        ∃ d', d.step? c = some d' ∧ kept d' ∧ scan d' (start + c.utf8Size) rest = .error e)
    {start : Nat} (hd : kept d) (h : scan d start text = .error position) :
    StopsAt d start text position := by
  induction text generalizing d start with
  | nil =>
    obtain ⟨rfl, hopen⟩ := hend hd h
    exact ⟨[], [], d, rfl, rfl, rfl, .ending hopen⟩
  | cons c rest ih =>
    obtain ⟨hnone, rfl⟩ | ⟨d', hsome, hd', hrest⟩ := hstep hd h
    · exact ⟨[], c :: rest, d, rfl, rfl, rfl, Depth.stuck_of_step? hnone rest⟩
    · exact (ih hd' hrest).cons hsome

/-! ## The scans -/

variable {start : Nat}

theorem splitFrom_stopsAt {separator : Char} (hseparator : isBracket separator = false)
    (h : splitFrom separator d start text = .error position) : StopsAt d start text position := by
  refine stopsAt_of_error (fun _ => True) ?_ ?_ trivial h
  · intro d start e _ h
    rw [splitFrom] at h
    split at h
    · cases h
    · next hopen => exact ⟨(Except.error.inj h).symm, by simpa using hopen⟩
  · intro d start c rest e _ h
    rw [splitFrom] at h
    split at h
    · next hc =>
      -- the separator is no bracket, so passing over it is a step
      exact .inr ⟨d, hc.1 ▸ step?_of_not_isBracket hseparator d, trivial, map_eq_error.mp h⟩
    · split at h
      · next hnone => exact .inl ⟨hnone, (Except.error.inj h).symm⟩
      · next d' hsome => exact .inr ⟨d', hsome, trivial, map_eq_error.mp h⟩

theorem findFrom_stopsAt {target : Char}
    (h : findFrom target d start text = .error position) : StopsAt d start text position := by
  refine stopsAt_of_error (fun _ => True) ?_ ?_ trivial h
  · intro d start e _ h
    cases h
  · intro d start c rest e _ h
    rw [findFrom] at h
    split at h
    · cases h
    · split at h
      · next hnone => exact .inl ⟨hnone, (Except.error.inj h).symm⟩
      · next d' hsome => exact .inr ⟨d', hsome, trivial, map_eq_error.mp h⟩

theorem lastBlankFrom_stopsAt (h : lastBlankFrom d start text = .error position) :
    StopsAt d start text position := by
  refine stopsAt_of_error (fun _ => True) ?_ ?_ trivial h
  · intro d start e _ h
    rw [lastBlankFrom] at h
    split at h
    · cases h
    · next hopen => exact ⟨(Except.error.inj h).symm, by simpa using hopen⟩
  · intro d start c rest e _ h
    rw [lastBlankFrom] at h
    split at h
    · next hnone => exact .inl ⟨hnone, (Except.error.inj h).symm⟩
    · next d' hsome => exact .inr ⟨d', hsome, trivial, map_eq_error.mp h⟩

/-- The search for a partner goes on only while something is open. -/
theorem closeFrom_stopsAt (hd : d.isTop = false) (h : closeFrom d start text = .error position) :
    StopsAt d start text position := by
  refine stopsAt_of_error (fun d => d.isTop = false) ?_ ?_ hd h
  · intro d start e hopen h
    exact ⟨(Except.error.inj h).symm, hopen⟩
  · intro d start c rest e _ h
    rw [closeFrom] at h
    split at h
    · next hnone => exact .inl ⟨hnone, (Except.error.inj h).symm⟩
    · next d' hsome =>
      split at h
      · cases h
      · next hopen => exact .inr ⟨d', hsome, by simpa using hopen, map_eq_error.mp h⟩

/-- From a bracket on, the search for its partner fails where the brackets from there on do. -/
theorem closeFrom_opening_stopsAt {k : BracketKind}
    (h : closeFrom {} start (k.opening :: rest) = .error position) :
    StopsAt {} start (k.opening :: rest) position := by
  obtain ⟨inside, hopening, hinside, -⟩ := k.pair.exists_inside {}
  rw [closeFrom, hopening] at h
  simp only [hinside, Bool.false_eq_true, if_false] at h
  exact (closeFrom_stopsAt hinside (map_eq_error.mp h)).cons hopening

/-! ## The cuts -/

/-- Counting from the start of a text. -/
theorem StopsAt.failsAt (h : StopsAt {} 0 text position) : FailsAt text position := by
  obtain ⟨stretch, rest, d, rfl, rfl, hafter, hstuck⟩ := h
  exact ⟨[], stretch, rest, rfl, Nat.zero_add _, .inl rfl, unmatched_of_stuck hafter hstuck⟩

/-- Counting from the first angle bracket. -/
theorem StopsAt.failsAt_angle {before : List Char} (hbefore : '<' ∉ before)
    (h : StopsAt {} (Text.byteLength before) ('<' :: rest) position) :
    FailsAt (before ++ '<' :: rest) position := by
  obtain ⟨stretch, rest', d, htext, rfl, hafter, hstuck⟩ := h
  refine ⟨before, stretch, rest', by rw [htext, List.append_assoc],
    (Text.byteLength_append _ _).symm, .inr ⟨hbefore, by rw [← htext]; rfl⟩,
    unmatched_of_stuck hafter hstuck⟩

/-- Counting from a place behind text that is balanced in each kind. -/
theorem StopsAt.failsAt_append {before : List Char} (hbefore : BalancedByKind before)
    (h : StopsAt {} (Text.byteLength before) text position) :
    FailsAt (before ++ text) position := by
  obtain ⟨stretch, rest, d, rfl, rfl, hafter, hstuck⟩ := h
  refine ⟨[], before ++ stretch, rest, by simp, by rw [List.nil_append, Text.byteLength_append],
    .inl rfl, unmatched_of_stuck ?_ hstuck⟩
  rw [Depth.after?_append, hbefore.after?, Option.bind_some, hafter]

end Nesting

/-- A fault of brackets names a text and where its brackets fail. -/
def ParseError.PointsAtFailure : ParseError → Prop
  | .unbalanced text position => Nesting.FailsAt text.toList position
  | _ => True

namespace Nesting

variable {text : List Char}

theorem inText_faults {α : Type} {r : Except Nat α} (h : Faults (FailsAt text) r) :
    Faults ParseError.PointsAtFailure (inText text r) := by
  cases r with
  | ok a => exact .ok a
  | error position =>
    refine .error ?_
    rw [ParseError.PointsAtFailure, String.toList_ofList]
    exact h position rfl

theorem split_faults {separator : Char} (hseparator : isBracket separator = false)
    (text : List Char) : Faults ParseError.PointsAtFailure (split separator text) :=
  (inText_faults fun _ h => (splitFrom_stopsAt hseparator h).failsAt).map

theorem find?_faults (target : Char) (text : List Char) :
    Faults ParseError.PointsAtFailure (find? target text) :=
  inText_faults fun _ h => (findFrom_stopsAt h).failsAt

theorem splitLast?_faults (text : List Char) :
    Faults ParseError.PointsAtFailure (splitLast? text) :=
  (inText_faults fun _ h => (lastBlankFrom_stopsAt h).failsAt).map

theorem enclosed_faults {k : BracketKind} {before rest : List Char} (h : BalancedByKind before) :
    Faults ParseError.PointsAtFailure (enclosed before (k.opening :: rest)) :=
  (inText_faults fun _ he => (closeFrom_opening_stopsAt he).failsAt_append h).map

/-- The first bracket that closes, in a text without one that opens. -/
theorem failsAt_of_closing {k : BracketKind} (hopening : k.opening ∉ text)
    (hclosing : k.closing ∈ text) :
    FailsAt text (Text.byteLength (text.takeWhile (· != k.closing))) := by
  obtain ⟨before, rest, rfl, hbefore⟩ := List.eq_append_cons_of_mem hclosing
  have hopen : k.opening ∉ before := fun hmem => hopening (List.mem_append_left _ hmem)
  have htake : (before ++ k.closing :: rest).takeWhile (· != k.closing) = before := by
    rw [List.takeWhile_append_of_pos fun c hc =>
      bne_iff_ne.mpr (ne_of_mem_of_not_mem hc hbefore)]
    simp
  refine ⟨[], before, _, rfl, by rw [htake, List.nil_append], .inl rfl, .closing ?_ ?_⟩
  · rw [List.count_eq_zero_of_not_mem hopen, List.count_eq_zero_of_not_mem hbefore]
  · intro front hfront
    rw [List.count_eq_zero_of_not_mem fun hmem => hbefore (hfront.subset hmem)]
    exact Nat.zero_le _

theorem outermost?_faults (text : List Char) :
    Faults ParseError.PointsAtFailure (outermost? text) := by
  by_cases hopened : '<' ∈ text
  · obtain ⟨before, rest, rfl, hbefore⟩ := List.eq_append_cons_of_mem hopened
    rw [outermost?_opened hbefore]
    refine Faults.map (Faults.map (inText_faults fun position h => ?_))
    exact (closeFrom_opening_stopsAt (k := .angles) h).failsAt_angle hbefore
  · rw [outermost?_unopened hopened]
    split
    · next hclosing =>
      refine .error ?_
      rw [ParseError.PointsAtFailure, String.toList_ofList]
      exact failsAt_of_closing (k := .angles) hopened hclosing
    · exact .ok none

end Nesting

/-! ## Types -/

theorem tokenForm_faults (token : List Char) :
    Faults ParseError.PointsAtFailure (tokenForm token) := by
  have hcore := Nesting.outermost?_faults (dropQualifiers (Text.trim token))
  rw [tokenForm]
  split
  · exact .error trivial
  · rw [coreForm]
    split
    · next e hcut => exact .error (hcore e hcut)
    · exact .ok _
    · split
      · exact .ok _
      · exact .ok _
      · exact .ok _
      · exact (Nesting.split_faults rfl _).map
      · exact .ok _

/-- The faults of a form are those of its parts. -/
theorem mapForm_faults {P : ParseError → Prop} {l : Language} {form : TypeForm}
    (h : ∀ part ∈ form.parts, Faults P (mapToken l part)) : Faults P (mapForm l form) := by
  cases form with
  | name name => exact .ok _
  | smartPointer inner => exact h inner List.mem_cons_self
  | optional inner => exact (h inner List.mem_cons_self).map
  | tuple pieces => exact (Faults.mapM h).map
  | sequence inner =>
    rw [mapForm]
    split
    · exact (h inner List.mem_cons_self).map
    · exact .ok _

theorem mapToken_faults (l : Language) (token : List Char) :
    Faults ParseError.PointsAtFailure (mapToken l token) := by
  induction token using token_induction with
  | h token ih =>
    rw [mapToken_eq_form]
    exact (tokenForm_faults token).bind fun form hform => (mapForm_faults (ih form hform)).map

/-! ## Signatures -/

variable {Member : Type} {l : Language}

theorem readParameter_faults (context text : List Char) :
    Faults ParseError.PointsAtFailure
      (readParameter l context text : Except ParseError (Parameter Member)) := by
  rw [readParameter_eq]
  dsimp only
  split
  · next e hcut => exact .error (Nesting.splitLast?_faults _ e hcut)
  · exact .error trivial
  · split
    · exact .error trivial
    · exact (mapToken_faults l _).map

theorem readParameters_faults (source list : List Char) :
    Faults ParseError.PointsAtFailure
      (readParameters l source list : Except ParseError (List (Parameter Member))) := by
  rw [readParameters_eq]
  split
  · exact .ok []
  · split
    · next e hcut => exact .error (Nesting.split_faults rfl _ e hcut)
    · refine Faults.mapM fun item _ => ?_
      split
      · exact .error trivial
      · exact readParameter_faults source item

theorem readHead_faults (source head trailing : List Char) :
    Faults ParseError.PointsAtFailure (readHead l source head trailing) := by
  rw [readHead_eq]
  split
  · next e hcut => exact .error (Nesting.splitLast?_faults _ e hcut)
  · split
    · exact .ok _
    · exact .error trivial
  · dsimp only
    split
    · exact .ok _
    · exact (mapToken_faults l _).map

theorem readSignature_faults (text : List Char) :
    Faults ParseError.PointsAtFailure
      (readSignature l text : Except ParseError (Signature Member)) := by
  rw [readSignature_eq]
  dsimp only
  split
  · next e hcut => exact .error (Nesting.find?_faults _ _ e hcut)
  · exact .error trivial
  · next before opened hcut =>
    obtain ⟨rest, rfl, -, hbefore⟩ := Nesting.find?_eq_some hcut
    split
    · next e hclose => exact .error (Nesting.enclosed_faults (k := .parens) hbefore e hclose)
    · refine (readHead_faults _ _ _).bind fun head _ => ?_
      split
      · exact .error trivial
      · exact (readParameters_faults _ _).map

/-! ## Positions -/

/-- **Faults of brackets point at the fault.** When a signature, a parameter, a type or the anchor
of one of these cannot be read for its brackets, the position in the fault is the start of a
character of the text in it, or its end. Counted from the start of that text or from its first angle
bracket, what stands there closes a bracket of a kind of which none is open, and nothing before it
does, or it is the end of the text and a bracket is open. -/
theorem unbalanced_pointsAt {text t : String} {position : Nat}
    (h : (Signature.parse l text : Except ParseError (Signature Member))
          = .error (.unbalanced t position) ∨
      (Parameter.parse l text : Except ParseError (Parameter Member))
          = .error (.unbalanced t position) ∨
      MappedType.ofToken l text = .error (.unbalanced t position) ∨
      Anchor.ofSignature text = .error (.unbalanced t position) ∨
      Anchor.ofProperty text = .error (.unbalanced t position)) :
    String.Pos.Raw.IsValid t ⟨position⟩ ∧ Nesting.FailsAt t.toList position := by
  have hfails : Nesting.FailsAt t.toList position := by
    rcases h with h | h | h | h | h
    · exact readSignature_faults _ _ h
    · exact readParameter_faults _ _ _ h
    · exact mapToken_faults l _ _ h
    · exact (readSignature_faults _).bind (fun s _ => .ok _) _ h
    · exact (readParameter_faults _ _).bind (fun p _ => .ok _) _ h
  refine ⟨?_, hfails⟩
  obtain ⟨skipped, stretch, rest, htext, rfl, -⟩ := hfails
  exact Text.isValid_byteLength htext

/-- A parenthesis that closes inside a template, behind a character of two bytes. -/
theorem unbalanced_pointsAt_template :
    MappedType.ofToken .js "Set<é)>" = .error (.unbalanced "Set<é)>" 6) ∧
      String.Pos.Raw.IsValid "Set<é)>" ⟨6⟩ ∧ Nesting.FailsAt "Set<é)>".toList 6 := by
  have hfault : MappedType.ofToken .js "Set<é)>" = .error (.unbalanced "Set<é)>" 6) := by
    rw [MappedType.ofToken, mapToken_eq_form]
    rfl
  exact ⟨hfault, @unbalanced_pointsAt Unit .js "Set<é)>" _ _ (.inr (.inr (.inl hfault)))⟩

end ApiSurface
