import ApiSurface.Proofs.BracketNesting

/-!
# Cuts of nested text as a stack makes them

On nested text, nothing is lost by counting brackets in place of stacking them. The counters are at
zero exactly where the stack is empty, so a target and the last blank are found at the top of the
stack; and where the counters first come back to zero behind a bracket, the stack is what it was in
front of it, so that the partner found is the bracket that takes it off the stack (`Partners`).
-/

namespace ApiSurface.Nesting

/-! ## Places -/

/-- A cut of a text in front of a character that satisfies `p`, where the front of the text is at
the top. -/
structure Place (atTop : List Char → Prop) (p : Char → Bool) (text before after : List Char) :
    Prop where
  text_eq : text = before ++ after
  head : ∃ c ∈ after.head?, p c = true
  top : atTop before

/-- The one of several places that comes before all others in an order, or none where there is no
place. -/
inductive Chosen (order : List Char → List Char → Prop) (place : List Char → List Char → Prop) :
    Option (List Char × List Char) → Prop
  | none : (∀ before after, ¬ place before after) → Chosen order place none
  | some {before after : List Char} : place before after →
      (∀ before' after', place before' after' → order before before') →
      Chosen order place (some (before, after))

/-- The first place: its front is a front of all others. -/
def First : (List Char → List Char → Prop) → Option (List Char × List Char) → Prop :=
  Chosen (· <+: ·)

/-- The last place: all other fronts are fronts of its own. -/
def Last : (List Char → List Char → Prop) → Option (List Char × List Char) → Prop :=
  Chosen fun before before' => before' <+: before

/-- The counters, from `d` on, are at zero. -/
def Depth.AtTop (d : Depth) (front : List Char) : Prop :=
  d.after? front = some {}

/-- The stack is empty. -/
def Awaited.AtTop (front : List Char) : Prop :=
  Awaited.after? [] front = some []

variable {p : Char → Bool} {c : Char} {text rest before after : List Char} {d d' : Depth}

/-- A place in a text is its start or a place in the rest. -/
theorem place_cons_iff (hstep : d.step? c = some d') :
    Place d.AtTop p (c :: rest) before after ↔
      (before = [] ∧ after = c :: rest ∧ p c = true ∧ d.isTop = true) ∨
        ∃ before', before = c :: before' ∧ Place d'.AtTop p rest before' after := by
  have hcons (front : List Char) : d.AtTop (c :: front) ↔ d'.AtTop front := by
    rw [Depth.AtTop, Depth.after?_cons, hstep, Option.bind_some, Depth.AtTop]
  constructor
  · rintro ⟨htext, hhead, htop⟩
    obtain ⟨rfl, rfl⟩ | ⟨before', rfl, rfl⟩ := List.cons_eq_append_iff.mp htext
    · refine .inl ⟨rfl, rfl, by simpa using hhead, Depth.isTop_iff.mpr (Option.some.inj htop)⟩
    · exact .inr ⟨before', rfl, rfl, hhead, (hcons before').mp htop⟩
  · rintro (⟨rfl, rfl, hc, htop⟩ | ⟨before', rfl, rfl, hhead, htop⟩)
    · exact ⟨rfl, ⟨c, rfl, hc⟩, congrArg some (Depth.isTop_iff.mp htop)⟩
    · exact ⟨rfl, hhead, (hcons before').mpr htop⟩

theorem not_place_nil : ¬ Place d.AtTop p [] before after := by
  rintro ⟨htext, ⟨c, hc, -⟩, -⟩
  obtain ⟨-, rfl⟩ := List.append_eq_nil_iff.mp htext.symm
  cases hc

/-- If no bracket closes what is not open, the first place of a target is found. -/
theorem findFrom_first (target : Char) (position : Nat) (h : d.after? text = some d') :
    ∃ r, findFrom target d position text = .ok r ∧ First (Place d.AtTop (· == target) text) r := by
  induction text generalizing d position with
  | nil => exact ⟨none, rfl, .none fun _ _ => not_place_nil⟩
  | cons c rest ih =>
    rw [Depth.after?_cons] at h
    obtain ⟨middle, hstep, hrest⟩ := Option.bind_eq_some_iff.mp h
    rw [findFrom]
    split
    · next hc =>
      refine ⟨_, rfl, .some ?_ fun _ _ _ => List.nil_prefix⟩
      exact (place_cons_iff hstep).mpr (.inl ⟨rfl, rfl, by simpa using hc.1, hc.2⟩)
    · next hc =>
      have hplace {before after : List Char} :
          Place d.AtTop (· == target) (c :: rest) before after ↔
            ∃ before', before = c :: before' ∧
              Place middle.AtTop (· == target) rest before' after := by
        rw [place_cons_iff hstep, or_iff_right]
        rintro ⟨-, -, htarget, htop⟩
        exact hc ⟨by simpa using htarget, htop⟩
      obtain ⟨r, hr, hfirst⟩ := ih (position + c.utf8Size) hrest
      rw [hstep]
      dsimp only
      rw [hr]
      refine ⟨_, rfl, ?_⟩
      cases hfirst with
      | none hnone =>
        refine .none fun before after h => ?_
        obtain ⟨before', -, hrest⟩ := hplace.mp h
        exact hnone _ _ hrest
      | some hfound hleast =>
        refine .some (hplace.mpr ⟨_, rfl, hfound⟩) fun before after h => ?_
        obtain ⟨before', rfl, hrest⟩ := hplace.mp h
        exact List.cons_prefix_cons.mpr ⟨rfl, hleast _ _ hrest⟩

/-- If all brackets are closed at the end, the last blank at the top is found. -/
theorem lastBlankFrom_last (position : Nat) (h : d.after? text = some {}) :
    ∃ r, lastBlankFrom d position text = .ok r ∧ Last (Place d.AtTop Text.isBlank text) r := by
  induction text generalizing d position with
  | nil =>
    cases h
    exact ⟨none, rfl, .none fun _ _ => not_place_nil⟩
  | cons c rest ih =>
    rw [Depth.after?_cons] at h
    obtain ⟨middle, hstep, hrest⟩ := Option.bind_eq_some_iff.mp h
    obtain ⟨r, hr, hlast⟩ := ih (position + c.utf8Size) hrest
    rw [lastBlankFrom, hstep]
    dsimp only
    rw [hr]
    cases hlast with
    | none hnone =>
      have hplace {before after : List Char} : Place d.AtTop Text.isBlank (c :: rest) before after ↔
          before = [] ∧ after = c :: rest ∧ Text.isBlank c = true ∧ d.isTop = true := by
        rw [place_cons_iff hstep, or_iff_left]
        rintro ⟨before', -, hrest⟩
        exact hnone _ _ hrest
      by_cases hc : Text.isBlank c = true ∧ d.isTop = true
      · refine ⟨some ([], c :: rest), by simp [Except.map, hc], ?_⟩
        refine .some (hplace.mpr ⟨rfl, rfl, hc⟩) fun before after h => ?_
        obtain ⟨rfl, -⟩ := hplace.mp h
        exact List.nil_prefix
      · refine ⟨none, by simpa [Except.map] using hc, .none fun before after h => ?_⟩
        exact hc (hplace.mp h).2.2
    | some hfound hgreatest =>
      refine ⟨_, rfl, .some ((place_cons_iff hstep).mpr (.inr ⟨_, rfl, hfound⟩)) ?_⟩
      intro before after h
      obtain ⟨rfl, -⟩ | ⟨before', rfl, hrest⟩ := (place_cons_iff hstep).mp h
      · exact List.nil_prefix
      · exact List.cons_prefix_cons.mpr ⟨rfl, hgreatest _ _ hrest⟩

/-- In a nested text, the counters are at zero where the stack is empty. -/
theorem place_awaited_eq (h : Balanced (fun _ => true) text) :
    Place Awaited.AtTop p text = Place (Depth.AtTop {}) p text := by
  funext before after
  refine propext ⟨fun ⟨htext, hhead, htop⟩ => ⟨htext, hhead, Awaited.depth_after? htop⟩, ?_⟩
  rintro ⟨rfl, hhead, htop⟩
  rw [balanced_iff_after?, Awaited.after?_append] at h
  obtain ⟨awaited, hbefore, -⟩ := Option.bind_eq_some_iff.mp h
  have hdepth : Depth.after? {} before = some (Awaited.depth awaited) :=
    Awaited.depth_after? hbefore
  rw [htop, Option.some_inj] at hdepth
  obtain rfl := Awaited.depth_eq_empty_iff.mp hdepth.symm
  exact ⟨rfl, hhead, hbefore⟩

/-! ## Partners -/

/-- A bracket and the one that takes it off the stack: while `inside` is read the bracket stays on
the stack, and at the end it is on top. -/
structure Partners (text before : List Char) (k : BracketKind) (inside behind : List Char) :
    Prop where
  text_eq : text = before ++ k.opening :: (inside ++ k.closing :: behind)
  on_stack : ∃ outer, Awaited.after? [] before = some outer ∧
    Awaited.after? (k :: outer) inside = some (k :: outer) ∧
    ∀ front, front <+: inside →
      ∃ own, Awaited.after? (k :: outer) front = some (own ++ k :: outer)

variable {k : BracketKind} {inside behind : List Char}

theorem Awaited.after?_append_base {awaited awaited' : Awaited}
    (h : Awaited.after? awaited text = some awaited') (base : Awaited) :
    Awaited.after? (awaited ++ base) text = some (awaited' ++ base) := by
  induction text generalizing awaited with
  | nil =>
    cases h
    rfl
  | cons c rest ih =>
    rw [Awaited.after?_cons] at h
    obtain ⟨middle, hstep, hrest⟩ := Option.bind_eq_some_iff.mp h
    rw [Awaited.after?_cons, Awaited.step?_append hstep, Option.bind_some, ih hrest]

/-- Behind its partner, a bracket is no longer on the stack. -/
theorem Partners.not_append {more behind' : List Char} (h : Partners text before k inside behind) :
    ¬ Partners text before k (inside ++ k.closing :: more) behind' := by
  intro h'
  obtain ⟨outer, hbefore, hinside, -⟩ := h.on_stack
  obtain ⟨outer', hbefore', -, hfronts⟩ := h'.on_stack
  obtain rfl : outer = outer' := Option.some.inj (hbefore.symm.trans hbefore')
  obtain ⟨own, hown⟩ := hfronts (inside ++ [k.closing]) ⟨more, by simp⟩
  have hclosed : Awaited.after? (k :: outer) (inside ++ [k.closing]) = some outer := by
    rw [Awaited.after?_append, hinside, Option.bind_some, Awaited.after?_cons,
      Awaited.step?_closing_eq_some_iff.mpr rfl]
    rfl
  have hlength := congrArg List.length (Option.some.inj (hclosed.symm.trans hown))
  rw [List.length_append, List.length_cons] at hlength
  omega

/-- A bracket has at most one partner. -/
theorem Partners.inside_unique {inside' behind' : List Char}
    (h : Partners text before k inside behind) (h' : Partners text before k inside' behind') :
    inside = inside' := by
  have htext := List.append_cancel_left (h.text_eq.symm.trans h'.text_eq)
  obtain ⟨more, rfl, hmore⟩ | ⟨more, rfl, hmore⟩ :=
    List.append_eq_append_iff.mp (List.cons.inj htext).2
  · obtain ⟨rfl, -⟩ | ⟨more, rfl, -⟩ := List.cons_eq_append_iff.mp hmore
    · simp
    · exact absurd h' h.not_append
  · obtain ⟨rfl, -⟩ | ⟨more, rfl, -⟩ := List.cons_eq_append_iff.mp hmore
    · simp
    · exact absurd h h'.not_append

/-- In a nested text every bracket that opens has a partner, with nested text between them. -/
theorem exists_partner (h : Balanced (fun _ => true) text)
    (htext : text = before ++ k.opening :: rest) :
    ∃ inside behind, Partners text before k inside behind ∧
      Balanced (fun _ => true) inside := by
  obtain rfl := htext
  rw [balanced_iff_after?, Awaited.after?_append] at h
  obtain ⟨outer, hbefore, hrest⟩ := Option.bind_eq_some_iff.mp h
  rw [Awaited.after?_cons, Awaited.step?_opening, Option.bind_some] at hrest
  cases closes_of_after? hrest with
  | @cons _ _ inside behind hinside _ =>
    refine ⟨inside, behind, ⟨rfl, outer, hbefore, hinside.awaited_after? _, ?_⟩, hinside⟩
    rintro front ⟨back, rfl⟩
    -- what is read of the inside goes on top of the bracket
    have hwhole := hinside.awaited_after? []
    rw [Awaited.after?_append] at hwhole
    obtain ⟨own, hfront, -⟩ := Option.bind_eq_some_iff.mp hwhole
    exact ⟨own, Awaited.after?_append_base hfront (k :: outer)⟩

theorem Partners.balanced (h : Partners text before k inside behind)
    (htext : Balanced (fun _ => true) text) : Balanced (fun _ => true) inside := by
  obtain ⟨inside', behind', hpartners, hinside⟩ := exists_partner htext h.text_eq
  rwa [h.inside_unique hpartners]

/-- The position where the search for a partner ends. -/
theorem Partners.closePosition_eq {text : String}
    (h : Partners text.toList before k inside behind)
    (htext : Balanced (fun _ => true) text.toList) :
    closePosition text (Text.byteLength before)
      = .ok (Text.byteLength (before ++ k.opening :: inside)) := by
  have hdrop : Text.dropBytes (Text.byteLength before) text.toList
      = k.opening :: (inside ++ k.closing :: behind) := by
    rw [h.text_eq, Text.dropBytes_byteLength]
  rw [closePosition, hdrop, closeFrom_pair k.pair (h.balanced htext), inText_ok,
    Text.byteLength_append]
  rfl

/-! ## The cuts of whole texts -/

/-- **Counting agrees with stacking.** For a nested text: every bracket that opens has a partner on
the stack, and the search from the bracket ends there; a target is found at its first place at the
top of the stack, and the text is divided at its last blank there; and a text with its first angle
bracket and that bracket's partner has type arguments exactly when the partner is its end. -/
theorem cuts_eq_stack {text : String} (h : Balanced (fun _ => true) text.toList) :
    (∀ before k rest, text.toList = before ++ k.opening :: rest →
      ∃ inside behind, Partners text.toList before k inside behind) ∧
    (∀ before k inside behind, Partners text.toList before k inside behind →
      closePosition text (Text.byteLength before)
        = .ok (Text.byteLength (before ++ k.opening :: inside))) ∧
    (∀ target, ∃ r, First (Place Awaited.AtTop (· == target) text.toList) r ∧
      position? text target = .ok (r.map fun (before, _) => Text.byteLength before)) ∧
    (∃ r, Last (Place Awaited.AtTop Text.isBlank text.toList) r ∧
      splitLastText? text = .ok (r.map fun (before, after) =>
        (String.ofList (Text.trim before), String.ofList (Text.trim after)))) ∧
    ('<' ∉ text.toList → typeArguments? text = .ok none) ∧
    ∀ before inside behind, Partners text.toList before .angles inside behind → '<' ∉ before →
      typeArguments? text = .ok (if behind.isEmpty then
        some (String.ofList (Text.trim before), String.ofList (Text.trim inside)) else none) := by
  have hcounters : Depth.after? {} text.toList = some {} := h.byKind.after? {}
  refine ⟨?_, ?_, ?_, ?_, ?_, ?_⟩
  · intro before k rest htext
    obtain ⟨inside, behind, hpartners, -⟩ := exists_partner h htext
    exact ⟨inside, behind, hpartners⟩
  · exact fun before k inside behind hpartners => hpartners.closePosition_eq h
  · intro target
    obtain ⟨r, hr, hfirst⟩ := findFrom_first target 0 hcounters
    refine ⟨r, place_awaited_eq h ▸ hfirst, ?_⟩
    rw [position?, find?, hr]
    rfl
  · obtain ⟨r, hr, hlast⟩ := lastBlankFrom_last 0 hcounters
    refine ⟨r, place_awaited_eq h ▸ hlast, ?_⟩
    rw [splitLastText?, splitLast?, hr, inText_ok]
    cases r <;> rfl
  · intro hopening
    have hclosing : '>' ∉ text.toList := by
      have htotal : text.toList.count '>' = text.toList.count '<' := h.byKind.total .angles
      rw [List.count_eq_zero_of_not_mem hopening] at htotal
      exact List.count_eq_zero.mp htotal
    rw [typeArguments?, outermost?_unopened hopening, if_neg hclosing]
    rfl
  · intro before inside behind hpartners hbefore
    have hcut := outermost?_angles hbefore (hpartners.balanced h) behind
    have htext : text.toList = before ++ '<' :: (inside ++ '>' :: behind) := hpartners.text_eq
    rw [typeArguments?, htext, hcut]
    cases behind <;> rfl

/-- A template with a group of the other kind and a character of two bytes in it. -/
theorem cuts_eq_stack_tuple :
    Balanced (fun _ => true) "tuple<é, (b)>".toList ∧
      ∃ inside behind, Partners "tuple<é, (b)>".toList "tuple".toList .angles inside behind ∧
        closePosition "tuple<é, (b)>" 5
          = .ok (Text.byteLength ("tuple".toList ++ '<' :: inside)) ∧
        typeArguments? "tuple<é, (b)>" = .ok (if behind.isEmpty then
          some ("tuple", String.ofList (Text.trim inside)) else none) := by
  have hnested : Balanced (fun _ => true) "tuple<é, (b)>".toList :=
    balanced_iff_after?.mpr (by decide)
  obtain ⟨hpartner, hclose, -, -, -, hparts⟩ := cuts_eq_stack hnested
  obtain ⟨inside, behind, hpartners⟩ := hpartner "tuple".toList .angles "é, (b)>".toList (by decide)
  exact ⟨hnested, inside, behind, hpartners, hclose _ _ _ _ hpartners,
    hparts _ _ _ hpartners (by decide)⟩

end ApiSurface.Nesting
