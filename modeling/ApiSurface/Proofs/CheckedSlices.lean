import ApiSurface.Proofs.BracketNesting

/-!
# Slices that are checked

The cuts of a text can be made by byte positions: a scan gives the position of a character, and the
parts are slices between such positions. A slice can go wrong where a cut on characters cannot, so
here each is checked (`Text.slice?`): it has to end behind its start, and at both ends a character
begins or the text ends. A slice that fails the check stops the cut with `Stop.outOfBounds`, apart
from the faults of the text itself.

Each of these cuts is the one on characters (`Checked.split_eq` and the lemmas like it), so none is
ever out of bounds. For the scans that is one invariant: what a scan has passed is a front of the
whole text, and its byte length is the position.
-/

namespace ApiSurface

namespace Text

/-- The first `n` bytes of a text; a character that `n` cuts is taken whole. -/
def takeBytes : Nat → List Char → List Char
  | 0, _ => []
  | _, [] => []
  | n, c :: rest => c :: takeBytes (n - c.utf8Size) rest

theorem takeBytes_byteLength (front back : List Char) :
    takeBytes (byteLength front) (front ++ back) = front := by
  induction front with
  | nil => rw [byteLength, takeBytes]
  | cons c front ih =>
    have hc := c.utf8Size_pos
    rw [byteLength, List.cons_append]
    cases hlength : c.utf8Size + byteLength front with
    | zero => omega
    | succ n =>
      rw [takeBytes, ← hlength, Nat.add_sub_cancel_left, ih]
      simp

/-- The bytes of a text from one position to another, when the text has such a part: the positions
are in order and at both a character begins or the text ends. -/
def slice? (s : List Char) (i j : Nat) : Option (List Char) :=
  if i ≤ j ∧ String.Pos.Raw.IsValid (String.ofList s) ⟨i⟩ ∧
      String.Pos.Raw.IsValid (String.ofList s) ⟨j⟩ then
    some (dropBytes i (takeBytes j s))
  else none

/-- A text has each part that stands in it at the positions given by what is in front of it. -/
theorem slice?_append {s : List Char} (front middle back : List Char)
    (h : s = front ++ middle ++ back) :
    slice? s (byteLength front) (byteLength (front ++ middle)) = some middle := by
  have hstart : String.Pos.Raw.IsValid (String.ofList s) ⟨byteLength front⟩ :=
    isValid_byteLength (by rw [String.toList_ofList, h, List.append_assoc])
  have hstop : String.Pos.Raw.IsValid (String.ofList s) ⟨byteLength (front ++ middle)⟩ :=
    isValid_byteLength (by rw [String.toList_ofList, h])
  have hle : byteLength front ≤ byteLength (front ++ middle) := by
    rw [byteLength_append]
    exact Nat.le_add_right _ _
  rw [slice?, if_pos ⟨hle, hstart, hstop⟩, h, takeBytes_byteLength, dropBytes_byteLength]

/-- No part begins inside a character. -/
example : slice? "é(a)".toList 1 3 = none := by decide +kernel

/-- At a position where a character begins or the text ends, a text falls into two. -/
theorem exists_append_of_isValid {s : List Char} {i : Nat}
    (h : String.Pos.Raw.IsValid (String.ofList s) ⟨i⟩) :
    ∃ front back, s = front ++ back ∧ i = byteLength front := by
  obtain ⟨front, back, hs, hi⟩ := String.Pos.Raw.isValid_iff_exists_append.mp h
  refine ⟨front.toList, back.toList, ?_, ?_⟩
  · rw [← String.toList_append, ← hs, String.toList_ofList]
  · rw [← utf8ByteSize_ofList, String.ofList_toList]
    exact congrArg String.Pos.Raw.byteIdx hi

/-- The characters of a text with their positions, counted from that of the first. -/
def charIndices : Nat → List Char → List (Nat × Char)
  | _, [] => []
  | position, c :: rest => (position, c) :: charIndices (position + c.utf8Size) rest

end Text

/-- How a reading that checks its slices stops without a value. -/
inductive Stop (ε : Type) where
  /-- What is read has a fault. -/
  | fault (e : ε)
  /-- A slice or a difference of lengths does not exist. -/
  | outOfBounds
deriving DecidableEq, Repr

/-- A reading all of whose slices exist. -/
def checked {ε α : Type} (r : Except ε α) : Except (Stop ε) α :=
  r.mapError .fault

section

variable {ε α β : Type}

@[simp] theorem checked_ok (a : α) : checked (.ok a : Except ε α) = .ok a :=
  rfl

@[simp] theorem checked_error (e : ε) : checked (.error e : Except ε α) = .error (.fault e) :=
  rfl

theorem ok_bind (a : α) (f : α → Except ε β) : ((.ok a : Except ε α) >>= f) = f a :=
  rfl

theorem checked_eq_ok {r : Except ε α} {a : α} : checked r = .ok a ↔ r = .ok a :=
  ⟨ok_of_mapError, fun h => h ▸ rfl⟩

theorem checked_eq_error {r : Except ε α} {stop : Stop ε} :
    checked r = .error stop ↔ ∃ e, r = .error e ∧ stop = .fault e := by
  cases r with
  | error e => simp [eq_comm]
  | ok a => simp

theorem checked_ne_outOfBounds (r : Except ε α) : checked r ≠ .error .outOfBounds :=
  fun h => (checked_eq_error.mp h).elim fun _ h => nomatch h.2

theorem checked_map (f : α → β) (r : Except ε α) : (checked r).map f = checked (r.map f) := by
  cases r <;> rfl

theorem checked_bind (r : Except ε α) (f : α → Except ε β) :
    (checked r >>= fun a => checked (f a)) = checked (r >>= f) := by
  cases r <;> rfl

theorem checked_mapM (f : α → Except ε β) (items : List α) :
    items.mapM (fun a => checked (f a)) = checked (items.mapM f) := by
  induction items with
  | nil => rfl
  | cons a items ih =>
    rw [List.mapM_cons, List.mapM_cons, ih]
    cases f a with
    | error e => rfl
    | ok b => cases items.mapM f <;> rfl

/-- A part of a text that has to exist. -/
def slice (s : List Char) (i j : Nat) : Except (Stop ParseError) (List Char) :=
  match Text.slice? s i j with
  | some part => .ok part
  | none => .error .outOfBounds

variable {s : List Char} (front middle back : List Char)

theorem slice_append (h : s = front ++ middle ++ back) :
    slice s (Text.byteLength front) (Text.byteLength (front ++ middle)) = .ok middle := by
  rw [slice, Text.slice?_append front middle back h]

theorem slice_front (h : s = front ++ back) :
    slice s 0 (Text.byteLength front) = .ok front :=
  slice_append [] front back h

theorem slice_back (h : s = front ++ back) :
    slice s (Text.byteLength front) (Text.byteLength s) = .ok back := by
  rw [h]
  exact slice_append front back [] (List.append_nil _).symm

end

namespace Nesting

/-! ## The bracket that closes a group -/

/-- A group ends at a closing bracket, which is one byte long. -/
theorem IsGroup.utf8Size_last {front : List Char} {c : Char} (h : IsGroup (front ++ [c]))
    (hne : front ≠ []) : c.utf8Size = 1 := by
  rcases charRole c with ⟨k, rfl⟩ | ⟨k, rfl⟩ | hplain
  · have htotal := h.balanced.total k
    have hfront := h.balanced.fronts k front (List.prefix_append _ _)
    have hself : [k.opening].count k.closing = 0 ∧ [k.opening].count k.opening = 1 := by
      cases k <;> decide
    rw [List.count_append, List.count_append, hself.1, hself.2] at htotal
    omega
  · cases k <;> rfl
  · have hbalanced : BalancedByKind front := by
      have hafter := balancedByKind_iff.mp h.balanced
      rw [Depth.after?_append_singleton] at hafter
      obtain ⟨d, hd, hstep⟩ := Option.bind_eq_some_iff.mp hafter
      rw [step?_of_not_isBracket hplain] at hstep
      rw [balancedByKind_iff, hd, hstep]
    have heq := h.first front (List.prefix_append _ _) hne hbalanced
    simp at heq

/-- The group that a bracket opens: the bracket, what is inside, and one byte that closes it. -/
theorem closeFrom_group {k : BracketKind} {front rest before after : List Char}
    (h : closeFrom {} (Text.byteLength front) (k.opening :: rest) = .ok (before, after)) :
    ∃ inside closing behind, before = k.opening :: inside ∧ after = closing :: behind ∧
      rest = inside ++ closing :: behind ∧ closing.utf8Size = 1 := by
  have henclosed : enclosed front (k.opening :: rest) = .ok (before.drop 1, after.drop 1) := by
    rw [enclosed, h]
    rfl
  obtain ⟨closing, hrest, hgroup⟩ := enclosed_group henclosed
  obtain ⟨closing', behind, rfl, htext, -⟩ := closeFrom_eq_ok h
  cases before with
  | nil =>
    obtain ⟨-, rfl⟩ := List.cons.inj htext
    simpa using congrArg List.length hrest
  | cons opening inside =>
    obtain ⟨rfl, rfl⟩ := List.cons.inj htext
    obtain ⟨rfl, -⟩ := List.cons.inj (List.append_cancel_left hrest)
    have hlast : IsGroup ((k.opening :: inside) ++ [closing']) := hgroup
    exact ⟨inside, closing', behind, rfl, rfl, rfl, hlast.utf8Size_last (List.cons_ne_nil _ _)⟩

namespace Checked

open Text (byteLength charIndices)

/-! ## Scans -/

section

variable (text : List Char)

/-- The depth after a character. -/
def step (d : Depth) (position : Nat) (c : Char) : Except (Stop ParseError) Depth :=
  match d.step? c with
  | some d' => .ok d'
  | none => .error (.fault (.unbalanced (String.ofList text) position))

/-- At the end of a text nothing may stand open. -/
def finish (d : Depth) : Except (Stop ParseError) Unit :=
  if d.isTop then .ok ()
  else .error (.fault (.unbalanced (String.ofList text) (byteLength text)))

/-- Takes a slice up to each separator at the top. -/
def splitLoop (separator : Char) :
    Depth → Nat → List (List Char) → List (Nat × Char) → Except (Stop ParseError) (List (List Char))
  | d, start, pieces, [] => do
    finish text d
    let piece ← slice text start (byteLength text)
    return pieces ++ [Text.trim piece]
  | d, start, pieces, (position, c) :: rest =>
    if c = separator ∧ d.isTop then do
      let piece ← slice text start position
      splitLoop separator d (position + c.utf8Size) (pieces ++ [Text.trim piece]) rest
    else do
      let d ← step text d position c
      splitLoop separator d start pieces rest

/-- The position of the first target at the top. -/
def findLoop (target : Char) :
    Depth → List (Nat × Char) → Except (Stop ParseError) (Option Nat)
  | _, [] => .ok none
  | d, (position, c) :: rest =>
    if c = target ∧ d.isTop then .ok (some position)
    else do
      let d ← step text d position c
      findLoop target d rest

/-- The position of the first character behind which nothing is open. -/
def closeLoop : Depth → List (Nat × Char) → Except (Stop ParseError) Nat
  | _, [] => .error (.fault (.unbalanced (String.ofList text) (byteLength text)))
  | d, (position, c) :: rest => do
    let d ← step text d position c
    if d.isTop then return position else closeLoop d rest

/-- The position of the last blank at the top. -/
def lastBlankLoop :
    Depth → Option Nat → List (Nat × Char) → Except (Stop ParseError) (Option Nat)
  | d, last, [] => do
    finish text d
    return last
  | d, last, (position, c) :: rest => do
    let last := if Text.isBlank c && d.isTop then some position else last
    let d ← step text d position c
    lastBlankLoop d last rest

end

/-! ## Cuts -/

/-- The pieces between separators at the top, trimmed. -/
def split (separator : Char) (text : List Char) : Except (Stop ParseError) (List (List Char)) :=
  splitLoop text separator {} 0 [] (charIndices 0 text)

/-- The position of the first target at the top. -/
def position? (target : Char) (text : List Char) : Except (Stop ParseError) (Option Nat) :=
  findLoop text target {} (charIndices 0 text)

/-- The position of the bracket that closes the one at `start`. -/
def closePosition (text : List Char) (start : Nat) : Except (Stop ParseError) Nat := do
  let opened ← slice text start (byteLength text)
  closeLoop text {} (charIndices start opened)

/-- The position of the first `target`. -/
def charPosition? (target : Char) (text : List Char) : Option Nat :=
  ((charIndices 0 text).find? (·.2 == target)).map (·.1)

/-- The trimmed parts `Outer` and `Inner` of a text `Outer<Inner>`. -/
def outermost? (text : List Char) :
    Except (Stop ParseError) (Option (List Char × List Char)) :=
  match charPosition? '<' text with
  | none =>
    match charPosition? '>' text with
    | some position => .error (.fault (.unbalanced (String.ofList text) position))
    | none => .ok none
  | some opening => do
    let closing ← closePosition text opening
    if closing + 1 ≠ byteLength text then return none
    let outer ← slice text 0 opening
    let inner ← slice text (opening + 1) closing
    return some (Text.trim outer, Text.trim inner)

/-- The trimmed parts of a text before and behind its last blank at the top. -/
def splitLast? (text : List Char) :
    Except (Stop ParseError) (Option (List Char × List Char)) := do
  match ← lastBlankLoop text {} none (charIndices 0 text) with
  | none => return none
  | some position =>
    let before ← slice text 0 position
    let after ← slice text position (byteLength text)
    return some (Text.trim before, Text.trim after)

/-! ## Scans by position and by characters -/

section

variable {text : List Char} {d d' : Depth} {position : Nat} {c : Char}

theorem step_bind {α : Type} (h : d.step? c = some d') (f : Depth → Except (Stop ParseError) α) :
    (step text d position c >>= f) = f d' := by
  rw [step, h]
  rfl

theorem step_bind_none {α : Type} (h : d.step? c = none) (f : Depth → Except (Stop ParseError) α) :
    (step text d position c >>= f) =
      checked (inText text (.error position : Except Nat α)) := by
  rw [step, h]
  rfl

theorem byteLength_concat (front : List Char) (c : Char) :
    byteLength (front ++ [c]) = byteLength front + c.utf8Size := by
  rw [Text.byteLength_append]
  rfl

theorem splitFrom_cons (separator : Char) (rest : List Char) :
    splitFrom separator d position (c :: rest) =
      if c = separator ∧ d.isTop then
        (splitFrom separator d (position + c.utf8Size) rest).map ([] :: ·)
      else match d.step? c with
      | none => .error position
      | some d' => (splitFrom separator d' (position + c.utf8Size) rest).map (extendFirst [c]) := by
  rw [splitFrom]
  refine ite_congr rfl (fun _ => rfl) fun _ => ?_
  cases d.step? c with
  | none => rfl
  | some d' =>
    dsimp only
    cases splitFrom separator d' (position + c.utf8Size) rest with
    | error e => rfl
    | ok found => cases found <;> rfl

theorem extendFirst_nil {separator : Char} {rest : List Char}
    {found : List (List Char)} (h : splitFrom separator d position rest = .ok found) :
    extendFirst [] found = found := by
  have hcuts : cuts separator d rest = some found := by
    rw [← toOption_splitFrom d position, h]
    rfl
  obtain ⟨piece, more, rfl⟩ := List.exists_cons_of_ne_nil (ne_nil_of_cuts hcuts)
  rfl

/-- The piece that is being read starts behind the last separator and reaches to the position. -/
theorem splitLoop_eq (separator : Char) (d : Depth) (front piece : List Char) {rest : List Char}
    (pieces : List (List Char)) (h : text = front ++ piece ++ rest) :
    splitLoop text separator d (byteLength front) pieces
        (charIndices (byteLength (front ++ piece)) rest) =
      checked ((inText text (splitFrom separator d (byteLength (front ++ piece)) rest)).map
        fun found => pieces ++ (extendFirst piece found).map Text.trim) := by
  have hslice := slice_append front piece rest h
  induction rest generalizing d front piece pieces with
  | nil =>
    have htext : byteLength (front ++ piece) = byteLength text := by rw [h, List.append_nil]
    rw [charIndices, splitLoop, finish, splitFrom, htext]
    rw [htext] at hslice
    split
    · rw [hslice]
      simp [extendFirst, bind, Except.bind, Except.map, pure, Except.pure]
    · rfl
  | cons c rest ih =>
    have hnext : byteLength (front ++ piece) + c.utf8Size = byteLength (front ++ piece ++ [c]) :=
      (byteLength_concat _ c).symm
    rw [charIndices, splitLoop, splitFrom_cons, hnext]
    split
    · have hfront : text = front ++ piece ++ [c] ++ [] ++ rest := by simpa using h
      have hih := ih d _ [] (pieces ++ [Text.trim piece]) hfront (slice_append _ _ _ hfront)
      rw [List.append_nil] at hih
      rw [hslice]
      show splitLoop text separator d _ _ _ = _
      rw [hih]
      cases hfound : splitFrom separator d (byteLength (front ++ piece ++ [c])) rest with
      | error e => rfl
      | ok found =>
        have hpieces : pieces ++ [Text.trim piece] ++ (extendFirst [] found).map Text.trim =
            pieces ++ (extendFirst piece ([] :: found)).map Text.trim := by
          rw [extendFirst_nil hfound, extendFirst, List.append_nil, List.map_cons,
            List.append_assoc, List.singleton_append]
        exact congrArg Except.ok hpieces
    · cases hstep : d.step? c with
      | none => rw [step_bind_none hstep]; rfl
      | some d' =>
        have hpiece : text = front ++ (piece ++ [c]) ++ rest := by simpa using h
        have hih := ih d' front _ pieces hpiece (slice_append _ _ _ hpiece)
        rw [← List.append_assoc] at hih
        rw [step_bind hstep, hih]
        dsimp only
        cases splitFrom separator d' (byteLength (front ++ piece ++ [c])) rest with
        | error e => rfl
        | ok found =>
          have hpieces := extendFirst_extendFirst piece [c] found
          exact congrArg (fun first => Except.ok (pieces ++ first.map Text.trim)) hpieces.symm

/-- A target is found behind the text that was passed. -/
theorem findLoop_eq (target : Char) (position : Nat) (rest : List Char) :
    findLoop text target d (charIndices position rest) =
      checked ((inText text (findFrom target d position rest)).map
        (Option.map fun (before, _) => position + byteLength before)) := by
  induction rest generalizing d position with
  | nil => rfl
  | cons c rest ih =>
    rw [charIndices, findLoop, findFrom]
    split
    · rfl
    · cases hstep : d.step? c with
      | none => rw [step_bind_none hstep]; rfl
      | some d' =>
        rw [step_bind hstep, ih]
        dsimp only
        cases findFrom target d' (position + c.utf8Size) rest with
        | error e => rfl
        | ok found => cases found <;> simp [Except.map, byteLength, Nat.add_assoc]

/-- The scan for the end of a group stops behind the text that was passed. -/
theorem closeLoop_eq {position : Nat} {rest : List Char}
    (h : position + byteLength rest = byteLength text) :
    closeLoop text d (charIndices position rest) =
      checked ((inText text (closeFrom d position rest)).map
        fun (before, _) => position + byteLength before) := by
  induction rest generalizing d position with
  | nil =>
    have hend : position = byteLength text := h
    rw [charIndices, closeLoop, closeFrom, hend]
    rfl
  | cons c rest ih =>
    rw [byteLength, ← Nat.add_assoc] at h
    rw [charIndices, closeLoop, closeFrom]
    cases hstep : d.step? c with
    | none => rw [step_bind_none hstep]; rfl
    | some d' =>
      rw [step_bind hstep]
      dsimp only
      split
      · rfl
      · rw [ih h]
        cases closeFrom d' (position + c.utf8Size) rest with
        | error e => rfl
        | ok found => simp [Except.map, byteLength, Nat.add_assoc]

/-- The last blank stands behind the text that was passed, unless it was passed itself. -/
theorem lastBlankLoop_eq {last : Option Nat} {position : Nat} {rest : List Char}
    (h : position + byteLength rest = byteLength text) :
    lastBlankLoop text d last (charIndices position rest) =
      checked ((inText text (lastBlankFrom d position rest)).map
        fun found => (found.map fun (before, _) => position + byteLength before).or last) := by
  induction rest generalizing d last position with
  | nil =>
    have hend : position = byteLength text := h
    rw [charIndices, lastBlankLoop, finish, lastBlankFrom, hend]
    split <;> rfl
  | cons c rest ih =>
    rw [byteLength, ← Nat.add_assoc] at h
    rw [charIndices, lastBlankLoop, lastBlankFrom]
    cases hstep : d.step? c with
    | none => rw [step_bind_none hstep]; rfl
    | some d' =>
      rw [step_bind hstep, ih h]
      dsimp only
      cases lastBlankFrom d' (position + c.utf8Size) rest with
      | error e => rfl
      | ok found =>
        cases found with
        | none =>
          by_cases hblank : (Text.isBlank c && d.isTop) = true <;> simp [Except.map, byteLength, hblank]
        | some parts => simp [Except.map, byteLength, Nat.add_assoc]

end

/-! ## Cuts by position and by characters -/

section

variable (text : List Char)

theorem split_eq (separator : Char) :
    split separator text = checked (Nesting.split separator text) := by
  have hloop : split separator text =
      checked ((inText text (splitFrom separator {} 0 text)).map
        fun found => (extendFirst [] found).map Text.trim) :=
    splitLoop_eq separator {} [] [] [] (List.nil_append text).symm
  rw [hloop, Nesting.split]
  cases hfound : splitFrom separator {} 0 text with
  | error e => rfl
  | ok found =>
    have hfirst := extendFirst_nil hfound
    exact congrArg (fun pieces => Except.ok (pieces.map Text.trim)) hfirst

theorem position?_eq (target : Char) :
    position? target text = checked (Nesting.position? (String.ofList text) target) := by
  rw [position?, findLoop_eq, Nesting.position?, find?, String.toList_ofList]
  simp

theorem closePosition_append {front back : List Char} (h : text = front ++ back) :
    closePosition text (byteLength front) =
      checked ((inText text (closeFrom {} (byteLength front) back)).map
        fun (before, _) => byteLength front + byteLength before) := by
  rw [closePosition, slice_back front back h]
  exact closeLoop_eq (by rw [h, Text.byteLength_append])

/-- The position of a closing bracket can be asked for from where a character begins or the text
ends, and from nowhere else. -/
theorem closePosition_eq_iff (start : Nat) :
    closePosition text start = checked (Nesting.closePosition (String.ofList text) start) ↔
      String.Pos.Raw.IsValid (String.ofList text) ⟨start⟩ := by
  constructor
  · intro h
    refine Decidable.byContradiction fun hstart => ?_
    have hstop : closePosition text start = .error .outOfBounds := by
      rw [closePosition, slice, Text.slice?, if_neg fun hvalid => hstart hvalid.2.1]
      rfl
    exact checked_ne_outOfBounds _ (h.symm.trans hstop)
  · intro hstart
    obtain ⟨front, back, rfl, rfl⟩ := Text.exists_append_of_isValid hstart
    rw [closePosition_append _ rfl, Nesting.closePosition, String.toList_ofList,
      Text.dropBytes_byteLength]

theorem splitLast?_eq : splitLast? text = checked (Nesting.splitLast? text) := by
  have hloop : lastBlankLoop text {} none (charIndices 0 text) = _ :=
    lastBlankLoop_eq (Nat.zero_add _)
  rw [splitLast?, hloop, Nesting.splitLast?]
  cases hfound : lastBlankFrom {} 0 text with
  | error e => rfl
  | ok found =>
    cases found with
    | none => rfl
    | some parts =>
      obtain ⟨before, after⟩ := parts
      have htext := lastBlankFrom_eq_some hfound
      have hbefore := slice_front before after htext
      have hafter := slice_back before after htext
      rw [← Nat.zero_add (byteLength before)] at hbefore hafter
      show (slice text 0 (0 + byteLength before) >>= _) = _
      rw [hbefore, ok_bind, hafter]
      rfl

theorem charPosition?_append {target : Char} {front : List Char} (h : target ∉ front)
    (rest : List Char) :
    charPosition? target (front ++ target :: rest) = some (byteLength front) := by
  have hfind (start : Nat) :
      ((charIndices start (front ++ target :: rest)).find? (·.2 == target)).map (·.1) =
        some (start + byteLength front) := by
    induction front generalizing start with
    | nil => simp [charIndices, byteLength]
    | cons c front ih =>
      obtain ⟨hc, hfront⟩ := not_or.mp (mt List.mem_cons.mpr h)
      have hne : (c == target) = false := beq_false_of_ne (Ne.symm hc)
      simp only [List.cons_append, charIndices, List.find?_cons, hne, ih hfront, byteLength,
        Nat.add_assoc]
  rw [charPosition?, hfind, Nat.zero_add]

theorem charPosition?_eq_none {target : Char} (h : target ∉ text) :
    charPosition? target text = none := by
  have hfind (start : Nat) : (charIndices start text).find? (·.2 == target) = none := by
    induction text generalizing start with
    | nil => rfl
    | cons c rest ih =>
      obtain ⟨hc, hrest⟩ := not_or.mp (mt List.mem_cons.mpr h)
      have hne : (c == target) = false := beq_false_of_ne (Ne.symm hc)
      simp only [charIndices, List.find?_cons, hne, ih hrest]
  rw [charPosition?, hfind]
  rfl

/-- The slices around a bracket and its partner are what the bracket encloses and what follows. -/
theorem exists_closePosition {k : BracketKind} {front rest inside behind : List Char}
    (htext : text = front ++ k.opening :: rest)
    (h : enclosed front (k.opening :: rest) = .ok (inside, behind)) :
    ∃ stop, closePosition text (byteLength front) = .ok stop ∧
      slice text (byteLength front + 1) stop = .ok inside ∧
      slice text (stop + 1) (byteLength text) = .ok behind ∧
      (stop + 1 = byteLength text ↔ behind = []) := by
  obtain ⟨⟨before, after⟩, hclose, hdrop⟩ := map_eq_ok.mp h
  replace hclose := ok_of_mapError hclose
  obtain ⟨inside, closing, behind, rfl, rfl, rfl, hsize⟩ := closeFrom_group hclose
  cases hdrop
  have hopening : byteLength [k.opening] = 1 := by cases k <;> rfl
  have hclosing : byteLength [closing] = 1 := hsize
  have hparts : text = front ++ [k.opening] ++ inside ++ [closing] ++ behind := by simp [htext]
  refine ⟨byteLength (front ++ [k.opening] ++ inside), ?_, ?_, ?_, ?_⟩
  · rw [closePosition_append _ htext, hclose]
    show Except.ok (byteLength front + byteLength (k.opening :: inside)) = _
    rw [← Text.byteLength_append, List.append_assoc]
    rfl
  · have hslice := slice_append (front ++ [k.opening]) inside
      (closing :: behind) (s := text) (by simp [htext])
    rwa [Text.byteLength_append front, hopening] at hslice
  · have hslice := slice_back _ behind hparts
    rwa [Text.byteLength_append _ [closing], hclosing] at hslice
  · rw [hparts, Text.byteLength_append _ behind, Text.byteLength_append _ [closing], hclosing]
    cases behind with
    | nil => simp [byteLength]
    | cons c behind =>
      have hc := c.utf8Size_pos
      refine iff_of_false ?_ (List.cons_ne_nil c behind)
      rw [byteLength]
      omega

theorem closePosition_of_error {k : BracketKind} {front rest : List Char} {e : ParseError}
    (htext : text = front ++ k.opening :: rest)
    (h : enclosed front (k.opening :: rest) = .error e) :
    closePosition text (byteLength front) = .error (.fault e) := by
  rw [closePosition_append _ htext]
  rw [enclosed, ← htext] at h
  rw [map_eq_error.mp h]
  rfl

theorem outermost?_eq : outermost? text = checked (Nesting.outermost? text) := by
  by_cases hopened : '<' ∈ text
  · obtain ⟨outer, rest, htext, houter⟩ := List.eq_append_cons_of_mem hopened
    have hposition : charPosition? '<' text = some (byteLength outer) := by
      rw [htext, charPosition?_append houter]
    have hmodel : Nesting.outermost? text =
        (enclosed outer ('<' :: rest)).map fun (inner, after) =>
          if after.isEmpty then some (Text.trim outer, Text.trim inner) else none := by
      rw [htext, outermost?_opened houter]
    rw [hmodel, outermost?, hposition]
    dsimp only
    cases henclosed : enclosed outer ('<' :: rest) with
    | error e =>
      rw [closePosition_of_error text (k := .angles) htext henclosed]
      rfl
    | ok parts =>
      obtain ⟨inside, behind⟩ := parts
      obtain ⟨stop, hstop, hinside, -, hend⟩ :=
        exists_closePosition text (k := .angles) htext henclosed
      rw [hstop]
      rw [ok_bind]
      by_cases hbehind : behind = []
      · have houter := slice_front outer _ htext
        rw [if_neg (not_not_intro (hend.mpr hbehind)), houter, ok_bind, hinside, ok_bind, hbehind]
        rfl
      · have hnot : behind.isEmpty = false := by simpa using hbehind
        rw [if_pos fun heq => hbehind (hend.mp heq), Except.map, hnot]
        rfl
  · rw [outermost?_unopened hopened, outermost?, charPosition?_eq_none _ hopened]
    dsimp only
    by_cases hclosed : '>' ∈ text
    · obtain ⟨front, rest, rfl, hfront⟩ := List.eq_append_cons_of_mem hclosed
      have hall : ∀ c ∈ front, (c != '>') = true := fun c hc =>
        bne_iff_ne.mpr (ne_of_mem_of_not_mem hc hfront)
      have htake : (front ++ '>' :: rest).takeWhile (· != '>') = front := by
        rw [List.takeWhile_append_of_pos hall]
        simp
      rw [if_pos hclosed, charPosition?_append hfront, htake]
      rfl
    · rw [if_neg hclosed, charPosition?_eq_none _ hclosed]
      rfl

end

end Checked

end Nesting

end ApiSurface
