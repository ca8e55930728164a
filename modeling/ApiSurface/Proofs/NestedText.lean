import ApiSurface.Nesting
import ApiSurface.Proofs.Trimming

/-!
# Cuts through nested text

A text in which every bracket has its partner is passed over by the cuts of `Nesting` as if it were
one character: `closeFrom` does not stop inside it (`closeFrom_balanced`), `splitFrom` cuts it
nowhere but at its own top (`cuts_balanced`), and a blank behind it is the last blank of the whole
(`splitLast?_gap`). If a target stands in it only inside brackets, the first one is found behind it
(`find?_shielded`).

Where a text is cut does not depend on the position that faults are counted from, so the lemmas on
`splitFrom` speak of `cuts`, which leaves faults out. Blanks at the ends of a text only go to its
first and last piece, which are trimmed (`split_trim`).
-/

namespace ApiSurface.Nesting

/-! ## Balanced text -/

/-- The characters that change the depth. -/
def isBracket (c : Char) : Bool :=
  c == '(' || c == '<' || c == ')' || c == '>'

/-- An opening bracket and its partner. -/
inductive Pair : Char → Char → Prop
  | parens : Pair '(' ')'
  | angles : Pair '<' '>'

/-- Texts with properly nested brackets whose characters outside of all brackets satisfy `top`. -/
inductive Balanced : (Char → Bool) → List Char → Prop
  | nil {top : Char → Bool} : Balanced top []
  | char {top : Char → Bool} {c : Char} {rest : List Char} : isBracket c = false → top c = true →
      Balanced top rest → Balanced top (c :: rest)
  | brackets {top : Char → Bool} {opening closing : Char} {inside rest : List Char} :
      Pair opening closing → Balanced (fun _ => true) inside → Balanced top rest →
      Balanced top (opening :: (inside ++ closing :: rest))

variable {top : Char → Bool} {text : List Char}

/-- Balanced texts behind each other are balanced. -/
theorem Balanced.append {more : List Char} (h : Balanced top text) (hmore : Balanced top more) :
    Balanced top (text ++ more) := by
  induction h with
  | nil => exact hmore
  | char hc htop _ ih => exact .char hc htop (ih hmore)
  | brackets hpair hinside _ _ ih =>
    rw [List.cons_append, List.append_assoc]
    exact .brackets hpair hinside (ih hmore)

/-- A weaker condition on the characters at the top. -/
theorem Balanced.mono {top' : Char → Bool} (h : Balanced top text)
    (hle : ∀ c, top c = true → top' c = true) : Balanced top' text := by
  induction h with
  | nil => exact .nil
  | char hc htop _ ih => exact .char hc (hle _ htop) (ih hle)
  | brackets hpair hinside _ _ ih => exact .brackets hpair hinside (ih hle)

/-- A text without brackets is balanced. -/
theorem balanced_of_forall (h : ∀ c ∈ text, isBracket c = false ∧ top c = true) :
    Balanced top text := by
  induction text with
  | nil => exact .nil
  | cons c rest ih =>
    obtain ⟨⟨hc, htop⟩, hrest⟩ := List.forall_mem_cons.mp h
    exact .char hc htop (ih hrest)

/-! ## Depth -/

theorem step?_of_not_isBracket {c : Char} (h : isBracket c = false) (d : Depth) :
    d.step? c = some d := by
  simp only [isBracket, Bool.or_eq_false_iff, beq_eq_false_iff_ne] at h
  obtain ⟨⟨⟨hparen, hangle⟩, hparen'⟩, hangle'⟩ := h
  rw [Depth.step?, if_neg hparen, if_neg hangle, if_neg hparen', if_neg hangle']

/-- Between a bracket and its partner the text is not at the top, and the partner leads back. -/
theorem Pair.exists_inside {opening closing : Char} (h : Pair opening closing) (d : Depth) :
    ∃ inside : Depth, d.step? opening = some inside ∧ inside.isTop = false ∧
      inside.step? closing = some d := by
  cases h with
  | parens => exact ⟨{ d with parens := d.parens + 1 }, rfl, by simp [Depth.isTop], rfl⟩
  | angles => exact ⟨{ d with angles := d.angles + 1 }, rfl, by simp [Depth.isTop], rfl⟩

/-! ## The partner of a bracket -/

/-- Inside a bracket, the search for its partner passes over balanced text. -/
theorem closeFrom_balanced (h : Balanced top text) {d : Depth} (hd : d.isTop = false)
    (position : Nat) (rest : List Char) :
    closeFrom d position (text ++ rest) =
      (closeFrom d (position + Text.byteLength text) rest).map
        fun (before, after) => (text ++ before, after) := by
  induction h generalizing d position rest with
  | nil =>
    simp only [List.nil_append, Text.byteLength, Nat.add_zero]
    cases closeFrom d position rest <;> rfl
  | char hc _ _ ih =>
    rw [List.cons_append, closeFrom, step?_of_not_isBracket hc]
    simp only [hd, Bool.false_eq_true, if_false]
    rw [ih hd, Text.byteLength, Nat.add_assoc]
    cases closeFrom d _ rest <;> rfl
  | brackets hpair _ _ ihinside ihmore =>
    obtain ⟨inside, hopening, hinside, hclosing⟩ := hpair.exists_inside d
    rw [List.cons_append, List.append_assoc, List.cons_append, closeFrom, hopening]
    simp only [hinside, Bool.false_eq_true, if_false]
    -- behind the partner the depth is `d` again, which is not the top either
    rw [ihinside hinside, closeFrom, hclosing]
    simp only [hd, Bool.false_eq_true, if_false]
    rw [ihmore hd]
    simp only [Text.byteLength, Text.byteLength_append, ← Nat.add_assoc]
    cases closeFrom d _ rest <;> simp [Except.map]

/-- A balanced text in brackets ends at the last of them. -/
theorem closeFrom_pair {opening closing : Char} (hpair : Pair opening closing)
    (h : Balanced top text) (position : Nat) (rest : List Char) :
    closeFrom {} position (opening :: (text ++ closing :: rest)) =
      .ok (opening :: text, closing :: rest) := by
  obtain ⟨inside, hopening, hinside, hclosing⟩ := hpair.exists_inside {}
  have htop : Depth.isTop {} = true := rfl
  rw [closeFrom, hopening]
  simp only [hinside, Bool.false_eq_true, if_false]
  rw [closeFrom_balanced h hinside, closeFrom, hclosing]
  simp [htop, Except.map]

/-- The parts of a text are cut at its first angle bracket. -/
theorem outermost?_opened {outer : List Char} (houter : '<' ∉ outer) (rest : List Char) :
    outermost? (outer ++ '<' :: rest) =
      (enclosed outer ('<' :: rest)).map fun (inner, after) =>
        if after.isEmpty then some (Text.trim outer, Text.trim inner) else none := by
  have hall : ∀ c ∈ outer, (c != '<') = true := fun c hc =>
    bne_iff_ne.mpr (ne_of_mem_of_not_mem hc houter)
  have htake : (outer ++ '<' :: rest).takeWhile (· != '<') = outer := by
    rw [List.takeWhile_append_of_pos hall]
    simp
  have hdrop : (outer ++ '<' :: rest).dropWhile (· != '<') = '<' :: rest := by
    rw [List.dropWhile_append_of_pos hall]
    simp
  unfold outermost?
  rw [hdrop, htake]

/-- Without an angle bracket that opens there may be none that closes. -/
theorem outermost?_unopened (h : '<' ∉ text) :
    outermost? text =
      if '>' ∈ text then
        .error (.unbalanced (String.ofList text) (Text.byteLength (text.takeWhile (· != '>'))))
      else .ok none := by
  have hdrop : text.dropWhile (· != '<') = [] :=
    List.dropWhile_eq_nil_iff.mpr fun c hc => bne_iff_ne.mpr (ne_of_mem_of_not_mem hc h)
  unfold outermost?
  rw [hdrop]
  simp only [List.contains_eq_mem, decide_eq_true_eq]

/-- A text in which a balanced text stands in the first angle brackets has parts when nothing
follows these. -/
theorem outermost?_angles {outer : List Char} (houter : '<' ∉ outer) (h : Balanced top text)
    (behind : List Char) :
    outermost? (outer ++ '<' :: (text ++ '>' :: behind)) =
      .ok (if behind.isEmpty then some (Text.trim outer, Text.trim text) else none) := by
  rw [outermost?_opened houter]
  simp only [enclosed, closeFrom_pair .angles h, inText_ok, Except.map, List.drop_succ_cons,
    List.drop_zero]

/-- A name applied to a balanced text falls into the two. -/
theorem outermost?_applied {outer : List Char} (houter : ∀ c ∈ outer, c ≠ '<')
    (h : Balanced top text) :
    outermost? (outer ++ '<' :: (text ++ ['>'])) =
      .ok (some (Text.trim outer, Text.trim text)) :=
  outermost?_angles (fun hmem => houter _ hmem rfl) h []

/-- A text without angle brackets has no parts. -/
theorem outermost?_plain (h : ∀ c ∈ text, c ≠ '<' ∧ c ≠ '>') : outermost? text = .ok none := by
  rw [outermost?_unopened fun hmem => (h _ hmem).1 rfl, if_neg fun hmem => (h _ hmem).2 rfl]

/-! ## Pieces -/

/-- Puts a text in front of the first piece. -/
def extendFirst (front : List Char) : List (List Char) → List (List Char)
  | [] => [front]
  | piece :: pieces => (front ++ piece) :: pieces

/-- Puts a text behind the last piece. -/
def extendLast (back : List Char) : List (List Char) → List (List Char)
  | [] => [back]
  | [piece] => [piece ++ back]
  | piece :: pieces => piece :: extendLast back pieces

/-- The pieces of a text between separators at the top, if no bracket is without partner. -/
def cuts (separator : Char) (d : Depth) (text : List Char) : Option (List (List Char)) :=
  (splitFrom separator d 0 text).toOption

variable {separator : Char}

/-- Faults apart, the position does not matter. -/
theorem toOption_splitFrom (d : Depth) (position : Nat) (text : List Char) :
    (splitFrom separator d position text).toOption = cuts separator d text := by
  have hmap {α β : Type} (f : α → β) (r : Except Nat α) :
      (r.map f).toOption = r.toOption.map f := by
    cases r <;> rfl
  unfold cuts
  generalize 0 = position'
  induction text generalizing d position position' with
  | nil =>
    simp only [splitFrom]
    split <;> rfl
  | cons c rest ih =>
    simp only [splitFrom]
    split
    · rw [hmap, hmap, ih d _ _]
    · split
      · rfl
      · next d' _ => rw [hmap, hmap, ih d' _ _]

theorem cuts_nil (d : Depth) : cuts separator d [] = if d.isTop then some [[]] else none := by
  rw [cuts, splitFrom]
  split <;> rfl

/-- A separator at the top ends a piece, and every other character belongs to one. -/
theorem cuts_cons (d : Depth) (c : Char) (rest : List Char) :
    cuts separator d (c :: rest) =
      if c = separator ∧ d.isTop then (cuts separator d rest).map ([] :: ·)
      else (d.step? c).bind fun d' => (cuts separator d' rest).map (extendFirst [c]) := by
  rw [cuts, splitFrom]
  split
  · rw [← toOption_splitFrom d (0 + c.utf8Size)]
    cases splitFrom separator d (0 + c.utf8Size) rest <;> rfl
  · cases d.step? c with
    | none => rfl
    | some d' =>
      simp only [Option.bind_some]
      rw [← toOption_splitFrom d' (0 + c.utf8Size)]
      cases splitFrom separator d' (0 + c.utf8Size) rest with
      | error position => rfl
      | ok pieces => cases pieces <;> rfl

/-- There is always a first piece. -/
theorem ne_nil_of_cuts {d : Depth} {pieces : List (List Char)}
    (h : cuts separator d text = some pieces) : pieces ≠ [] := by
  cases text with
  | nil =>
    rw [cuts_nil] at h
    split at h
    · cases h
      exact List.cons_ne_nil _ _
    · cases h
  | cons c rest =>
    rw [cuts_cons] at h
    split at h
    · obtain ⟨more, -, rfl⟩ := Option.map_eq_some_iff.mp h
      exact List.cons_ne_nil _ _
    · obtain ⟨d', -, h⟩ := Option.bind_eq_some_iff.mp h
      obtain ⟨more, -, rfl⟩ := Option.map_eq_some_iff.mp h
      cases more <;> exact List.cons_ne_nil _ _

theorem extendFirst_extendFirst (front front' : List Char) (pieces : List (List Char)) :
    extendFirst front (extendFirst front' pieces) = extendFirst (front ++ front') pieces := by
  cases pieces with
  | nil => rfl
  | cons piece pieces => rw [extendFirst, extendFirst, extendFirst, List.append_assoc]

theorem map_extendFirst_nil (d : Depth) (text : List Char) :
    (cuts separator d text).map (extendFirst []) = cuts separator d text := by
  cases h : cuts separator d text with
  | none => rfl
  | some pieces =>
    obtain ⟨piece, more, rfl⟩ := List.exists_cons_of_ne_nil (ne_nil_of_cuts h)
    rfl

theorem isBracket_of_pair {opening closing : Char} (h : Pair opening closing) :
    isBracket opening = true ∧ isBracket closing = true := by
  cases h <;> decide

/-- A balanced text is not cut where no separator stands at its top. -/
theorem cuts_balanced (h : Balanced top text) (hbracket : isBracket separator = false) {d : Depth}
    (hseparator : d.isTop = true → top separator = false) (rest : List Char) :
    cuts separator d (text ++ rest) = (cuts separator d rest).map (extendFirst text) := by
  induction h generalizing d rest with
  | nil => exact (map_extendFirst_nil d rest).symm
  | @char top c more hc htop _ ih =>
    have hne : ¬ (c = separator ∧ d.isTop = true) := by
      rintro ⟨rfl, hd⟩
      cases htop.symm.trans (hseparator hd)
    rw [List.cons_append, cuts_cons, if_neg hne, step?_of_not_isBracket hc, Option.bind_some,
      ih hseparator, Option.map_map]
    refine congrArg (Option.map · _) (funext fun pieces => ?_)
    exact extendFirst_extendFirst [c] more pieces
  | @brackets top opening closing inside more hpair _ _ ihinside ihmore =>
    obtain ⟨d', hopening, hinside, hclosing⟩ := hpair.exists_inside d
    obtain ⟨hopen, hclose⟩ := isBracket_of_pair hpair
    have hne : ¬ (opening = separator ∧ d.isTop = true) := by
      rintro ⟨rfl, -⟩
      cases hopen.symm.trans hbracket
    have hne' : ¬ (closing = separator ∧ d'.isTop = true) := by
      rintro ⟨rfl, -⟩
      cases hclose.symm.trans hbracket
    -- inside the brackets every character may be the separator
    have hnottop : d'.isTop = true → (fun _ : Char => true) separator = false :=
      fun h => absurd (h.symm.trans hinside) (by simp)
    rw [List.cons_append, List.append_assoc, List.cons_append, cuts_cons, if_neg hne, hopening,
      Option.bind_some, ihinside hnottop, cuts_cons, if_neg hne', hclosing, Option.bind_some,
      ihmore hseparator, Option.map_map, Option.map_map, Option.map_map]
    refine congrArg (Option.map · _) (funext fun pieces => ?_)
    simp only [Function.comp_apply, extendFirst_extendFirst, List.cons_append, List.nil_append]

/-- Balanced texts with separators between them are the pieces of the whole. -/
theorem cuts_intercalate {texts : List (List Char)} (hbracket : isBracket separator = false)
    (h : ∀ text ∈ texts, Balanced (· != separator) text) (hne : texts ≠ []) :
    cuts separator {} ([separator].intercalate texts) = some texts := by
  have hnot : Depth.isTop {} = true → (separator != separator) = false := fun _ => by simp
  have htop : Depth.isTop {} = true := rfl
  induction texts with
  | nil => exact absurd rfl hne
  | cons text texts ih =>
    obtain ⟨htext, htexts⟩ := List.forall_mem_cons.mp h
    cases texts with
    | nil =>
      have hcuts := cuts_balanced htext hbracket hnot []
      rw [List.append_nil, cuts_nil, if_pos htop] at hcuts
      rw [List.intercalate_singleton, hcuts]
      simp [extendFirst]
    | cons text' texts =>
      rw [List.intercalate_cons_cons, List.append_assoc, cuts_balanced htext hbracket hnot,
        List.singleton_append, cuts_cons, if_pos ⟨rfl, htop⟩, ih htexts (List.cons_ne_nil _ _)]
      simp [extendFirst]

/-! ## Blanks around pieces -/

/-- No bracket is blank. -/
theorem isBracket_of_isBlank {c : Char} (h : Text.isBlank c = true) : isBracket c = false := by
  by_contra hc
  simp only [isBracket, Bool.not_eq_false, Bool.or_eq_true, beq_iff_eq] at hc
  rcases hc with ((rfl | rfl) | rfl) | rfl <;> cases h

/-- A blank in front of a text is in front of its first piece. -/
theorem cuts_blank_cons {c : Char} (hc : Text.isBlank c = true)
    (hseparator : Text.isBlank separator = false) (d : Depth) (text : List Char) :
    cuts separator d (c :: text) = (cuts separator d text).map (extendFirst [c]) := by
  have hne : ¬ (c = separator ∧ d.isTop = true) := by
    rintro ⟨rfl, -⟩
    cases hc.symm.trans hseparator
  rw [cuts_cons, if_neg hne, step?_of_not_isBracket (isBracket_of_isBlank hc), Option.bind_some]

theorem extendLast_cons {pieces : List (List Char)} (h : pieces ≠ []) (back piece : List Char) :
    extendLast back (piece :: pieces) = piece :: extendLast back pieces := by
  cases pieces with
  | nil => exact absurd rfl h
  | cons piece' pieces => rfl

theorem extendFirst_extendLast (front back : List Char) (pieces : List (List Char)) :
    extendFirst front (extendLast back pieces) = extendLast back (extendFirst front pieces) := by
  cases pieces with
  | nil => rfl
  | cons piece pieces =>
    cases pieces with
    | nil => simp [extendFirst, extendLast]
    | cons piece' pieces => rfl

/-- A blank behind a text is behind its last piece. -/
theorem cuts_append_blank {c : Char} (hc : Text.isBlank c = true)
    (hseparator : Text.isBlank separator = false) (d : Depth) (text : List Char) :
    cuts separator d (text ++ [c]) = (cuts separator d text).map (extendLast [c]) := by
  induction text generalizing d with
  | nil =>
    rw [List.nil_append, cuts_blank_cons hc hseparator, cuts_nil]
    split <;> rfl
  | cons a text ih =>
    rw [List.cons_append, cuts_cons, cuts_cons]
    split
    · rw [ih]
      cases h : cuts separator d text with
      | none => rfl
      | some pieces => simp [extendLast_cons (ne_nil_of_cuts h)]
    · cases d.step? a with
      | none => rfl
      | some d' =>
        rw [Option.bind_some, Option.bind_some, ih, Option.map_map, Option.map_map]
        refine congrArg (Option.map · _) (funext fun pieces => ?_)
        exact extendFirst_extendLast [a] [c] pieces

theorem map_trim_extendLast {back : List Char} (hback : ∀ c ∈ back, Text.isBlank c = true)
    {pieces : List (List Char)} (h : pieces ≠ []) :
    (extendLast back pieces).map Text.trim = pieces.map Text.trim := by
  induction pieces with
  | nil => exact absurd rfl h
  | cons piece pieces ih =>
    cases pieces with
    | nil => rw [extendLast, List.map_singleton, Text.trim_append_blanks hback, List.map_singleton]
    | cons piece' pieces =>
      rw [extendLast_cons (List.cons_ne_nil _ _), List.map_cons, ih (List.cons_ne_nil _ _)]
      rfl

/-- The trimmed pieces of a text, if no bracket is without partner. -/
def trimmedCuts (separator : Char) (text : List Char) : Option (List (List Char)) :=
  (cuts separator {} text).map (List.map Text.trim)

/-- Trimmed pieces do not show a blank that the text begins with. -/
theorem trimmedCuts_blank_cons {c : Char} (hc : Text.isBlank c = true)
    (hseparator : Text.isBlank separator = false) (text : List Char) :
    trimmedCuts separator (c :: text) = trimmedCuts separator text := by
  have hblank : ∀ c' ∈ [c], Text.isBlank c' = true := by simpa using hc
  unfold trimmedCuts
  rw [cuts_blank_cons hc hseparator]
  cases h : cuts separator {} text with
  | none => rfl
  | some pieces =>
    obtain ⟨piece, more, rfl⟩ := List.exists_cons_of_ne_nil (ne_nil_of_cuts h)
    simp only [Option.map_some, extendFirst, List.map_cons, Text.trim_blanks_append hblank]

/-- Trimmed pieces do not show a blank that the text ends with. -/
theorem trimmedCuts_append_blank {c : Char} (hc : Text.isBlank c = true)
    (hseparator : Text.isBlank separator = false) (text : List Char) :
    trimmedCuts separator (text ++ [c]) = trimmedCuts separator text := by
  have hblank : ∀ c' ∈ [c], Text.isBlank c' = true := by simpa using hc
  unfold trimmedCuts
  rw [cuts_append_blank hc hseparator]
  cases h : cuts separator {} text with
  | none => rfl
  | some pieces =>
    rw [Option.map_some, Option.map_some, Option.map_some,
      map_trim_extendLast hblank (ne_nil_of_cuts h)]

/-- Trimming a text changes none of its trimmed pieces. -/
theorem trimmedCuts_trim (hseparator : Text.isBlank separator = false) (text : List Char) :
    trimmedCuts separator (Text.trim text) = trimmedCuts separator text := by
  obtain ⟨front, back, hfront, hback, htext⟩ := Text.exists_blanks text
  -- the blanks go one at a time, those behind from the last and those in front from the first
  have hbehind : ∀ s, trimmedCuts separator (s ++ back) = trimmedCuts separator s := by
    clear htext
    induction back using List.reverseRecOn with
    | nil => exact fun s => by rw [List.append_nil]
    | append_singleton back c ih =>
      obtain ⟨hback, hc⟩ := List.forall_mem_append.mp hback
      intro s
      rw [← List.append_assoc, trimmedCuts_append_blank (by simpa using hc) hseparator, ih hback]
  have hbefore : ∀ s, trimmedCuts separator (front ++ s) = trimmedCuts separator s := by
    clear htext
    induction front with
    | nil => exact fun s => rfl
    | cons c front ih =>
      obtain ⟨hc, hfront⟩ := List.forall_mem_cons.mp hfront
      intro s
      rw [List.cons_append, trimmedCuts_blank_cons hc hseparator, ih hfront]
  calc trimmedCuts separator (Text.trim text)
      = trimmedCuts separator (front ++ Text.trim text ++ back) := by rw [hbehind, hbefore]
    _ = trimmedCuts separator text := by rw [← htext]

/-- A text is split where it is cut. -/
theorem split_eq_ok_iff {pieces : List (List Char)} :
    split separator text = .ok pieces ↔ trimmedCuts separator text = some pieces := by
  unfold split trimmedCuts cuts
  cases splitFrom separator {} 0 text with
  | error position => simp [Except.map, Except.toOption]
  | ok raw => simp [Except.map, Except.toOption]

/-- Balanced texts with separators between them are split into the trimmed texts. -/
theorem split_intercalate {texts : List (List Char)} (hbracket : isBracket separator = false)
    (hseparator : Text.isBlank separator = false)
    (h : ∀ text ∈ texts, Balanced (· != separator) text) (hne : texts ≠ []) :
    split separator (Text.trim ([separator].intercalate texts)) =
      .ok (texts.map Text.trim) := by
  rw [split_eq_ok_iff, trimmedCuts_trim hseparator, trimmedCuts, cuts_intercalate hbracket h hne,
    Option.map_some]

/-! ## The first target -/

/-- Texts with properly nested brackets in which the target stands only inside brackets. -/
inductive Shielded (target : Char) : List Char → Prop
  | nil : Shielded target []
  | char {c : Char} {rest : List Char} : isBracket c = false → c ≠ target →
      Shielded target rest → Shielded target (c :: rest)
  | brackets {opening closing : Char} {inside rest : List Char} : Pair opening closing →
      opening ≠ target → Balanced (fun _ => true) inside → Shielded target rest →
      Shielded target (opening :: (inside ++ closing :: rest))

variable {target : Char}

theorem Shielded.append {more : List Char} (h : Shielded target text)
    (hmore : Shielded target more) : Shielded target (text ++ more) := by
  induction h with
  | nil => exact hmore
  | char hc hne _ ih => exact .char hc hne ih
  | brackets hpair hne hinside _ ih =>
    rw [List.cons_append, List.append_assoc]
    exact .brackets hpair hne hinside ih

theorem Shielded.balanced (h : Shielded target text) : Balanced (fun _ => true) text := by
  induction h with
  | nil => exact .nil
  | char hc _ _ ih => exact .char hc rfl ih
  | brackets hpair _ hinside _ ih => exact .brackets hpair hinside ih

/-- A text without brackets and targets. -/
theorem shielded_of_forall (h : ∀ c ∈ text, isBracket c = false ∧ c ≠ target) :
    Shielded target text := by
  induction text with
  | nil => exact .nil
  | cons c rest ih =>
    obtain ⟨⟨hc, hne⟩, hrest⟩ := List.forall_mem_cons.mp h
    exact .char hc hne (ih hrest)

/-- Blanks in front of a text shield nothing. -/
theorem Shielded.trimStart (h : Shielded target text) : Shielded target (Text.trimStart text) := by
  induction h with
  | nil => exact .nil
  | @char c rest hc hne hrest ih =>
    by_cases hblank : Text.isBlank c = true
    · rwa [Text.trimStart, List.dropWhile_cons_of_pos hblank]
    · rw [Text.trimStart, List.dropWhile_cons_of_neg hblank]
      exact .char hc hne hrest
  | @brackets opening closing inside rest hpair hne hinside hrest _ =>
    have hblank : ¬ Text.isBlank opening = true := fun h => by
      cases (isBracket_of_isBlank h).symm.trans (isBracket_of_pair hpair).1
    rw [Text.trimStart, List.dropWhile_cons_of_neg hblank]
    exact .brackets hpair hne hinside hrest

/-- Inside a bracket, the search for a target passes over balanced text. -/
theorem findFrom_balanced (h : Balanced top text) {d : Depth} (hd : d.isTop = false)
    (position : Nat) (rest : List Char) :
    findFrom target d position (text ++ rest) =
      (findFrom target d (position + Text.byteLength text) rest).map
        (Option.map fun (before, after) => (text ++ before, after)) := by
  induction h generalizing d position rest with
  | nil =>
    simp only [List.nil_append, Text.byteLength, Nat.add_zero]
    rcases findFrom target d position rest with e | _ | ⟨before, after⟩ <;> rfl
  | char hc _ _ ih =>
    rw [List.cons_append, findFrom, step?_of_not_isBracket hc]
    simp only [hd, Bool.false_eq_true, and_false, if_false]
    rw [ih hd, Text.byteLength, Nat.add_assoc]
    rcases findFrom target d _ rest with e | _ | ⟨before, after⟩ <;> rfl
  | brackets hpair _ _ ihinside ihmore =>
    obtain ⟨inside, hopening, hinside, hclosing⟩ := hpair.exists_inside d
    rw [List.cons_append, List.append_assoc, List.cons_append, findFrom, hopening]
    simp only [hd, Bool.false_eq_true, and_false, if_false]
    rw [ihinside hinside, findFrom, hclosing]
    simp only [hinside, Bool.false_eq_true, and_false, if_false]
    rw [ihmore hd]
    simp only [Text.byteLength, Text.byteLength_append, ← Nat.add_assoc]
    rcases findFrom target d _ rest with e | _ | ⟨before, after⟩ <;> simp [Except.map]

/-- A target is found behind text that shields it. -/
theorem findFrom_shielded (h : Shielded target text) (position : Nat) (rest : List Char) :
    findFrom target {} position (text ++ target :: rest) = .ok (some (text, target :: rest)) := by
  have htop : Depth.isTop {} = true := rfl
  induction h generalizing position with
  | nil => simp [findFrom, htop]
  | char hc hne _ ih =>
    rw [List.cons_append, findFrom, if_neg fun h => hne h.1, step?_of_not_isBracket hc]
    simp only [ih, Except.map, Option.map]
  | brackets hpair hne hinside _ ih =>
    obtain ⟨d, hopening, hd, hclosing⟩ := hpair.exists_inside {}
    rw [List.cons_append, List.append_assoc, List.cons_append, findFrom,
      if_neg fun h => hne h.1, hopening]
    simp only [findFrom_balanced hinside hd]
    rw [findFrom, hclosing]
    simp only [hd, Bool.false_eq_true, and_false, if_false, ih, Except.map, Option.map]

/-- A text is cut at the target behind text that shields it. -/
theorem find?_shielded (h : Shielded target text) (rest : List Char) :
    find? target (text ++ target :: rest) = .ok (some (text, target :: rest)) := by
  rw [find?, findFrom_shielded h, inText_ok]

/-! ## The last blank -/

/-- Where behind a balanced text a blank is found, that blank is the last one. -/
theorem lastBlankFrom_balanced (h : Balanced top text) {d : Depth} {position : Nat}
    {rest before after : List Char}
    (hrest : lastBlankFrom d (position + Text.byteLength text) rest = .ok (some (before, after))) :
    lastBlankFrom d position (text ++ rest) = .ok (some (text ++ before, after)) := by
  induction h generalizing d position rest before after with
  | nil => exact hrest
  | char hc _ _ ih =>
    rw [Text.byteLength, ← Nat.add_assoc] at hrest
    rw [List.cons_append, lastBlankFrom, step?_of_not_isBracket hc]
    simp only [ih hrest, Except.map]
    rfl
  | @brackets top opening closing inside more hpair _ _ ihinside ihmore =>
    obtain ⟨d', hopening, hd', hclosing⟩ := hpair.exists_inside d
    simp only [Text.byteLength, Text.byteLength_append, ← Nat.add_assoc] at hrest
    have hclosed : lastBlankFrom d' (position + opening.utf8Size + Text.byteLength inside)
        (closing :: (more ++ rest)) = .ok (some (closing :: (more ++ before), after)) := by
      rw [lastBlankFrom, hclosing]
      simp only [ihmore hrest, Except.map]
    rw [List.cons_append, List.append_assoc, List.cons_append, lastBlankFrom, hopening]
    simp only [ihinside hclosed, Except.map]
    simp

/-- A word has no blank. -/
theorem lastBlankFrom_word (h : ∀ c ∈ text, isBracket c = false ∧ Text.isBlank c = false)
    (position : Nat) : lastBlankFrom {} position text = .ok none := by
  have htop : Depth.isTop {} = true := rfl
  induction text generalizing position with
  | nil => simp [lastBlankFrom, htop]
  | cons c rest ih =>
    obtain ⟨⟨hc, hblank⟩, hrest⟩ := List.forall_mem_cons.mp h
    rw [lastBlankFrom, step?_of_not_isBracket hc]
    simp [ih hrest, hblank, Except.map]

/-- A word has no parts. -/
theorem splitLast?_word (h : ∀ c ∈ text, isBracket c = false ∧ Text.isBlank c = false) :
    splitLast? text = .ok none := by
  rw [splitLast?, lastBlankFrom_word h, inText_ok]
  rfl

/-- A balanced text and a word with blanks between them fall into the two. -/
theorem splitLast?_gap {gap word : List Char} (h : Balanced (fun _ => true) text)
    (hgap : ∀ c ∈ gap, Text.isBlank c = true) (hne : gap ≠ [])
    (hword : ∀ c ∈ word, isBracket c = false ∧ Text.isBlank c = false) :
    splitLast? (text ++ gap ++ word) = .ok (some (Text.trim text, word)) := by
  obtain ⟨front, b, rfl⟩ := (List.eq_nil_or_concat' gap).resolve_left hne
  obtain ⟨hfront, hb⟩ := List.forall_mem_append.mp hgap
  have hblank : Text.isBlank b = true := hb b (List.mem_singleton_self b)
  have hcut : ∀ position, lastBlankFrom {} position (b :: word) = .ok (some ([], b :: word)) := by
    have htop : Depth.isTop {} = true := rfl
    intro position
    rw [lastBlankFrom, step?_of_not_isBracket (isBracket_of_isBlank hblank)]
    simp [lastBlankFrom_word hword, hblank, htop, Except.map]
  have hbalanced : Balanced (fun _ => true) (text ++ front) :=
    h.append (balanced_of_forall fun c hc => ⟨isBracket_of_isBlank (hfront c hc), rfl⟩)
  have hassoc : text ++ (front ++ [b]) ++ word = text ++ front ++ b :: word := by simp
  have htrim : Text.trim (b :: word) = word := by
    rw [← List.singleton_append, Text.trim_blanks_append hb]
    exact (Text.tight_of_forall fun c hc => (hword c hc).2).trim
  rw [hassoc, splitLast?, lastBlankFrom_balanced hbalanced (hcut _), inText_ok]
  simp [Except.map, htrim, Text.trim_append_blanks hfront]

end ApiSurface.Nesting
