import ApiSurface.Proofs.NestedText
import ApiSurface.Proofs.Outcomes

/-!
# Counters and stacks

The cuts of `Nesting` count the open brackets of each kind by itself. A text that leads the counters
from nothing open back to nothing open is balanced in each kind (`balancedByKind_iff`), which says
less than that it is nested: in `<(>)` the two kinds cross. What a reader with a stack does is
`Awaited.after?`, and it comes from the empty stack back to the empty stack exactly on nested texts
(`balanced_iff_after?`).

A stack has at least the heights of the counters on it, so that a text balanced in each kind leaves
nothing of its own on the stack. Such texts can be told apart again once they are joined: a joined
text is nested exactly when each of its parts is (`balanced_append_iff`, `balanced_enclosed_iff`,
`balanced_intercalate_iff`). The parts that cuts leave are of this kind.
-/

namespace ApiSurface.Nesting

/-! ## Kinds of brackets -/

inductive BracketKind
  | parens
  | angles
deriving DecidableEq, Repr

namespace BracketKind

def opening : BracketKind → Char
  | parens => '('
  | angles => '<'

def closing : BracketKind → Char
  | parens => ')'
  | angles => '>'

theorem pair (k : BracketKind) : Pair k.opening k.closing := by
  cases k with
  | parens => exact .parens
  | angles => exact .angles

theorem isBracket_opening (k : BracketKind) : isBracket k.opening = true :=
  (isBracket_of_pair k.pair).1

theorem isBracket_closing (k : BracketKind) : isBracket k.closing = true :=
  (isBracket_of_pair k.pair).2

end BracketKind

/-- The brackets of a pair are those of a kind. -/
theorem Pair.exists_kind {opening closing : Char} (h : Pair opening closing) :
    ∃ k : BracketKind, opening = k.opening ∧ closing = k.closing := by
  cases h with
  | parens => exact ⟨.parens, rfl, rfl⟩
  | angles => exact ⟨.angles, rfl, rfl⟩

/-- A character opens a bracket, closes one, or is none. -/
inductive CharRole (c : Char) : Prop
  | opens (k : BracketKind) : c = k.opening → CharRole c
  | closes (k : BracketKind) : c = k.closing → CharRole c
  | plain : isBracket c = false → CharRole c

theorem charRole (c : Char) : CharRole c := by
  by_cases hbracket : isBracket c = true
  · simp only [isBracket, Bool.or_eq_true, beq_iff_eq] at hbracket
    rcases hbracket with ((rfl | rfl) | rfl) | rfl
    · exact .opens .parens rfl
    · exact .opens .angles rfl
    · exact .closes .parens rfl
    · exact .closes .angles rfl
  · exact .plain (Bool.eq_false_iff.mpr hbracket)

/-! ## Readers that see only brackets -/

section

variable {State : Type} {step : State → Char → Option State}

theorem foldlM_of_not_isBracket (hstep : ∀ c s, isBracket c = false → step s c = some s)
    {text : List Char} (h : ∀ c ∈ text, isBracket c = false) (s : State) :
    text.foldlM step s = some s := by
  induction text with
  | nil => rfl
  | cons c rest ih =>
    obtain ⟨hc, hrest⟩ := List.forall_mem_cons.mp h
    rw [List.foldlM_cons, hstep c s hc]
    exact ih hrest

/-- Blanks at the ends of a text are not seen. -/
theorem foldlM_trim (hstep : ∀ c s, isBracket c = false → step s c = some s) (text : List Char)
    (s : State) : (Text.trim text).foldlM step s = text.foldlM step s := by
  obtain ⟨front, back, hfront, hback, htext⟩ := Text.exists_blanks text
  have hblanks {blanks : List Char} (h : ∀ c ∈ blanks, Text.isBlank c = true) (s : State) :
      blanks.foldlM step s = some s :=
    foldlM_of_not_isBracket hstep (fun c hc => isBracket_of_isBlank (h c hc)) s
  conv_rhs => rw [htext]
  rw [List.foldlM_append, List.foldlM_append, hblanks hfront, Option.bind_eq_bind,
    Option.bind_some, funext (hblanks hback), Option.bind_fun_some]

end

/-! ## Counters -/

namespace Depth

/-- How many brackets of a kind stand open. -/
def height (d : Depth) : BracketKind → Nat
  | .parens => d.parens
  | .angles => d.angles

@[simp]
theorem height_empty (k : BracketKind) : height {} k = 0 := by
  cases k <;> rfl

theorem ext_height {d d' : Depth} (h : ∀ k, d.height k = d'.height k) : d = d' := by
  obtain ⟨parens, angles⟩ := d
  obtain ⟨parens', angles'⟩ := d'
  exact congrArg₂ Depth.mk (h .parens) (h .angles)

theorem isTop_iff {d : Depth} : d.isTop = true ↔ d = {} := by
  obtain ⟨parens, angles⟩ := d
  simp [isTop]

/-- A step changes the counters by what the character opens and closes. -/
theorem step?_eq_some_iff {d d' : Depth} {c : Char} :
    d.step? c = some d' ↔
      ∀ k : BracketKind, d'.height k + [c].count k.closing = d.height k + [c].count k.opening := by
  obtain ⟨parens, angles⟩ := d
  obtain ⟨parens', angles'⟩ := d'
  have hkinds (P : BracketKind → Prop) : (∀ k, P k) ↔ P .parens ∧ P .angles :=
    ⟨fun h => ⟨h _, h _⟩, fun h k => by cases k <;> simp [h]⟩
  rw [hkinds]
  rcases charRole c with ⟨k, rfl⟩ | ⟨k, rfl⟩ | hplain
  · cases k <;> simp [step?, height, BracketKind.opening, BracketKind.closing] <;> omega
  · cases k <;> simp [step?, height, BracketKind.opening, BracketKind.closing] <;> omega
  · have hne (k : BracketKind) : c ≠ k.opening ∧ c ≠ k.closing :=
      ⟨fun h => by simp [h, k.isBracket_opening] at hplain,
        fun h => by simp [h, k.isBracket_closing] at hplain⟩
    simp [step?_of_not_isBracket hplain, height, hne, eq_comm]

/-- The counters behind a text, or none where it closes what is not open. -/
def after? (d : Depth) (text : List Char) : Option Depth :=
  text.foldlM step? d

theorem after?_cons (d : Depth) (c : Char) (rest : List Char) :
    d.after? (c :: rest) = (d.step? c).bind (·.after? rest) := rfl

theorem after?_append (d : Depth) (text more : List Char) :
    d.after? (text ++ more) = (d.after? text).bind (·.after? more) :=
  List.foldlM_append

theorem after?_append_singleton (d : Depth) (text : List Char) (c : Char) :
    d.after? (text ++ [c]) = (d.after? text).bind (·.step? c) := by
  rw [after?_append]
  refine congrArg _ (funext fun middle => ?_)
  rw [after?_cons]
  exact Option.bind_fun_some _

/-- The counters end at what is left over of what was open before and what the text opens. -/
theorem height_after? {d d' : Depth} {text : List Char} (h : d.after? text = some d')
    (k : BracketKind) :
    d'.height k + text.count k.closing = d.height k + text.count k.opening := by
  induction text using List.reverseRecOn generalizing d' with
  | nil =>
    cases h
    simp
  | append_singleton text c ih =>
    rw [after?_append_singleton] at h
    obtain ⟨middle, hmiddle, hstep⟩ := Option.bind_eq_some_iff.mp h
    have hheight := ih hmiddle
    have hcount := step?_eq_some_iff.mp hstep k
    rw [List.count_append, List.count_append]
    omega

/-- The counters get to the end of a text if none of its fronts closes more than is open. -/
theorem exists_after? {d : Depth} {text : List Char}
    (h : ∀ (k : BracketKind) (front : List Char), front <+: text →
      front.count k.closing ≤ d.height k + front.count k.opening) :
    ∃ d', d.after? text = some d' := by
  induction text using List.reverseRecOn with
  | nil => exact ⟨d, rfl⟩
  | append_singleton text c ih =>
    obtain ⟨middle, hmiddle⟩ := ih fun k front hfront =>
      h k front (hfront.trans (List.prefix_append _ _))
    have hheight := height_after? hmiddle
    refine ⟨⟨middle.height .parens + [c].count '(' - [c].count ')',
      middle.height .angles + [c].count '<' - [c].count '>'⟩, ?_⟩
    rw [after?_append_singleton, hmiddle, Option.bind_some, step?_eq_some_iff]
    intro k
    have hwhole := h k _ (List.prefix_refl _)
    have hk := hheight k
    rw [List.count_append, List.count_append] at hwhole
    cases k with
    | parens =>
      simp only [height, BracketKind.opening, BracketKind.closing] at hwhole hk ⊢
      omega
    | angles =>
      simp only [height, BracketKind.opening, BracketKind.closing] at hwhole hk ⊢
      omega

/-- The texts that lead the counters from one depth to another. -/
theorem after?_eq_some_iff {d d' : Depth} {text : List Char} :
    d.after? text = some d' ↔
      (∀ (k : BracketKind) (front : List Char), front <+: text →
        front.count k.closing ≤ d.height k + front.count k.opening) ∧
      ∀ k : BracketKind,
        d'.height k + text.count k.closing = d.height k + text.count k.opening := by
  constructor
  · intro h
    refine ⟨?_, height_after? h⟩
    rintro k front ⟨more, rfl⟩
    rw [after?_append] at h
    obtain ⟨middle, hmiddle, -⟩ := Option.bind_eq_some_iff.mp h
    have := height_after? hmiddle k
    omega
  · rintro ⟨hfronts, htotal⟩
    obtain ⟨d'', h⟩ := exists_after? hfronts
    have heq : d'' = d' := ext_height fun k => by
      have := height_after? h k
      have := htotal k
      omega
    rw [h, heq]

end Depth

/-- Each kind of bracket by itself is balanced: no front of the text closes more than it opens, and
the whole closes all. -/
structure BalancedByKind (text : List Char) : Prop where
  fronts : ∀ (k : BracketKind) (front : List Char), front <+: text →
    front.count k.closing ≤ front.count k.opening
  total : ∀ k : BracketKind, text.count k.closing = text.count k.opening

/-- The counters take a text that is balanced in each kind for one without brackets. -/
theorem BalancedByKind.after? {text : List Char} (h : BalancedByKind text) (d : Depth) :
    d.after? text = some d :=
  Depth.after?_eq_some_iff.mpr
    ⟨fun k front hfront => Nat.le_add_left_of_le (h.fronts k front hfront),
      fun k => by rw [h.total k]⟩

theorem balancedByKind_iff {text : List Char} :
    BalancedByKind text ↔ Depth.after? {} text = some {} := by
  refine ⟨fun h => h.after? {}, fun h => ?_⟩
  obtain ⟨hfronts, htotal⟩ := Depth.after?_eq_some_iff.mp h
  simp only [Depth.height_empty, Nat.zero_add] at hfronts htotal
  exact ⟨hfronts, htotal⟩

namespace BalancedByKind

variable {text more : List Char}

theorem of_not_isBracket (h : ∀ c ∈ text, isBracket c = false) : BalancedByKind text :=
  balancedByKind_iff.mpr
    (foldlM_of_not_isBracket (fun _ d hc => Nesting.step?_of_not_isBracket hc d) h {})

theorem trim (h : BalancedByKind text) : BalancedByKind (Text.trim text) := by
  rw [balancedByKind_iff, Depth.after?,
    foldlM_trim fun _ d hc => Nesting.step?_of_not_isBracket hc d]
  exact h.after? {}

theorem append (h : BalancedByKind text) (hmore : BalancedByKind more) :
    BalancedByKind (text ++ more) := by
  rw [balancedByKind_iff, Depth.after?_append, h.after?, Option.bind_some, hmore.after?]

theorem intercalate {separator : Char} (hseparator : isBracket separator = false)
    {texts : List (List Char)} (h : ∀ text ∈ texts, BalancedByKind text) :
    BalancedByKind ([separator].intercalate texts) := by
  have hplain : BalancedByKind [separator] := of_not_isBracket (by simpa using hseparator)
  induction texts with
  | nil => exact of_not_isBracket (by simp)
  | cons text texts ih =>
    obtain ⟨htext, htexts⟩ := List.forall_mem_cons.mp h
    cases texts with
    | nil => simpa using htext
    | cons text' texts =>
      rw [List.intercalate_cons_cons]
      exact (htext.append hplain).append (ih htexts)

/-- Brackets around a text that is balanced in each kind. -/
theorem enclosed (h : BalancedByKind text) (k : BracketKind) :
    BalancedByKind (k.opening :: (text ++ [k.closing])) := by
  obtain ⟨inside, hopening, -, hclosing⟩ := k.pair.exists_inside {}
  rw [balancedByKind_iff, Depth.after?_cons, hopening, Option.bind_some,
    Depth.after?_append_singleton, h.after?, Option.bind_some, hclosing]

end BalancedByKind

/-! ## Stacks -/

/-- The brackets a reader waits to see closed, the innermost first. -/
abbrev Awaited :=
  List BracketKind

namespace Awaited

/-- Takes the innermost bracket off, which has to be of the given kind. -/
def pop? (k : BracketKind) : Awaited → Option Awaited
  | [] => none
  | innermost :: outer => if innermost = k then some outer else none

/-- What is awaited after a character, or none where it closes another bracket than the last that
was opened. -/
def step? (awaited : Awaited) (c : Char) : Option Awaited :=
  if c = '(' then some (.parens :: awaited)
  else if c = '<' then some (.angles :: awaited)
  else if c = ')' then pop? .parens awaited
  else if c = '>' then pop? .angles awaited
  else some awaited

theorem step?_opening (awaited : Awaited) (k : BracketKind) :
    step? awaited k.opening = some (k :: awaited) := by
  cases k <;> rfl

theorem step?_closing_eq_some_iff {awaited outer : Awaited} {k : BracketKind} :
    step? awaited k.closing = some outer ↔ awaited = k :: outer := by
  have hpop : step? awaited k.closing = pop? k awaited := by
    cases k <;> rfl
  rw [hpop]
  cases awaited with
  | nil => simp [pop?]
  | cons innermost rest => simp [pop?]

theorem step?_of_not_isBracket {c : Char} (h : isBracket c = false) (awaited : Awaited) :
    step? awaited c = some awaited := by
  simp only [isBracket, Bool.or_eq_false_iff, beq_eq_false_iff_ne] at h
  obtain ⟨⟨⟨hparen, hangle⟩, hparen'⟩, hangle'⟩ := h
  rw [step?, if_neg hparen, if_neg hangle, if_neg hparen', if_neg hangle']

/-- What is awaited behind a text, or none where a bracket in it closes another than the last that
was opened. -/
def after? (awaited : Awaited) (text : List Char) : Option Awaited :=
  text.foldlM step? awaited

theorem after?_cons (awaited : Awaited) (c : Char) (rest : List Char) :
    after? awaited (c :: rest) = (step? awaited c).bind (after? · rest) := rfl

theorem after?_append (awaited : Awaited) (text more : List Char) :
    after? awaited (text ++ more) = (after? awaited text).bind (after? · more) :=
  List.foldlM_append

/-- The counters of a stack. -/
def depth (awaited : Awaited) : Depth :=
  { parens := List.count .parens awaited, angles := List.count .angles awaited }

theorem height_depth (awaited : Awaited) (k : BracketKind) :
    (depth awaited).height k = List.count k awaited := by
  cases k <;> rfl

theorem depth_eq_empty_iff {awaited : Awaited} : depth awaited = {} ↔ awaited = [] := by
  constructor
  · intro h
    refine List.eq_nil_iff_forall_not_mem.mpr fun k hk => ?_
    have hcount := height_depth awaited k
    rw [h, Depth.height_empty] at hcount
    exact List.count_eq_zero.mp hcount.symm hk
  · rintro rfl
    rfl

/-- A stack takes no step that its counters do not take. -/
theorem depth_step? {awaited awaited' : Awaited} {c : Char} (h : step? awaited c = some awaited') :
    (depth awaited).step? c = some (depth awaited') := by
  rcases charRole c with ⟨k, rfl⟩ | ⟨k, rfl⟩ | hplain
  · rw [step?_opening] at h
    cases h
    cases k <;> simp [depth, Depth.step?, BracketKind.opening]
  · obtain rfl := step?_closing_eq_some_iff.mp h
    cases k <;> simp [depth, Depth.step?, BracketKind.closing]
  · rw [step?_of_not_isBracket hplain] at h
    cases h
    exact Nesting.step?_of_not_isBracket hplain _

theorem depth_after? {awaited awaited' : Awaited} {text : List Char}
    (h : after? awaited text = some awaited') :
    (depth awaited).after? text = some (depth awaited') := by
  induction text generalizing awaited with
  | nil =>
    cases h
    rfl
  | cons c rest ih =>
    rw [after?_cons] at h
    obtain ⟨middle, hstep, hrest⟩ := Option.bind_eq_some_iff.mp h
    rw [Depth.after?_cons, depth_step? hstep, Option.bind_some, ih hrest]

/-- A stack may stand on another. -/
theorem step?_append {awaited awaited' : Awaited} {c : Char} (h : step? awaited c = some awaited')
    (base : Awaited) : step? (awaited ++ base) c = some (awaited' ++ base) := by
  rcases charRole c with ⟨k, rfl⟩ | ⟨k, rfl⟩ | hplain
  · rw [step?_opening] at h ⊢
    cases h
    rfl
  · obtain rfl := step?_closing_eq_some_iff.mp h
    exact step?_closing_eq_some_iff.mpr rfl
  · rw [step?_of_not_isBracket hplain] at h ⊢
    cases h
    rfl

/-- As long as the counters of a stack find enough open, what is below the stack is not touched. -/
theorem exists_after?_of_append {awaited base awaited' : Awaited} {text : List Char} {d : Depth}
    (hdepth : (depth awaited).after? text = some d)
    (h : after? (awaited ++ base) text = some awaited') :
    ∃ own, after? awaited text = some own ∧ awaited' = own ++ base := by
  induction text generalizing awaited with
  | nil =>
    cases h
    exact ⟨awaited, rfl, rfl⟩
  | cons c rest ih =>
    rw [after?_cons] at h ⊢
    rw [Depth.after?_cons] at hdepth
    obtain ⟨middle, hstep, hrest⟩ := Option.bind_eq_some_iff.mp h
    obtain ⟨d', hdstep, hdrest⟩ := Option.bind_eq_some_iff.mp hdepth
    obtain ⟨own, hown⟩ : ∃ own, step? awaited c = some own := by
      rcases charRole c with ⟨k, rfl⟩ | ⟨k, rfl⟩ | hplain
      · exact ⟨_, step?_opening awaited k⟩
      · rcases awaited with _ | ⟨k', own⟩
        · -- the empty stack has nothing to close
          have := Depth.step?_eq_some_iff.mp hdstep k
          cases k <;> simp [height_depth, BracketKind.closing, BracketKind.opening] at this
        · obtain heq := step?_closing_eq_some_iff.mp hstep
          rw [List.cons_append, List.cons.injEq] at heq
          obtain ⟨rfl, -⟩ := heq
          exact ⟨own, step?_closing_eq_some_iff.mpr rfl⟩
      · exact ⟨awaited, step?_of_not_isBracket hplain awaited⟩
    have hdepth' := depth_step? hown
    rw [hdstep] at hdepth'
    cases hdepth'
    have hmiddle := step?_append hown base
    rw [hstep] at hmiddle
    cases hmiddle
    rw [hown, Option.bind_some]
    exact ih hdrest hrest

end Awaited

/-! ## Nested texts -/

variable {top : Char → Bool} {text : List Char}

/-- Behind a nested text the same brackets are awaited as before it. -/
theorem Balanced.awaited_after? (h : Balanced top text) (awaited : Awaited) :
    Awaited.after? awaited text = some awaited := by
  induction h generalizing awaited with
  | nil => rfl
  | char hc _ _ ih =>
    rw [Awaited.after?_cons, Awaited.step?_of_not_isBracket hc, Option.bind_some, ih]
  | brackets hpair _ _ ihinside ihmore =>
    obtain ⟨k, rfl, rfl⟩ := hpair.exists_kind
    rw [Awaited.after?_cons, Awaited.step?_opening, Option.bind_some, Awaited.after?_append,
      ihinside, Option.bind_some, Awaited.after?_cons, Awaited.step?_closing_eq_some_iff.mpr rfl,
      Option.bind_some, ihmore]

/-- A text that closes the awaited brackets one after the other, with nested text before, between
and behind them. -/
inductive Closes : Awaited → List Char → Prop
  | nil {rest : List Char} : Balanced (fun _ => true) rest → Closes [] rest
  | cons {k : BracketKind} {outer : Awaited} {inside rest : List Char} :
      Balanced (fun _ => true) inside → Closes outer rest →
      Closes (k :: outer) (inside ++ k.closing :: rest)

theorem Closes.balanced_append {awaited : Awaited} {front : List Char} (h : Closes awaited text)
    (hfront : Balanced (fun _ => true) front) : Closes awaited (front ++ text) := by
  cases h with
  | nil hrest => exact .nil (hfront.append hrest)
  | cons hinside hrest =>
    rw [← List.append_assoc]
    exact .cons (hfront.append hinside) hrest

theorem closes_of_after? {awaited : Awaited} (h : Awaited.after? awaited text = some []) :
    Closes awaited text := by
  induction text generalizing awaited with
  | nil =>
    cases h
    exact .nil .nil
  | cons c rest ih =>
    rw [Awaited.after?_cons] at h
    obtain ⟨middle, hstep, hrest⟩ := Option.bind_eq_some_iff.mp h
    rcases charRole c with ⟨k, rfl⟩ | ⟨k, rfl⟩ | hplain
    · rw [Awaited.step?_opening] at hstep
      cases hstep
      obtain - | ⟨hinside, hmore⟩ := ih hrest
      have hbrackets : Balanced (fun _ => true) (k.opening :: (_ ++ [k.closing])) :=
        .brackets k.pair hinside .nil
      simpa using hmore.balanced_append hbrackets
    · obtain rfl := Awaited.step?_closing_eq_some_iff.mp hstep
      exact .cons .nil (ih hrest)
    · rw [Awaited.step?_of_not_isBracket hplain] at hstep
      cases hstep
      have hfront : Balanced (fun _ => true) [c] := .char hplain rfl .nil
      exact (ih hrest).balanced_append hfront

/-- A text is nested exactly when a reader with a stack gets through it with nothing awaited. -/
theorem balanced_iff_after? :
    Balanced (fun _ => true) text ↔ Awaited.after? [] text = some [] := by
  refine ⟨fun h => h.awaited_after? [], fun h => ?_⟩
  cases closes_of_after? h with
  | nil hbalanced => exact hbalanced

/-- A nested text is balanced in each kind. -/
theorem Balanced.byKind (h : Balanced top text) : BalancedByKind text := by
  have hany : Balanced (fun _ => true) text := h.mono fun _ _ => rfl
  exact balancedByKind_iff.mpr (Awaited.depth_after? (balanced_iff_after?.mp hany))

/-! ## Joined texts -/

/-- What a text that is balanced in each kind leaves on the stack is what was there before. -/
theorem BalancedByKind.eq_base (h : BalancedByKind text) {base awaited : Awaited}
    (hafter : Awaited.after? base text = some awaited) :
    awaited = base ∧ Balanced (fun _ => true) text := by
  have hempty : (Awaited.depth []).after? text = some {} := h.after? {}
  obtain ⟨own, hown, rfl⟩ := Awaited.exists_after?_of_append hempty hafter
  have hdepth := Awaited.depth_after? hown
  rw [hempty, Option.some.injEq] at hdepth
  obtain rfl := Awaited.depth_eq_empty_iff.mp hdepth.symm
  exact ⟨rfl, balanced_iff_after?.mpr hown⟩

theorem balanced_append_iff {front back : List Char} (h : BalancedByKind front) :
    Balanced (fun _ => true) (front ++ back) ↔
      Balanced (fun _ => true) front ∧ Balanced (fun _ => true) back := by
  refine ⟨fun happend => ?_, fun ⟨hfront, hback⟩ => hfront.append hback⟩
  rw [balanced_iff_after?, Awaited.after?_append] at happend
  obtain ⟨awaited, hfront, hback⟩ := Option.bind_eq_some_iff.mp happend
  obtain ⟨rfl, hbalanced⟩ := h.eq_base hfront
  exact ⟨hbalanced, balanced_iff_after?.mpr hback⟩

theorem balanced_enclosed_iff {inside : List Char} (h : BalancedByKind inside) (k : BracketKind) :
    Balanced (fun _ => true) (k.opening :: (inside ++ [k.closing])) ↔
      Balanced (fun _ => true) inside := by
  refine ⟨fun henclosed => ?_, fun hinside => .brackets k.pair hinside .nil⟩
  rw [balanced_iff_after?, Awaited.after?_cons, Awaited.step?_opening, Option.bind_some,
    Awaited.after?_append] at henclosed
  obtain ⟨awaited, hinside, -⟩ := Option.bind_eq_some_iff.mp henclosed
  exact (h.eq_base hinside).2

theorem balanced_intercalate_iff {separator : Char} (hseparator : isBracket separator = false)
    {texts : List (List Char)} (h : ∀ text ∈ texts, BalancedByKind text) :
    Balanced (fun _ => true) ([separator].intercalate texts) ↔
      ∀ text ∈ texts, Balanced (fun _ => true) text := by
  have hplain : Balanced (fun _ => true) [separator] := .char hseparator rfl .nil
  induction texts with
  | nil => simp [Balanced.nil]
  | cons text texts ih =>
    obtain ⟨htext, htexts⟩ := List.forall_mem_cons.mp h
    rw [List.forall_mem_cons]
    cases texts with
    | nil => simp
    | cons text' texts =>
      rw [List.intercalate_cons_cons, List.append_assoc, balanced_append_iff htext,
        balanced_append_iff hplain.byKind, iff_true_intro hplain, true_and]
      exact and_congr_right fun _ => ih htexts

/-- Blanks at the ends of a text are no part of its nesting. -/
theorem balanced_trim_iff :
    Balanced (fun _ => true) (Text.trim text) ↔ Balanced (fun _ => true) text := by
  rw [balanced_iff_after?, balanced_iff_after?, Awaited.after?, Awaited.after?,
    foldlM_trim fun _ awaited hc => Awaited.step?_of_not_isBracket hc awaited]

/-! ## The parts that cuts leave -/

/-- A target at the top stands behind text that is balanced in each kind. -/
theorem findFrom_eq_some {target : Char} {d : Depth} {position : Nat} {before after : List Char}
    (h : findFrom target d position text = .ok (some (before, after))) :
    ∃ rest, after = target :: rest ∧ text = before ++ target :: rest ∧
      d.after? before = some {} := by
  induction text generalizing d position before with
  | nil => cases h
  | cons c rest ih =>
    rw [findFrom] at h
    split at h
    · next hc =>
      obtain ⟨rfl, htop⟩ := hc
      cases h
      exact ⟨rest, rfl, rfl, congrArg some (Depth.isTop_iff.mp htop)⟩
    · split at h
      · cases h
      · next d' hstep =>
        obtain ⟨found, hfound, h⟩ := map_eq_ok.mp h
        obtain ⟨⟨before', after'⟩, rfl, h⟩ := Option.map_eq_some_iff.mp h
        cases h
        obtain ⟨rest', rfl, rfl, hafter⟩ := ih hfound
        refine ⟨rest', rfl, rfl, ?_⟩
        rw [Depth.after?_cons, hstep, Option.bind_some, hafter]

theorem find?_eq_some {target : Char} {before after : List Char}
    (h : find? target text = .ok (some (before, after))) :
    ∃ rest, after = target :: rest ∧ text = before ++ target :: rest ∧ BalancedByKind before := by
  obtain ⟨rest, hafter, htext, hbefore⟩ := findFrom_eq_some (ok_of_mapError h)
  exact ⟨rest, hafter, htext, balancedByKind_iff.mpr hbefore⟩

theorem lastBlankFrom_eq_some {d : Depth} {position : Nat} {before after : List Char}
    (h : lastBlankFrom d position text = .ok (some (before, after))) : text = before ++ after := by
  induction text generalizing d position before with
  | nil =>
    rw [lastBlankFrom] at h
    split at h <;> cases h
  | cons c rest ih =>
    rw [lastBlankFrom] at h
    split at h
    · cases h
    · obtain ⟨found, hfound, h⟩ := map_eq_ok.mp h
      cases found with
      | some cut =>
        cases h
        rw [ih hfound, List.cons_append]
      | none =>
        simp only [] at h
        split at h
        · cases h
          rfl
        · cases h

/-- The search for a partner stops at a character that leads back to the top. -/
theorem closeFrom_eq_ok {d : Depth} {position : Nat} {before after : List Char}
    (h : closeFrom d position text = .ok (before, after)) :
    ∃ closing rest, after = closing :: rest ∧ text = before ++ closing :: rest ∧
      d.after? (before ++ [closing]) = some {} := by
  induction text generalizing d position before with
  | nil => cases h
  | cons c rest ih =>
    rw [closeFrom] at h
    split at h
    · cases h
    · next d' hstep =>
      split at h
      · next htop =>
        cases h
        refine ⟨c, rest, rfl, rfl, ?_⟩
        rw [List.nil_append, Depth.after?_cons, hstep, Option.bind_some, Depth.isTop_iff.mp htop]
        rfl
      · obtain ⟨⟨before', after'⟩, hfound, h⟩ := map_eq_ok.mp h
        cases h
        obtain ⟨closing, rest', rfl, rfl, hafter⟩ := ih hfound
        refine ⟨closing, rest', rfl, rfl, ?_⟩
        rw [List.cons_append, Depth.after?_cons, hstep, Option.bind_some, hafter]

/-- It is the first such character. -/
theorem closeFrom_open {d : Depth} {position : Nat} {before after : List Char}
    (h : closeFrom d position text = .ok (before, after)) (hd : d.isTop = false) :
    ∀ front, front <+: before → d.after? front ≠ some {} := by
  induction text generalizing d position before with
  | nil => cases h
  | cons c rest ih =>
    have hempty : d.after? [] ≠ some {} := fun htop => by
      rw [Depth.isTop_iff.mpr (Option.some.inj htop)] at hd
      cases hd
    intro front hfront
    rw [closeFrom] at h
    split at h
    · cases h
    · next d' hstep =>
      split at h
      · cases h
        rwa [List.prefix_nil.mp hfront]
      · next hinside =>
        obtain ⟨⟨before', after'⟩, hfound, h⟩ := map_eq_ok.mp h
        cases h
        obtain rfl | ⟨front', rfl, hfront'⟩ := List.prefix_cons_iff.mp hfront
        · exact hempty
        · rw [Depth.after?_cons, hstep, Option.bind_some]
          exact ih hfound (by simpa using hinside) front' hfront'

/-- A group of brackets, from the one that opens it to where all is closed that it opens. -/
structure IsGroup (text : List Char) : Prop where
  balanced : BalancedByKind text
  first : ∀ front, front <+: text → front ≠ [] → BalancedByKind front → front = text

/-- What is enclosed stands between a bracket and the end of the group that it opens. -/
theorem enclosed_group {k : BracketKind} {before rest inside behind : List Char}
    (h : enclosed before (k.opening :: rest) = .ok (inside, behind)) :
    ∃ closing, rest = inside ++ closing :: behind ∧
      IsGroup (k.opening :: (inside ++ [closing])) := by
  obtain ⟨d, hopening, hinside, -⟩ := k.pair.exists_inside {}
  obtain ⟨⟨front, closed⟩, hfront, hdrop⟩ := map_eq_ok.mp h
  replace hfront := ok_of_mapError hfront
  rw [closeFrom, hopening] at hfront
  simp only [hinside, Bool.false_eq_true, if_false] at hfront
  obtain ⟨⟨front', closed'⟩, hclose, hcons⟩ := map_eq_ok.mp hfront
  cases hcons
  cases hdrop
  have hopen := closeFrom_open hclose hinside
  obtain ⟨closing, behind, rfl, rfl, hafter⟩ := closeFrom_eq_ok hclose
  have hcounters (part : List Char) :
      Depth.after? {} (k.opening :: part) = d.after? part := by
    rw [Depth.after?_cons, hopening, Option.bind_some]
  refine ⟨closing, rfl, balancedByKind_iff.mpr ((hcounters _).trans hafter), ?_⟩
  intro part hpart hne hbalanced
  obtain rfl | ⟨rest, rfl, hrest⟩ := List.prefix_cons_iff.mp hpart
  · exact absurd rfl hne
  · obtain rfl | hinner := List.prefix_concat_iff.mp hrest
    · rfl
    · rw [balancedByKind_iff, hcounters] at hbalanced
      exact absurd hbalanced (hopen rest hinner)

/-- If what is enclosed is balanced in each kind, then it ends at the partner of the bracket. -/
theorem enclosed_eq_ok {k : BracketKind} {before rest inside behind : List Char}
    (h : enclosed before (k.opening :: rest) = .ok (inside, behind)) :
    ∃ closing, rest = inside ++ closing :: behind ∧
      (BalancedByKind inside → closing = k.closing) := by
  obtain ⟨closing, hrest, hgroup⟩ := enclosed_group h
  refine ⟨closing, hrest, fun hinside => ?_⟩
  by_contra hne
  have htotal := hgroup.balanced.total k
  have hopening : [k.opening].count k.closing = 0 := by cases k <;> rfl
  have hself : [k.opening].count k.opening = 1 := by cases k <;> rfl
  have hclosing : [closing].count k.closing = 0 :=
    List.count_eq_zero.mpr (by simpa using Ne.symm hne)
  rw [← List.singleton_append, List.count_append, List.count_append, List.count_append,
    List.count_append, hinside.total k] at htotal
  omega

/-- The pieces of a text are balanced in each kind, and joining them gives the text back. -/
theorem cuts_eq_some {separator : Char} {d : Depth} {pieces : List (List Char)}
    (h : cuts separator d text = some pieces) :
    text = [separator].intercalate pieces ∧
      ∃ first more, pieces = first :: more ∧ d.after? first = some {} ∧
        ∀ piece ∈ more, BalancedByKind piece := by
  induction text generalizing d pieces with
  | nil =>
    rw [cuts_nil] at h
    split at h
    · next htop =>
      cases h
      exact ⟨rfl, [], [], rfl, congrArg some (Depth.isTop_iff.mp htop), by simp⟩
    · cases h
  | cons c rest ih =>
    rw [cuts_cons] at h
    split at h
    · next hc =>
      obtain ⟨rfl, htop⟩ := hc
      obtain ⟨pieces, hpieces, rfl⟩ := Option.map_eq_some_iff.mp h
      obtain rfl := Depth.isTop_iff.mp htop
      obtain ⟨rfl, first, more, rfl, hfirst, hmore⟩ := ih hpieces
      refine ⟨by simp, [], first :: more, rfl, rfl, ?_⟩
      exact List.forall_mem_cons.mpr ⟨balancedByKind_iff.mpr hfirst, hmore⟩
    · obtain ⟨d', hstep, h⟩ := Option.bind_eq_some_iff.mp h
      obtain ⟨pieces, hpieces, rfl⟩ := Option.map_eq_some_iff.mp h
      obtain ⟨rfl, first, more, rfl, hfirst, hmore⟩ := ih hpieces
      refine ⟨?_, c :: first, more, rfl, ?_, hmore⟩
      · cases more <;> simp [extendFirst, List.intercalate_cons_cons]
      · rw [Depth.after?_cons, hstep, Option.bind_some, hfirst]

/-- A text that is split at a character other than a bracket is balanced in each kind. It is nested
exactly when its pieces are. -/
theorem split_eq_ok {separator : Char} (hseparator : isBracket separator = false)
    {items : List (List Char)} (h : split separator text = .ok items) :
    BalancedByKind text ∧ (∀ item ∈ items, BalancedByKind item) ∧
      (Balanced (fun _ => true) text ↔ ∀ item ∈ items, Balanced (fun _ => true) item) := by
  obtain ⟨pieces, hpieces, rfl⟩ := Option.map_eq_some_iff.mp (split_eq_ok_iff.mp h)
  obtain ⟨rfl, first, more, rfl, hfirst, hmore⟩ := cuts_eq_some hpieces
  have hbalanced : ∀ piece ∈ first :: more, BalancedByKind piece :=
    List.forall_mem_cons.mpr ⟨balancedByKind_iff.mpr hfirst, hmore⟩
  refine ⟨.intercalate hseparator hbalanced, ?_, ?_⟩
  · exact List.forall_mem_map.mpr fun piece hpiece => (hbalanced piece hpiece).trim
  · rw [balanced_intercalate_iff hseparator hbalanced, List.forall_mem_map]
    exact forall₂_congr fun piece _ => balanced_trim_iff.symm

end ApiSurface.Nesting
