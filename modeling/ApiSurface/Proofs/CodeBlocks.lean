import Mathlib.Data.List.TakeWhile
import ApiSurface.Guide

/-!
# The blocks of a guide

A guide is made of lines of prose and of blocks of code (`Piece`). A block goes from its fence up to
the first line behind it that ends it, or to the end of the text; which lines end a block is a rule
that everything here leaves open (`cut`). Whatever the rule, the pieces are determined by where they
begin and end (`IsCut`), and leaving out some of them does not move the others
(`IsCut.filter`).

What remains of a guide for a language is then a matter of whole pieces: prose and the blocks that
are not tagged with another language (`keptLines_eq_seen`).
-/

namespace ApiSurface.Guide

/-! ## Pieces -/

/-- A block of code: the line with its fence, the lines in it and the line that ends it, if the text
does not end first. -/
structure Block where
  fence : Fence
  first : List Char
  content : List (List Char)
  last? : Option (List Char)

def Block.lines (b : Block) : List (List Char) :=
  b.first :: (b.content ++ b.last?.toList)

/-- Whether a language sees what is for one language, or for all. -/
def sees (l : Language) (owner? : Option Language) : Bool :=
  owner?.all (· == l)

/-- A line of prose or a block of code. -/
inductive Piece where
  | prose (line : List Char)
  | code (block : Block)

namespace Piece

def lines : Piece → List (List Char)
  | prose line => [line]
  | code b => b.lines

/-- The language that a piece is for, if it is not for all. -/
def owner? : Piece → Option Language
  | prose _ => none
  | code b => Language.read? b.fence.tag

def seenBy (l : Language) (p : Piece) : Bool :=
  sees l p.owner?

theorem seenBy_code (l : Language) (b : Block) : (code b).seenBy l = keepsBlock l b.fence := by
  rw [seenBy, sees, owner?, keepsBlock]
  cases Language.read? b.fence.tag <;> rfl

end Piece

/-- The lines of pieces, one piece after another. -/
def linesOf (ps : List Piece) : List (List Char) :=
  ps.flatMap Piece.lines

theorem linesOf_cons (p : Piece) (ps : List Piece) : linesOf (p :: ps) = p.lines ++ linesOf ps :=
  List.flatMap_cons

/-! ## Cutting lines into pieces -/

theorem length_rest_lt {p : List Char → Bool} {last : List Char} {rest after : List (List Char)}
    (h : rest.dropWhile p = last :: after) : after.length < rest.length := by
  have hle := (List.dropWhile_sublist p (l := rest)).length_le
  rw [h, List.length_cons] at hle
  omega

variable (ends : List Char → List Char → Bool)

/-- The pieces of a guide when `ends run line` says whether a line ends the block that a run of
characters began. -/
def cut : List (List Char) → List Piece
  | [] => []
  | line :: rest =>
    match fence? line with
    | none => .prose line :: cut rest
    | some f =>
      let content := rest.takeWhile (!ends f.run ·)
      match _hrest : rest.dropWhile (!ends f.run ·) with
      | [] => [.code ⟨f, line, content, none⟩]
      | last :: after => .code ⟨f, line, content, some last⟩ :: cut after
termination_by lines => lines.length
decreasing_by
  · simp
  · have := length_rest_lt _hrest
    simp only [List.length_cons]
    omega

/-- A block that begins with its fence, goes on with lines that do not end it, and has a last line
only if that line ends it. -/
structure Block.Bounded (b : Block) : Prop where
  opens : fence? b.first = some b.fence
  goes_on : ∀ line ∈ b.content, ends b.fence.run line = false
  stops : ∀ last ∈ b.last?, ends b.fence.run last = true

/-- Pieces that begin and end where they have to: prose has no fences, blocks are bounded, and
nothing follows a block without a last line. -/
inductive IsCut : List Piece → Prop
  | nil : IsCut []
  | prose {line : List Char} {ps : List Piece} (hline : fence? line = none) (hps : IsCut ps) :
    IsCut (.prose line :: ps)
  | code {b : Block} {ps : List Piece} (hb : b.Bounded ends) (hopen : b.last? = none → ps = [])
    (hps : IsCut ps) : IsCut (.code b :: ps)

variable {ends} {ps : List Piece} {lines : List (List Char)}

theorem cut_prose {line : List Char} (h : fence? line = none) (rest : List (List Char)) :
    cut ends (line :: rest) = .prose line :: cut ends rest := by
  rw [cut, h]

theorem cut_unfinished {line : List Char} {f : Fence} {rest : List (List Char)}
    (h : fence? line = some f) (hrest : ∀ line ∈ rest, ends f.run line = false) :
    cut ends (line :: rest) = [.code ⟨f, line, rest, none⟩] := by
  have htake : rest.takeWhile (!ends f.run ·) = rest :=
    List.takeWhile_eq_self_iff.mpr (by simpa using hrest)
  have hdrop : rest.dropWhile (!ends f.run ·) = [] :=
    List.dropWhile_eq_nil_iff.mpr (by simpa using hrest)
  rw [cut, h]
  dsimp only
  split
  · rw [htake]
  · next hsome => rw [hdrop] at hsome; cases hsome

/-- Lines divided at the first of which something holds. -/
theorem divide_at_first {p : List Char → Bool} {front : List (List Char)} {last : List Char}
    (hfront : ∀ line ∈ front, p line = false) (hlast : p last = true) (rest : List (List Char)) :
    (front ++ last :: rest).takeWhile (!p ·) = front ∧
      (front ++ last :: rest).dropWhile (!p ·) = last :: rest := by
  have hfront' : ∀ line ∈ front, (!p line) = true := by simpa using hfront
  constructor
  · rw [List.takeWhile_append_of_pos hfront', List.takeWhile_cons_of_neg (by simp [hlast]),
      List.append_nil]
  · rw [List.dropWhile_append_of_pos hfront', List.dropWhile_cons_of_neg (by simp [hlast])]

theorem cut_finished {line last : List Char} {f : Fence} {content : List (List Char)}
    (h : fence? line = some f) (hcontent : ∀ line ∈ content, ends f.run line = false)
    (hlast : ends f.run last = true) (rest : List (List Char)) :
    cut ends (line :: (content ++ last :: rest))
      = .code ⟨f, line, content, some last⟩ :: cut ends rest := by
  obtain ⟨htake, hdrop⟩ := divide_at_first hcontent hlast rest
  rw [cut, h]
  dsimp only
  split
  · next hnil => rw [hdrop] at hnil; cases hnil
  · next hcons =>
    rw [hdrop] at hcons
    obtain ⟨rfl, rfl⟩ := List.cons.inj hcons
    rw [htake]

/-- How lines go on behind a fence: to the end of the text, or to a first line that ends the
block. -/
theorem exists_content (run : List Char) (rest : List (List Char)) :
    (∀ line ∈ rest, ends run line = false) ∨
      ∃ content last after, rest = content ++ last :: after ∧
        (∀ line ∈ content, ends run line = false) ∧ ends run last = true := by
  induction rest with
  | nil => exact .inl (by simp)
  | cons line rest ih =>
    cases hline : ends run line with
    | true => exact .inr ⟨[], line, rest, rfl, by simp, hline⟩
    | false =>
      obtain hall | ⟨content, last, after, rfl, hcontent, hlast⟩ := ih
      · exact .inl (List.forall_mem_cons.mpr ⟨hline, hall⟩)
      · exact .inr ⟨line :: content, last, after, rfl,
          List.forall_mem_cons.mpr ⟨hline, hcontent⟩, hlast⟩

/-- Every list of lines can be cut. -/
theorem isCut_cut (ends : List Char → List Char → Bool) (lines : List (List Char)) :
    IsCut ends (cut ends lines) ∧ linesOf (cut ends lines) = lines := by
  induction hlength : lines.length using Nat.strong_induction_on generalizing lines with
  | _ n ih =>
    subst hlength
    cases lines with
    | nil =>
      rw [cut]
      exact ⟨.nil, rfl⟩
    | cons line rest =>
      cases hfence : fence? line with
      | none =>
        obtain ⟨hcut, hlines⟩ := ih rest.length (by simp) rest rfl
        rw [cut_prose hfence, linesOf_cons, hlines]
        exact ⟨.prose hfence hcut, rfl⟩
      | some f =>
        obtain hall | ⟨content, last, after, rfl, hcontent, hlast⟩ := exists_content f.run rest
        · rw [cut_unfinished hfence hall]
          refine ⟨.code ⟨hfence, hall, by simp⟩ (fun _ => rfl) .nil, ?_⟩
          simp [linesOf, Piece.lines, Block.lines]
        · obtain ⟨hcut, hlines⟩ := ih after.length (by simp; omega) after rfl
          rw [cut_finished hfence hcontent hlast, linesOf_cons, hlines]
          refine ⟨.code ⟨hfence, hcontent, by simpa using hlast⟩ (by simp) hcut, ?_⟩
          simp [Piece.lines, Block.lines]

namespace IsCut

/-- There is only one way to cut lines. -/
theorem cut_linesOf (h : IsCut ends ps) : cut ends (linesOf ps) = ps := by
  induction h with
  | nil =>
    rw [linesOf, List.flatMap_nil, cut]
  | @prose line ps hline hps ih =>
    rw [linesOf_cons, Piece.lines, List.singleton_append, cut_prose hline, ih]
  | @code b ps hb hopen hps ih =>
    obtain ⟨f, first, content, last?⟩ := b
    rw [linesOf_cons, Piece.lines, Block.lines]
    cases last? with
    | none =>
      obtain rfl := hopen rfl
      simpa [linesOf] using cut_unfinished hb.opens hb.goes_on
    | some last =>
      have hcut := cut_finished hb.opens hb.goes_on (hb.stops last rfl) (linesOf ps)
      rw [ih] at hcut
      simpa using hcut

/-- Pieces that are left out do not move the others. -/
theorem filter (h : IsCut ends ps) (p : Piece → Bool) : IsCut ends (ps.filter p) := by
  induction h with
  | nil => exact .nil
  | @prose line ps hline hps ih =>
    rw [List.filter_cons]
    split
    · exact .prose hline ih
    · exact ih
  | @code b ps hb hopen hps ih =>
    rw [List.filter_cons]
    split
    · exact .code hb (fun hnone => by rw [hopen hnone, List.filter_nil]) ih
    · exact ih

theorem bounded (h : IsCut ends ps) {b : Block} (hb : .code b ∈ ps) : b.Bounded ends := by
  induction h with
  | nil => cases hb
  | prose _ _ ih =>
    obtain hhead | htail := List.mem_cons.mp hb
    · cases hhead
    · exact ih htail
  | code hbounded _ _ ih =>
    obtain hhead | htail := List.mem_cons.mp hb
    · cases hhead
      exact hbounded
    · exact ih htail

/-- Pieces are cut by another rule as well when their blocks are bounded under it. -/
theorem of_bounded {ends' : List Char → List Char → Bool} (h : IsCut ends ps)
    (hbounded : ∀ b, .code b ∈ ps → b.Bounded ends') : IsCut ends' ps := by
  induction h with
  | nil => exact .nil
  | prose hline _ ih =>
    exact .prose hline (ih fun b hb => hbounded b (List.mem_cons_of_mem _ hb))
  | code _ hopen _ ih =>
    exact .code (hbounded _ List.mem_cons_self) hopen
      (ih fun b hb => hbounded b (List.mem_cons_of_mem _ hb))

end IsCut

/-! ## What a language sees -/

/-- The lines that a language sees of pieces. -/
def seenLines (l : Language) (ps : List Piece) : List (List Char) :=
  linesOf (ps.filter (·.seenBy l))

/-- Inside a block all lines up to the one that ends it share the fate of the block. -/
theorem keptFrom_unfinished {l : Language} {run : List Char} (keep : Bool)
    (h : ∀ line ∈ lines, closes run line = false) :
    keptFrom l (some (run, keep)) lines = if keep then lines else [] := by
  induction lines with
  | nil => cases keep <;> rfl
  | cons line rest ih =>
    obtain ⟨hline, hrest⟩ := List.forall_mem_cons.mp h
    rw [keptFrom]
    simp only [hline, Bool.false_eq_true, if_false, ih hrest]
    cases keep <;> rfl

theorem keptFrom_finished {l : Language} {run last : List Char} {content : List (List Char)}
    (keep : Bool) (hcontent : ∀ line ∈ content, closes run line = false)
    (hlast : closes run last = true) (rest : List (List Char)) :
    keptFrom l (some (run, keep)) (content ++ last :: rest)
      = (if keep then content ++ [last] else []) ++ keptFrom l none rest := by
  induction content with
  | nil =>
    rw [List.nil_append, keptFrom]
    simp only [hlast, if_true]
    cases keep <;> rfl
  | cons line content ih =>
    obtain ⟨hline, hcontent⟩ := List.forall_mem_cons.mp hcontent
    rw [List.cons_append, keptFrom]
    simp only [hline, Bool.false_eq_true, if_false, ih hcontent]
    cases keep <;> rfl

/-- Outside blocks the lines that remain are those of the pieces that the language sees. -/
theorem keptFrom_linesOf (l : Language) (h : IsCut closes ps) :
    keptFrom l none (linesOf ps) = seenLines l ps := by
  induction h with
  | nil => rfl
  | @prose line ps hline hps ih =>
    have hseen : (Piece.prose line).seenBy l = true := rfl
    rw [linesOf_cons, Piece.lines, List.singleton_append, keptFrom, hline, seenLines,
      List.filter_cons_of_pos hseen, linesOf_cons, ← seenLines, ← ih]
    rfl
  | @code b ps hb hopen hps ih =>
    obtain ⟨f, first, content, last?⟩ := b
    have hseen : (Piece.code ⟨f, first, content, last?⟩).seenBy l = keepsBlock l f :=
      Piece.seenBy_code l _
    have hfence : fence? first = some f := hb.opens
    rw [linesOf_cons, Piece.lines, Block.lines, List.cons_append, keptFrom, hfence, seenLines,
      List.filter_cons, hseen]
    cases last? with
    | none =>
      obtain rfl := hopen rfl
      have hrest := keptFrom_unfinished (l := l) (keepsBlock l f) hb.goes_on
      cases hkeep : keepsBlock l f <;>
        simpa [hkeep, linesOf, Piece.lines, Block.lines] using hrest
    | some last =>
      have hrest := keptFrom_finished (l := l) (keepsBlock l f) hb.goes_on (hb.stops last rfl)
        (linesOf ps)
      rw [ih, seenLines] at hrest
      cases hkeep : keepsBlock l f <;>
        simpa [hkeep, linesOf, Piece.lines, Block.lines] using hrest

/-- What remains of a guide for a language are the pieces that it sees. -/
theorem keptLines_eq_seen (l : Language) (lines : List (List Char)) :
    keptLines l lines = seenLines l (cut closes lines) := by
  obtain ⟨hcut, hlines⟩ := isCut_cut closes lines
  rw [keptLines, ← keptFrom_linesOf l hcut, hlines]

end ApiSurface.Guide
