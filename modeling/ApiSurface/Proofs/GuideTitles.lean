import ApiSurface.Proofs.FrontMatter
import ApiSurface.Proofs.SharedGuides

/-!
# Where the title of a guide comes from

A heading is a line of prose, but the title is looked for in all that a language sees of a guide. So
a line in a block of code that looks like a heading is the title when it comes first
(`findSome?_seenLines`): the title is that of the first such line in the blocks that the language
sees in front of the first heading, if there is one, and else that of the heading
(`parse_name_iff`).

What is seen of a guide is a text that is read again, and then a carriage return at the end of a
line belongs to the end of the line (`lines_joinLines`).
-/

namespace ApiSurface

open Text (OneLine)

namespace Text

/-! ## Lines that are read again -/

/-- A run is a line with its end, or the last line. -/
theorem exists_line_of_mem_lineRuns {s run : List Char} (h : run ∈ lineRuns s) :
    OneLine run ∨ ∃ line, OneLine line ∧ run = line ++ ['\n'] := by
  induction s generalizing run with
  | nil => cases h
  | cons c rest ih =>
    rw [lineRuns] at h
    split at h
    · next hc =>
      obtain rfl | h := List.mem_cons.mp h
      · exact .inr ⟨[], List.not_mem_nil, by rw [hc, List.nil_append]⟩
      · exact ih h
    · next hc =>
      have hcons {line : List Char} (hline : OneLine line) : OneLine (c :: line) :=
        oneLine_cons_iff.mpr ⟨Ne.symm hc, hline⟩
      split at h
      · rw [List.mem_singleton.mp h]
        exact .inl (hcons List.not_mem_nil)
      · next first runs hruns =>
        rw [hruns] at ih
        obtain rfl | h := List.mem_cons.mp h
        · obtain hfirst | ⟨line, hline, rfl⟩ := ih List.mem_cons_self
          · exact .inl (hcons hfirst)
          · exact .inr ⟨c :: line, hcons hline, rfl⟩
        · exact ih (List.mem_cons_of_mem _ h)

/-- A text without a line feed is a line. -/
theorem stripLineEnd_of_oneLine {run : List Char} (h : OneLine run) : stripLineEnd run = run := by
  have hreverse : '\n' ∉ run.reverse := fun hmem => h (List.mem_reverse.mp hmem)
  rw [stripLineEnd]
  split
  · next heq => exact absurd (heq ▸ List.mem_cons_self) hreverse
  · next heq => exact absurd (heq ▸ List.mem_cons_self) hreverse
  · rfl

theorem dropReturn_subset (line : List Char) : dropReturn line ⊆ line := by
  rw [dropReturn]
  split
  · exact List.dropLast_subset line
  · exact List.Subset.refl line

/-- No line has a line feed. -/
theorem oneLine_of_mem_lines {s line : List Char} (h : line ∈ lines s) : OneLine line := by
  obtain ⟨run, hrun, rfl⟩ := List.mem_map.mp h
  obtain hsingle | ⟨line, hline, rfl⟩ := exists_line_of_mem_lineRuns hrun
  · rwa [stripLineEnd_of_oneLine hsingle]
  · rw [stripLineEnd_line]
    exact hline.of_subset (dropReturn_subset line)

end Text

namespace Guide

/-! ## Headings -/

/-- The title of a line that is written as a heading of level one. -/
def heading? (line : List Char) : Option (List Char) :=
  title? (Text.dropReturn line)

namespace Piece

/-- The title of a line of prose that is a heading. -/
def heading? : Piece → Option (List Char)
  | prose line => Guide.heading? line
  | code _ => none

/-- The title in the first line of a block that is written as a heading. -/
def codeHeading? : Piece → Option (List Char)
  | prose _ => none
  | code b => b.lines.findSome? Guide.heading?

end Piece

/-- The title of the first heading. -/
def firstHeading? (ps : List Piece) : Option (List Char) :=
  ps.findSome? Piece.heading?

/-- The title in the first line that is written as a heading in the blocks that a language sees in
front of the first heading. -/
def coveringHeading? (l : Language) (ps : List Piece) : Option (List Char) :=
  ((ps.takeWhile (·.heading?.isNone)).filter (·.seenBy l)).findSome? Piece.codeHeading?

theorem firstHeading?_cons (p : Piece) (ps : List Piece) :
    firstHeading? (p :: ps) = p.heading?.or (firstHeading? ps) := by
  rw [firstHeading?, List.findSome?_cons]
  cases p.heading? <;> rfl

/-- Nothing covers a heading that comes first. -/
theorem coveringHeading?_of_heading {l : Language} {p : Piece} {title : List Char}
    (h : p.heading? = some title) (ps : List Piece) : coveringHeading? l (p :: ps) = none := by
  rw [coveringHeading?, List.takeWhile_cons_of_neg (by simp [h])]
  rfl

theorem coveringHeading?_cons {l : Language} {p : Piece} (h : p.heading? = none)
    (ps : List Piece) : coveringHeading? l (p :: ps)
      = (if p.seenBy l then p.codeHeading? else none).or (coveringHeading? l ps) := by
  rw [coveringHeading?, List.takeWhile_cons_of_pos (by simp [h]), List.filter_cons]
  split
  · rw [List.findSome?_cons]
    cases p.codeHeading? <;> rfl
  · rfl

theorem seenLines_cons (l : Language) (p : Piece) (ps : List Piece) :
    seenLines l (p :: ps) = (if p.seenBy l then p.lines else []) ++ seenLines l ps := by
  rw [seenLines, List.filter_cons]
  split
  · rw [linesOf_cons, seenLines]
  · rfl

/-- The first line written as a heading, in what a language sees of pieces, is the first heading
unless it is in a block in front of that. -/
theorem findSome?_seenLines (l : Language) (ps : List Piece) :
    (seenLines l ps).findSome? heading? = (coveringHeading? l ps).or (firstHeading? ps) := by
  induction ps with
  | nil => rfl
  | cons p ps ih =>
    rw [seenLines_cons, List.findSome?_append, ih, firstHeading?_cons]
    cases p with
    | prose line =>
      have hline : (if (Piece.prose line).seenBy l then (Piece.prose line).lines else []).findSome?
          heading? = (Piece.prose line).heading? := List.findSome?_singleton
      rw [hline]
      cases hheading : (Piece.prose line).heading? with
      | some title =>
        rw [coveringHeading?_of_heading hheading]
        rfl
      | none =>
        rw [coveringHeading?_cons hheading]
        rfl
    | code b =>
      rw [coveringHeading?_cons rfl]
      cases (Piece.code b).seenBy l with
      | true => exact (Option.or_assoc).symm
      | false => rfl

/-! ## Titles -/

/-- The name of a guide with this title, or without one. -/
def nameOf (id : String) (title? : Option (List Char)) : String :=
  title?.elim id String.ofList

theorem nameIn_eq (id : String) (l : Language) {body : List (List Char)}
    (h : ∀ line ∈ body, OneLine line) :
    nameIn id l body =
      nameOf id ((coveringHeading? l (cut closes body)).or (firstHeading? (cut closes body))) := by
  have hkept : ∀ line ∈ keptLines l body, OneLine line :=
    fun line hline => h line (keptLines_subset l body hline)
  rw [nameIn, lines_joinLines hkept, List.findSome?_map, nameOf, ← findSome?_seenLines,
    ← keptLines_eq_seen]
  rfl

theorem exists_parse_of_divided {text : String} {front? : Option (List (List Char))}
    {body : List (List Char)} {priority : Int} (path id : String) (l : Language)
    (h : Divided (Text.lines text.toList) front? body)
    (hpriority : priorityOf? front? = some priority) :
    ∃ g, parse path id text l = .ok g ∧ g.name =
      nameOf id ((coveringHeading? l (cut closes body)).or (firstHeading? (cut closes body))) := by
  have hlines : ∀ line ∈ body, OneLine line :=
    fun line hline => Text.oneLine_of_mem_lines (h.subset hline)
  refine ⟨ofBody id l priority body, ?_, nameIn_eq id l hlines⟩
  rw [parse_of_divided path id l h, hpriority]
  rfl

/-- **What the title of a guide is.** In each language it is the title of the first line written as
a heading in the blocks that the language sees in front of the first heading, if there is one, and
else that of the heading, or the id of a guide without any. So it is the title of the first heading,
or the id, exactly when no such line says otherwise. -/
theorem parse_name_iff {path id text : String} {l : Language} {g : Guide}
    (h : parse path id text l = .ok g) :
    ∃ front? body, Divided (Text.lines text.toList) front? body ∧
      let ps := cut closes body
      ∀ k, ∃ g', parse path id text k = .ok g' ∧
        g'.name = nameOf id ((coveringHeading? k ps).or (firstHeading? ps)) ∧
        (g'.name = nameOf id (firstHeading? ps) ↔
          ∀ title ∈ coveringHeading? k ps, String.ofList title = nameOf id (firstHeading? ps)) := by
  obtain ⟨front?, body, hdivided, hpriority, -⟩ := exists_divided_of_parse h
  refine ⟨front?, body, hdivided, fun k => ?_⟩
  obtain ⟨g', hparse, hname⟩ := exists_parse_of_divided path id k hdivided hpriority
  refine ⟨g', hparse, hname, ?_⟩
  rw [hname]
  cases coveringHeading? k (cut closes body) with
  | none => simp
  | some title => simp [nameOf]

/-- A comment in a block behind the heading does not cover it. -/
theorem parse_name_iff_comment :
    let text := "# Start\n```\n# run\n```\n"
    (∃ g, parse "start.md" "start" text .js = .ok g) ∧
      ∀ k, ∃ g, parse "start.md" "start" text k = .ok g ∧ g.name = "Start" := by
  intro text
  have hlines : Text.lines text.toList
      = ["# Start".toList, "```".toList, "# run".toList, "```".toList] := by decide
  have hbare : Divided (Text.lines text.toList) none (Text.lines text.toList) :=
    .bare (by rw [hlines]; decide)
  have hcut : cut closes (Text.lines text.toList)
      = .prose "# Start".toList :: cut closes ["```".toList, "# run".toList, "```".toList] :=
    hlines ▸ cut_prose (by decide) _
  have hheading : (Piece.prose "# Start".toList).heading? = some "Start".toList := by decide
  have hfirst : firstHeading? (cut closes (Text.lines text.toList)) = some "Start".toList := by
    rw [hcut, firstHeading?_cons, hheading]
    rfl
  have hcovering (k : Language) : coveringHeading? k (cut closes (Text.lines text.toList)) = none :=
    hcut ▸ coveringHeading?_of_heading hheading _
  obtain ⟨g, hparse, -⟩ := exists_parse_of_divided "start.md" "start" .js hbare rfl
  obtain ⟨front?, body, hdivided, hnames⟩ := parse_name_iff hparse
  obtain ⟨-, rfl⟩ := hdivided.unique hbare
  refine ⟨⟨g, hparse⟩, fun k => ?_⟩
  obtain ⟨g', hg', -, hname⟩ := hnames k
  rw [hfirst, hcovering] at hname
  exact ⟨g', hg', hname.mpr (by simp)⟩

/-- A directive in a block of C++ is the title in C++ and covers the heading there. -/
theorem parse_name_include :
    let text := "```cpp\n# include <gui.h>\n```\n# Start\n"
    (∃ g, parse "start.md" "start" text .cpp = .ok g ∧ g.name = "include <gui.h>") ∧
      (∃ g, parse "start.md" "start" text .js = .ok g ∧ g.name = "Start") ∧
      Divided (Text.lines text.toList) none (Text.lines text.toList) ∧
      firstHeading? (cut closes (Text.lines text.toList)) = some "Start".toList := by
  intro text
  have hlines : Text.lines text.toList
      = "```cpp".toList :: (["# include <gui.h>".toList] ++ "```".toList :: ["# Start".toList]) := by
    decide
  have hbare : Divided (Text.lines text.toList) none (Text.lines text.toList) :=
    .bare (by rw [hlines]; decide)
  have hfence : fence? "```cpp".toList = some ⟨"```".toList, "cpp".toList⟩ := by decide
  have hcut : cut closes (Text.lines text.toList)
      = [.code ⟨⟨"```".toList, "cpp".toList⟩, "```cpp".toList, ["# include <gui.h>".toList],
          some "```".toList⟩, .prose "# Start".toList] := by
    rw [hlines, cut_finished hfence (by decide) (by decide), cut_prose (by decide), cut]
  obtain ⟨g, hg, hname⟩ := exists_parse_of_divided "start.md" "start" .cpp hbare rfl
  obtain ⟨g', hg', hname'⟩ := exists_parse_of_divided "start.md" "start" .js hbare rfl
  rw [hcut] at hname hname' ⊢
  exact ⟨⟨g, hg, hname.trans (by decide)⟩, ⟨g', hg', hname'.trans (by decide)⟩, hbare, by decide⟩

end Guide

end ApiSurface
