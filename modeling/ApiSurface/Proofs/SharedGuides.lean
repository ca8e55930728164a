import ApiSurface.Proofs.CodeBlocks
import ApiSurface.Proofs.OneLineTexts

/-!
# One guide for all languages

The blocks of a guide are the same whichever language reads it, and each is for one language or for
all. So the lines of a guide are divided once and for all (`filterBlocks_shared`), and filtering a
guide that was filtered before, for whichever language, finds the blocks that were left where they
were: it leaves out what the second language does not see and nothing else
(`filterBlocks_filterBlocks`).
-/

namespace ApiSurface

open Text (OneLine)

namespace Text

/-- A line that does not end in a carriage return is the run that it begins, without its end. -/
theorem stripLineEnd_append {line : List Char} (h : line.getLast? ≠ some '\r') :
    stripLineEnd (line ++ ['\n']) = line := by
  rw [stripLineEnd, List.reverse_append, List.reverse_singleton, List.singleton_append]
  rw [List.getLast?_eq_head?_reverse] at h
  cases hreverse : line.reverse with
  | nil => simpa using hreverse.symm
  | cons c rest =>
    rw [hreverse, List.head?_cons, ne_eq, Option.some.injEq] at h
    rw [← List.reverse_reverse line, hreverse]
    split
    · next heq => exact absurd (List.cons.inj (List.cons.inj heq).2).1 h
    · next heq => rw [(List.cons.inj heq).2]
    · next hne => exact absurd rfl (hne _)

/-- A line without a carriage return at its end. -/
def dropReturn (line : List Char) : List Char :=
  if line.getLast? = some '\r' then line.dropLast else line

theorem stripLineEnd_line (line : List Char) : stripLineEnd (line ++ ['\n']) = dropReturn line := by
  rw [dropReturn]
  split
  · next h =>
    obtain ⟨front, rfl⟩ := List.getLast?_eq_some_iff.mp h
    simp [stripLineEnd]
  · next h => exact stripLineEnd_append h

end Text

namespace Guide

variable {lines : List (List Char)} {ps : List Piece}

/-! ## Whom a line is for -/

/-- For each line of pieces the language that it is for, if it is not for all. -/
def owners (ps : List Piece) : List (Option Language) :=
  ps.flatMap fun p => p.lines.map fun _ => p.owner?

theorem length_owners (ps : List Piece) : (owners ps).length = (linesOf ps).length := by
  simp [owners, linesOf, List.length_flatMap]

/-- Lines that are for one language, or all for all, are seen together. -/
theorem seen_zip_owner (l : Language) (owner? : Option Language) (lines : List (List Char)) :
    ((lines.zip (lines.map fun _ => owner?)).filter (sees l ·.2)).map (·.1)
      = if sees l owner? then lines else [] := by
  induction lines with
  | nil => cases sees l owner? <;> rfl
  | cons line lines ih =>
    rw [List.map_cons, List.zip_cons_cons, List.filter_cons]
    cases hsees : sees l owner? with
    | true =>
      rw [hsees] at ih
      simpa [hsees] using ih
    | false =>
      rw [hsees] at ih
      simpa [hsees] using ih

/-- A language sees the lines that are for it or for all. -/
theorem seenLines_eq_zip (l : Language) (ps : List Piece) :
    seenLines l ps = (((linesOf ps).zip (owners ps)).filter (sees l ·.2)).map (·.1) := by
  induction ps with
  | nil => rfl
  | cons p ps ih =>
    rw [linesOf_cons, owners, List.flatMap_cons, List.zip_append (by simp), List.filter_append,
      List.map_append, seen_zip_owner, ← owners, ← ih, seenLines, List.filter_cons, Piece.seenBy]
    cases sees l p.owner? <;> rfl

/-- What is for all languages or for one is seen by all or by exactly one. -/
theorem sees_all_or_unique (owner? : Option Language) :
    (∀ l, sees l owner? = true) ∨ ∃! l, sees l owner? = true := by
  cases owner? with
  | none => exact .inl fun _ => rfl
  | some owner =>
    have hsees (l : Language) : sees l (some owner) = true ↔ owner = l := beq_iff_eq
    exact .inr ⟨owner, (hsees owner).mpr rfl, fun l hl => ((hsees l).mp hl).symm⟩

/-- **Whom the lines of a guide are for.** Each line is for all languages or for one, whichever
language reads the guide, and each language sees the lines that are for it or for all. The lines of
a block, with its fence and the line that ends it, are all for the same. -/
theorem filterBlocks_shared (lines : List String) :
    ∃ owners : List (Option Language), owners.length = lines.length ∧
      (∀ l, filterBlocks l lines = String.ofList (joinLines
        (((lines.zip owners).filter (sees l ·.2)).map (·.1.toList)))) ∧
      (∀ owner? ∈ owners, (∀ l, sees l owner? = true) ∨ ∃! l, sees l owner? = true) ∧
      ∃ ps, IsCut closes ps ∧ linesOf ps = lines.map String.toList ∧
        owners = ps.flatMap fun p => p.lines.map fun _ => p.owner? := by
  obtain ⟨hcut, hlines⟩ := isCut_cut closes (lines.map String.toList)
  refine ⟨owners (cut closes (lines.map String.toList)), ?_, fun l => ?_,
    fun owner? _ => sees_all_or_unique owner?, _, hcut, hlines, rfl⟩
  · rw [length_owners, hlines, List.length_map]
  · rw [filterBlocks, keptLines_eq_seen, seenLines_eq_zip, hlines, List.zip_map_left,
      List.filter_map, List.map_map]
    rfl

/-! ## Filtering twice -/

/-- What two languages see of pieces one after the other is what both of them see. -/
theorem keptLines_keptLines (l k : Language) (lines : List (List Char)) :
    keptLines k (keptLines l lines)
      = linesOf ((cut closes lines).filter fun p => p.seenBy l && p.seenBy k) := by
  obtain ⟨hcut, -⟩ := isCut_cut closes lines
  have hagain : cut closes (keptLines l lines) = (cut closes lines).filter (·.seenBy l) := by
    rw [keptLines_eq_seen, seenLines, (hcut.filter _).cut_linesOf]
  rw [keptLines_eq_seen k, hagain, seenLines, List.filter_filter]
  simp only [Bool.and_comm]

theorem keptLines_self (l : Language) (lines : List (List Char)) :
    keptLines l (keptLines l lines) = keptLines l lines := by
  rw [keptLines_keptLines, keptLines_eq_seen, seenLines]
  simp only [Bool.and_self]

theorem keptLines_comm (l k : Language) (lines : List (List Char)) :
    keptLines k (keptLines l lines) = keptLines l (keptLines k lines) := by
  rw [keptLines_keptLines, keptLines_keptLines]
  simp only [Bool.and_comm]

/-- No line is made. -/
theorem keptLines_subset (l : Language) (lines : List (List Char)) :
    keptLines l lines ⊆ lines := by
  intro line hline
  rw [keptLines_eq_seen, seenLines] at hline
  obtain ⟨p, hp, hline⟩ := List.mem_flatMap.mp hline
  have hmem : line ∈ linesOf (cut closes lines) :=
    List.mem_flatMap.mpr ⟨p, List.mem_of_mem_filter hp, hline⟩
  rwa [(isCut_cut closes lines).2] at hmem

/-- A line that is read back as it is written: on one line, and with no carriage return at the
end. -/
structure IsGuideLine (line : List Char) : Prop where
  single : OneLine line
  bare : line.getLast? ≠ some '\r'

instance (line : List Char) : Decidable (IsGuideLine line) :=
  decidable_of_iff (OneLine line ∧ line.getLast? ≠ some '\r')
    ⟨fun ⟨hsingle, hbare⟩ => ⟨hsingle, hbare⟩, fun h => ⟨h.single, h.bare⟩⟩

/-- Lines that are joined are read again without the carriage returns at their ends. -/
theorem lines_joinLines (h : ∀ line ∈ lines, Text.OneLine line) :
    Text.lines (joinLines lines) = lines.map Text.dropReturn := by
  induction lines with
  | nil => rfl
  | cons line lines ih =>
    obtain ⟨hline, hlines⟩ := List.forall_mem_cons.mp h
    have hjoin : joinLines (line :: lines) = line ++ '\n' :: joinLines lines := by
      rw [joinLines, List.flatMap_cons, List.append_assoc]
      rfl
    rw [Text.lines] at ih ⊢
    rw [hjoin, Text.lineRuns_append hline, List.map_cons, ih hlines, Text.stripLineEnd_line,
      List.map_cons]

theorem lines_joinLines_of_isGuideLine (h : ∀ line ∈ lines, IsGuideLine line) :
    Text.lines (joinLines lines) = lines := by
  have hdrop : ∀ line ∈ lines, Text.dropReturn line = line := fun line hline => by
    rw [Text.dropReturn, if_neg (h line hline).bare]
  rw [lines_joinLines fun line hline => (h line hline).single]
  exact (List.map_congr_left hdrop).trans (List.map_id' lines)

/-- The lines of a text. -/
def textLines (text : String) : List String :=
  (Text.lines text.toList).map String.ofList

/-- A guide that was filtered is read as the lines that were kept. -/
theorem textLines_filterBlocks {lines : List String}
    (h : ∀ line ∈ lines, IsGuideLine line.toList) (l : Language) :
    (textLines (filterBlocks l lines)).map String.toList
      = keptLines l (lines.map String.toList) := by
  have hkept : ∀ line ∈ keptLines l (lines.map String.toList), IsGuideLine line :=
    fun line hline => List.forall_mem_map.mpr h line (keptLines_subset l _ hline)
  rw [textLines, filterBlocks, String.toList_ofList, lines_joinLines_of_isGuideLine hkept,
    List.map_map]
  simp [Function.comp_def]

/-- **Filtering a guide again.** For the same language nothing more is left out, and for two
languages it does not matter which comes first. -/
theorem filterBlocks_filterBlocks {lines : List String}
    (h : ∀ line ∈ lines, IsGuideLine line.toList) :
    (∀ l, filterBlocks l (textLines (filterBlocks l lines)) = filterBlocks l lines) ∧
      ∀ l k, filterBlocks k (textLines (filterBlocks l lines))
        = filterBlocks l (textLines (filterBlocks k lines)) := by
  refine ⟨fun l => ?_, fun l k => ?_⟩
  · rw [filterBlocks, textLines_filterBlocks h, keptLines_self, filterBlocks]
  · rw [filterBlocks, textLines_filterBlocks h, keptLines_comm, filterBlocks,
      textLines_filterBlocks h]

/-- A block for another language that a block for this one follows, and one without an end. -/
theorem filterBlocks_filterBlocks_unfinished :
    let lines := ["a", "```lua", "b", "```", "~~~js", "c", "~~~", "```cpp", "d"]
    (∀ line ∈ lines, IsGuideLine line.toList) ∧
      filterBlocks .js lines = "a\n~~~js\nc\n~~~\n" ∧
      filterBlocks .js (textLines (filterBlocks .js lines)) = filterBlocks .js lines ∧
      filterBlocks .lua (textLines (filterBlocks .js lines))
        = filterBlocks .js (textLines (filterBlocks .lua lines)) := by
  intro lines
  have hlines : ∀ line ∈ lines, IsGuideLine line.toList := by decide
  exact ⟨hlines, by decide +kernel, (filterBlocks_filterBlocks hlines).1 .js,
    (filterBlocks_filterBlocks hlines).2 .js .lua⟩

end Guide

end ApiSurface
