import ApiSurface.Proofs.CodeBlocks
import ApiSurface.Proofs.Trimming

/-!
# Where blocks of code end

A block that a run of `n` characters begins ends at the first line that is, without the blanks
around it, a run of the same character whose length is a multiple of `n` (`closes_eq_repeats`). A
longer run that is no multiple is a line of the block like any other. So the blocks are those that
end at any run of at least `n` characters exactly when each of those ends at a multiple
(`filterBlocks_wholeRuns`).
-/

namespace ApiSurface.Guide

/-! ## Lines of one character -/

/-- Whether a line, without the blanks around it, is a run of the character that began a block, and
at least as long as the run there. -/
def covers (run line : List Char) : Bool :=
  decide (run.length ≤ (Text.trim line).length) && (Text.trim line).all (run.head? == some ·)

/-- Whether such a line is as long as several of the runs that began the block, or one. -/
def repeats (run line : List Char) : Bool :=
  covers run line && (Text.trim line).length % run.length == 0

variable {run line : List Char} {f : Fence} {lines : List (List Char)}

/-- Runs are removed from the front of a text until it begins with none. -/
theorem exists_dropRuns (hrun : run ≠ []) (fuel : Nat) (s : List Char) (hfuel : s.length ≤ fuel) :
    ∃ n, s = (List.replicate n run).flatten ++ dropRuns run fuel s := by
  induction fuel generalizing s with
  | zero => exact ⟨0, rfl⟩
  | succ fuel ih =>
    rw [dropRuns]
    split
    · next hfront =>
      obtain ⟨rest, rfl⟩ := List.isPrefixOf_iff_prefix.mp hfront
      have hpos := List.length_pos_iff.mpr hrun
      rw [List.length_append] at hfuel
      obtain ⟨n, hn⟩ := ih rest (by omega)
      refine ⟨n + 1, ?_⟩
      rw [List.drop_left, List.replicate_succ, List.flatten_cons, List.append_assoc, ← hn]
    · exact ⟨0, rfl⟩

/-- Nothing is left of a text that is made of runs. -/
theorem dropRuns_flatten (hrun : run ≠ []) (n fuel : Nat) (hfuel : n ≤ fuel) :
    dropRuns run fuel (List.replicate n run).flatten = [] := by
  induction n generalizing fuel with
  | zero =>
    cases fuel with
    | zero => rfl
    | succ fuel =>
      rw [dropRuns, if_neg]
      · rfl
      · simpa using hrun
  | succ n ih =>
    obtain ⟨fuel, rfl⟩ := Nat.exists_eq_add_of_le' (Nat.le_trans (Nat.le_add_left 1 n) hfuel)
    rw [dropRuns, List.replicate_succ, List.flatten_cons, if_pos (by simp), List.drop_left]
    exact ih fuel (by omega)

theorem forall_isBlank_of_trim_eq_nil {s : List Char} (h : Text.trim s = []) :
    ∀ c ∈ s, Text.isBlank c = true := by
  intro c hc
  by_contra hblank
  exact Text.trim_ne_nil hc (by simpa using hblank) h

/-- A line ends a block when it is, without the blanks around it, one or several copies of the run
that began the block. -/
theorem closes_iff (hrun : run ≠ []) :
    closes run line = true ↔ ∃ n, 0 < n ∧ Text.trim line = (List.replicate n run).flatten := by
  have hlength (n : Nat) : n ≤ (List.replicate n run).flatten.length := by
    have hpos := List.length_pos_iff.mpr hrun
    simpa using Nat.le_mul_of_pos_right n hpos
  rw [closes, Bool.and_eq_true, List.isEmpty_iff]
  constructor
  · rintro ⟨hfront, hrest⟩
    obtain ⟨n, hn⟩ := exists_dropRuns hrun _ (Text.trim line) le_rfl
    set rest := dropRuns run (Text.trim line).length (Text.trim line)
    -- what is left is blank, and a trimmed text does not end in a blank
    have htrim : Text.trim line = Text.trim (List.replicate n run).flatten := by
      rw [← Text.trim_trim, hn]
      exact Text.trim_append_blanks (forall_isBlank_of_trim_eq_nil hrest) _
    have hle : (Text.trim line).length ≤ (List.replicate n run).flatten.length :=
      htrim ▸ Text.length_trim_le _
    have hnil : rest = [] := by
      rw [← List.length_eq_zero_iff]
      rw [hn, List.length_append] at hle
      omega
    rw [hnil, List.append_nil] at hn
    refine ⟨n, Nat.pos_of_ne_zero ?_, hn⟩
    rintro rfl
    rw [hn] at hfront
    exact hrun (by simpa using hfront)
  · rintro ⟨n, hpos, hn⟩
    rw [hn, dropRuns_flatten hrun n _ (hlength n)]
    obtain ⟨n, rfl⟩ := Nat.exists_eq_add_of_lt hpos
    exact ⟨by simp [List.replicate_succ], rfl⟩

/-- A fence is a run of one character, of three at least. -/
theorem exists_run_eq_replicate (h : fence? line = some f) :
    ∃ mark n, 3 ≤ n ∧ f.run = List.replicate n mark := by
  have hfence {mark : Char} {s behind : List Char} {f : Fence}
      (h : (if 3 ≤ (s.takeWhile (· == mark)).length then
        some (⟨s.takeWhile (· == mark), behind⟩ : Fence) else none) = some f) :
      ∃ mark n, 3 ≤ n ∧ f.run = List.replicate n mark := by
    split at h
    · next hlength =>
      obtain rfl := Option.some.inj h
      refine ⟨mark, _, hlength, List.eq_replicate_iff.mpr ⟨rfl, fun c hc => ?_⟩⟩
      simpa using List.mem_takeWhile_imp hc
    · cases h
  rw [fence?] at h
  split at h
  · exact hfence h
  · exact hfence h
  · cases h

/-- What it means for a line to be a run at least as long as one of `n` characters `mark`. -/
theorem covers_replicate_iff {mark : Char} {n : Nat} (hn : n ≠ 0) :
    covers (List.replicate n mark) line = true ↔
      n ≤ (Text.trim line).length ∧
        Text.trim line = List.replicate (Text.trim line).length mark := by
  obtain ⟨n, rfl⟩ := Nat.exists_eq_succ_of_ne_zero hn
  rw [covers, Bool.and_eq_true, decide_eq_true_iff, List.length_replicate, List.all_eq_true]
  refine and_congr_right fun _ => ?_
  rw [List.eq_replicate_iff, and_iff_right rfl]
  refine forall₂_congr fun c _ => ?_
  rw [List.replicate_succ, List.head?_cons, beq_iff_eq, Option.some.injEq, eq_comm]

/-- The lines that end a block are runs of its character whose length is a multiple of the first. -/
theorem closes_eq_repeats (h : fence? line = some f) (line' : List Char) :
    closes f.run line' = repeats f.run line' := by
  obtain ⟨mark, n, hn, hrun⟩ := exists_run_eq_replicate h
  have hpos : n ≠ 0 := by omega
  have hflatten (k : Nat) : (List.replicate k f.run).flatten = List.replicate (k * n) mark := by
    rw [hrun, List.flatten_replicate_replicate]
  rw [Bool.eq_iff_iff, closes_iff (by simpa [hrun] using hpos), repeats, Bool.and_eq_true,
    beq_iff_eq, hrun, covers_replicate_iff hpos, List.length_replicate, ← hrun]
  simp only [hflatten]
  constructor
  · rintro ⟨k, hk, htrim⟩
    rw [htrim, List.length_replicate]
    exact ⟨⟨Nat.le_mul_of_pos_left n hk, rfl⟩, Nat.mul_mod_left k n⟩
  · rintro ⟨⟨hle, htrim⟩, hmod⟩
    obtain ⟨k, hk⟩ := Nat.dvd_of_mod_eq_zero hmod
    rw [Nat.mul_comm] at hk
    refine ⟨k, Nat.pos_of_ne_zero ?_, hk ▸ htrim⟩
    rintro rfl
    omega

/-! ## Two rules for the ends of blocks -/

/-- Where one rule ends blocks at no more lines than another, both cut a guide in the same way
exactly when all blocks that end under the second rule end there under the first. -/
theorem cut_eq_cut_iff {ends ends' : List Char → List Char → Bool}
    (h : ∀ first f line, fence? first = some f → ends' f.run line = true → ends f.run line = true)
    (lines : List (List Char)) :
    cut ends' lines = cut ends lines ↔
      ∀ b, .code b ∈ cut ends lines → ∀ last ∈ b.last?, ends' b.fence.run last = true := by
  obtain ⟨hcut, hlines⟩ := isCut_cut ends lines
  constructor
  · intro heq b hb
    exact ((isCut_cut ends' lines).1.bounded (heq ▸ hb)).stops
  · intro hstops
    have hcut' : IsCut ends' (cut ends lines) := hcut.of_bounded fun b hb => by
      have hbounded := hcut.bounded hb
      refine ⟨hbounded.opens, fun line hline => ?_, hstops b hb⟩
      have hgoes := hbounded.goes_on line hline
      by_contra hends
      rw [h _ _ line hbounded.opens (by simpa using hends)] at hgoes
      cases hgoes
    calc cut ends' lines = cut ends' (linesOf (cut ends lines)) := by rw [hlines]
      _ = cut ends lines := hcut'.cut_linesOf

/-- The text that a language sees of pieces. -/
def seenText (l : Language) (ps : List Piece) : String :=
  String.ofList (joinLines (seenLines l ps))

/-- **Where the blocks of a guide end.** A language sees all lines but those of blocks tagged with
another language, when blocks end at the first run of their character whose length is a multiple of
the first. These are the blocks that end at any run that is long enough exactly when each of those
that do end does so at a multiple. -/
theorem filterBlocks_wholeRuns (l : Language) (lines : List String) :
    filterBlocks l lines = seenText l (cut repeats (lines.map String.toList)) ∧
      (cut repeats (lines.map String.toList) = cut covers (lines.map String.toList) ↔
        ∀ b, .code b ∈ cut covers (lines.map String.toList) → ∀ last ∈ b.last?,
          b.fence.run.length ∣ (Text.trim last).length) := by
  constructor
  · have hcut : cut closes (lines.map String.toList) = cut repeats (lines.map String.toList) := by
      refine (cut_eq_cut_iff (fun first f line hf hline => ?_) _).mpr fun b hb last hlast => ?_
      · rwa [← closes_eq_repeats hf]
      · have hbounded := (isCut_cut repeats _).1.bounded hb
        rw [closes_eq_repeats hbounded.opens]
        exact hbounded.stops last hlast
    rw [filterBlocks, keptLines_eq_seen, hcut]
    rfl
  · rw [cut_eq_cut_iff fun first f line _ hline => (Bool.and_eq_true_iff.mp hline).1]
    refine forall₂_congr fun b hb => forall₂_congr fun last hlast => ?_
    have hcovers := ((isCut_cut covers _).1.bounded hb).stops last hlast
    rw [repeats, hcovers, Bool.true_and, beq_iff_eq, Nat.dvd_iff_mod_eq_zero]

/-- A block that three characters began goes on behind a line of four. -/
theorem filterBlocks_longer_run :
    filterBlocks .js ["```lua", "x", "````", "y"] = "" ∧
      seenText .js (cut covers (["```lua", "x", "````", "y"].map String.toList)) = "y\n" := by
  constructor
  · decide +kernel
  · decide +kernel

end ApiSurface.Guide
