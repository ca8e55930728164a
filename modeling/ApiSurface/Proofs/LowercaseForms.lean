import Mathlib.Data.List.Basic
import ApiSurface.Identifier

/-!
# Lowercase forms are final

Lowercasing a character a second time changes nothing, and the characters in front of the small
letters, such as `_` and `:`, are in no lowercase form but their own. Both are facts of the table of
runs. Of two runs, the code points that the first one maps to lie beside the second or between its
steps (`CaseRun.clearOf`), which is checked for every pair of runs at once; what the check means for
the code points of a run is proved for any two runs.

So the Lua form of a name is its own Lua form, and lowercasing a text neither adds nor removes
punctuation.
-/

namespace ApiSurface.Text

/-! ## Runs -/

namespace CaseRun

/-- The code points that a run shifts. -/
def Covers (run : CaseRun) (n : Nat) : Prop :=
  run.first ≤ n ∧ n ≤ run.last ∧ (n - run.first) % run.stride = 0

/-- A run without gaps covers what lies between its ends. -/
theorem covers_of_le {first last n : Nat} {shift : Int} (hfirst : first ≤ n) (hlast : n ≤ last) :
    Covers ⟨first, last, 1, shift⟩ n :=
  ⟨hfirst, hlast, Nat.mod_one _⟩

/-- Where the lowercase form of a run's first code point lies. -/
def image (run : CaseRun) : Nat :=
  (run.first + run.shift).toNat

/-- Whether what one run maps to is clear of what another covers: it lies before it or behind it, or
falls between its steps. -/
def clearOf (run other : CaseRun) : Bool :=
  Nat.blt (run.image + (run.last - run.first)) other.first || Nat.blt other.last run.image ||
    (Nat.beq other.stride 2 && (Nat.beq run.stride 2 || Nat.beq run.first run.last) &&
      Nat.beq ((run.image - other.first) % 2) 1)

theorem not_covers_of_clearOf {run other : CaseRun} (h : run.clearOf other = true) {n m : Nat}
    (hn : run.Covers n) (hm : m = run.image + (n - run.first)) : ¬ other.Covers m := by
  obtain ⟨hfirst, hlast, hstep⟩ := hn
  rintro ⟨hfirst', hlast', hstep'⟩
  simp only [clearOf, Bool.or_eq_true, Bool.and_eq_true, Nat.blt_eq, Nat.beq_eq] at h
  obtain (hbefore | hbehind) | ⟨⟨hstride', hstride | hsingle⟩, hodd⟩ := h
  · omega
  · omega
  · -- both go by twos, from places of different parity
    rw [hstride] at hstep
    rw [hstride'] at hstep'
    omega
  · rw [hstride'] at hstep'
    omega

end CaseRun

/-- A code point that is shifted at all is shifted by a run that covers it. -/
theorem caseShift_cases (n : Nat) (runs : List CaseRun) :
    caseShift n runs = 0 ∨ ∃ run ∈ runs, run.Covers n ∧ caseShift n runs = run.shift := by
  induction runs with
  | nil => exact .inl rfl
  | cons run rest ih =>
    rw [caseShift]
    split
    · -- where the lookup stops early nothing is shifted, whether or not the runs ascend
      exact .inl rfl
    · next hfirst =>
      split
      · next hcovers => exact .inr ⟨run, .head _, ⟨by omega, hcovers⟩, rfl⟩
      · obtain hzero | ⟨other, hother, hshift⟩ := ih
        · exact .inl hzero
        · exact .inr ⟨other, .tail _ hother, hshift⟩

/-- A code point that no run covers stays where it is. -/
theorem caseShift_eq_zero {n : Nat} {runs : List CaseRun} (h : ∀ run ∈ runs, ¬ run.Covers n) :
    caseShift n runs = 0 := by
  obtain hzero | ⟨run, hrun, hcovers, -⟩ := caseShift_cases n runs
  · exact hzero
  · exact absurd hcovers (h run hrun)

/-! ## The table -/

/-- What no run maps to: what comes before the small letters, the one letter with a form of two
characters, and the code points that are not characters. -/
def unreached : List CaseRun :=
  [⟨0, 0x60, 1, 0⟩, ⟨'İ'.toNat, 'İ'.toNat, 1, 0⟩, ⟨0xD800, 0xDFFF, 1, 0⟩]

/-- No run maps into another one. -/
theorem lowercaseRuns_clear :
    lowercaseRuns.all fun run => (lowercaseRuns ++ unreached).all run.clearOf := by
  decide +kernel

theorem lowercaseRuns_image :
    ∀ run ∈ lowercaseRuns, (run.image : Int) = run.first + run.shift ∧
      run.image + (run.last - run.first) < 0x110000 := by
  decide +kernel

/-- A run maps a code point to a character that is lowercase already. -/
theorem exists_image {run : CaseRun} (hrun : run ∈ lowercaseRuns) {n : Nat} (hn : run.Covers n) :
    ∃ d : Char, Int.toNat (n + run.shift) = d.toNat ∧ caseShift d.toNat lowercaseRuns = 0 ∧
      d ≠ 'İ' ∧ 0x60 < d.toNat := by
  obtain ⟨himage, hbound⟩ := lowercaseRuns_image run hrun
  obtain ⟨m, hm⟩ : ∃ m, m = run.image + (n - run.first) := ⟨_, rfl⟩
  have hclear : ∀ other ∈ lowercaseRuns ++ unreached, ¬ other.Covers m := fun other hother =>
    have h := List.all_eq_true.mp (List.all_eq_true.mp lowercaseRuns_clear run hrun) other hother
    CaseRun.not_covers_of_clearOf h hn hm
  obtain ⟨hruns, hunreached⟩ := List.forall_mem_append.mp hclear
  have hsmall : 0x60 < m := Nat.lt_of_not_le fun h =>
    hunreached ⟨0, 0x60, 1, 0⟩ (by decide) (CaseRun.covers_of_le (Nat.zero_le m) h)
  have hdotted : m ≠ 'İ'.toNat := fun h =>
    hunreached ⟨'İ'.toNat, 'İ'.toNat, 1, 0⟩ (by decide) (CaseRun.covers_of_le (by omega) (by omega))
  have hsurrogate : ¬ (0xD800 ≤ m ∧ m ≤ 0xDFFF) := fun h =>
    hunreached ⟨0xD800, 0xDFFF, 1, 0⟩ (by decide) (CaseRun.covers_of_le h.1 h.2)
  obtain ⟨hfirst, hlast, -⟩ := hn
  have hvalid : m.isValidChar := by
    show m < 0xD800 ∨ 0xDFFF < m ∧ m < 0x110000
    omega
  refine ⟨Char.ofNatAux m hvalid, ?_, caseShift_eq_zero hruns, ?_, hsmall⟩
  · show _ = m
    omega
  · intro h
    exact hdotted (congrArg Char.toNat h)

/-! ## Characters -/

theorem lowerChar_of_shift {c : Char} (hc : c ≠ 'İ') (h : caseShift c.toNat lowercaseRuns = 0) :
    lowerChar c = [c] := by
  rw [lowerChar, if_neg hc, h, Int.add_zero, Int.toNat_natCast, Char.ofNat_toNat]

/-- A character is its own lowercase form, or its form is made of others that are their own. -/
theorem lowerChar_cases (c : Char) :
    lowerChar c = [c] ∨ ∀ d ∈ lowerChar c, lowerChar d = [d] ∧ 0x60 < d.toNat := by
  by_cases hc : c = 'İ'
  · have hform : lowerChar c = ['i', '\u0307'] := if_pos hc
    have hletter : lowerChar 'i' = ['i'] := by decide +kernel
    have hdot : lowerChar '\u0307' = ['\u0307'] := by decide +kernel
    rw [hform]
    exact .inr (List.forall_mem_cons.mpr
      ⟨⟨hletter, by decide⟩, List.forall_mem_singleton.mpr ⟨hdot, by decide⟩⟩)
  · obtain hzero | ⟨run, hrun, hcovers, hshift⟩ := caseShift_cases c.toNat lowercaseRuns
    · exact .inl (lowerChar_of_shift hc hzero)
    · obtain ⟨d, hd, hzero, hdotted, hsmall⟩ := exists_image hrun hcovers
      have hform : lowerChar c = [d] := by
        rw [lowerChar, if_neg hc, hshift, hd, Char.ofNat_toNat]
      rw [hform]
      exact .inr (List.forall_mem_singleton.mpr ⟨lowerChar_of_shift hdotted hzero, hsmall⟩)

/-- What lowercasing a character gives is lowercase. -/
theorem lowerChar_of_mem {c d : Char} (h : d ∈ lowerChar c) : lowerChar d = [d] := by
  obtain hself | hother := lowerChar_cases c
  · obtain rfl : d = c := by simpa [hself] using h
    exact hself
  · exact (hother d h).1

/-- What comes before the small letters is in no form but its own. -/
theorem eq_of_mem_lowerChar {c d : Char} (h : d ∈ lowerChar c) (hd : d.toNat ≤ 0x60) : c = d := by
  obtain hself | hother := lowerChar_cases c
  · simpa [hself, eq_comm] using h
  · exact absurd (hother d h).2 (Nat.not_lt.mpr hd)

theorem lowerChar_ne_nil (c : Char) : lowerChar c ≠ [] := by
  rw [lowerChar]
  split <;> simp

/-! ## Texts -/

/-- Lowercasing a text neither adds nor removes a character that comes before the small letters and
is its own form. -/
theorem mem_lowercase_iff {d : Char} (hd : d.toNat ≤ 0x60) (hself : lowerChar d = [d])
    (s : List Char) : d ∈ lowercase s ↔ d ∈ s := by
  suffices h : ∀ before, d ∈ lowerFrom before s ↔ d ∈ s from h []
  induction s with
  | nil => exact fun _ => Iff.rfl
  | cons c rest ih =>
    intro before
    rw [lowerFrom, List.mem_append, List.mem_cons, ih]
    refine or_congr_left ?_
    split
    · next hc =>
      -- a sigma has one of two forms, neither of them `d`
      have hne (e : Char) (he : 0x60 < e.toNat) : d ≠ e := by
        rintro rfl
        omega
      have hsigma : d ≠ c := hc ▸ hne 'Σ' (by decide)
      split <;> simp [hsigma, hne 'ς' (by decide), hne 'σ' (by decide)]
    · refine ⟨fun h => (eq_of_mem_lowerChar h hd).symm, ?_⟩
      rintro rfl
      simp [hself]

theorem lowercase_ne_nil {s : List Char} (h : s ≠ []) : lowercase s ≠ [] := by
  obtain ⟨c, rest, rfl⟩ := List.exists_cons_of_ne_nil h
  rw [lowercase, lowerFrom]
  refine List.append_ne_nil_of_left_ne_nil ?_ _
  split
  · split <;> simp
  · exact lowerChar_ne_nil c

end ApiSurface.Text

namespace ApiSurface.Identifier

theorem lowerChar_of_mem_luaCase {s : List Char} {c : Char} (h : c ∈ luaCase s) :
    Text.lowerChar c = [c] := by
  obtain ⟨d, -, hc⟩ := List.mem_flatMap.mp h
  exact Text.lowerChar_of_mem hc

theorem ne_underscore_of_mem_luaCase {s : List Char} {c : Char} (h : c ∈ luaCase s) : c ≠ '_' := by
  rintro rfl
  obtain ⟨d, hd, hc⟩ := List.mem_flatMap.mp h
  obtain rfl := Text.eq_of_mem_lowerChar hc (by decide)
  simp at hd

/-- The Lua form of a name is its own Lua form. -/
theorem luaCase_luaCase (s : List Char) : luaCase (luaCase s) = luaCase s := by
  have hfilter : (luaCase s).filter (· != '_') = luaCase s := by
    simpa [List.filter_eq_self] using fun c hc => ne_underscore_of_mem_luaCase hc
  calc luaCase (luaCase s)
      = (luaCase s).flatMap Text.lowerChar := by rw [luaCase, hfilter]
    _ = (luaCase s).flatMap fun c => [c] :=
        List.flatMap_congr fun c hc => lowerChar_of_mem_luaCase hc
    _ = luaCase s := List.flatMap_singleton' _

end ApiSurface.Identifier
