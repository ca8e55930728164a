import Mathlib.Data.List.DropRight
import ApiSurface.Text.Blank
import ApiSurface.Text.Letter

/-!
# What trimming leaves

Trimming does not see blanks at the ends of a text (`trim_append_blanks`, `trim_blanks_append`), and
a text without blanks at its ends is left alone (`Tight`). In front of such a text it takes blanks on
the left only (`trim_append_tight`). Letters and numbers are never blank. What trimming leaves stands
in the text (`trim_within`), as each of several texts does in what they are joined to.
-/

namespace ApiSurface.Text

/-- A code point in ranges lies in one of them. -/
theorem exists_range {n : Nat} {ranges : List (Nat × Nat)} (h : inRanges n ranges = true) :
    ∃ range ∈ ranges, range.1 ≤ n ∧ n ≤ range.2 := by
  induction ranges with
  | nil => cases h
  | cons range ranges ih =>
    obtain ⟨first, last⟩ := range
    rw [inRanges] at h
    split at h
    · cases h
    · next hfirst =>
      split at h
      · next hlast => exact ⟨(first, last), List.mem_cons_self, Nat.not_lt.mp hfirst, hlast⟩
      · obtain ⟨range, hmem, hrange⟩ := ih h
        exact ⟨range, List.mem_cons_of_mem _ hmem, hrange⟩

/-- No letter or number is blank. -/
theorem isBlank_of_isAlphanumeric {c : Char} (h : isAlphanumeric c = true) : isBlank c = false := by
  have hapart : ∀ blank ∈ blankRanges, ∀ range ∈ alphanumericRanges,
      blank.2 < range.1 ∨ range.2 < blank.1 := by
    decide +kernel
  by_contra hblank
  obtain ⟨blank, hmem, hfirst, hlast⟩ := exists_range (Bool.not_eq_false _ ▸ hblank)
  obtain ⟨range, hmem', hfirst', hlast'⟩ := exists_range h
  have := hapart blank hmem range hmem'
  omega

/-! ## The ends of a text -/

/-- The last characters that satisfy `p` go with the tail that follows them. -/
theorem dropEndWhile_append_of_all {p : Char → Bool} {tail : List Char} (s : List Char)
    (h : ∀ c ∈ tail, p c = true) : dropEndWhile p (s ++ tail) = dropEndWhile p s := by
  unfold dropEndWhile
  rw [List.reverse_append, List.dropWhile_append_of_pos (by simpa using h)]

/-- What ends with a character that does not satisfy `p` stays, whatever follows. -/
theorem dropEndWhile_append {p : Char → Bool} {c : Char} (hc : p c = false)
    (front tail : List Char) :
    dropEndWhile p (front ++ [c] ++ tail) = front ++ [c] ++ dropEndWhile p tail := by
  unfold dropEndWhile
  rw [List.reverse_append, List.dropWhile_append]
  by_cases htail : tail.reverse.dropWhile p = []
  · simp [htail, hc]
  · simp [htail]

/-- Blanks in front of a text are not seen. -/
theorem trim_blanks_append {blanks : List Char} (h : ∀ c ∈ blanks, isBlank c = true)
    (s : List Char) : trim (blanks ++ s) = trim s := by
  rw [trim, trimStart, List.dropWhile_append_of_pos h]
  rfl

/-- Blanks behind a text are not seen. -/
theorem trim_append_blanks {blanks : List Char} (h : ∀ c ∈ blanks, isBlank c = true)
    (s : List Char) : trim (s ++ blanks) = trim s := by
  have hblanks : blanks.dropWhile isBlank = [] := List.dropWhile_eq_nil_iff.mpr h
  rw [trim, trim, trimStart, trimStart, List.dropWhile_append, hblanks]
  by_cases hs : s.dropWhile isBlank = []
  · simp [hs]
  · rw [if_neg (by simpa using hs)]
    exact dropEndWhile_append_of_all _ h

/-- A text is what trimming leaves with blanks around it. -/
theorem exists_blanks (s : List Char) :
    ∃ front back, (∀ c ∈ front, isBlank c = true) ∧ (∀ c ∈ back, isBlank c = true) ∧
      s = front ++ trim s ++ back := by
  refine ⟨s.takeWhile isBlank, (trimStart s).rtakeWhile isBlank, ?_, ?_, ?_⟩
  · exact fun c hc => List.mem_takeWhile_imp hc
  · exact fun c hc => List.mem_rtakeWhile_imp hc
  · have hback : trim s ++ (trimStart s).rtakeWhile isBlank = trimStart s :=
      List.rdropWhile_append_rtakeWhile
    rw [List.append_assoc, hback, trimStart, List.takeWhile_append_dropWhile]

theorem trim_within (s : List Char) : trim s <:+: s := by
  obtain ⟨front, back, -, -, hs⟩ := exists_blanks s
  exact ⟨front, back, hs.symm⟩

/-- Trimming adds nothing. -/
theorem trim_subset (s : List Char) : trim s ⊆ s :=
  (trim_within s).subset

theorem infix_intercalate {separator text : List Char} {texts : List (List Char)}
    (h : text ∈ texts) : text <:+: separator.intercalate texts := by
  induction texts with
  | nil => cases h
  | cons first texts ih =>
    cases texts with
    | nil =>
      obtain rfl := List.mem_singleton.mp h
      simp
    | cons second texts =>
      rw [List.intercalate_cons_cons]
      obtain rfl | h := List.mem_cons.mp h
      · rw [List.append_assoc]
        exact (List.prefix_append _ _).isInfix
      · exact (ih h).trans (List.suffix_append _ _).isInfix

/-- What is not blank stays. -/
theorem trim_ne_nil {s : List Char} {c : Char} (hc : c ∈ s) (hblank : isBlank c = false) :
    trim s ≠ [] := by
  intro htrim
  obtain ⟨front, back, hfront, hback, hs⟩ := exists_blanks s
  rw [htrim, List.append_nil] at hs
  rw [hs, List.mem_append] at hc
  obtain hc | hc := hc
  · exact absurd (hfront c hc) (by simp [hblank])
  · exact absurd (hback c hc) (by simp [hblank])

/-- Trimming a text twice is trimming it once. -/
theorem trim_trim (s : List Char) : trim (trim s) = trim s := by
  obtain ⟨front, back, hfront, hback, hs⟩ := exists_blanks s
  calc trim (trim s) = trim (front ++ trim s ++ back) := by
        rw [trim_append_blanks hback, trim_blanks_append hfront]
    _ = trim s := by rw [← hs]

/-- Blanks trimmed from the start are not seen by trimming. -/
theorem trim_trimStart (s : List Char) : trim (trimStart s) = trim s :=
  congrArg trimEnd (List.dropWhile_idempotent isBlank s)

/-- Blanks trimmed from the end are not seen by trimming. -/
theorem trim_trimEnd (s : List Char) : trim (trimEnd s) = trim s := by
  have hback : trimEnd s ++ s.rtakeWhile isBlank = s := List.rdropWhile_append_rtakeWhile
  rw [← trim_append_blanks (fun c hc => List.mem_rtakeWhile_imp hc) (trimEnd s), hback]

/-- Trimming the start of a text stops at a character that is not blank. -/
theorem trimStart_append_cons {c : Char} (hc : isBlank c = false) (front back : List Char) :
    trimStart (front ++ c :: back) = trimStart front ++ c :: back := by
  have hback : (c :: back).dropWhile isBlank = c :: back :=
    List.dropWhile_cons_of_neg (by simp [hc])
  unfold trimStart
  rw [List.dropWhile_append, hback]
  split
  · next h => rw [List.isEmpty_iff.mp h, List.nil_append]
  · rfl

/-- The two parts of a text around a character that is not blank are trimmed apart. -/
theorem trim_append_cons {c : Char} (hc : isBlank c = false) (front back : List Char) :
    trim (front ++ c :: back) = trimStart front ++ c :: trimEnd back := by
  have hend := dropEndWhile_append hc (trimStart front) back
  rw [List.append_assoc, List.singleton_append, List.append_assoc, List.singleton_append] at hend
  rw [trim, trimStart_append_cons hc, trimEnd, hend]
  rfl

/-- A text that neither begins nor ends with a blank. -/
structure Tight (s : List Char) : Prop where
  head : ∀ c ∈ s.head?, isBlank c = false
  last : ∀ c ∈ s.getLast?, isBlank c = false

theorem trimStart_eq_self {s : List Char} (h : ∀ c ∈ s.head?, isBlank c = false) :
    trimStart s = s := by
  cases s with
  | nil => rfl
  | cons c rest =>
    have hc : isBlank c = false := h c rfl
    simp [trimStart, hc]

/-- Trimming leaves a text alone that has no blanks at its ends. -/
theorem Tight.trim {s : List Char} (h : Tight s) : trim s = s := by
  have hlast : trimStart s.reverse = s.reverse :=
    trimStart_eq_self fun c hc => h.last c (by simpa using hc)
  rw [Text.trim, trimStart_eq_self h.head]
  exact (congrArg List.reverse hlast).trans s.reverse_reverse

/-- A text without blanks at its ends stays whole behind any other. -/
theorem trim_append_tight {word : List Char} (h : Tight word) (hne : word ≠ [])
    (front : List Char) : trim (front ++ word) = trimStart front ++ word := by
  obtain ⟨c, back, rfl⟩ := List.exists_cons_of_ne_nil hne
  have hc : isBlank c = false := h.head c rfl
  have hback := trim_append_cons hc [] back
  rw [List.nil_append, h.trim] at hback
  rw [trim_append_cons hc, hback]
  rfl

/-- A text without any blank. -/
theorem tight_of_forall {s : List Char} (h : ∀ c ∈ s, isBlank c = false) : Tight s :=
  ⟨fun c hc => h c (List.mem_of_head? hc), fun c hc => h c (List.mem_of_getLast? hc)⟩

end ApiSurface.Text
