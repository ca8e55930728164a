import ApiSurface.Proofs.BracketNesting

/-!
# Where a text is split

The pieces of a text, before they are trimmed, are what the text is joined of: with separators
between them they give the text back, each of them is balanced in each kind of bracket, and in none
of them does a separator stand at the top (`IsSplit`). There is no other way to write a text like
that, so the cuts are determined by it (`cuts_eq_some_iff`), and there is one exactly when the text
is balanced in each kind (`exists_cuts_iff`).
-/

namespace ApiSurface.Nesting

/-- Wherever the separator stands in a text, something is open. -/
def Unseparated (separator : Char) (text : List Char) : Prop :=
  ∀ before after, text = before ++ separator :: after → ¬ BalancedByKind before

/-- A text is joined of pieces in which the separator stands inside brackets only. -/
structure IsSplit (separator : Char) (text : List Char) (pieces : List (List Char)) : Prop where
  ne_nil : pieces ≠ []
  joined : text = [separator].intercalate pieces
  balanced : ∀ piece ∈ pieces, BalancedByKind piece
  unseparated : ∀ piece ∈ pieces, Unseparated separator piece

variable {separator : Char} {text : List Char}

/-! ## What can be split -/

theorem exists_cuts_iff (hseparator : isBracket separator = false) {d : Depth} :
    (∃ pieces, cuts separator d text = some pieces) ↔ d.after? text = some {} := by
  rw [← Option.isSome_iff_exists]
  induction text generalizing d with
  | nil =>
    rw [cuts_nil, Depth.after?, List.foldlM_nil, Option.pure_def, Option.some_inj,
      ← Depth.isTop_iff]
    split <;> simp_all
  | cons c rest ih =>
    rw [cuts_cons, Depth.after?_cons]
    split
    · next hc =>
      -- the separator is passed over, and so it is by the counters
      rw [hc.1, step?_of_not_isBracket hseparator, Option.isSome_map, Option.bind_some, ih]
    · cases d.step? c with
      | none => simp
      | some d' => rw [Option.bind_some, Option.bind_some, Option.isSome_map, ih]

/-! ## The pieces -/

/-- No piece has a separator at its top. -/
theorem unseparated_of_cuts {d : Depth} {first : List Char} {more : List (List Char)}
    (h : cuts separator d text = some (first :: more)) :
    (∀ before after, first = before ++ separator :: after → d.after? before ≠ some {}) ∧
      ∀ piece ∈ more, Unseparated separator piece := by
  induction text generalizing d first more with
  | nil =>
    rw [cuts_nil] at h
    split at h
    · cases h
      simp
    · cases h
  | cons c rest ih =>
    rw [cuts_cons] at h
    split at h
    · next hc =>
      obtain ⟨pieces, hpieces, heq⟩ := Option.map_eq_some_iff.mp h
      cases heq
      obtain ⟨first', more', rfl⟩ := List.exists_cons_of_ne_nil (ne_nil_of_cuts hpieces)
      obtain ⟨hfirst, hmore⟩ := ih hpieces
      rw [Depth.isTop_iff.mp hc.2] at hfirst
      refine ⟨by simp, List.forall_mem_cons.mpr ⟨fun before after hbefore => ?_, hmore⟩⟩
      rw [balancedByKind_iff]
      exact hfirst before after hbefore
    · next hc =>
      obtain ⟨d', hstep, h⟩ := Option.bind_eq_some_iff.mp h
      obtain ⟨pieces, hpieces, heq⟩ := Option.map_eq_some_iff.mp h
      obtain ⟨first', more', rfl⟩ := List.exists_cons_of_ne_nil (ne_nil_of_cuts hpieces)
      cases heq
      obtain ⟨hfirst, hmore⟩ := ih hpieces
      refine ⟨fun before after hbefore => ?_, hmore⟩
      obtain ⟨rfl, heq⟩ | ⟨before, rfl, heq⟩ := List.cons_eq_append_iff.mp hbefore
      · -- a separator in front of the piece would have ended it, had nothing been open
        obtain ⟨rfl, -⟩ := List.cons.inj heq
        exact fun htop => hc ⟨rfl, Depth.isTop_iff.mpr (Option.some.inj htop)⟩
      · rw [Depth.after?_cons, hstep, Option.bind_some]
        exact hfirst before after heq

/-- A piece is not cut, up to where all is closed that is open in front of it. -/
theorem cuts_append_piece {piece : List Char} {d : Depth} (hafter : d.after? piece = some {})
    (h : ∀ before after, piece = before ++ separator :: after → d.after? before ≠ some {})
    (rest : List Char) :
    cuts separator d (piece ++ rest) = (cuts separator {} rest).map (extendFirst piece) := by
  induction piece generalizing d with
  | nil =>
    cases hafter
    exact (map_extendFirst_nil _ rest).symm
  | cons c piece ih =>
    have hc : ¬ (c = separator ∧ d.isTop = true) := by
      rintro ⟨rfl, htop⟩
      exact h [] piece rfl (congrArg some (Depth.isTop_iff.mp htop))
    rw [Depth.after?_cons] at hafter
    obtain ⟨d', hstep, hrest⟩ := Option.bind_eq_some_iff.mp hafter
    have hpiece : ∀ before after, piece = before ++ separator :: after →
        d'.after? before ≠ some {} := by
      rintro before after rfl
      have := h (c :: before) after rfl
      rwa [Depth.after?_cons, hstep, Option.bind_some] at this
    rw [List.cons_append, cuts_cons, if_neg hc, hstep, Option.bind_some, ih hrest hpiece,
      Option.map_map]
    refine congrArg (Option.map · _) (funext fun pieces => ?_)
    exact extendFirst_extendFirst [c] piece pieces

/-- A text is cut into pieces exactly if it is joined of them. -/
theorem cuts_eq_some_iff {pieces : List (List Char)} :
    cuts separator {} text = some pieces ↔ IsSplit separator text pieces := by
  constructor
  · intro h
    obtain ⟨hjoined, first, more, rfl, hfirst, hmore⟩ := cuts_eq_some h
    obtain ⟨hunseparated, hrest⟩ := unseparated_of_cuts h
    refine ⟨List.cons_ne_nil _ _, hjoined,
      List.forall_mem_cons.mpr ⟨balancedByKind_iff.mpr hfirst, hmore⟩,
      List.forall_mem_cons.mpr ⟨fun before after hbefore => ?_, hrest⟩⟩
    rw [balancedByKind_iff]
    exact hunseparated before after hbefore
  · rintro ⟨hne, rfl, hbalanced, hunseparated⟩
    have hempty : Depth.isTop {} = true := rfl
    induction pieces with
    | nil => exact absurd rfl hne
    | cons piece more ih =>
      obtain ⟨hpiece, hmore⟩ := List.forall_mem_cons.mp hbalanced
      obtain ⟨htop, hrest⟩ := List.forall_mem_cons.mp hunseparated
      have hcut := cuts_append_piece (hpiece.after? {}) fun before after hbefore =>
        mt balancedByKind_iff.mpr (htop before after hbefore)
      cases more with
      | nil =>
        have hend := hcut []
        rw [List.append_nil, cuts_nil, if_pos hempty] at hend
        rw [List.intercalate_singleton, hend]
        simp [extendFirst]
      | cons piece' more =>
        rw [List.intercalate_cons_cons, List.append_assoc, hcut, List.singleton_append, cuts_cons,
          if_pos ⟨rfl, hempty⟩, ih (List.cons_ne_nil _ _) hmore hrest]
        simp [extendFirst]

/-- **Splitting is exact.** At a separator that is no bracket, a text can be split exactly when it
is balanced in each kind of bracket. What is returned are the trimmed pieces that the text is joined
of, where each piece is balanced in each kind and has separators inside brackets only. -/
theorem splitText_eq_ok_iff (hseparator : isBracket separator = false) (text : String) :
    ((∃ items, splitText text separator = .ok items) ↔ BalancedByKind text.toList) ∧
      ∀ items, splitText text separator = .ok items ↔
        ∃ pieces, IsSplit separator text.toList pieces ∧
          items = pieces.map fun piece => String.ofList (Text.trim piece) := by
  have hitems : ∀ items, splitText text separator = .ok items ↔
      ∃ pieces, cuts separator {} text.toList = some pieces ∧
        items = pieces.map fun piece => String.ofList (Text.trim piece) := by
    intro items
    rw [splitText, map_eq_ok]
    simp only [split_eq_ok_iff, trimmedCuts, Option.map_eq_some_iff]
    constructor
    · rintro ⟨_, ⟨pieces, hpieces, rfl⟩, rfl⟩
      exact ⟨pieces, hpieces, by simp⟩
    · rintro ⟨pieces, hpieces, rfl⟩
      exact ⟨_, ⟨pieces, hpieces, rfl⟩, by simp⟩
  refine ⟨?_, fun items => ?_⟩
  · rw [balancedByKind_iff, ← exists_cuts_iff hseparator]
    simp only [hitems]
    constructor
    · rintro ⟨_, pieces, hpieces, -⟩
      exact ⟨pieces, hpieces⟩
    · rintro ⟨pieces, hpieces⟩
      exact ⟨_, pieces, hpieces, rfl⟩
  · rw [hitems]
    exact exists_congr fun pieces => and_congr_left' cuts_eq_some_iff

/-- The commas between parameters, with others in a type and around a default. -/
theorem splitText_eq_ok_iff_parameters :
    isBracket ',' = false ∧
      ∃ pieces, IsSplit ',' "std::map<int, int> é, f(x, y) c".toList pieces ∧
        ["std::map<int, int> é", "f(x, y) c"]
          = pieces.map fun piece => String.ofList (Text.trim piece) :=
  ⟨rfl, ((splitText_eq_ok_iff rfl _).2 _).mp (by decide +kernel)⟩

end ApiSurface.Nesting
