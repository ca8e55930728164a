import ApiSurface.Proofs.TypeForms

/-!
# Angle brackets of accepted types

Mapping a type token looks at one group of brackets: the one that begins at its first angle bracket.
That group is balanced in each kind of bracket in every token that can be mapped. What stands in
front of it and behind it belongs to a name and is not looked at, so a token is balanced in its
angle brackets exactly when these are (`ofToken_angles_iff`), and not always
(`ofToken_stray_closing`).
-/

namespace ApiSurface

namespace Nesting

/-! ## One kind of bracket -/

/-- A kind of bracket is balanced: no front of the text closes more than it opens, and the whole
closes all. -/
structure BalancedIn (k : BracketKind) (text : List Char) : Prop where
  fronts : ∀ front : List Char, front <+: text → front.count k.closing ≤ front.count k.opening
  total : text.count k.closing = text.count k.opening

variable {k : BracketKind} {text front back : List Char}

theorem BalancedByKind.balancedIn (h : BalancedByKind text) (k : BracketKind) :
    BalancedIn k text :=
  ⟨h.fronts k, h.total k⟩

/-- What is balanced in front of a text does not count. -/
theorem balancedIn_append_iff (h : BalancedIn k front) :
    BalancedIn k (front ++ back) ↔ BalancedIn k back := by
  have htotal := h.total
  constructor
  · intro hjoined
    refine ⟨fun part hpart => ?_, ?_⟩
    · have hfront := hjoined.fronts (front ++ part) ((List.prefix_append_right_inj front).mpr hpart)
      rw [List.count_append, List.count_append] at hfront
      omega
    · have hwhole := hjoined.total
      rw [List.count_append, List.count_append] at hwhole
      omega
  · intro hback
    refine ⟨?_, by rw [List.count_append, List.count_append, htotal, hback.total]⟩
    rintro part ⟨rest, hjoined⟩
    -- a front of the whole ends in the first text or in the second
    obtain ⟨more, hfront, -⟩ | ⟨more, rfl, hmore⟩ := List.append_eq_append_iff.mp hjoined
    · exact h.fronts part ⟨more, hfront.symm⟩
    · have hpart := hback.fronts more ⟨rest, hmore.symm⟩
      rw [List.count_append, List.count_append]
      omega

/-- A text whose brackets are all of other kinds, or that has none. -/
theorem BalancedIn.of_not_mem (hopening : k.opening ∉ text) (hclosing : k.closing ∉ text) :
    BalancedIn k text := by
  refine ⟨fun part hpart => ?_, ?_⟩
  · rw [List.count_eq_zero_of_not_mem fun hmem => hclosing (hpart.subset hmem)]
    exact Nat.zero_le _
  · rw [List.count_eq_zero_of_not_mem hclosing, List.count_eq_zero_of_not_mem hopening]

/-- Nothing is closed in front of the first bracket of a balanced text. -/
theorem BalancedIn.closing_not_mem (h : BalancedIn k (front ++ back))
    (hopening : k.opening ∉ front) : k.closing ∉ front := by
  have hfront := h.fronts front (List.prefix_append front back)
  rw [List.count_eq_zero_of_not_mem hopening] at hfront
  exact List.count_eq_zero.mp (Nat.le_zero.mp hfront)

end Nesting

open Nesting (BalancedIn IsGroup)

/-! ## Tokens that can be mapped -/

variable {l : Language} {t : MappedType}

/-- The core of a token that can be mapped is cut at its first angle bracket. -/
theorem exists_outermost_of_mapToken {token : List Char} (h : mapToken l token = .ok t) :
    ∃ parts, Nesting.outermost? (dropQualifiers (Text.trim token)) = .ok parts := by
  rw [mapToken_eq_form] at h
  obtain ⟨form, hform, -⟩ := bind_eq_ok.mp h
  exact (hasForm_of_tokenForm hform).exists_cut

/-- **Which angle brackets are looked at.** A token that can be mapped has no angle brackets, or a
group of brackets begins at its first one. Then it is balanced in its angle brackets exactly when
none is closed in front of the group and what stands behind the group is balanced. -/
theorem ofToken_angles_iff {token : String} (h : MappedType.ofToken l token = .ok t) :
    ('<' ∉ token.toList ∧ BalancedIn .angles token.toList) ∨
      ∃ before inside behind, token.toList = before ++ '<' :: (inside ++ behind) ∧
        '<' ∉ before ∧ IsGroup ('<' :: inside) ∧
        (BalancedIn .angles token.toList ↔ '>' ∉ before ∧ BalancedIn .angles behind) := by
  obtain ⟨parts, hparts⟩ := exists_outermost_of_mapToken h
  obtain ⟨front, back, htoken, hfront, hback⟩ := exists_around_core token.toList
  have hnone {c : Char} (hc : Nesting.isBracket c = true) : c ∉ front ∧ c ∉ back :=
    ⟨fun hmem => by simp [hfront c hmem] at hc, fun hmem => by simp [hback c hmem] at hc⟩
  have hopen : '<' ∉ front ∧ '<' ∉ back := hnone rfl
  have hclose : '>' ∉ front ∧ '>' ∉ back := hnone rfl
  obtain ⟨hopening, hclosing, -⟩ | ⟨before, inside, closing, behind, hcore, hbefore, hgroup, -⟩ :=
    Nesting.outermost?_eq_ok hparts
  · left
    have hopening' : '<' ∉ token.toList := by
      rw [htoken]
      simp [hopen, hopening]
    have hclosing' : '>' ∉ token.toList := by
      rw [htoken]
      simp [hclose, hclosing]
    exact ⟨hopening', .of_not_mem hopening' hclosing'⟩
  · right
    have hsplit : token.toList
        = (front ++ before) ++ ('<' :: (inside ++ [closing]) ++ (behind ++ back)) := by
      rw [htoken, hcore]
      simp
    have hbefore' : '<' ∉ front ++ before := by simp [hopen, hbefore]
    have hgroup' := hgroup.balanced.balancedIn .angles
    refine ⟨front ++ before, inside ++ [closing], behind ++ back, hsplit, hbefore', hgroup, ?_⟩
    rw [hsplit]
    constructor
    · intro hwhole
      have hclosing := hwhole.closing_not_mem hbefore'
      have hrest := (Nesting.balancedIn_append_iff (.of_not_mem hbefore' hclosing)).mp hwhole
      exact ⟨hclosing, (Nesting.balancedIn_append_iff hgroup').mp hrest⟩
    · rintro ⟨hclosing, hbehind⟩
      have hrest := (Nesting.balancedIn_append_iff hgroup').mpr hbehind
      exact (Nesting.balancedIn_append_iff (.of_not_mem hbefore' hclosing)).mpr hrest

/-- A name inside a template. -/
theorem ofToken_angles_iff_member :
    ∃ t, MappedType.ofToken .js "A<B>::C" = .ok t ∧
      ∃ before inside behind, "A<B>::C".toList = before ++ '<' :: (inside ++ behind) ∧
        '<' ∉ before ∧ IsGroup ('<' :: inside) ∧
        (BalancedIn .angles "A<B>::C".toList ↔ '>' ∉ before ∧ BalancedIn .angles behind) := by
  have hname : tokenForm "A<B>::C".toList = .ok (.name "A<B>::C".toList) := rfl
  have hmapped := mapToken_of_name hname .js
  refine ⟨_, hmapped, ?_⟩
  obtain ⟨hnone, -⟩ | hgroup := ofToken_angles_iff hmapped
  · exact absurd hnone (by decide)
  · exact hgroup

/-- A bracket that closes nothing is taken for part of a name when it stands behind a group. -/
theorem ofToken_stray_closing :
    (∀ l, ∃ t, MappedType.ofToken l "A<B>>" = .ok t) ∧ ¬ BalancedIn .angles "A<B>>".toList := by
  have hname : tokenForm "A<B>>".toList = .ok (.name "A<B>>".toList) := rfl
  refine ⟨fun l => ⟨_, mapToken_of_name hname l⟩, fun h => ?_⟩
  exact absurd h.total (by decide)

end ApiSurface
