import ApiSurface.Proofs.CodeBlocks

/-!
# Front matter

A guide whose first line is a fence has front matter up to the next fence, and what follows that is
its body. Any other guide is all body (`Divided`). There is one way to divide a guide, unless its
front matter does not end, and then there is none (`divided_or_unterminated`, `Divided.unique`).

Front matter sets the priority and does nothing else. Whether a guide can be read depends on how it
is divided and on its front matter; its name and its content depend on the body alone
(`parse_of_divided`).
-/

namespace ApiSurface.Guide

/-! ## Dividing a guide -/

/-- The lines of a guide, its front matter between two fences, if it begins with a fence, and its
body. -/
inductive Divided : List (List Char) → Option (List (List Char)) → List (List Char) → Prop
  | bare {body : List (List Char)} (h : ∀ first ∈ body.head?, isFrontFence first = false) :
    Divided body none body
  | fenced {opening closing : List Char} {front body : List (List Char)}
    (hopening : isFrontFence opening = true) (hfront : ∀ line ∈ front, isFrontFence line = false)
    (hclosing : isFrontFence closing = true) :
    Divided (opening :: (front ++ closing :: body)) (some front) body

/-- The first line is a fence and no later line is one. -/
def Unterminated (lines : List (List Char)) : Prop :=
  ∃ opening rest, lines = opening :: rest ∧ isFrontFence opening = true ∧
    ∀ line ∈ rest, isFrontFence line = false

variable {lines front body : List (List Char)} {front? : Option (List (List Char))}

theorem divided_or_unterminated (lines : List (List Char)) :
    (∃ front? body, Divided lines front? body) ∨ Unterminated lines := by
  cases lines with
  | nil => exact .inl ⟨none, [], .bare (by simp)⟩
  | cons opening rest =>
    by_cases hopening : isFrontFence opening = true
    · cases hfind : rest.find? isFrontFence with
      | none =>
        right
        exact ⟨opening, rest, rfl, hopening, by simpa using List.find?_eq_none.mp hfind⟩
      | some closing =>
        obtain ⟨hclosing, front, body, rfl, hfront⟩ := List.find?_eq_some_iff_append.mp hfind
        left
        exact ⟨some front, body, .fenced hopening (by simpa using hfront) hclosing⟩
    · exact .inl ⟨none, opening :: rest, .bare (by simpa using hopening)⟩

/-! ## Reading what was divided -/

/-- Up to the first fence lines are front matter. -/
theorem cutFront?_fenced {closing : List Char} (hfront : ∀ line ∈ front, isFrontFence line = false)
    (hclosing : isFrontFence closing = true) (body : List (List Char)) :
    cutFront? (front ++ closing :: body) = some (front, body) := by
  obtain ⟨htake, hdrop⟩ := divide_at_first hfront hclosing body
  rw [cutFront?, hdrop, htake]

theorem cutFront?_eq_none (h : ∀ line ∈ lines, isFrontFence line = false) :
    cutFront? lines = none := by
  have hdrop : lines.dropWhile (!isFrontFence ·) = [] :=
    List.dropWhile_eq_nil_iff.mpr (by simpa using h)
  rw [cutFront?, hdrop]

/-- The priority of a guide with this front matter, or with none. -/
def priorityOf? (front? : Option (List (List Char))) : Option Int :=
  front?.elim (some 0) priority?

/-- A guide that is divided is read for its priority and its body. -/
theorem readFront_of_divided (path : String) (h : Divided lines front? body) :
    readFront path lines = (priorityOf? front?).elim (.error (.frontMatter path))
      fun priority => .ok (priority, body) := by
  cases h with
  | bare hbody =>
    cases lines with
    | nil => rfl
    | cons first rest =>
      have hfirst : isFrontFence first = false := hbody first rfl
      simp [readFront, hfirst, priorityOf?]
  | fenced hopening hfront hclosing =>
    rw [readFront, if_pos hopening, cutFront?_fenced hfront hclosing]
    simp only [priorityOf?, Option.elim_some]
    cases priority? _ <;> rfl

theorem readFront_of_unterminated (path : String) (h : Unterminated lines) :
    readFront path lines = .error (.unterminated path) := by
  obtain ⟨opening, rest, rfl, hopening, hrest⟩ := h
  rw [readFront, if_pos hopening, cutFront?_eq_none hrest]

/-- There is only one way to divide a guide. -/
theorem Divided.unique {front?' : Option (List (List Char))} {body' : List (List Char)}
    (h : Divided lines front? body) (h' : Divided lines front?' body') :
    front? = front?' ∧ body = body' := by
  cases h with
  | bare hbody =>
    cases h' with
    | bare _ => exact ⟨rfl, rfl⟩
    | fenced hopening _ _ => exact absurd (hbody _ rfl) (by simp [hopening])
  | @fenced opening closing front body hopening hfront hclosing =>
    generalize hlines : opening :: (front ++ closing :: body) = lines at h'
    cases h' with
    | bare hbody' =>
      rw [← hlines] at hbody'
      exact absurd (hbody' _ rfl) (by simp [hopening])
    | fenced _ hfront' hclosing' =>
      have hcut := cutFront?_fenced hfront hclosing body
      rw [(List.cons.inj hlines).2, cutFront?_fenced hfront' hclosing'] at hcut
      obtain ⟨hfronts, hbodies⟩ := Prod.mk.inj (Option.some.inj hcut)
      exact ⟨congrArg some hfronts.symm, hbodies.symm⟩

/-- The lines of a body are lines of the guide. -/
theorem Divided.subset (h : Divided lines front? body) : body ⊆ lines := by
  cases h with
  | bare _ => exact List.Subset.refl _
  | fenced _ _ _ =>
    intro line hline
    simp [hline]

/-! ## What front matter is for -/

/-- The title that a language finds in a body, or the id where it finds none. -/
def nameIn (id : String) (l : Language) (body : List (List Char)) : String :=
  ((Text.lines (joinLines (keptLines l body))).findSome? title?).elim id String.ofList

/-- The guide that a language reads in a body. -/
def ofBody (id : String) (l : Language) (priority : Int) (body : List (List Char)) : Guide where
  id := id
  name := nameIn id l body
  priority := priority
  content := filterBlocks l (body.map String.ofList)

/-- Of front matter only the priority is seen in the guide. -/
theorem parse_of_divided {text : String} (path id : String) (l : Language)
    (h : Divided (Text.lines text.toList) front? body) :
    parse path id text l = (priorityOf? front?).elim (.error (.frontMatter path)) fun priority =>
      .ok (ofBody id l priority body) := by
  rw [parse, readFront_of_divided path h]
  cases priorityOf? front? with
  | none => rfl
  | some priority =>
    have hbody : (body.map String.ofList).map String.toList = body := by
      simp [Function.comp_def]
    simp only [Option.elim_some, Except.map, ofBody, filterBlocks, hbody, nameIn]
    cases (Text.lines (joinLines (keptLines l body))).findSome? title? <;> rfl

/-- A guide that is read is divided, and is what its body makes of it. -/
theorem exists_divided_of_parse {path id text : String} {l : Language} {g : Guide}
    (h : parse path id text l = .ok g) :
    ∃ front? body, Divided (Text.lines text.toList) front? body ∧
      priorityOf? front? = some g.priority ∧ g = ofBody id l g.priority body := by
  obtain ⟨front?, body, hdivided⟩ | hunterminated :=
    divided_or_unterminated (Text.lines text.toList)
  · refine ⟨front?, body, hdivided, ?_⟩
    rw [parse_of_divided path id l hdivided] at h
    cases hpriority : priorityOf? front? with
    | none => simp [hpriority] at h
    | some priority =>
      rw [hpriority, Option.elim_some] at h
      obtain rfl := Except.ok.inj h
      exact ⟨rfl, rfl⟩
  · rw [parse, readFront_of_unterminated path hunterminated] at h
    cases h

/-- **What front matter does.** A guide is refused as unterminated exactly when its first line is a
fence and no later line is one. Of a guide that is read, the content is what the language sees of
the lines behind the front matter, or of all lines where there is none; then the priority is zero.
Two guides with the same lines behind their front matter have one name and one content. -/
theorem parse_frontMatter (path id text : String) (l : Language) :
    (parse path id text l = .error (.unterminated path) ↔
      Unterminated (Text.lines text.toList)) ∧
    (∀ front? body, Divided (Text.lines text.toList) front? body →
      ((∃ g, parse path id text l = .ok g) ↔ (priorityOf? front?).isSome)) ∧
    (∀ g, parse path id text l = .ok g →
      ∃ front? body, Divided (Text.lines text.toList) front? body ∧
        g.content = filterBlocks l (body.map String.ofList) ∧ (front? = none → g.priority = 0)) ∧
    ∀ (path' text' : String) (front front' body : List (List Char)) (g g' : Guide),
      Divided (Text.lines text.toList) (some front) body →
      Divided (Text.lines text'.toList) (some front') body →
      parse path id text l = .ok g → parse path' id text' l = .ok g' →
      g.name = g'.name ∧ g.content = g'.content := by
  refine ⟨⟨fun h => ?_, fun h => ?_⟩, fun front? body h => ?_, fun g h => ?_, ?_⟩
  · obtain ⟨front?, body, hdivided⟩ | hunterminated :=
      divided_or_unterminated (Text.lines text.toList)
    · -- what is divided can only be refused for its front matter
      rw [parse_of_divided path id l hdivided] at h
      cases hpriority : priorityOf? front? <;> simp [hpriority] at h
    · exact hunterminated
  · rw [parse, readFront_of_unterminated path h]
    rfl
  · rw [parse_of_divided path id l h]
    cases priorityOf? front? <;> simp
  · obtain ⟨front?, body, hdivided, hpriority, hg⟩ := exists_divided_of_parse h
    refine ⟨front?, body, hdivided, congrArg Guide.content hg, ?_⟩
    rintro rfl
    exact (Option.some.inj hpriority).symm
  · intro path' text' front front' body g g' hbody hbody' hg hg'
    obtain ⟨_, _, hdivided, -, hname⟩ := exists_divided_of_parse hg
    obtain ⟨_, _, hdivided', -, hname'⟩ := exists_divided_of_parse hg'
    obtain ⟨-, rfl⟩ := hdivided.unique hbody
    obtain ⟨-, rfl⟩ := hdivided'.unique hbody'
    rw [hname, hname']
    exact ⟨rfl, rfl⟩

/-- Two guides that differ in their front matter; a line of their body looks like a fence. -/
theorem parse_frontMatter_priority :
    let text := "---\npriority: 10\n---\n# Title\n---\n"
    let text' := "---\n---\n# Title\n---\n"
    let body := ["# Title".toList, "---".toList]
    Divided (Text.lines text.toList) (some ["priority: 10".toList]) body ∧
      Divided (Text.lines text'.toList) (some []) body ∧
      ∃ g g', parse "a.md" "a" text .js = .ok g ∧ parse "b.md" "a" text' .js = .ok g' ∧
        g.priority = 10 ∧ g'.priority = 0 ∧ g.name = g'.name ∧ g.content = g'.content := by
  intro text text' body
  have hfence : isFrontFence "---".toList = true := by decide
  have hlines : Text.lines text.toList
      = "---".toList :: (["priority: 10".toList] ++ "---".toList :: body) := by decide
  have hlines' : Text.lines text'.toList = "---".toList :: ([] ++ "---".toList :: body) := by decide
  have hdivided : Divided (Text.lines text.toList) (some ["priority: 10".toList]) body :=
    hlines ▸ .fenced hfence (by decide) hfence
  have hdivided' : Divided (Text.lines text'.toList) (some []) body :=
    hlines' ▸ .fenced hfence (by decide) hfence
  have hpriority : priorityOf? (some ["priority: 10".toList]) = some 10 := by decide +kernel
  have hpriority' : priorityOf? (some []) = some 0 := by decide
  have hparse := parse_of_divided "a.md" "a" .js hdivided
  have hparse' := parse_of_divided "b.md" "a" .js hdivided'
  rw [hpriority, Option.elim_some] at hparse
  rw [hpriority', Option.elim_some] at hparse'
  refine ⟨hdivided, hdivided', _, _, hparse, hparse', rfl, rfl, ?_⟩
  exact (parse_frontMatter "a.md" "a" text .js).2.2.2 "b.md" text' _ _ body _ _ hdivided hdivided'
    hparse hparse'

end ApiSurface.Guide
