import ApiSurface.Proofs.PagePlaces

/-!
# Languages apart from each other

Nothing but the pages of a language lies in its directory, and what the directories of other
languages are reached through is reached by every run. So a language looks the same whichever
others are written with it, and in whatever order and number (`renderDocs_separate`); what is
outside the directories of the languages of a run stays as it was, apart from directories that the
output path leads through.
-/

namespace ApiSurface.Generation

variable {s : Settings} {r : Renderer} {files source after a b : FileTree} {es : List Entity}
  {ls : List Language} {l : Language} {input out : String} {q d : Place}
  {outputsA outputsB : List WrittenDocs} {inputs : List PreparedDocs} {own : PreparedDocs}

/-- The directories of two languages have nothing in common. -/
theorem language_eq_of_below {m : Language} {d d' : Place}
    (hd : files.place? (Path.join out l.tag) = some d)
    (hd' : files.place? (Path.join out m.tag) = some d') (hq : d <+: q) (hq' : d' <+: q) :
    l = m := by
  rw [FileTree.place?_join_tag] at hd hd'
  obtain ⟨place, hplace, rfl⟩ := Option.map_eq_some_iff.mp hd
  obtain ⟨place', hplace', rfl⟩ := Option.map_eq_some_iff.mp hd'
  obtain rfl := Option.some.inj (hplace.symm.trans hplace')
  have heq := (List.prefix_of_prefix_length_le hq hq' (by simp)).eq_of_length (by simp)
  exact Language.tag_injective (by simpa using heq)

/-- Pages of other languages put nothing into the directory of a language, but where the output path
itself leads through it. -/
theorem marks_of_ne (hextension : '/' ∉ r.extension.toList) (hids : own.PlainIds)
    (hne : own.language ≠ l) (hd : files.place? (Path.join out l.tag) = some d) (hq : d <+: q)
    (hout : q ∉ files.through out) :
    files.marks (pages r (Path.join out own.language.tag) own) q = none := by
  refine Option.eq_none_iff_forall_ne_some.mpr fun node hmarks => ?_
  obtain ⟨p, hp, hmark⟩ := FileTree.exists_mark_of_marks hmarks
  have hinside := leadsInside_of_mem_pages hextension hids hp
  have hforeign : ¬ ∃ d, files.place? (Path.join out own.language.tag) = some d ∧ d <+: q :=
    fun ⟨d', hd', hq'⟩ => hne (language_eq_of_below hd' hd hq' hq)
  rw [FileTree.mark] at hmark
  split at hmark
  · next hplace => exact hforeign (hinside.inside_of_place? hplace)
  · split at hmark
    · next hthrough => exact (hinside.inside_of_through hthrough).elim hout hforeign
    · cases hmark

/-- Writing a language again, and others before and behind it, puts the same into its directory as
writing it once. -/
theorem marks_allPages
    (hothers : ∀ other ∈ inputs, other ≠ own →
      files.marks (pages r (Path.join out other.language.tag) other) q = none) :
    files.marks (allPages r out inputs) q =
        files.marks (pages r (Path.join out own.language.tag) own) q ∨
      own ∉ inputs ∧ files.marks (allPages r out inputs) q = none := by
  induction inputs with
  | nil => exact .inr ⟨List.not_mem_nil, rfl⟩
  | cons other rest ih =>
    obtain ⟨hother, hrest⟩ := List.forall_mem_cons.mp hothers
    have hcons : files.marks (allPages r out (other :: rest)) q =
        (files.marks (allPages r out rest) q).or
          (files.marks (pages r (Path.join out other.language.tag) other) q) :=
      FileTree.marks_append files _ _ q
    rw [hcons]
    -- What counts is put there last; put there again, it is the same.
    by_cases heq : other = own
    · subst heq
      obtain hsame | ⟨-, hnone⟩ := ih hrest
      · exact .inl (by rw [hsame, Option.or_self])
      · exact .inl (by rw [hnone, Option.none_or])
    · rw [hother heq, Option.or_none]
      obtain hsame | ⟨hmem, hnone⟩ := ih hrest
      · exact .inl hsame
      · exact .inr ⟨by simp [Ne.symm heq, hmem], hnone⟩

/-! ## Directories -/

/-- The index of a language. -/
def indexPage (r : Renderer) (out : String) (own : PreparedDocs) : Page :=
  ⟨Path.join (Path.join out own.language.tag) ("index." ++ r.extension),
    r.index { own with links := Links.ofViews own.views }⟩

theorem indexPage_mem (r : Renderer) (out : String) (hown : own ∈ inputs) :
    indexPage r out own ∈ allPages r out inputs :=
  List.mem_flatMap_of_mem hown (by simp [pages, indexPage])

/-- The directory of a language that is written is there. -/
theorem find_language (hextension : '/' ∉ r.extension.toList)
    (hwritten : Written files (allPages r out inputs) after) (hown : own ∈ inputs) :
    ∃ d, files.place? (Path.join out own.language.tag) = some d ∧
      after.find (Path.join out own.language.tag) = .ok (d, .directory) := by
  obtain ⟨place, text, -, hfind⟩ := hwritten.found _ (indexPage_mem r out hown)
  obtain ⟨hne, hslash⟩ := Language.join_tag out own.language
  obtain ⟨d, hd⟩ := FileTree.find_directory hne hslash (notMem_index hextension) hfind
  obtain ⟨hplace, -, -⟩ := FileTree.place?_of_resolve (FileTree.find_eq_ok.mp hd)
  rw [FileTree.place?_congr hwritten.home] at hplace
  exact ⟨d, hplace, hd⟩

/-- Every run makes the directories that the output path leads through. -/
theorem get?_of_through (hextension : '/' ∉ r.extension.toList)
    (hwritten : Written files (allPages r out inputs) after) (hown : own ∈ inputs)
    (hq : q ∈ files.through out) : after.get? q = some .directory :=
  hwritten.way _ (indexPage_mem r out hown) q ((leadsInside_index hextension).through_subset hq)

/-- What a run leaves at and below the directory of a language does not depend on the others. -/
theorem get?_eq_of_written (hextension : '/' ∉ r.extension.toList)
    (hids : ∀ other ∈ inputs, other.PlainIds)
    (hothers : ∀ other ∈ inputs, other.language = own.language → other = own)
    (hown : own ∈ inputs) (ha : Written files (allPages r out inputs) a)
    (hb : Written files (allPages r out [own]) b)
    (hd : files.place? (Path.join out own.language.tag) = some d) (hq : d <+: q) :
    a.get? q = b.get? q := by
  -- The output path itself may lead through the directory of the language: `docs/js/..` does.
  by_cases hout : q ∈ files.through out
  · rw [get?_of_through hextension ha hown hout,
      get?_of_through hextension hb (List.mem_singleton_self own) hout]
  · have hnone : ∀ other ∈ inputs, other ≠ own →
        files.marks (pages r (Path.join out other.language.tag) other) q = none :=
      fun other hother hne =>
        marks_of_ne hextension (hids other hother) (fun heq => hne (hothers other hother heq)) hd
          hq hout
    rw [ha.get?, hb.get?]
    obtain hsame | ⟨habsent, -⟩ := marks_allPages hnone
    · rw [hsame, allPages, List.flatMap_singleton]
    · exact absurd hown habsent

/-! ## Runs -/

/-- What a run that writes some languages may change: what lies in their directories, and what is
missing of the output path. -/
def ChangesWithin (ls : List Language) (out : String) (files after : FileTree) : Prop :=
  ∀ q, after.get? q ≠ files.get? q →
    (∃ l ∈ ls, ∃ d, after.find (Path.join out l.tag) = .ok (d, .directory) ∧ d <+: q) ∨
    q ∈ files.through out ∧ files.get? q = none ∧ after.get? q = some .directory

theorem changesWithin_of_written (hextension : '/' ∉ r.extension.toList)
    (hids : ∀ input ∈ inputs, input.PlainIds)
    (h : Written files (allPages r out inputs) after) :
    ChangesWithin (inputs.map (·.language)) out files after := by
  have hlanguage : ∀ input ∈ inputs, ∀ q,
      (∃ d, files.place? (Path.join out input.language.tag) = some d ∧ d <+: q) →
      ∃ l ∈ inputs.map (·.language), ∃ d,
        after.find (Path.join out l.tag) = .ok (d, .directory) ∧ d <+: q := by
    rintro input hinput q ⟨d, hd, hq⟩
    obtain ⟨d', hd', hfind⟩ := find_language hextension h hinput
    obtain rfl := Option.some.inj (hd.symm.trans hd')
    exact ⟨_, List.mem_map_of_mem hinput, d, hfind, hq⟩
  intro q hq
  obtain ⟨p, hp, hplace⟩ | ⟨⟨p, hp, hthrough⟩, hmade⟩ := h.changed hq <;>
    obtain ⟨input, hinput, hp⟩ := List.mem_flatMap.mp hp <;>
    have hinside := leadsInside_of_mem_pages hextension (hids input hinput) hp
  · exact .inl (hlanguage input hinput q (hinside.inside_of_place? hplace))
  · obtain hout | hlies := hinside.inside_of_through hthrough
    · exact .inr ⟨hout, hmade⟩
    · exact .inl (hlanguage input hinput q hlies)

/-- **Languages are written independently.** A run that writes a language among others leaves the
same in its directory as a run that writes it alone, and both change nothing outside the directories
of their languages but what is missing of the output path. -/
theorem renderDocs_separate (hextension : '/' ∉ r.extension.toList)
    (hload : Entity.load source input = .ok es) (hl : l ∈ ls)
    (ha : renderDocs { s with languages := ls } r files es out = (a, .ok outputsA))
    (hb : renderDocs { s with languages := [l] } r files es out = (b, .ok outputsB)) :
    (∃ d, a.find (Path.join out l.tag) = .ok (d, .directory) ∧
      b.find (Path.join out l.tag) = .ok (d, .directory) ∧
      ∀ q, d <+: q → a.get? q = b.get? q) ∧
    ChangesWithin ls out files a ∧ ChangesWithin [l] out files b := by
  have hids := Entity.notMem_id_of_load hload
  obtain ⟨inputs, (hlanguages : inputs.map (·.language) = ls), hinputs, -, hwrittenA⟩ :=
    renderDocs_written hextension hids ha
  obtain ⟨alone, halone, hown, -, hwrittenB⟩ := renderDocs_written hextension hids hb
  obtain ⟨own, rfl, rfl⟩ := List.map_eq_singleton_iff.mp halone
  have hsame : ∀ other ∈ inputs, other.language = own.language → other = own :=
    fun other hother => eq_of_prepare (by rfl) (by rfl) (hown own (List.mem_singleton_self own)).2
      (hinputs other hother).2
  have hmem : own ∈ inputs := by
    obtain ⟨other, hother, heq⟩ := List.mem_map.mp (hlanguages ▸ hl)
    exact hsame other hother heq ▸ hother
  obtain ⟨d, hd, hfindA⟩ := find_language hextension hwrittenA hmem
  obtain ⟨d', hd', hfindB⟩ := find_language hextension hwrittenB (List.mem_singleton_self own)
  obtain rfl := Option.some.inj (hd.symm.trans hd')
  have hplainA : ∀ input ∈ inputs, input.PlainIds := fun input hinput => (hinputs input hinput).1
  have hplainB : ∀ input ∈ [own], input.PlainIds := fun input hinput => (hown input hinput).1
  refine ⟨⟨d, hfindA, hfindB, fun q hq => ?_⟩, ?_, ?_⟩
  · exact get?_eq_of_written hextension hplainA hsame hmem hwrittenA hwrittenB hd hq
  · exact hlanguages ▸ changesWithin_of_written hextension hplainA hwrittenA
  · exact changesWithin_of_written hextension hplainB hwrittenB

/-- A second language leaves the first as it is, with what was in its directory before. -/
theorem renderDocs_separate_lua :
    let r : Renderer := .markdown none
    let files : FileTree := { entries := [(["docs"], .directory), (["docs", "js"], .directory),
      (["docs", "js", "old.md"], .file "old"),
      (["a.json"], .file "\x7b\"name\": \"A\", \"type\": \"class\"\x7d")] }
    ∃ es a b outputsA outputsB, '/' ∉ r.extension.toList ∧ Entity.load files "a.json" = .ok es ∧
      Language.js ∈ [Language.lua, .js] ∧
      renderDocs { languages := [.lua, .js] } r files es "docs" = (a, .ok outputsA) ∧
      renderDocs { languages := [.js] } r files es "docs" = (b, .ok outputsB) ∧
      (∃ d, a.find "docs/js" = .ok (d, .directory) ∧ b.find "docs/js" = .ok (d, .directory) ∧
        ∀ q, d <+: q → a.get? q = b.get? q) ∧
      ChangesWithin [.lua, .js] "docs" files a ∧ ChangesWithin [.js] "docs" files b := by
  intro r files
  have hextension : '/' ∉ r.extension.toList := by decide
  have hload := eq_ok_of_isOk (r := Entity.load files "a.json") (by decide +kernel) []
  have hjs : Language.js ∈ [Language.lua, .js] := by decide
  let es := (Entity.load files "a.json").toOption.getD []
  have hokA : (renderDocs { languages := [.lua, .js] } r files es "docs").2.isOk = true := by
    decide +kernel
  have hokB : (renderDocs { languages := [.js] } r files es "docs").2.isOk = true := by
    decide +kernel
  have hrunA := FileTree.eq_ok_of_isOk hokA []
  have hrunB := FileTree.eq_ok_of_isOk hokB []
  have hseparate := renderDocs_separate (s := {}) hextension hload hjs hrunA hrunB
  rw [show Path.join "docs" Language.js.tag = "docs/js" by decide] at hseparate
  exact ⟨es, _, _, _, _, hextension, hload, hjs, hrunA, hrunB, hseparate⟩

end ApiSurface.Generation
