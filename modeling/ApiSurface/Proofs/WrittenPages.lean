import ApiSurface.Generation
import ApiSurface.Proofs.TreeChanges

/-!
# What is on disk when pages are written

A page puts its text at the place of its path and directories where the path of its directory leads
through; at every place the last page that puts something there counts, and nothing else changes
(`Written`). A run that writes the documentation of languages writes all their pages in turn
(`writeLanguages_written`).
-/

namespace ApiSurface

variable {files mid after : FileTree} {p : Page} {ps ps' : List Page} {q : Place} {node : FileNode}

namespace FileTree

/-- What a page puts at a place. -/
def mark (t : FileTree) (p : Page) (q : Place) : Option FileNode :=
  if t.place? p.path = some q then some (.file p.text)
  else if q ∈ t.through (Path.parent p.path) then some .directory
  else none

/-- What pages put at a place. The last one counts. -/
def marks (t : FileTree) (ps : List Page) (q : Place) : Option FileNode :=
  ps.reverse.findSome? (t.mark · q)

theorem mark_congr (h : mid.home = files.home) (p : Page) : mid.mark p = files.mark p := by
  funext q
  rw [mark, mark, place?_congr h, through_congr h]

theorem marks_append (t : FileTree) (ps ps' : List Page) (q : Place) :
    t.marks (ps ++ ps') q = (t.marks ps' q).or (t.marks ps q) := by
  rw [marks, List.reverse_append, List.findSome?_append]
  rfl

@[simp] theorem marks_singleton (t : FileTree) (p : Page) (q : Place) :
    t.marks [p] q = t.mark p q := by
  simp [marks]

theorem marks_congr (h : mid.home = files.home) (ps : List Page) :
    mid.marks ps = files.marks ps := by
  funext q
  simp only [marks, mark_congr h]

/-- What is put at a place is put there by one of the pages. -/
theorem exists_mark_of_marks (h : files.marks ps q = some node) :
    ∃ p ∈ ps, files.mark p q = some node := by
  obtain ⟨p, hp, hmark⟩ := List.exists_of_findSome?_eq_some h
  exact ⟨p, List.mem_reverse.mp hp, hmark⟩

/-- Where a path has a name, its parent leads through all places that lie before its end. -/
theorem through_parent (t : FileTree) {path : String} (h : Path.names path ≠ []) :
    t.through (Path.parent path) = (t.start path).through (Path.names path).dropLast := by
  have hsome : (Path.names path).isEmpty = false := by simpa using h
  rw [through, start, start, Path.names_parent, Path.isAbsolute_parent, hsome, Bool.not_false,
    Bool.and_true]

end FileTree

/-- What a tree holds once pages are written. -/
structure Written (files : FileTree) (ps : List Page) (after : FileTree) : Prop where
  home : after.home = files.home
  get? : ∀ q, after.get? q = (files.marks ps q).or (files.get? q)
  keepsDirectories : ∀ q, files.get? q = some .directory → after.get? q = some .directory
  /-- What is not written anew stays. -/
  keepsFiles : ∀ q node, files.get? q = some node → node.isFile = true →
    after.get? q = some node ∨ ∃ text, after.get? q = some (.file text)
  /-- There are directories where pages put them. -/
  way : ∀ p ∈ ps, ∀ q ∈ files.through (Path.parent p.path), after.get? q = some .directory
  /-- There is a file at the place of every page. -/
  found : ∀ p ∈ ps, ∃ place text, files.place? p.path = some place ∧
    after.find p.path = .ok (place, .file text)

namespace Written

theorem nil (files : FileTree) : Written files [] files where
  home := rfl
  get? _ := rfl
  keepsDirectories _ h := h
  keepsFiles _ _ h _ := .inl h
  way _ hp := nomatch hp
  found _ hp := nomatch hp

theorem keepsText (h : Written files ps after) {text : String}
    (hq : files.get? q = some (.file text)) : ∃ text', after.get? q = some (.file text') :=
  (h.keepsFiles q _ hq rfl).elim (fun hsame => ⟨text, hsame⟩) id

theorem append (h : Written files ps mid) (h' : Written mid ps' after) :
    Written files (ps ++ ps') after where
  home := h'.home.trans h.home
  get? q := by
    rw [h'.get?, h.get?, FileTree.marks_congr h.home, FileTree.marks_append, Option.or_assoc]
  keepsDirectories q hq := h'.keepsDirectories q (h.keepsDirectories q hq)
  keepsFiles q node hq hfile := by
    obtain hq' | ⟨text, hq'⟩ := h.keepsFiles q node hq hfile
    · exact h'.keepsFiles q node hq' hfile
    · exact .inr (h'.keepsText hq')
  way p hp q hq := by
    rcases List.mem_append.mp hp with hp | hp
    · exact h'.keepsDirectories q (h.way p hp q hq)
    · exact h'.way p hp q (by rwa [FileTree.through_congr h.home])
  found p hp := by
    rcases List.mem_append.mp hp with hp | hp
    · obtain ⟨place, text, hplace, hfind⟩ := h.found p hp
      obtain ⟨-, hnode, -⟩ := FileTree.place?_of_resolve (FileTree.find_eq_ok.mp hfind)
      obtain ⟨text', hafter⟩ := h'.keepsText hnode.symm
      exact ⟨place, text', hplace, FileTree.find_mono h'.home h'.keepsDirectories hafter hfind⟩
    · obtain ⟨place, text, hplace, hfind⟩ := h'.found p hp
      rw [FileTree.place?_congr h.home] at hplace
      exact ⟨place, text, hplace, hfind⟩

/-- What is put at a place that no page has for its own is a directory, and one that was there or
that was made where nothing was. -/
theorem changed (h : Written files ps after) (hq : after.get? q ≠ files.get? q) :
    (∃ p ∈ ps, files.place? p.path = some q) ∨
      (∃ p ∈ ps, q ∈ files.through (Path.parent p.path)) ∧
        files.get? q = none ∧ after.get? q = some .directory := by
  cases hmarks : files.marks ps q with
  | none => exact absurd (by rw [h.get?, hmarks, Option.none_or]) hq
  | some node =>
    obtain ⟨p, hp, hmark⟩ := FileTree.exists_mark_of_marks hmarks
    rw [FileTree.mark] at hmark
    split at hmark
    · next hplace => exact .inl ⟨p, hp, hplace⟩
    · split at hmark
      · next hway =>
        have hdirectory := h.way p hp q hway
        refine .inr ⟨⟨p, hp, hway⟩, ?_, hdirectory⟩
        cases hnode : files.get? q with
        | none => rfl
        | some node =>
          have hne : node ≠ .directory := by
            rintro rfl
            exact hq (hdirectory.trans hnode.symm)
          obtain hsame | ⟨text, htext⟩ := h.keepsFiles q node hnode (FileNode.isFile_iff.mpr hne)
          · exact absurd (Option.some.inj (hsame.symm.trans hdirectory)) hne
          · rw [hdirectory] at htext
            cases htext
      · cases hmark

/-- What is read at the path of a page is the text of a page of its place. -/
theorem exists_read (h : Written files ps after) (hp : p ∈ ps) :
    files.place? p.path ≠ none ∧
      ∃ p' ∈ ps, files.place? p'.path = files.place? p.path ∧ after.read p.path = .ok p'.text := by
  obtain ⟨place, text, hplace, hfind⟩ := h.found p hp
  obtain ⟨-, hnode, -⟩ := FileTree.place?_of_resolve (FileTree.find_eq_ok.mp hfind)
  have hread : after.read p.path = .ok text := by
    rw [FileTree.read, hfind]
    rfl
  have hmarks : files.marks ps place = some (.file text) := by
    rw [h.get?] at hnode
    cases hmarks : files.marks ps place with
    | none =>
      have hnone := List.findSome?_eq_none_iff.mp hmarks p (List.mem_reverse.mpr hp)
      rw [FileTree.mark, if_pos hplace] at hnone
      cases hnone
    | some node =>
      rw [hmarks, Option.some_or] at hnode
      exact hnode.symm
  obtain ⟨p', hp', hmark⟩ := FileTree.exists_mark_of_marks hmarks
  rw [FileTree.mark] at hmark
  split at hmark
  · next hplace' =>
    cases hmark
    exact ⟨by rw [hplace]; exact Option.some_ne_none place, p', hp', hplace'.trans hplace.symm,
      hread⟩
  · split at hmark <;> cases hmark

end Written

namespace FileTree

/-- A step that succeeds leaves its tree and comes to its value. -/
theorem eq_ok_of_isOk {ε α : Type} {step : FileTree × Except ε α} (h : step.2.isOk = true)
    (default : α) : step = (step.1, .ok (step.2.toOption.getD default)) := by
  rw [← ApiSurface.eq_ok_of_isOk h default]

/-- A step whose value is known leaves its tree and comes to that value. -/
theorem eq_ok_of_toOption {ε α : Type} {step : FileTree × Except ε α} {a : α}
    (h : step.2.toOption = some a) : step = (step.1, .ok a) := by
  obtain ⟨t, r⟩ := step
  cases r with
  | error e => cases h
  | ok b =>
    cases h
    rfl

end FileTree

namespace Generation

open FileTree (andThen_eq_ok mapError_eq_ok settle_eq_ok)

variable {r : Renderer} {out : String}

theorem writePage_written {failure : String → FileFault → Failure}
    (hname : Path.names p.path ≠ []) (h : writePage failure files p = (after, .ok ())) :
    Written files [p] after := by
  rw [writePage, andThen_eq_ok] at h
  obtain ⟨made, _, hmake, hsettle⟩ := h
  -- First the directories are made, where nothing was; then the file is put at a place that is none
  -- of them.
  have hmade := FileTree.makeDirectories_made (mapError_eq_ok.mp hmake)
  obtain ⟨_, hwrite, heq⟩ := map_eq_ok.mp (settle_eq_ok.mp (mapError_eq_ok.mp hsettle))
  cases heq
  obtain ⟨place, hresolve, hfree, rfl, hfind⟩ := FileTree.write_eq_ok hwrite
  obtain ⟨hplace, -, hway⟩ := FileTree.place?_of_resolve hresolve
  rw [FileTree.place?_congr hmade.home] at hplace
  have hway : ∀ q ∈ files.through (Path.parent p.path), made.get? q = some .directory := by
    rw [FileTree.through_parent _ hname, ← FileTree.start_congr hmade.home]
    exact hway hname
  have hafter : ∀ q, (made.set place (.file p.text)).get? q =
      if q = place then some (.file p.text) else made.get? q := FileTree.get?_set hfree
  have hstays : ∀ q, made.get? q = some .directory →
      (made.set place (.file p.text)).get? q = some .directory := by
    intro q hq
    rw [hafter, if_neg (fun heq : q = place => hfree (heq ▸ hq)), hq]
  refine ⟨hmade.home, fun q => ?_, fun q hq => hstays q (hmade.get?_of_some hq),
    fun q node hq _ => ?_, ?_, ?_⟩
  · rw [hafter, FileTree.marks_singleton, FileTree.mark, hplace]
    rcases eq_or_ne q place with rfl | hq
    · simp
    · rw [if_neg hq, if_neg (by simpa using hq.symm)]
      split
      · next hmem => exact hway q hmem
      · next hmem =>
        exact (hmade.made q).resolve_right fun h => hmem h.1
  · rw [hafter]
    split
    · exact .inr ⟨p.text, rfl⟩
    · exact .inl (hmade.get?_of_some hq)
  · exact List.forall_mem_singleton.mpr fun q hq => hstays q (hway q hq)
  · exact List.forall_mem_singleton.mpr ⟨place, p.text, hplace, hfind⟩

theorem writePages_written (hnames : ∀ p ∈ ps, Path.names p.path ≠ [])
    (h : writePages files ps = (after, .ok ())) : Written files ps after := by
  induction ps generalizing files with
  | nil =>
    rw [writePages] at h
    obtain rfl := (Prod.ext_iff.mp h).1
    exact .nil _
  | cons p rest ih =>
    obtain ⟨hp, hrest⟩ := List.forall_mem_cons.mp hnames
    rw [writePages] at h
    obtain ⟨mid, _, hfirst, hlater⟩ := andThen_eq_ok.mp h
    exact (writePage_written hp hfirst).append (ih hrest hlater)

/-- The pages of prepared languages, one language after another. -/
def allPages (r : Renderer) (out : String) (inputs : List PreparedDocs) : List Page :=
  inputs.flatMap fun input => pages r (Path.join out input.language.tag) input

/-- A run over languages leaves what their pages put on disk. -/
theorem writeLanguages_written {inputs : List PreparedDocs} {outputs : List WrittenDocs}
    (hnames : ∀ input ∈ inputs, ∀ p ∈ pages r (Path.join out input.language.tag) input,
      Path.names p.path ≠ [])
    (h : writeLanguages r out files inputs = (after, .ok outputs)) :
    Written files (allPages r out inputs) after := by
  induction inputs generalizing files outputs with
  | nil =>
    rw [writeLanguages] at h
    obtain rfl := (Prod.ext_iff.mp h).1
    exact .nil _
  | cons input rest ih =>
    obtain ⟨hinput, hrest⟩ := List.forall_mem_cons.mp hnames
    rw [writeLanguages] at h
    obtain ⟨mid, _, hfirst, hlater⟩ := andThen_eq_ok.mp h
    obtain ⟨after', outputs', hlanguages, heq⟩ := andThen_eq_ok.mp hlater
    obtain rfl := (Prod.ext_iff.mp heq).1
    exact (writePages_written hinput hfirst).append (ih hrest hlanguages)

end Generation

end ApiSurface
