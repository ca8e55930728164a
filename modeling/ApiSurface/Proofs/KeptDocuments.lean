import ApiSurface.Proofs.DirectoryPaths
import ApiSurface.Proofs.PagePlaces
import Mathlib.Data.List.Dedup
import Mathlib.Data.List.Nodup

/-!
# Documents on their way to disk

Ids are stems of file names, and files of several extensions and directories are loaded together, so
two descriptors can have one id. They are written to the same files then, and the later of them is
all that is left. A run keeps every document exactly when no id occurs twice among the descriptors
that are retained in one of its languages (`loadAndWriteDocs_kept_iff`).
-/

namespace ApiSurface.Generation

variable {s : Settings} {files after : FileTree} {es : List Entity} {l m : Language}
  {input out id id' extension extension' : String} {outputs : List WrittenDocs}
  {inputs : List PreparedDocs} {own other : PreparedDocs} {p p' : Page} {title : Option String}

/-! ## Names of files -/

/-- The path of a document of an entity. -/
def documentPath (out : String) (l : Language) (id extension : String) : String :=
  pagePath (Path.join out l.tag) Page.entityDirectory id extension

/-- The extensions of documents: every entity has its JSON and a page. -/
def documentExtensions : List String :=
  ["json", Page.extension]

/-- The paths of all documents of an entity. -/
def documentPaths (out : String) (l : Language) (id : String) : List String :=
  documentExtensions.map (documentPath out l id)

/-- Names with the extension are single names like any other: they hold no slash and do not end in
a point. -/
structure PlainExtension (extension : String) : Prop where
  noSlash : '/' ∉ extension.toList
  ends : ∃ c ≠ '.', extension.toList.getLast? = some c

theorem plainExtension_of_mem (h : extension ∈ documentExtensions) : PlainExtension extension := by
  simp only [documentExtensions, List.mem_cons, List.not_mem_nil, or_false] at h
  obtain rfl | rfl := h
  · exact ⟨by decide, 'n', by decide, by decide⟩
  · exact ⟨by decide, 'd', by decide, by decide⟩

/-- Their last letters tell the extensions of documents apart. -/
theorem eq_of_getLast? : ∀ extension ∈ documentExtensions, ∀ extension' ∈ documentExtensions,
    extension.toList.getLast? = extension'.toList.getLast? → extension = extension' := by
  decide

theorem json_mem_documentExtensions : "json" ∈ documentExtensions :=
  List.mem_cons_self

theorem page_mem_documentExtensions : Page.extension ∈ documentExtensions :=
  List.mem_cons_of_mem _ (List.mem_singleton_self _)

theorem getLast?_fileName {c : Char} (h : extension.toList.getLast? = some c) (id : String) :
    (id ++ "." ++ extension).toList.getLast? = some c := by
  rw [String.toList_append, List.getLast?_append, h]
  rfl

theorem names_fileName (hid : '/' ∉ id.toList) (hextension : PlainExtension extension) :
    Path.names (id ++ "." ++ extension) = [id ++ "." ++ extension] ∧
      id ++ "." ++ extension ≠ ".." := by
  obtain ⟨c, hc, hlast⟩ := hextension.ends
  have hne : ∀ text : String, text.toList.getLast? ≠ some c → id ++ "." ++ extension ≠ text := by
    rintro _ htext rfl
    exact htext (getLast?_fileName hlast id)
  have hpoint : some '.' ≠ some c := fun heq => hc (Option.some.inj heq).symm
  refine ⟨Path.names_of_notMem (notMem_fileName hid hextension.noSlash) ?_, hne _ hpoint⟩
  rw [← Bool.not_eq_true, Path.isIdle_iff, not_or]
  exact ⟨hne _ (by simp), hne _ hpoint⟩

/-- The name of a document tells the id of its entity and its extension. -/
theorem fileName_inj (hextension : extension ∈ documentExtensions)
    (hextension' : extension' ∈ documentExtensions)
    (h : id ++ "." ++ extension = id' ++ "." ++ extension') :
    id = id' ∧ extension = extension' := by
  have heq : extension = extension' := by
    obtain ⟨c, -, hlast⟩ := (plainExtension_of_mem hextension).ends
    obtain ⟨c', -, hlast'⟩ := (plainExtension_of_mem hextension').ends
    refine eq_of_getLast? extension hextension extension' hextension' ?_
    rw [hlast, hlast', ← getLast?_fileName hlast id, h, getLast?_fileName hlast' id']
  subst heq
  have hlist := congrArg String.toList h
  simp only [String.toList_append, List.append_assoc, List.append_cancel_right_eq] at hlist
  exact ⟨String.toList_inj.mp hlist, rfl⟩

/-- The names in the path of a file in a directory of a language. -/
theorem names_pagePath {inside : String} (hinside : Path.names inside = [inside])
    (hslash : '/' ∉ inside.toList) (hid : '/' ∉ id.toList) (hextension : PlainExtension extension) :
    Path.names (pagePath (Path.join out l.tag) inside id extension) =
      Path.names out ++ [l.tag, inside, id ++ "." ++ extension] := by
  have htag := Path.isAbsolute_of_notMem (Language.notMem_tag l)
  rw [pagePath, names_file hslash (notMem_fileName hid hextension.noSlash), Path.names_join htag,
    Language.names_tag, hinside, (names_fileName hid hextension).1]
  simp

/-! ## Places of files -/

/-- A path leads to names in the directory of a language, none of them upwards. -/
structure LiesAt (out : String) (l : Language) (path : String) (ns : List String) : Prop where
  isAbsolute : Path.isAbsolute path = Path.isAbsolute out
  names : Path.names path = Path.names out ++ l.tag :: ns
  plain : ".." ∉ ns

namespace LiesAt

variable {path path' : String} {ns ns' : List String}

theorem place? (h : LiesAt out l path ns) (t : FileTree) :
    t.place? path = (t.place? out).map (· ++ l.tag :: ns) := by
  have hplain : ".." ∉ l.tag :: ns := by
    rw [List.mem_cons, not_or]
    exact ⟨l.tag_ne_dots.symm, h.plain⟩
  rw [FileTree.place?, FileTree.start, h.isAbsolute, h.names, ← FileTree.start,
    Place.follow_append]
  show (t.place? out).bind (Place.follow · (l.tag :: ns)) = _
  cases t.place? out with
  | none => rfl
  | some place => exact Place.follow_of_notMem hplain

/-- Paths that lead to one place have the same language and the same names. -/
theorem eq_of_place? (h : LiesAt out l path ns) (h' : LiesAt out m path' ns')
    (hsome : files.place? path ≠ none) (heq : files.place? path' = files.place? path) :
    m = l ∧ ns' = ns := by
  rw [h.place?, h'.place?] at heq
  rw [h.place?] at hsome
  cases hout : files.place? out with
  | none => exact absurd (by rw [hout]; rfl) hsome
  | some place =>
    rw [hout] at heq
    obtain ⟨htag, hnames⟩ := List.cons.inj (List.append_cancel_left (Option.some.inj heq))
    exact ⟨Language.tag_injective htag, hnames⟩

end LiesAt

theorem liesAt_pagePath {inside : String} (hinside : Path.names inside = [inside])
    (hdots : inside ≠ "..") (hslash : '/' ∉ inside.toList) (hid : '/' ∉ id.toList)
    (hextension : PlainExtension extension) :
    LiesAt out l (pagePath (Path.join out l.tag) inside id extension)
      [inside, id ++ "." ++ extension] where
  isAbsolute := (leadsInside_pagePath hinside hdots hslash hid hextension.noSlash).isAbsolute
  names := names_pagePath hinside hslash hid hextension
  plain := by
    have hfile := (names_fileName hid hextension).2
    simp [Ne.symm hdots, Ne.symm hfile]

theorem liesAt_index (hextension : '/' ∉ extension.toList) :
    LiesAt out l (Path.join (Path.join out l.tag) ("index." ++ extension))
      ["index." ++ extension] where
  isAbsolute := (leadsInside_index hextension).isAbsolute
  names := names_index hextension
  plain := by simpa using (index_ne (by decide) extension).symm

/-! ## Texts of documents -/

/-- What a page is, by the names that lead to it from the directory of its language. -/
inductive PageAt (title : Option String) (own : PreparedDocs) (p : Page) : List String → Prop where
  | json (v : EntityView) (hv : v ∈ own.views) (htext : p.text = v.json) :
    PageAt title own p [Page.entityDirectory, v.id ++ "." ++ "json"]
  | index (htext : p.text =
      Page.indexText title own.language (Links.ofViews own.views) own.views own.guides) :
    PageAt title own p ["index." ++ Page.extension]
  | guide (g : Guide) (hg : g ∈ own.guides) :
    PageAt title own p [Page.guideDirectory, g.id ++ "." ++ Page.extension]
  | page (v : EntityView) (hv : v ∈ own.views)
    (htext : p.text = Page.entityText (Links.ofViews own.views) v) :
    PageAt title own p [Page.entityDirectory, v.id ++ "." ++ Page.extension]

theorem liesAt_document (hid : '/' ∉ id.toList) (hextension : extension ∈ documentExtensions) :
    LiesAt out l (documentPath out l id extension)
      [Page.entityDirectory, id ++ "." ++ extension] :=
  liesAt_pagePath (by decide) (by decide) (by decide) hid
    (plainExtension_of_mem hextension)

theorem liesAt_guide (hid : '/' ∉ id.toList) :
    LiesAt out l (pagePath (Path.join out l.tag) Page.guideDirectory id Page.extension)
      [Page.guideDirectory, id ++ "." ++ Page.extension] :=
  liesAt_pagePath (by decide) (by decide) (by decide) hid
    (plainExtension_of_mem page_mem_documentExtensions)

theorem notMem_extension (title : Option String) :
    '/' ∉ (Renderer.markdown title).extension.toList := by
  show '/' ∉ Page.extension.toList
  decide

theorem liesAt_of_mem_pages (hids : own.PlainIds)
    (hp : p ∈ pages (.markdown title) (Path.join out own.language.tag) own) :
    ∃ ns, LiesAt out own.language p.path ns ∧ PageAt title own p ns := by
  simp only [pages, List.mem_append, List.mem_map, List.mem_singleton] at hp
  obtain ((⟨v, hv, rfl⟩ | rfl) | ⟨g, hg, rfl⟩) | ⟨v, hv, rfl⟩ := hp
  · exact ⟨_, liesAt_document (hids.views v hv) json_mem_documentExtensions, .json v hv rfl⟩
  · exact ⟨_, liesAt_index (notMem_extension title), .index rfl⟩
  · exact ⟨_, liesAt_guide (hids.guides g hg), .guide g hg⟩
  · exact ⟨_, liesAt_document (hids.views v hv) page_mem_documentExtensions, .page v hv rfl⟩

namespace PageAt

/-- What lies in the file of a JSON document is one of that id. -/
theorem exists_json (h : PageAt title own p [Page.entityDirectory, id ++ "." ++ "json"]) :
    ∃ v ∈ own.views, v.id = id ∧ p.text = v.json := by
  generalize hns : [Page.entityDirectory, id ++ "." ++ "json"] = ns at h
  cases h with
  | json v hv htext =>
    have hfile := (List.cons.inj (List.cons.inj hns).2).1
    have hid := (fileName_inj json_mem_documentExtensions json_mem_documentExtensions hfile).1
    exact ⟨v, hv, hid.symm, htext⟩
  | index => cases (List.cons.inj hns).2
  | guide => exact absurd (List.cons.inj hns).1 (by decide)
  | page v hv htext =>
    have hfile := (List.cons.inj (List.cons.inj hns).2).1
    have heq := (fileName_inj json_mem_documentExtensions page_mem_documentExtensions hfile).2
    exact absurd heq (by decide)

/-- What lies in the file of the page of an entity is a page for that id. -/
theorem exists_page (h : PageAt title own p [Page.entityDirectory, id ++ "." ++ Page.extension]) :
    ∃ v ∈ own.views, v.id = id ∧ p.text = Page.entityText (Links.ofViews own.views) v := by
  generalize hns : [Page.entityDirectory, id ++ "." ++ Page.extension] = ns at h
  cases h with
  | json v hv htext =>
    have hfile := (List.cons.inj (List.cons.inj hns).2).1
    have heq := (fileName_inj page_mem_documentExtensions json_mem_documentExtensions hfile).2
    exact absurd heq (by decide)
  | index => cases (List.cons.inj hns).2
  | guide => exact absurd (List.cons.inj hns).1 (by decide)
  | page v hv htext =>
    have hfile := (List.cons.inj (List.cons.inj hns).2).1
    have hid := (fileName_inj page_mem_documentExtensions page_mem_documentExtensions hfile).1
    exact ⟨v, hv, hid.symm, htext⟩

/-- What lies in the file of the index is the index. -/
theorem text_index (h : PageAt title own p ["index." ++ Page.extension]) :
    p.text = Page.indexText title own.language (Links.ofViews own.views) own.views own.guides := by
  generalize hns : ["index." ++ Page.extension] = ns at h
  cases h with
  | index htext => exact htext
  | json | guide | page => cases (List.cons.inj hns).2

end PageAt

/-- What has the place of a file of a language is a page of that file, whichever languages and
entities are written with it. -/
theorem pageAt_of_place? {path : String} {ns : List String}
    (hids : ∀ other ∈ inputs, other.PlainIds)
    (hothers : ∀ other ∈ inputs, other.language = own.language → other = own)
    (hplace : LiesAt out own.language path ns) (hsome : files.place? path ≠ none)
    (hp : p ∈ allPages (.markdown title) out inputs)
    (heq : files.place? p.path = files.place? path) : PageAt title own p ns := by
  obtain ⟨other, hother, hp⟩ := List.mem_flatMap.mp hp
  obtain ⟨ns', hlies, hpage⟩ := liesAt_of_mem_pages (hids other hother) hp
  obtain ⟨hlanguage, rfl⟩ := hplace.eq_of_place? hlies hsome heq
  obtain rfl := hothers other hother hlanguage
  exact hpage

theorem json_mem_pages {v : EntityView} (hv : v ∈ own.views) :
    ⟨documentPath out own.language v.id "json", v.json⟩ ∈
      pages (.markdown title) (Path.join out own.language.tag) own :=
  List.mem_append_left _ (List.mem_append_left _ (List.mem_append_left _
    (List.mem_map.mpr ⟨v, hv, rfl⟩)))

theorem page_mem_pages {v : EntityView} (hv : v ∈ own.views) (directory : String) :
    ⟨pagePath directory Page.entityDirectory v.id Page.extension,
        Page.entityText (Links.ofViews own.views) v⟩ ∈ pages (.markdown title) directory own :=
  List.mem_append_right _ (List.mem_map.mpr ⟨v, hv, rfl⟩)

/-- On disk, the file of a page holds one of the pages of that file. -/
theorem exists_read_page {ns : List String}
    (hwritten : Written files (allPages (.markdown title) out inputs) after)
    (hids : ∀ other ∈ inputs, other.PlainIds)
    (hothers : ∀ other ∈ inputs, other.language = own.language → other = own)
    (hown : own ∈ inputs) (hp : p ∈ pages (.markdown title) (Path.join out own.language.tag) own)
    (hlies : LiesAt out own.language p.path ns) :
    ∃ p', PageAt title own p' ns ∧ after.read p.path = .ok p'.text := by
  obtain ⟨hsome, p', hp', heq, hread⟩ := hwritten.exists_read (List.mem_flatMap_of_mem hown hp)
  exact ⟨p', pageAt_of_place? hids hothers hlies hsome hp' heq, hread⟩

/-- Where the ids of a language are unique, both documents of a view are on disk. -/
theorem read_documents (hwritten : Written files (allPages (.markdown title) out inputs) after)
    (hids : ∀ other ∈ inputs, other.PlainIds)
    (hothers : ∀ other ∈ inputs, other.language = own.language → other = own)
    (hown : own ∈ inputs) (hnodup : (own.views.map (·.id)).Nodup) {v : EntityView}
    (hv : v ∈ own.views) :
    after.read (documentPath out own.language v.id "json") = .ok v.json ∧
      after.read (documentPath out own.language v.id Page.extension) =
        .ok (Page.entityText (Links.ofViews own.views) v) := by
  have hid := (hids own hown).views v hv
  obtain ⟨p, hp, hjson⟩ := exists_read_page hwritten hids hothers hown (json_mem_pages hv)
    (liesAt_document hid json_mem_documentExtensions)
  obtain ⟨p', hp', hpage⟩ := exists_read_page hwritten hids hothers hown (page_mem_pages hv _)
    (liesAt_document hid page_mem_documentExtensions)
  obtain ⟨u, hu, huid, htext⟩ := hp.exists_json
  obtain ⟨u', hu', huid', htext'⟩ := hp'.exists_page
  obtain rfl := List.inj_on_of_nodup_map hnodup hu hv huid
  obtain rfl := List.inj_on_of_nodup_map hnodup hu' hv huid'
  exact ⟨htext ▸ hjson, htext' ▸ hpage⟩

/-! ## Runs -/

/-- What a run keeps of entities: both documents of every retained entity, in every language, with
no two documents at one path. -/
structure Kept (s : Settings) (es : List Entity) (out : String) (after : FileTree) : Prop where
  documents : ∀ l ∈ s.languages, ∀ e ∈ es, e.isRetained l = true →
    ∃ vs v, Entity.views s.rules l es = .ok vs ∧ Entity.view s.rules l e = .ok (some v) ∧
      after.read (documentPath out l e.id "json") = .ok v.json ∧
      after.read (documentPath out l e.id Page.extension) =
        .ok (Page.entityText (Links.ofViews vs) v)
  paths : (s.languages.dedup.flatMap fun l =>
    (es.filter (Entity.isRetained l)).flatMap fun e => documentPaths out l e.id).Nodup

theorem nodup_of_kept (h : Kept s es out after) (hl : l ∈ s.languages) :
    ((es.filter (Entity.isRetained l)).map (·.id)).Nodup := by
  have hpaths := (List.nodup_flatMap.mp h.paths).1 l (List.mem_dedup.mpr hl)
  have hpairs := (List.nodup_flatMap.mp hpaths).2
  refine List.pairwise_map.mpr (hpairs.imp fun {e e'} hdisjoint heq => ?_)
  have hshared : documentPath out l e.id "json" ∈ documentPaths out l e'.id := by
    rw [heq]
    exact List.mem_cons_self
  exact List.disjoint_left.mp hdisjoint List.mem_cons_self hshared

/-- The path of a document tells its language, the id of its entity and its extension. -/
theorem documentPath_inj (hid : '/' ∉ id.toList) (hid' : '/' ∉ id'.toList)
    (hextension : extension ∈ documentExtensions) (hextension' : extension' ∈ documentExtensions)
    (h : documentPath out l id extension = documentPath out m id' extension') :
    l = m ∧ id = id' ∧ extension = extension' := by
  have hnames : Path.names (documentPath out l id extension) = _ :=
    (liesAt_document hid hextension).names
  rw [h, (liesAt_document hid' hextension').names, List.append_cancel_left_eq] at hnames
  simp only [List.cons.injEq, true_and, and_true] at hnames
  exact ⟨Language.tag_injective hnames.1.symm, fileName_inj hextension hextension' hnames.2.symm⟩

/-- Documents of different languages or ids have different paths. -/
theorem eq_of_mem_documentPaths {path : String} (hid : '/' ∉ id.toList) (hid' : '/' ∉ id'.toList)
    (h : path ∈ documentPaths out l id) (h' : path ∈ documentPaths out m id') :
    l = m ∧ id = id' := by
  obtain ⟨extension, hextension, rfl⟩ := List.mem_map.mp h
  obtain ⟨extension', hextension', heq⟩ := List.mem_map.mp h'
  obtain ⟨hlanguage, hsame, -⟩ := documentPath_inj hid hid' hextension hextension' heq.symm
  exact ⟨hlanguage, hsame⟩

theorem documentPaths_nodup (hid : '/' ∉ id.toList) : (documentPaths out l id).Nodup := by
  refine List.Nodup.map_on (fun extension hmem extension' hmem' heq => ?_) (by decide)
  exact (documentPath_inj hid hid hmem hmem' heq).2.2

theorem paths_nodup (hids : ∀ e ∈ es, '/' ∉ e.id.toList)
    (hnodup : ∀ l ∈ s.languages, ((es.filter (Entity.isRetained l)).map (·.id)).Nodup) :
    (s.languages.dedup.flatMap fun l =>
      (es.filter (Entity.isRetained l)).flatMap fun e => documentPaths out l e.id).Nodup := by
  have hid : ∀ l, ∀ e ∈ es.filter (Entity.isRetained l), '/' ∉ e.id.toList :=
    fun l e he => hids e (List.mem_of_mem_filter he)
  refine List.nodup_flatMap.mpr ⟨fun l hl => List.nodup_flatMap.mpr ⟨fun e he => ?_, ?_⟩, ?_⟩
  · exact documentPaths_nodup (hid l e he)
  · have hl := List.pairwise_map.mp (hnodup l (List.mem_dedup.mp hl))
    refine hl.imp_of_mem fun he he' hne => List.disjoint_left.mpr fun path hpath hpath' => ?_
    exact hne (eq_of_mem_documentPaths (hid l _ he) (hid l _ he') hpath hpath').2
  · refine (List.nodup_dedup s.languages).imp fun hne => List.disjoint_left.mpr ?_
    intro path hpath hpath'
    obtain ⟨e, he, hpath⟩ := List.mem_flatMap.mp hpath
    obtain ⟨e', he', hpath'⟩ := List.mem_flatMap.mp hpath'
    exact hne (eq_of_mem_documentPaths (hid _ e he) (hid _ e' he') hpath hpath').1

theorem loadAndWriteDocs_eq_renderDocs (hload : Entity.load files input = .ok es) :
    loadAndWriteDocs s files input out = renderDocs s (.markdown none) files es out := by
  rw [loadAndWriteDocs, loadAndRenderDocs, hload]
  rfl

/-- Where ids are unique in each language, everything is kept. -/
theorem kept_of_nodup (hload : Entity.load files input = .ok es)
    (h : loadAndWriteDocs s files input out = (after, .ok outputs))
    (hnodup : ∀ l ∈ s.languages, ((es.filter (Entity.isRetained l)).map (·.id)).Nodup) :
    Kept s es out after := by
  have hids := Entity.notMem_id_of_load hload
  rw [loadAndWriteDocs_eq_renderDocs hload] at h
  obtain ⟨inputs, hlanguages, hinputs, -, hwritten⟩ :=
    renderDocs_written (notMem_extension none) hids h
  refine ⟨fun l hl e he hretained => ?_, paths_nodup hids hnodup⟩
  obtain ⟨own, hown, rfl⟩ := List.mem_map.mp (hlanguages ▸ hl)
  have hothers : ∀ other ∈ inputs, other.language = own.language → other = own :=
    fun other hother => eq_of_prepare rfl rfl (hinputs own hown).2 (hinputs other hother).2
  obtain ⟨-, hviews, -⟩ := prepare_eq_ok (hinputs own hown).2
  obtain ⟨v, hv, hview, hid⟩ := Entity.exists_view hviews he hretained
  have hunique : (own.views.map (·.id)).Nodup := by
    rw [Entity.ids_of_views hviews]
    exact hnodup own.language hl
  have hread := read_documents hwritten (fun i hi => (hinputs i hi).1) hothers hown hunique hv
  rw [hid] at hread
  exact ⟨own.views, v, hviews, hview, hread⟩

/-- **When no document is lost**: exactly when no id occurs twice among the descriptors that are
retained in one of the languages. -/
theorem loadAndWriteDocs_kept_iff (hload : Entity.load files input = .ok es)
    (h : loadAndWriteDocs s files input out = (after, .ok outputs)) :
    Kept s es out after ↔
      ∀ l ∈ s.languages, ((es.filter (Entity.isRetained l)).map (·.id)).Nodup :=
  ⟨fun hkept _ hl => nodup_of_kept hkept hl, kept_of_nodup hload h⟩

/-- Two descriptors with different stems are kept. -/
theorem loadAndWriteDocs_kept_iff_pair :
    let s : Settings := { languages := [.js] }
    let files : FileTree := { entries := [(["d"], .directory),
      (["d", "a.json"], .file "\x7b\"name\": \"A\", \"type\": \"class\"\x7d"),
      (["d", "b.yaml"], .file "name: B\ntype: class\n")] }
    ∃ es after outputs, Entity.load files "d" = .ok es ∧ es.map (·.id) = ["a", "b"] ∧
      loadAndWriteDocs s files "d" "docs" = (after, .ok outputs) ∧
      Kept s es "docs" after := by
  intro s files
  let loaded := Entity.loadNames files "d" ["d"] ["a.json", "b.yaml"]
  have hload : Entity.load files "d" = .ok (loaded.toOption.getD []) :=
    Entity.load_of_names (by decide +kernel) (by decide +kernel) (by decide +kernel)
      (by decide +kernel) (by decide +kernel)
  have hok : (renderDocs s (.markdown none) files (loaded.toOption.getD []) "docs").2.isOk =
      true := by
    decide +kernel
  have hrun := (loadAndWriteDocs_eq_renderDocs hload).trans (FileTree.eq_ok_of_isOk hok [])
  refine ⟨_, _, _, hload, by decide +kernel, hrun, (loadAndWriteDocs_kept_iff hload hrun).mpr ?_⟩
  decide +kernel

/-- Two descriptors of one stem are written to the same files, and the later of them is on disk. -/
theorem loadAndWriteDocs_kept_formats :
    let s : Settings := { languages := [.js] }
    let files : FileTree := { entries := [(["d"], .directory),
      (["d", "a.json"], .file "\x7b\"name\": \"A\", \"type\": \"class\"\x7d"),
      (["d", "a.yaml"], .file "name: B\ntype: class\n")] }
    let text := "\x7b\n  \"id\": \"a\",\n  \"name\": \"B\",\n  \"type\": \"Object\"\n\x7d"
    ∃ es after outputs, Entity.load files "d" = .ok es ∧
      es.map (·.descriptor.name) = ["A", "B"] ∧
      loadAndWriteDocs s files "d" "docs" = (after, .ok outputs) ∧
      after.read "docs/js/api/a.json" = .ok text ∧
      ¬ Kept s es "docs" after := by
  intro s files text
  let loaded := Entity.loadNames files "d" ["d"] ["a.json", "a.yaml"]
  have hload : Entity.load files "d" = .ok (loaded.toOption.getD []) :=
    Entity.load_of_names (by decide +kernel) (by decide +kernel) (by decide +kernel)
      (by decide +kernel) (by decide +kernel)
  have hok : (renderDocs s (.markdown none) files (loaded.toOption.getD []) "docs").2.isOk =
      true := by
    decide +kernel
  have hids : ((loaded.toOption.getD []).filter (Entity.isRetained .js)).map (·.id) =
      ["a", "a"] := by decide +kernel
  refine ⟨_, _, _, hload, by decide +kernel,
    (loadAndWriteDocs_eq_renderDocs hload).trans (FileTree.eq_ok_of_isOk hok []),
    by decide +kernel, fun hkept => ?_⟩
  have hnodup := nodup_of_kept hkept (List.mem_singleton_self Language.js)
  rw [hids] at hnodup
  exact absurd hnodup (by decide)

end ApiSurface.Generation
