import ApiSurface.Proofs.KeptDocuments
import ApiSurface.Proofs.PageSpans
import ApiSurface.Proofs.ViewOrigins

/-!
# Links between the pages of a language

A link is written where it stands, as a path from there; the file that it leads to is written under
a path of its own. The index reaches pages through the directories of entities and guides, and the
page of an entity reaches another in the directory that both lie in. Both arrive where the files are
written, because the directories of a language end in names (`linkedPath_index`,
`linkedPath_entity`). Links are made for ids that have a view, and there is a page for every view,
so no link leads nowhere (`renderDocs_linked`). What is on disk after a run are these pages
(`shown_pages`).
-/

namespace ApiSurface

/-! ## Links to ids -/

namespace Document

variable {α : Type} {key : String}

theorem mem_keys_put {key' : String} {value : α} {fields : List (String × α)} :
    key' ∈ (put key value fields).map (·.1) ↔ key' = key ∨ key' ∈ fields.map (·.1) := by
  induction fields with
  | nil => simp [put]
  | cons field rest ih =>
    obtain ⟨k, v⟩ := field
    rw [put]
    split
    · next hk => simp [hk]
    · rw [List.map_cons, List.mem_cons, ih, List.map_cons, List.mem_cons]
      exact or_left_comm

theorem mem_keys_ofFields {fields : List (String × α)} :
    key ∈ (ofFields fields).map (·.1) ↔ key ∈ fields.map (·.1) := by
  rw [ofFields]
  induction fields using List.reverseRecOn with
  | nil => rfl
  | append_singleton fields field ih =>
    rw [List.foldl_append, List.foldl_cons, List.foldl_nil, mem_keys_put, ih]
    simp [or_comm]

end Document

namespace Links

variable {vs : List EntityView} {id target : String}

theorem exists_name?_iff : (∃ name, (ofViews vs).name? id = some name) ↔ id ∈ vs.map (·.id) := by
  have hkeys : id ∈ (ofViews vs).pages.map (·.1) ↔ id ∈ vs.map (·.id) := by
    rw [ofViews, Document.mem_keys_ofFields, List.map_map]
    rfl
  rw [← hkeys, name?, ← Option.isSome_iff_exists, List.lookup_isSome_iff, List.mem_map]
  exact exists_congr fun page => and_congr_right fun _ => beq_iff_eq.trans eq_comm

/-- Links lead to the ids of views, whatever stands before them. -/
theorem href?_leadingTo_eq_some_iff (lead : String) :
    ((ofViews vs).leadingTo lead).href? id = some target ↔
      id ∈ vs.map (·.id) ∧ target = lead ++ id ++ ".md" := by
  rw [← exists_name?_iff, href?, Option.map_eq_some_iff]
  constructor
  · rintro ⟨name, hname, rfl⟩
    exact ⟨⟨name, hname⟩, rfl⟩
  · rintro ⟨⟨name, hname⟩, rfl⟩
    exact ⟨name, hname, rfl⟩

theorem href?_ofViews_eq_some_iff :
    (ofViews vs).href? id = some target ↔ id ∈ vs.map (·.id) ∧ target = id ++ ".md" := by
  have h : ((ofViews vs).leadingTo "").href? id = some target ↔
      id ∈ vs.map (·.id) ∧ target = "" ++ id ++ ".md" := href?_leadingTo_eq_some_iff ""
  rw [String.empty_append] at h
  exact h

end Links

/-! ## Links from pages -/

/-- Where a link leads that stands on a page: its target, joined as a path to the directory of the
page. -/
def Page.linkedPath (page target : String) : String :=
  Path.join (Path.parent page) target

/-- A page as it is written span by span. -/
structure SpanPage where
  path : String
  spans : List Page.Span

namespace SpanPage

def page (p : SpanPage) : Page :=
  ⟨p.path, Page.markdown p.spans⟩

/-- A link on a page leads to a path. A link is one of the spans that the page is written from, so
words of a page that only look like a link are none. -/
def LinksTo (p : SpanPage) (label path : String) : Prop :=
  ∃ target, .link label target ∈ p.spans ∧ Page.linkedPath p.path target = path

end SpanPage

namespace Generation

variable {s : Settings} {files loaded after : FileTree} {es : List Entity} {title : Option String}
  {input out id directory : String} {outputs : List WrittenDocs} {docs : PreparedDocs}

/-- The index of a language. -/
def markdownIndex (title : Option String) (directory : String) (docs : PreparedDocs) :
    SpanPage where
  path := Path.join directory ("index." ++ Page.extension)
  spans :=
    Page.indexSpans (Links.ofViews docs.views) title docs.language docs.views docs.guides

/-- The page of an entity. -/
def markdownEntity (directory : String) (docs : PreparedDocs) (v : EntityView) : SpanPage where
  path := pagePath directory Page.entityDirectory v.id Page.extension
  spans := Page.entitySpans (Links.ofViews docs.views) v

/-- The pages of one language as files that link to each other. -/
structure Linked (title : Option String) (es : List Entity) (docs : PreparedDocs)
    (directory : String) (files : List String) : Prop where
  /-- The index is written from its spans. -/
  index : (markdownIndex title directory docs).page ∈ pages (.markdown title) directory docs
  /-- The pages of entities are written from their spans. -/
  entities : ∀ v ∈ docs.views,
    (markdownEntity directory docs v).page ∈ pages (.markdown title) directory docs
  indexLinks : ∀ label path, (markdownIndex title directory docs).LinksTo label path → path ∈ files
  entityLinks : ∀ v ∈ docs.views, ∀ label path,
    (markdownEntity directory docs v).LinksTo label path → path ∈ files
  listsEntities : ∀ e ∈ es, e.isRetained docs.language = true →
    (markdownIndex title directory docs).LinksTo e.descriptor.name
      (pagePath directory Page.entityDirectory e.id Page.extension)
  listsGuides : ∀ g ∈ docs.guides,
    (markdownIndex title directory docs).LinksTo g.name
      (pagePath directory Page.guideDirectory g.id Page.extension)

/-- The index and the pages of entities as they are read after a run. The pages of views with one id
have one file, and one of them is read there. -/
structure Shown (title : Option String) (docs : PreparedDocs) (directory : String)
    (after : FileTree) : Prop where
  index : after.read (markdownIndex title directory docs).path =
    .ok (markdownIndex title directory docs).page.text
  entities : ∀ v ∈ docs.views, ∃ v' ∈ docs.views, v'.id = v.id ∧
    after.read (markdownEntity directory docs v).path =
      .ok (markdownEntity directory docs v').page.text

theorem isIdle_of_getLast? {path : String} {c : Char} (h : path.toList.getLast? = some c)
    (hc : c ≠ '.') : Path.isIdle path = false := by
  rw [← Bool.not_eq_true, Path.isIdle_iff]
  rintro (rfl | rfl)
  · cases h
  · exact hc (Option.some.inj h).symm

/-- The name of a page is a name. -/
theorem isIdle_fileName (id : String) : Path.isIdle (id ++ "." ++ Page.extension) = false :=
  isIdle_of_getLast? (getLast?_fileName rfl id) (show 'd' ≠ '.' by decide)

theorem fileName_eq (id : String) : id ++ ".md" = id ++ "." ++ Page.extension := by
  rw [Page.extension, String.append_assoc]
  rfl

/-- From the index, a path through a directory leads to what is written in it. -/
theorem linkedPath_index (hdirectory : Path.EndsInName directory) (inside : String)
    (hinside : '/' ∉ inside.toList) (hidle : Path.isIdle inside = false) (hid : '/' ∉ id.toList) :
    Page.linkedPath (Path.join directory ("index." ++ Page.extension))
        (inside ++ "/" ++ id ++ ".md") =
      pagePath directory inside id Page.extension := by
  have hfile : Path.isAbsolute (id ++ "." ++ Page.extension) = false :=
    Path.isAbsolute_of_notMem (notMem_fileName hid (by decide))
  have htarget : inside ++ "/" ++ id ++ ".md" = inside ++ "/" ++ (id ++ "." ++ Page.extension) := by
    rw [← fileName_eq, String.append_assoc]
  rw [Page.linkedPath, Path.parent_join hdirectory (by decide) (by decide), htarget, pagePath,
    Path.join_join hdirectory hinside hidle hfile]

/-- From the page of an entity, the name of a file leads to what is written beside it. -/
theorem linkedPath_entity (directory id' : String) (hid : '/' ∉ id.toList) :
    Page.linkedPath (pagePath directory Page.entityDirectory id Page.extension) (id' ++ ".md") =
      pagePath directory Page.entityDirectory id' Page.extension := by
  have hinside : Path.EndsInName (Path.join directory Page.entityDirectory) :=
    Path.endsInName_join directory (by decide) (by decide)
  rw [Page.linkedPath, pagePath, Path.parent_join hinside (notMem_fileName hid (by decide))
    (isIdle_fileName id), fileName_eq]
  rfl

/-- What the index links to. -/
theorem mem_indexSpans {l : Language} {links : Links} {vs : List EntityView} {guides : List Guide}
    {label target : String} :
    .link label target ∈ Page.indexSpans links title l vs guides ↔
      (∃ g ∈ guides, label = g.name ∧ target = Page.guideDirectory ++ "/" ++ g.id ++ ".md") ∨
      ∃ v ∈ vs, label = v.name ∧
        target = ((links.leadingTo (Page.entityDirectory ++ "/")).href? v.id).getD "" := by
  have hguides : .link label target ∈ (if guides.isEmpty then []
      else .text "## Guides\n\n" :: (guides.flatMap Page.guideSpans ++ [.text "\n"])) ↔
      ∃ g ∈ guides, label = g.name ∧
        target = Page.guideDirectory ++ "/" ++ g.id ++ ".md" := by
    cases guides <;> simp [Page.guideSpans]
  have hentities : .link label target ∈ vs.flatMap (Page.entityLineSpans links) ↔ ∃ v ∈ vs,
      label = v.name ∧
        target = ((links.leadingTo (Page.entityDirectory ++ "/")).href? v.id).getD "" := by
    simp [Page.entityLineSpans]
  rw [Page.indexSpans]
  simp only [List.mem_cons, List.mem_append, hguides, hentities, reduceCtorEq, false_or]

/-- The view of an entity shows its name. -/
theorem name_of_view {rules : ViewRules} {l : Language} {e : Entity} {v : EntityView}
    (h : Entity.view rules l e = .ok (some v)) : v.name = e.descriptor.name :=
  (Entity.viewedAs h).name

theorem mem_pages_index :
    (markdownIndex title directory docs).page ∈ pages (.markdown title) directory docs := by
  simp only [pages, List.mem_append, List.mem_singleton]
  exact .inl (.inl (.inr (congrArg (Page.mk _) (Page.indexText_eq ..).symm)))

theorem mem_pages_guide {g : Guide} (hg : g ∈ docs.guides) :
    pagePath directory Page.guideDirectory g.id Page.extension ∈
      (pages (.markdown title) directory docs).map (·.path) := by
  refine List.mem_map.mpr ⟨⟨_, g.content⟩, ?_, rfl⟩
  simp only [pages, List.mem_append, List.mem_map]
  exact .inl (.inr ⟨g, hg, rfl⟩)

theorem mem_pages_entity {v : EntityView} (hv : v ∈ docs.views) :
    (markdownEntity directory docs v).page ∈ pages (.markdown title) directory docs := by
  rw [markdownEntity, SpanPage.page, ← Page.entityText_eq]
  exact page_mem_pages hv directory

/-- The page of every id that has a view is written. -/
theorem mem_pages_id (hid : id ∈ docs.views.map (·.id)) :
    pagePath directory Page.entityDirectory id Page.extension ∈
      (pages (.markdown title) directory docs).map (·.path) := by
  obtain ⟨v, hv, rfl⟩ := List.mem_map.mp hid
  exact List.mem_map.mpr ⟨_, mem_pages_entity hv, rfl⟩

/-- The line of a view in the index links to its page. -/
theorem markdownIndex_linksTo_entity (hids : docs.PlainIds) (hdirectory : Path.EndsInName directory)
    {v : EntityView} (hv : v ∈ docs.views) :
    (markdownIndex title directory docs).LinksTo v.name
      (pagePath directory Page.entityDirectory v.id Page.extension) := by
  have hhref := (Links.href?_leadingTo_eq_some_iff (Page.entityDirectory ++ "/")).mpr
    ⟨List.mem_map_of_mem hv, rfl⟩
  refine ⟨_, mem_indexSpans.mpr (.inr ⟨v, hv, rfl, rfl⟩), ?_⟩
  rw [hhref]
  exact linkedPath_index hdirectory _ (by decide) (by decide) (hids.views v hv)

/-- The line of a guide in the index links to its page. -/
theorem markdownIndex_linksTo_guide (hids : docs.PlainIds) (hdirectory : Path.EndsInName directory)
    {g : Guide} (hg : g ∈ docs.guides) :
    (markdownIndex title directory docs).LinksTo g.name
      (pagePath directory Page.guideDirectory g.id Page.extension) :=
  ⟨_, mem_indexSpans.mpr (.inl ⟨g, hg, rfl, rfl⟩),
    linkedPath_index hdirectory _ (by decide) (by decide) (hids.guides g hg)⟩

/-- Every link of the index is one of a line. -/
theorem mem_pages_of_markdownIndex_linksTo (hids : docs.PlainIds)
    (hdirectory : Path.EndsInName directory) {label path : String}
    (h : (markdownIndex title directory docs).LinksTo label path) :
    path ∈ (pages (.markdown title) directory docs).map (·.path) := by
  obtain ⟨target, hlink, rfl⟩ := h
  rcases mem_indexSpans.mp hlink with ⟨g, hg, -, rfl⟩ | ⟨v, hv, -, rfl⟩
  · have hpath := linkedPath_index hdirectory Page.guideDirectory (by decide)
      (by decide) (hids.guides g hg)
    exact hpath ▸ mem_pages_guide hg
  · have hhref := (Links.href?_leadingTo_eq_some_iff (Page.entityDirectory ++ "/")).mpr
      ⟨List.mem_map_of_mem hv, rfl⟩
    have hpath := linkedPath_index hdirectory Page.entityDirectory (by decide)
      (by decide) (hids.views v hv)
    rw [hhref]
    exact hpath ▸ mem_pages_id (List.mem_map_of_mem hv)

/-- Every link on the page of an entity is one of a type. -/
theorem mem_pages_of_markdownEntity_linksTo (hids : docs.PlainIds) {v : EntityView}
    (hv : v ∈ docs.views) {label path : String}
    (h : (markdownEntity directory docs v).LinksTo label path) :
    path ∈ (pages (.markdown title) directory docs).map (·.path) := by
  obtain ⟨target, hlink, rfl⟩ := h
  rcases Page.mem_entitySpans hlink with htype | ⟨id, hanchor⟩
  · cases htype with
    | link id hhref =>
      obtain ⟨hid, rfl⟩ := Links.href?_ofViews_eq_some_iff.mp hhref
      have hpath := linkedPath_entity directory id (hids.views v hv)
      exact hpath ▸ mem_pages_id hid
  · cases hanchor

theorem linked_pages (hids : docs.PlainIds) (hdirectory : Path.EndsInName directory)
    (hviews : Entity.views s.rules docs.language es = .ok docs.views) :
    Linked title es docs directory
      ((pages (.markdown title) directory docs).map (·.path)) where
  index := mem_pages_index
  entities _ hv := mem_pages_entity hv
  indexLinks _ _ h := mem_pages_of_markdownIndex_linksTo hids hdirectory h
  entityLinks _ hv _ _ h := mem_pages_of_markdownEntity_linksTo hids hv h
  listsEntities e he hretained := by
    obtain ⟨v, hv, hview, hid⟩ := Entity.exists_view hviews he hretained
    rw [← hid, ← name_of_view hview]
    exact markdownIndex_linksTo_entity hids hdirectory hv
  listsGuides _ hg := markdownIndex_linksTo_guide hids hdirectory hg

/-! ## Runs -/

theorem shown_pages {inputs : List PreparedDocs}
    (hwritten : Written files (allPages (.markdown title) out inputs) after)
    (hids : ∀ other ∈ inputs, other.PlainIds)
    (hothers : ∀ other ∈ inputs, other.language = docs.language → other = docs)
    (hdocs : docs ∈ inputs) : Shown title docs (Path.join out docs.language.tag) after where
  index := by
    obtain ⟨p, hp, hread⟩ := exists_read_page hwritten hids hothers hdocs mem_pages_index
      (liesAt_index (notMem_extension title))
    exact hread.trans (congrArg Except.ok (hp.text_index.trans (Page.indexText_eq ..)))
  entities v hv := by
    obtain ⟨p, hp, hread⟩ := exists_read_page hwritten hids hothers hdocs (mem_pages_entity hv)
      (liesAt_document ((hids docs hdocs).views v hv) page_mem_documentExtensions)
    obtain ⟨v', hv', hid, htext⟩ := hp.exists_page
    exact ⟨v', hv', hid, hread.trans (congrArg Except.ok (htext.trans (Page.entityText_eq ..)))⟩

/-- **No link leads nowhere**: in every language, each link of the index and of the pages of
entities leads to a file that was written, and the index links to all retained entities and all
guides. A link is a span of a page whose target is joined as a path to the directory of that page,
and what is read of the index and of the pages of entities after the run is written from these
spans. -/
theorem renderDocs_linked (hload : Entity.load loaded input = .ok es)
    (h : renderDocs s (.markdown title) files es out = (after, .ok outputs)) :
    outputs.map (·.language) = s.languages ∧
      ∀ w ∈ outputs, ∃ docs, prepare s files es w.language = .ok docs ∧
        w.files = (pages (.markdown title) w.directory docs).map (·.path) ∧
        (∀ path ∈ w.files, ∃ place text, after.find path = .ok (place, .file text)) ∧
        Linked title es docs w.directory w.files ∧ Shown title docs w.directory after := by
  obtain ⟨inputs, hlanguages, hinputs, rfl, hwritten⟩ :=
    renderDocs_written (notMem_extension title) (Entity.notMem_id_of_load hload) h
  refine ⟨by rw [List.map_map]; exact hlanguages, fun w hw => ?_⟩
  obtain ⟨docs, hdocs, rfl⟩ := List.mem_map.mp hw
  obtain ⟨hids, hprepare⟩ := hinputs docs hdocs
  obtain ⟨-, hviews, -⟩ := prepare_eq_ok hprepare
  have hothers : ∀ other ∈ inputs, other.language = docs.language → other = docs :=
    fun other hother => eq_of_prepare rfl rfl hprepare (hinputs other hother).2
  have hdirectory : Path.EndsInName (Path.join out docs.language.tag) :=
    Path.endsInName_join out docs.language.notMem_tag (by cases docs.language <;> decide)
  refine ⟨docs, hprepare, rfl, fun path hpath => ?_, linked_pages hids hdirectory hviews,
    shown_pages hwritten (fun other hother => (hinputs other hother).1) hothers hdocs⟩
  obtain ⟨p, hp, rfl⟩ := List.mem_map.mp hpath
  obtain ⟨place, text, -, hfind⟩ := hwritten.found p (List.mem_flatMap_of_mem hdocs hp)
  exact ⟨place, text, hfind⟩

/-- The documentation of two entities and a guide. The page of the first entity links to the second
as its base and as an element of a type argument. -/
theorem renderDocs_linked_guide :
    let s : Settings := { languages := [.js], guides := some "guides" }
    let files : FileTree := { entries := [(["api"], .directory),
      (["api", "button.yaml"], .file ("name: Button\ntype: class\ninherit: View\nproperties:\n" ++
        "  - property: std::tuple<int, std::vector<View>> parts\n")),
      (["api", "view.json"], .file "\x7b\"name\": \"View\", \"type\": \"class\"\x7d"),
      (["guides"], .directory), (["guides", "start.md"], .file "# Start\n")] }
    let paths := ["docs/js/api/button.json", "docs/js/api/view.json", "docs/js/index.md",
      "docs/js/guides/start.md", "docs/js/api/button.md", "docs/js/api/view.md"]
    ∃ es after docs, Entity.load files "api" = .ok es ∧
      renderDocs s (.markdown none) files es "docs" = (after, .ok [⟨.js, "docs/js", paths⟩]) ∧
      prepare s files es .js = .ok docs ∧ es.map (·.descriptor.name) = ["Button", "View"] ∧
      Linked none es docs "docs/js" paths ∧ Shown none docs "docs/js" after := by
  intro s files paths
  let loaded := Entity.loadNames files "api" ["api"] ["button.yaml", "view.json"]
  have hload : Entity.load files "api" = .ok (loaded.toOption.getD []) :=
    Entity.load_of_names (by decide +kernel) (by decide +kernel) (by decide +kernel)
      (by decide +kernel) (by decide +kernel)
  have houtputs : (renderDocs s (.markdown none) files
      (loaded.toOption.getD []) "docs").2.toOption = some [⟨.js, "docs/js", paths⟩] := by
    decide +kernel
  have hrun := FileTree.eq_ok_of_toOption houtputs
  obtain ⟨-, hlinked⟩ := renderDocs_linked hload hrun
  obtain ⟨docs, hprepare, -, -, hdocs⟩ := hlinked _ (List.mem_singleton_self _)
  exact ⟨_, _, docs, hload, hrun, hprepare, by decide +kernel, hdocs⟩

end Generation

end ApiSurface
