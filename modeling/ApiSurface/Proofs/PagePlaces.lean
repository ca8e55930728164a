import ApiSurface.Proofs.WrittenPages

/-!
# Where the pages of a language go

Ids are stems of file names, so no id holds a slash. The names in the path of a page are therefore
those of the output path, the tag of the language and one or two more that do not lead out of the
directory of the language (`leadsInside_of_mem_pages`).
-/

namespace ApiSurface

namespace Place

variable {place q : Place} {name inside : String} {ns ms : List String}

theorem prefix_of_parent?_concat (h : parent? (place ++ [name]) = some q) : place <+: q := by
  rw [parent?.eq_def] at h
  split at h
  · cases h
  · next hroot =>
    obtain ⟨rfl, -⟩ := (List.append_eq_singleton_iff.mp hroot).resolve_right (by simp)
    exact List.nil_prefix
  · cases h
    rw [List.dropLast_concat]

/-- One name inside and perhaps another one do not lead above the place they start from. -/
theorem prefix_of_follow (hinside : inside ≠ "..") (hns : ns.length ≤ 1) (hms : ms <+: inside :: ns)
    (h : place.follow ms = some q) : place <+: q := by
  cases ms with
  | nil =>
    cases h
    exact List.prefix_rfl
  | cons m ms =>
    obtain ⟨rfl, hrest⟩ := List.cons_prefix_cons.mp hms
    rw [follow_cons, step?, if_neg hinside, Option.bind_some] at h
    cases ms with
    | nil =>
      cases h
      exact List.prefix_append place [m]
    | cons f ms =>
      have hlength := hrest.length_le.trans hns
      obtain rfl : ms = [] := List.eq_nil_of_length_eq_zero (by simpa using hlength)
      rw [follow_cons, step?] at h
      split at h
      · obtain ⟨above, habove, h⟩ := Option.bind_eq_some_iff.mp h
        cases h
        exact prefix_of_parent?_concat habove
      · cases h
        exact (List.prefix_append place [m]).trans (List.prefix_append _ [f])

end Place

namespace Language

theorem notMem_tag (l : Language) : '/' ∉ l.tag.toList := by
  cases l <;> decide

theorem tag_ne_dots (l : Language) : l.tag ≠ ".." := by
  cases l <;> decide

theorem tag_injective {l m : Language} (h : l.tag = m.tag) : l = m :=
  Option.some.inj (by rw [← ofTag?_tag l, h, ofTag?_tag])

theorem names_tag (l : Language) : Path.names l.tag = [l.tag] := by
  cases l <;> decide

/-- The path of the directory of a language is not empty and does not end in a slash. -/
theorem join_tag (out : String) (l : Language) :
    Path.join out l.tag ≠ "" ∧ Path.endsInSlash (Path.join out l.tag) = false := by
  obtain ⟨front, hfront⟩ := Path.exists_toList_join out l.tag
  constructor
  · intro hempty
    rw [hempty] at hfront
    cases l <;> simp [tag] at hfront
  · rw [Path.endsInSlash, hfront]
    cases l <;> simp [tag]

end Language

/-- The directory of a language has its tag for a name. -/
theorem FileTree.place?_join_tag (t : FileTree) (out : String) (l : Language) :
    t.place? (Path.join out l.tag) = (t.place? out).map (· ++ [l.tag]) := by
  have htag := Path.isAbsolute_of_notMem l.notMem_tag
  rw [place?, start, Path.isAbsolute_join htag, Path.names_join htag, Language.names_tag, ← start,
    Place.follow_append]
  show Option.bind (t.place? out) (fun place => place.follow [l.tag]) = _
  cases t.place? out with
  | none => rfl
  | some place =>
    rw [Option.bind_some, Place.follow_of_notMem (by simpa using l.tag_ne_dots.symm)]
    rfl

/-! ## Ids -/

variable {s : Settings} {r : Renderer} {files after : FileTree} {es : List Entity} {input : String}
  {out : String} {l : Language} {p : Page} {q : Place} {prepared : PreparedDocs}

/-- Every loaded entity is that of a file. -/
theorem Entity.exists_loadFile {e : Entity} (h : Entity.load files input = .ok es) (he : e ∈ es) :
    ∃ path, loadFile files path = .ok e := by
  obtain ⟨paths, hpaths⟩ : ∃ paths, loadFiles files paths = .ok es := by
    rw [load, loadBy] at h
    split at h
    · exact ⟨_, h⟩
    · split at h
      · split at h
        · cases h
        · exact ⟨_, h⟩
      · exact ⟨_, h⟩
  obtain ⟨path, -, hpath⟩ := exists_mem_of_mapM_eq_ok hpaths he
  exact ⟨path, hpath⟩

/-- The id of an entity is the stem of its file. -/
theorem Entity.id_of_loadFile {e : Entity} {path : String} (h : loadFile files path = .ok e) :
    e.id = Path.stem path := by
  rw [loadFile] at h
  split at h
  · cases h
  · obtain ⟨d, -, rfl⟩ := map_eq_ok.mp h
    rfl

theorem Entity.notMem_id_of_load (h : Entity.load files input = .ok es) :
    ∀ e ∈ es, '/' ∉ e.id.toList := by
  intro e he
  obtain ⟨path, hpath⟩ := exists_loadFile h he
  rw [id_of_loadFile hpath]
  exact Path.notMem_stem path

/-- Whether an entity is retained in a language. -/
def Entity.isRetained (l : Language) (e : Entity) : Bool :=
  retained e.descriptor.languages l

/-- The view of an entity has its id, and there is one exactly where the entity is retained. -/
theorem Entity.view_eq_ok {rules : ViewRules} {e : Entity} {v? : Option EntityView}
    (h : Entity.view rules l e = .ok v?) :
    v?.map (·.id) = if e.isRetained l then some e.id else none := by
  rw [isRetained]
  rw [view] at h
  dsimp only at h
  split at h
  · next hretained =>
    obtain ⟨base, -, h⟩ := bind_eq_ok.mp h
    obtain ⟨members, -, h⟩ := bind_eq_ok.mp h
    cases h
    rw [if_pos hretained]
    rfl
  · next hretained =>
    cases h
    rw [if_neg hretained]
    rfl

/-- Every retained entity has a view among those of a list. -/
theorem Entity.exists_view {rules : ViewRules} {vs : List EntityView} {e : Entity}
    (h : Entity.views rules l es = .ok vs) (he : e ∈ es) (hretained : e.isRetained l = true) :
    ∃ v ∈ vs, Entity.view rules l e = .ok (some v) ∧ v.id = e.id := by
  obtain ⟨vs?, hvs, rfl⟩ := map_eq_ok.mp h
  obtain ⟨v?, hmem, hview⟩ := exists_of_mapM_eq_ok hvs he
  have hid := view_eq_ok hview
  rw [if_pos hretained] at hid
  obtain ⟨v, rfl, hv⟩ := Option.map_eq_some_iff.mp hid
  exact ⟨v, List.mem_filterMap.mpr ⟨_, hmem, rfl⟩, hview, hv⟩

/-- The views have the ids of the retained entities, in their order. -/
theorem Entity.ids_of_views {rules : ViewRules} {vs : List EntityView}
    (h : Entity.views rules l es = .ok vs) :
    vs.map (·.id) = (es.filter (isRetained l)).map (·.id) := by
  obtain ⟨vs?, hvs, rfl⟩ := map_eq_ok.mp h
  have hviews := mapM_eq_ok_iff.mp hvs
  clear h hvs
  induction hviews with
  | nil => rfl
  | @cons e v? es vs? hv hrest ih =>
    have hid := view_eq_ok hv
    cases v? with
    | none =>
      have hout : ¬ e.isRetained l = true := by
        intro hretained
        rw [if_pos hretained] at hid
        cases hid
      rw [List.filter_cons_of_neg hout]
      exact ih
    | some v =>
      have hretained : e.isRetained l = true := by
        by_contra hout
        rw [if_neg hout] at hid
        cases hid
      rw [if_pos hretained, Option.map_some, Option.some.injEq] at hid
      rw [List.filter_cons_of_pos hretained, List.map_cons, ← ih, ← hid]
      rfl

theorem Guide.notMem_id_of_loadDirectory {directory : String} {gs : List Guide}
    (h : Guide.loadDirectory files directory l = .ok gs) : ∀ g ∈ gs, '/' ∉ g.id.toList := by
  rw [loadDirectory] at h
  split at h
  · cases h
  · refine forall_mem_of_mapM_eq_ok (fun path g hg => ?_) h
    split at hg
    · cases hg
    · obtain ⟨_, -, rfl⟩ := map_eq_ok.mp hg
      exact Path.notMem_stem path
  · cases h

theorem Guide.notMem_id_of_load {directory : String} {gs : List Guide}
    (h : Guide.load files directory l = .ok gs) : ∀ g ∈ gs, '/' ∉ g.id.toList := by
  obtain ⟨common, hcommon, h⟩ := bind_eq_ok.mp h
  obtain ⟨own, hown, rfl⟩ : ∃ own, (∀ g ∈ own, '/' ∉ g.id.toList) ∧
      (common ++ own).mergeSort (fun g h => decide (h.priority ≤ g.priority)) = gs := by
    dsimp only at h
    split at h
    · obtain ⟨own, hown, h⟩ := bind_eq_ok.mp h
      exact ⟨own, notMem_id_of_loadDirectory hown, Except.ok.inj h⟩
    · exact ⟨[], List.forall_mem_nil _, Except.ok.inj h⟩
  intro g hg
  rcases List.mem_append.mp (List.mem_mergeSort.mp hg) with hg | hg
  · exact notMem_id_of_loadDirectory hcommon g hg
  · exact hown g hg

/-- Documentation whose views and guides have ids without slashes. -/
structure PreparedDocs.PlainIds (prepared : PreparedDocs) : Prop where
  views : ∀ v ∈ prepared.views, '/' ∉ v.id.toList
  guides : ∀ g ∈ prepared.guides, '/' ∉ g.id.toList

namespace Generation

theorem prepare_eq_ok (h : prepare s files es l = .ok prepared) :
    prepared.language = l ∧ Entity.views s.rules l es = .ok prepared.views ∧
      ((∀ e ∈ es, '/' ∉ e.id.toList) → prepared.PlainIds) := by
  obtain ⟨views, hviews, h⟩ := bind_eq_ok.mp h
  obtain ⟨guides, hguides, rfl⟩ : ∃ guides, (∀ g ∈ guides, '/' ∉ g.id.toList) ∧
      { language := l, views, guides } = prepared := by
    dsimp only at h
    split at h
    · obtain ⟨guides, hguides, h⟩ := bind_eq_ok.mp h
      exact ⟨guides, Guide.notMem_id_of_load (ok_of_mapError hguides), Except.ok.inj h⟩
    · exact ⟨[], List.forall_mem_nil _, Except.ok.inj h⟩
  have hviews := ok_of_mapError hviews
  refine ⟨rfl, hviews, fun hids => ⟨fun v hv => ?_, hguides⟩⟩
  · have hid : v.id ∈ (es.filter (Entity.isRetained l)).map (·.id) := by
      rw [← Entity.ids_of_views hviews]
      exact List.mem_map_of_mem hv
    obtain ⟨e, he, heq⟩ := List.mem_map.mp hid
    exact heq ▸ hids e (List.mem_of_mem_filter he)

/-! ## Pages -/

theorem notMem_fileName {id extension : String} (hid : '/' ∉ id.toList)
    (hextension : '/' ∉ extension.toList) : '/' ∉ (id ++ "." ++ extension).toList := by
  rw [String.toList_append, String.toList_append, show ".".toList = ['.'] from rfl]
  simp [hid, hextension]

variable {directory inside file id extension : String}

theorem names_file (hinside : '/' ∉ inside.toList) (hfile : '/' ∉ file.toList) :
    Path.names (Path.join (Path.join directory inside) file) =
      Path.names directory ++ (Path.names inside ++ Path.names file) := by
  rw [Path.names_join (Path.isAbsolute_of_notMem hfile),
    Path.names_join (Path.isAbsolute_of_notMem hinside), List.append_assoc]

theorem isAbsolute_file (hinside : '/' ∉ inside.toList) (hfile : '/' ∉ file.toList) :
    Path.isAbsolute (Path.join (Path.join directory inside) file) = Path.isAbsolute directory := by
  rw [Path.isAbsolute_join (Path.isAbsolute_of_notMem hfile),
    Path.isAbsolute_join (Path.isAbsolute_of_notMem hinside)]

/-- The names in a path behind those of the output path, with what keeps them in the directory of
the language: only the last of them may lead upwards. -/
structure LeadsInside (out : String) (l : Language) (path : String) : Prop where
  isAbsolute : Path.isAbsolute path = Path.isAbsolute out
  names : ∃ inside ns, inside ≠ ".." ∧ ns.length ≤ 1 ∧
    Path.names path = Path.names out ++ l.tag :: inside :: ns

theorem leadsInside_pagePath (hinside : Path.names inside = [inside]) (hdots : inside ≠ "..")
    (hslash : '/' ∉ inside.toList) (hid : '/' ∉ id.toList) (hextension : '/' ∉ extension.toList) :
    LeadsInside out l (pagePath (Path.join out l.tag) inside id extension) := by
  have hfile := notMem_fileName hid hextension
  have htag := Path.isAbsolute_of_notMem (Language.notMem_tag l)
  refine ⟨?_, inside, _, hdots, Path.length_names_le_one hfile, ?_⟩
  · rw [pagePath, isAbsolute_file hslash hfile, Path.isAbsolute_join htag]
  · rw [pagePath, names_file hslash hfile, Path.names_join htag, Language.names_tag, hinside]
    simp

theorem notMem_index (hextension : '/' ∉ extension.toList) :
    '/' ∉ ("index." ++ extension).toList := by
  rw [String.toList_append, List.mem_append, not_or]
  exact ⟨by decide, hextension⟩

theorem index_ne {text : String} (h : text.toList.head? ≠ some 'i') (extension : String) :
    "index." ++ extension ≠ text := by
  have hchars : ("index." ++ extension).toList = 'i' :: "ndex.".toList ++ extension.toList :=
    String.toList_append
  rintro rfl
  rw [hchars] at h
  exact h rfl

theorem names_index (hextension : '/' ∉ extension.toList) :
    Path.names (Path.join (Path.join out l.tag) ("index." ++ extension)) =
      Path.names out ++ [l.tag, "index." ++ extension] := by
  have hslash := notMem_index hextension
  have hidle : Path.isIdle ("index." ++ extension) = false := by
    rw [← Bool.not_eq_true, Path.isIdle_iff, not_or]
    exact ⟨index_ne (by decide) _, index_ne (by decide) _⟩
  rw [Path.names_join (Path.isAbsolute_of_notMem hslash),
    Path.names_join (Path.isAbsolute_of_notMem (Language.notMem_tag l)), Language.names_tag,
    Path.names_of_notMem hslash hidle]
  simp

theorem leadsInside_index (hextension : '/' ∉ extension.toList) :
    LeadsInside out l (Path.join (Path.join out l.tag) ("index." ++ extension)) where
  isAbsolute := by
    rw [Path.isAbsolute_join (Path.isAbsolute_of_notMem (notMem_index hextension)),
      Path.isAbsolute_join (Path.isAbsolute_of_notMem (Language.notMem_tag l))]
  names := ⟨_, [], index_ne (by decide) _, Nat.zero_le _, names_index hextension⟩

theorem leadsInside_of_mem_pages (hextension : '/' ∉ r.extension.toList)
    (hids : prepared.PlainIds)
    (hp : p ∈ pages r (Path.join out prepared.language.tag) prepared) :
    LeadsInside out prepared.language p.path := by
  simp only [pages, List.mem_append, List.mem_map, List.mem_singleton] at hp
  obtain ((⟨v, hv, rfl⟩ | rfl) | ⟨g, hg, rfl⟩) | ⟨v, hv, rfl⟩ := hp
  · exact leadsInside_pagePath (by decide) (by decide) (by decide) (hids.views v hv) (by decide)
  · exact leadsInside_index hextension
  · exact leadsInside_pagePath (by decide) (by decide) (by decide) (hids.guides g hg) hextension
  · exact leadsInside_pagePath (by decide) (by decide) (by decide) (hids.views v hv) hextension

namespace LeadsInside

variable {path : String} {ms : List String}

theorem start (h : LeadsInside out l path) (t : FileTree) : t.start path = t.start out := by
  rw [FileTree.start, FileTree.start, h.isAbsolute]

theorem names_ne_nil (h : LeadsInside out l path) : Path.names path ≠ [] := by
  obtain ⟨inside, ns, -, -, hnames⟩ := h.names
  simp [hnames]

/-- Names behind the tag do not lead out of the directory of the language. -/
theorem inside_of_follow {inside : String} {ns : List String} (hinside : inside ≠ "..")
    (hns : ns.length ≤ 1) (hms : ms <+: inside :: ns)
    (hq : (files.start out).follow (Path.names out ++ l.tag :: ms) = some q) :
    ∃ d, files.place? (Path.join out l.tag) = some d ∧ d <+: q := by
  rw [Place.follow_append] at hq
  obtain ⟨place, hplace, hq⟩ := Option.bind_eq_some_iff.mp hq
  have hout : files.place? out = some place := hplace
  rw [Place.follow_cons, Place.step?, if_neg l.tag_ne_dots, Option.bind_some] at hq
  refine ⟨place ++ [l.tag], ?_, Place.prefix_of_follow hinside hns hms hq⟩
  rw [FileTree.place?_join_tag, hout]
  rfl

/-- A page lies in the directory of its language. -/
theorem inside_of_place? (h : LeadsInside out l path) (hq : files.place? path = some q) :
    ∃ d, files.place? (Path.join out l.tag) = some d ∧ d <+: q := by
  obtain ⟨inside, ns, hinside, hns, hnames⟩ := h.names
  rw [FileTree.place?, h.start, hnames] at hq
  exact inside_of_follow hinside hns List.prefix_rfl hq

/-- The directory of a page is reached through the output path and inside the directory of its
language. -/
theorem inside_of_through (h : LeadsInside out l path)
    (hq : q ∈ files.through (Path.parent path)) :
    q ∈ files.through out ∨ ∃ d, files.place? (Path.join out l.tag) = some d ∧ d <+: q := by
  obtain ⟨inside, ns, hinside, hns, hnames⟩ := h.names
  rw [FileTree.through_parent _ h.names_ne_nil, h.start, hnames] at hq
  obtain ⟨ms, hms, hfollow⟩ := Place.mem_through.mp hq
  have hms := hms.trans (List.dropLast_prefix _)
  obtain hout | ⟨ks, rfl⟩ := List.prefix_or_prefix_of_prefix hms (List.prefix_append _ _)
  · exact .inl (Place.mem_through.mpr ⟨ms, hout, hfollow⟩)
  · have hks := (List.prefix_append_right_inj _).mp hms
    cases ks with
    | nil =>
      rw [List.append_nil] at hfollow
      exact .inl (Place.mem_through_of_follow hfollow)
    | cons k ks =>
      obtain ⟨rfl, hrest⟩ := List.cons_prefix_cons.mp hks
      exact .inr (inside_of_follow hinside hns hrest hfollow)

/-- The directory of a page is reached through all that the output path leads through. -/
theorem through_subset (h : LeadsInside out l path) (hq : q ∈ files.through out) :
    q ∈ files.through (Path.parent path) := by
  obtain ⟨inside, ns, -, -, hnames⟩ := h.names
  rw [FileTree.through_parent _ h.names_ne_nil, h.start, hnames]
  refine Place.mem_through_mono hq ?_
  rw [List.dropLast_append_of_ne_nil (by simp)]
  exact List.prefix_append _ _

end LeadsInside

/-! ## Runs -/

/-- Preparing a language depends on the rules and the guides alone. -/
theorem prepare_congr {s' : Settings} (hrules : s.rules = s'.rules) (hguides : s.guides = s'.guides)
    (files : FileTree) (es : List Entity) (l : Language) :
    prepare s files es l = prepare s' files es l := by
  rw [prepare, prepare, hrules, hguides]

/-- There is one documentation of a language. -/
theorem eq_of_prepare {s' : Settings} {own other : PreparedDocs} (hrules : s.rules = s'.rules)
    (hguides : s.guides = s'.guides) (hown : prepare s files es own.language = .ok own)
    (hother : prepare s' files es other.language = .ok other)
    (heq : other.language = own.language) : other = own := by
  rw [heq, ← prepare_congr hrules hguides, hown] at hother
  exact (Except.ok.inj hother).symm

/-- What is prepared for a list of languages: documentation of each of them, in their order. -/
theorem languages_of_prepare {ls : List Language} {inputs : List PreparedDocs}
    (h : ls.mapM (prepare s files es) = .ok inputs) : inputs.map (·.language) = ls := by
  induction mapM_eq_ok_iff.mp h with
  | nil => rfl
  | cons hl hrest ih =>
    rw [List.map_cons, (prepare_eq_ok hl).1, ih (mapM_eq_ok_iff.mpr hrest)]

/-- What a run reports for each language: the paths of its pages. -/
theorem outputs_of_writeLanguages {inputs : List PreparedDocs} {outputs : List WrittenDocs}
    (h : writeLanguages r out files inputs = (after, .ok outputs)) :
    outputs = inputs.map fun input =>
      ⟨input.language, Path.join out input.language.tag,
        (pages r (Path.join out input.language.tag) input).map (·.path)⟩ := by
  induction inputs generalizing files outputs with
  | nil =>
    cases h
    rfl
  | cons input rest ih =>
    rw [writeLanguages] at h
    obtain ⟨mid, _, -, hlater⟩ := FileTree.andThen_eq_ok.mp h
    obtain ⟨after', outputs', hlanguages, heq⟩ := FileTree.andThen_eq_ok.mp hlater
    cases heq
    rw [ih hlanguages]
    rfl

/-- A run that succeeds has prepared all languages, reports the paths of their pages and leaves all
these pages in the tree. -/
theorem renderDocs_written {outputs : List WrittenDocs} (hextension : '/' ∉ r.extension.toList)
    (hids : ∀ e ∈ es, '/' ∉ e.id.toList)
    (h : renderDocs s r files es out = (after, .ok outputs)) :
    ∃ inputs : List PreparedDocs, inputs.map (·.language) = s.languages ∧
      (∀ input ∈ inputs, input.PlainIds ∧ prepare s files es input.language = .ok input) ∧
      (outputs = inputs.map fun input =>
        ⟨input.language, Path.join out input.language.tag,
          (pages r (Path.join out input.language.tag) input).map (·.path)⟩) ∧
      Written files (allPages r out inputs) after := by
  rw [renderDocs, FileTree.andThen_eq_ok] at h
  obtain ⟨_, inputs, hinputs, hwrite⟩ := h
  obtain ⟨rfl, hinputs⟩ := Prod.ext_iff.mp hinputs
  have hprepared : ∀ input ∈ inputs, input.PlainIds ∧
      prepare s files es input.language = .ok input := by
    intro input hinput
    obtain ⟨l, -, hl⟩ := exists_mem_of_mapM_eq_ok hinputs hinput
    obtain ⟨hlanguage, -, hplain⟩ := prepare_eq_ok hl
    exact ⟨hplain hids, hlanguage ▸ hl⟩
  refine ⟨inputs, languages_of_prepare hinputs, hprepared, outputs_of_writeLanguages hwrite,
    writeLanguages_written (fun input hinput p hp => ?_) hwrite⟩
  exact (leadsInside_of_mem_pages hextension (hprepared input hinput).1 hp).names_ne_nil

end Generation

end ApiSurface
