import ApiSurface.Proofs.DirectoryPatterns

/-!
# Loads of a directory and of the pattern over it

A directory can be loaded by its path or by the pattern of all names in it, which is made from the
path; paths are UTF-8 text, so nothing of the path is lost in the pattern. Both take the documents
directly in the directory, each once and in the order of their paths, and both fail at the first
that cannot be read or is no descriptor (`Entity.load_isOver`). Which paths the documents are found
by makes no difference to what they are: it shows only in what is said about a failure. So nothing
is asked of the search but that it finds the names of the directory (`Glob.FindsNames`).

Two directories are no match for their patterns, whatever the search. One has a directory called
`*`, which is loaded itself. The other leaves no room for a name in a path that can be opened.
-/

namespace ApiSurface.Entity

variable {search : Glob.Search} {t : FileTree} {directory pattern lead lead' name : String}
  {place : Place} {names : List String} {e : Entity} {fault : LoadError}

/-! ## What is loaded -/

/-- The documents directly in a directory: its files with an extension of a document, by the order
of their paths, each once. -/
structure ListsDocuments (t : FileTree) (directory : String) (place : Place)
    (names : List String) : Prop where
  mem : ∀ name, name ∈ names ↔
    (∃ node, t.get? (place ++ [name]) = some node ∧ node.isFile = true) ∧
      ∃ extension ∈ ["yaml", "yml", "json"], Path.extension? name = some extension
  increasing : names.Pairwise fun a b =>
    Path.le (Path.join directory a) (Path.join directory b) = true ∧
      Path.le (Path.join directory b) (Path.join directory a) = false

/-- What is loaded from a document in a directory. -/
structure IsRead (t : FileTree) (place : Place) (name : String) (e : Entity) : Prop where
  id : e.id = Path.stem name
  descriptor : ∃ text, t.get? (place ++ [name]) = some (.file text) ∧
    Descriptor.parse name text = .ok e.descriptor

/-- Why a document in a directory cannot be loaded, as it is told of a path. -/
inductive IsFault (t : FileTree) (place : Place) (name : String) : (String → LoadError) → Prop where
  | unreadable {node : FileNode} {fault : FileFault}
    (hnode : t.get? (place ++ [name]) = some node) (hfault : node.text = .error fault) :
    IsFault t place name (.unreadable · fault)
  | invalid {text : String} (htext : t.get? (place ++ [name]) = some (.file text))
    (hinvalid : Descriptor.parse name text = .error (.invalid name)) :
    IsFault t place name .invalid

/-- Two loads of the documents in a directory come to the same: the descriptors of all of them, or
what is wrong with the first document that cannot be loaded, told of paths that lead to it. -/
inductive LoadsAlike (t : FileTree) (place : Place) (names : List String) :
    Except LoadError (List Entity) → Except LoadError (List Entity) → Prop where
  | loaded (es : List Entity) (h : List.Forall₂ (IsRead t place) names es) :
    LoadsAlike t place names (.ok es) (.ok es)
  | failed (before : List String) (name : String) (after : List String) (path path' : String)
    (told : String → LoadError) (hnames : names = before ++ name :: after)
    (hbefore : ∀ name' ∈ before, ∃ e, IsRead t place name' e) (hfault : IsFault t place name told)
    (hpath : ∃ node, t.find path = .ok (place ++ [name], node))
    (hpath' : ∃ node, t.find path' = .ok (place ++ [name], node)) :
    LoadsAlike t place names (.error (told path)) (.error (told path'))

theorem isSome_ofPath?_iff (path : String) : (DocumentKind.ofPath? path).isSome = true ↔
    ∃ extension ∈ ["yaml", "yml", "json"], Path.extension? path = some extension := by
  rw [DocumentKind.ofPath?]
  split <;> simp_all

theorem listsDocuments (hdirectory : directory ≠ "")
    (hnames : ∀ name ∈ t.names place, Path.IsFileName name) :
    ListsDocuments t directory place (t.documentNames place) where
  mem name := by rw [FileTree.mem_documentNames, FileTree.isDocument_iff, isSome_ofPath?_iff]
  increasing := by
    have hfile : ∀ name ∈ t.documentNames place, Path.IsFileName name := fun name hname =>
      hnames name (FileTree.mem_names_of_isDocument (FileTree.mem_documentNames.mp hname))
    refine (t.pairwise_documentNames place).imp_of_mem fun {a b} ha hb hlt => ?_
    have hlead := Path.isLead_leadOf directory
    have ha := hfile a ha
    have hb := hfile b hb
    rw [Path.join_eq_leadOf hdirectory ha.noSlash, Path.join_eq_leadOf hdirectory hb.noSlash,
      hlead.le_append ha hb, hlead.le_append hb ha]
    exact ⟨decide_eq_true hlt.le, decide_eq_false hlt.not_ge⟩

/-! ## Loads by two leads -/

/-- A path of a document that can be walked. -/
structure Opens (t : FileTree) (lead : String) (place : Place) (name : String) : Prop where
  leads : t.Leads lead place
  isFileName : Path.IsFileName name
  size : (lead ++ name).utf8ByteSize ≤ 4095
  isDocument : t.isDocument place name = true

/-- A document that is no descriptor is invalid. -/
theorem eq_invalid_of_parse {path text : String}
    (hkind : (DocumentKind.ofPath? path).isSome = true)
    (h : Descriptor.parse path text = .error fault) : fault = .invalid path := by
  obtain ⟨kind, hkind⟩ := Option.isSome_iff_exists.mp hkind
  rw [Descriptor.parse, hkind] at h
  dsimp only at h
  split at h
  · cases h
  · exact (Except.error.inj h).symm

namespace Opens

theorem find_eq_ok (h : Opens t lead place name) :
    ∃ node, t.find (lead ++ name) = .ok (place ++ [name], node) := by
  obtain ⟨⟨node, hnode, -⟩, -⟩ := FileTree.isDocument_iff.mp h.isDocument
  exact ⟨node, (h.leads.find_eq_ok h.isFileName).mpr ⟨h.size, rfl, hnode⟩⟩

theorem loadFile_eq_ok (h : Opens t lead place name) :
    loadFile t (lead ++ name) = .ok e ↔ IsRead t place name e := by
  obtain ⟨⟨node, hnode, -⟩, hkind⟩ := FileTree.isDocument_iff.mp h.isDocument
  rw [loadFile_lead h.leads h.isFileName h.size hnode hkind]
  constructor
  · intro hload
    split at hload
    · cases hload
    · next text htext =>
      rw [FileNode.text_eq_ok_iff.mp htext] at hnode
      obtain ⟨d, hparse, rfl⟩ := map_eq_ok.mp (ok_of_mapError hload)
      exact ⟨rfl, text, hnode, hparse⟩
  · rintro ⟨hid, text, htext, hparse⟩
    obtain rfl := Option.some.inj (hnode.symm.trans htext)
    rw [FileNode.text]
    dsimp only
    rw [hparse, ← hid]
    rfl

theorem loadFile_eq_error (h : Opens t lead place name) :
    loadFile t (lead ++ name) = .error fault ↔
      ∃ told, IsFault t place name told ∧ fault = told (lead ++ name) := by
  obtain ⟨⟨node, hnode, -⟩, hkind⟩ := FileTree.isDocument_iff.mp h.isDocument
  rw [loadFile_lead h.leads h.isFileName h.size hnode hkind]
  cases htext : node.text with
  | error reason =>
    constructor
    · exact fun hload => ⟨_, .unreadable hnode htext, (Except.error.inj hload).symm⟩
    · rintro ⟨told, hfault, rfl⟩
      cases hfault with
      | unreadable hnode' hreason =>
        obtain rfl := Option.some.inj (hnode.symm.trans hnode')
        rw [Except.error.inj (htext.symm.trans hreason)]
      | invalid htext' =>
        obtain rfl := Option.some.inj (hnode.symm.trans htext')
        cases htext
  | ok text =>
    obtain rfl := FileNode.text_eq_ok_iff.mp htext
    dsimp only
    constructor
    · intro hload
      cases hparse : Descriptor.parse name text with
      | ok d =>
        rw [hparse] at hload
        cases hload
      | error reason =>
        rw [hparse] at hload
        obtain rfl := eq_invalid_of_parse hkind hparse
        exact ⟨_, .invalid hnode hparse, (Except.error.inj hload).symm⟩
    · rintro ⟨told, hfault, rfl⟩
      cases hfault with
      | unreadable hnode' hreason =>
        obtain rfl := Option.some.inj (hnode.symm.trans hnode')
        cases hreason
      | invalid htext' hparse =>
        obtain heq := Option.some.inj (hnode.symm.trans htext')
        rw [FileNode.file.inj heq, hparse]
        rfl

end Opens

/-- The documents that a lead opens are loaded just when they can be read. -/
theorem mapM_loadFile_eq_ok (h : ∀ name ∈ names, Opens t lead place name) {es : List Entity} :
    names.mapM (fun name => loadFile t (lead ++ name)) = .ok es ↔
      List.Forall₂ (IsRead t place) names es := by
  rw [mapM_eq_ok_iff]
  constructor
  · intro hload
    exact ((List.forall₂_and_left _ _).mpr ⟨h, hload⟩).imp fun _ _ hname =>
      hname.1.loadFile_eq_ok.mp hname.2
  · intro hread
    exact ((List.forall₂_and_left _ _).mpr ⟨h, hread⟩).imp fun _ _ hname =>
      hname.1.loadFile_eq_ok.mpr hname.2

/-- It makes no difference by which lead documents are loaded. -/
theorem loadsAlike (h : ∀ name ∈ names, Opens t lead place name)
    (h' : ∀ name ∈ names, Opens t lead' place name) :
    LoadsAlike t place names (names.mapM fun name => loadFile t (lead ++ name))
      (names.mapM fun name => loadFile t (lead' ++ name)) := by
  cases hload : names.mapM fun name => loadFile t (lead ++ name) with
  | ok es =>
    have hread := (mapM_loadFile_eq_ok h).mp hload
    rw [(mapM_loadFile_eq_ok h').mpr hread]
    exact .loaded es hread
  | error fault =>
    obtain ⟨before, name, after, rfl, hbefore, hname⟩ := mapM_eq_error_iff.mp hload
    have hmem : name ∈ before ++ name :: after := by simp
    have hread : ∀ name' ∈ before, ∃ e, IsRead t place name' e := fun name' hname' =>
      (hbefore name' hname').imp fun e he =>
        (h name' (List.mem_append_left _ hname')).loadFile_eq_ok.mp he
    obtain ⟨told, hfault, rfl⟩ := (h name hmem).loadFile_eq_error.mp hname
    have hfails : (before ++ name :: after).mapM (fun name => loadFile t (lead' ++ name)) =
        .error (told (lead' ++ name)) := by
      refine mapM_eq_error_iff.mpr ⟨before, name, after, rfl, fun name' hname' => ?_, ?_⟩
      · exact (hread name' hname').imp fun e he =>
          (h' name' (List.mem_append_left _ hname')).loadFile_eq_ok.mpr he
      · exact (h' name hmem).loadFile_eq_error.mpr ⟨told, hfault, rfl⟩
    rw [hfails]
    exact .failed before name after _ _ told rfl hread hfault (h name hmem).find_eq_ok
      (h' name hmem).find_eq_ok

/-! ## Directories and patterns -/

/-- The documents of a directory are loaded by a pattern that finds their names. -/
theorem loadBy_pattern_eq_mapM (hstar : t.isDirectory pattern = false)
    (hpattern : isPattern pattern = true) (hnames : ∀ name ∈ t.names place, Path.IsFileName name)
    (hfinds : Glob.FindsNames search t pattern lead place)
    (hshort : ∀ name, t.isDocument place name = true → (lead ++ name).utf8ByteSize ≤ 4095) :
    loadBy search t pattern =
      (t.documentNames place).mapM fun name => loadFile t (lead ++ name) := by
  obtain ⟨found, hfound, hmem⟩ := hfinds.found
  rw [loadBy, hstar, if_neg Bool.false_ne_true, if_pos hpattern, hfound]
  exact loadFiles_documents hfinds.leads hnames hshort hmem

/-- **A directory and the pattern over it** are loaded alike, by any search that finds the names in
the directory: all documents directly in the directory, each once and in the order of their paths,
or what is wrong with the first that cannot be loaded. -/
theorem load_isOver (hd : t.find directory = .ok (place, .directory))
    (hnames : ∀ name ∈ t.names place, Path.IsFileName name)
    (hover : Glob.IsOver directory pattern) (hstar : t.isDirectory pattern = false)
    (hfinds : Glob.FindsNames search t pattern lead place)
    (hshort : ∀ name, t.isDocument place name = true →
      (Path.join directory name).utf8ByteSize ≤ 4095 ∧ (lead ++ name).utf8ByteSize ≤ 4095) :
    ∃ names, ListsDocuments t directory place names ∧
      LoadsAlike t place names (loadBy search t directory) (loadBy search t pattern) := by
  obtain ⟨hpath, -⟩ := FileTree.resolve_eq_ok_iff.mp (FileTree.find_eq_ok.mp hd)
  have hfile : ∀ name, t.isDocument place name = true → Path.IsFileName name := fun name hname =>
    hnames name (FileTree.mem_names_of_isDocument hname)
  have hown : ∀ name, t.isDocument place name = true →
      Opens t (Path.leadOf directory) place name := by
    intro name hdocument
    have hsize := (hshort name hdocument).1
    rw [Path.join_eq_leadOf hpath.nonempty (hfile name hdocument).noSlash] at hsize
    exact ⟨FileTree.leads_of_find hd, hfile name hdocument, hsize, hdocument⟩
  have hothers : ∀ name, t.isDocument place name = true → Opens t lead place name :=
    fun name hdocument =>
      ⟨hfinds.leads, hfile name hdocument, (hshort name hdocument).2, hdocument⟩
  refine ⟨t.documentNames place, listsDocuments hpath.nonempty hnames, ?_⟩
  rw [loadBy_directory_eq_mapM hd hnames fun name hname => (hown name hname).size,
    loadBy_pattern_eq_mapM hstar hover.isPattern hnames hfinds fun name hname =>
      (hothers name hname).size]
  exact loadsAlike (fun name hname => hown name (FileTree.mem_documentNames.mp hname))
    fun name hname => hothers name (FileTree.mem_documentNames.mp hname)

/-- A directory with documents of both formats, foreign files and a directory called like a
document, by the search of a run. -/
theorem load_isOver_formats :
    let t : FileTree := { entries := [(["api"], .directory),
      (["api", ".b.yaml"], .file "name: B\ntype: class\n"),
      (["api", "a.json"], .file "\x7b\"name\": \"A\", \"type\": \"class\"\x7d"),
      (["api", "logo.png"], .binary), (["api", "notes.md"], .file "# Notes\n"),
      (["api", "old.json"], .directory)] }
    ∃ names, ListsDocuments t "api" ["api"] names ∧
      LoadsAlike t ["api"] names (loadBy Glob.paths? t "api") (loadBy Glob.paths? t "api/*") := by
  intro t
  have hd : t.find "api" = .ok (["api"], .directory) := by decide +kernel
  have hnames : ∀ name ∈ t.names ["api"], Path.IsFileName name :=
    FileTree.forall_mem_names (by decide +kernel)
  have hover : Glob.IsOver "api" "api/*" := .inl (by decide)
  have hfinds := Glob.findsNames_paths? hd (fun name hname => (hnames name hname).noSlash)
    (by decide) hover (by decide +kernel)
  have hsizes : ∀ name ∈ t.names ["api"], (Path.join "api" name).utf8ByteSize ≤ 4095 ∧
      (Glob.writtenLead "api" ++ name).utf8ByteSize ≤ 4095 :=
    FileTree.forall_mem_names (by decide +kernel)
  exact load_isOver hd hnames hover (by decide +kernel) hfinds fun name hname =>
    hsizes name (FileTree.mem_names_of_isDocument hname)

/-! ## Where the pattern leaves the directory -/

/-- The ids of what has been loaded. -/
def ids (r : Except LoadError (List Entity)) : Option (List String) :=
  r.toOption.map (·.map (·.id))

/-- A directory and the pattern over it load different documents, whatever search is taken. -/
structure LoadsApart (t : FileTree) (directory pattern : String) (own matched : List String) :
    Prop where
  isDirectory : t.isDirectory directory = true
  plain : isPattern directory = false
  isOver : Glob.IsOver directory pattern
  loadsOwn : ∀ search, ids (loadBy search t directory) = some own
  loadsMatched : ∀ search, ids (loadBy search t pattern) = some matched
  differ : own ≠ matched

/-- A directory loads without a document that is in it and could be read. -/
structure LosesDocument (t : FileTree) (directory : String) (place : Place) (name : String) :
    Prop where
  find_eq_ok : t.find directory = .ok (place, .directory)
  plain : isPattern directory = false
  isDocument : t.isDocument place name = true
  isRead : ∃ e, IsRead t place name e
  lost : ∀ search, loadBy search t directory = .ok []

/-- The text of a class document. -/
def classText : String :=
  "\x7b\"name\": \"A\", \"type\": \"class\"\x7d"

/-- A class document. -/
def classDocument : FileNode :=
  .file classText

/-- A document beside a directory called `*` that has another. -/
def besideStar : FileTree where
  entries := [(["api"], .directory), (["api", "*"], .directory),
    (["api", "*", "b.json"], classDocument), (["api", "a.json"], classDocument)]

/-- A directory called `*` is loaded itself, in place of the files beside it. -/
theorem loadsApart_star : LoadsApart besideStar "api" "api/*" ["a"] ["b"] where
  isDirectory := by decide +kernel
  plain := by decide
  isOver := .inl (by decide)
  loadsOwn search := by
    have hnames : loadBy search besideStar "api" =
        loadNames besideStar "api" ["api"] ["*", "a.json"] :=
      loadBy_of_names (by decide +kernel) (by decide +kernel) (by decide +kernel) (by decide +kernel)
    rw [hnames]
    decide +kernel
  loadsMatched search := by
    have hnames : loadBy search besideStar "api/*" =
        loadNames besideStar "api/*" ["api", "*"] ["b.json"] :=
      loadBy_of_names (by decide +kernel) (by decide +kernel) (by decide +kernel) (by decide +kernel)
    rw [hnames]
    decide +kernel
  differ := by decide

/-! ### A path that is too long

A directory fifteen of the longest names down can be written with so many `.` in front that no name
fits behind. The tree and the path are too large to be computed with; what is needed of them is
proved for every depth.
-/

theorem loadFiles_nil (t : FileTree) : loadFiles t [] = .ok [] := by
  rw [loadFiles, List.mergeSort_nil, dropRepeats]
  · rfl
  · simp

/-- A directory whose path leaves no room for the names in it loads nothing. -/
theorem loadBy_of_tooLong (hd : t.find directory = .ok (place, .directory))
    (hnames : ∀ name ∈ t.names place, Path.IsFileName name)
    (hlong : ∀ name ∈ t.names place, 4095 < (Path.leadOf directory ++ name).utf8ByteSize) :
    loadBy search t directory = .ok [] := by
  have hown := FileTree.leads_of_find hd
  have hnone : ((t.names place).map (Path.leadOf directory ++ ·)).filter (fun path =>
      t.isFile path && (DocumentKind.ofPath? path).isSome) = [] := by
    simp only [List.filter_eq_nil_iff, List.mem_map, Bool.and_eq_true, not_and]
    rintro _ ⟨name, hname, rfl⟩ hfile
    have hsize := ((hown.isFile_iff (hnames name hname)).mp hfile).1
    exact absurd (hlong name hname) (Nat.not_lt.mpr hsize)
  rw [loadBy_directory hd fun name hname => (hnames name hname).noSlash, hnone, loadFiles_nil]

/-- A name of so many letters. -/
def nameOf (length : Nat) : String :=
  String.ofList (List.replicate length 'n')

theorem eq_of_mem_nameOf {n : Nat} {c : Char} (h : c ∈ (nameOf n).toList) : c = 'n' := by
  rw [nameOf, String.toList_ofList] at h
  exact List.eq_of_mem_replicate h

theorem size_nameOf (n : Nat) : (nameOf n).utf8ByteSize = n := by
  rw [nameOf, String.utf8ByteSize_ofList]
  induction n with
  | zero => rfl
  | succ n ih =>
    rw [List.replicate_succ, String.utf8Len, ih]
    rfl

theorem isFileName_nameOf {n : Nat} (hlow : 2 < n) (hhigh : n ≤ 255) :
    Path.IsFileName (nameOf n) := by
  have htext : ∀ text : String, text.utf8ByteSize ≤ 2 → nameOf n ≠ text := by
    intro text hsize heq
    rw [← heq, size_nameOf] at hsize
    omega
  have hidle : ¬Path.isIdle (nameOf n) = true := by
    rw [Path.isIdle_iff, not_or]
    exact ⟨htext "" (by decide), htext "." (by decide)⟩
  exact
    { noSlash := fun h => absurd (eq_of_mem_nameOf h) (by decide)
      noNull := fun h => absurd (eq_of_mem_nameOf h) (by decide)
      notIdle := eq_false_of_ne_true hidle
      notAbove := htext ".." (by decide)
      size := (size_nameOf n).trans_le hhigh }

/-- The place so many directories down. -/
def deepPlace (depth : Nat) : Place :=
  List.replicate depth (nameOf 255)

/-- Directories of the longest name, each in the one before. -/
def deepTree : Nat → FileTree
  | 0 => {}
  | depth + 1 => (deepTree depth).set (deepPlace (depth + 1)) .directory

theorem home_deepTree (depth : Nat) : (deepTree depth).home = [] := by
  induction depth with
  | zero => rfl
  | succ depth ih => exact ih

theorem length_le_of_mem_deepTree {depth : Nat} :
    ∀ entry ∈ (deepTree depth).entries, entry.1.length ≤ depth := by
  induction depth with
  | zero => exact fun _ h => nomatch h
  | succ depth ih =>
    rintro entry hentry
    rcases List.mem_cons.mp hentry with rfl | hentry
    · exact (List.length_replicate).le
    · exact (ih entry (List.mem_of_mem_filter hentry)).trans (Nat.le_succ depth)

theorem get?_deepTree_of_length {depth : Nat} (h : depth < place.length) :
    (deepTree depth).get? place = none := by
  have hhome : place ≠ (deepTree depth).home := by
    rintro rfl
    rw [home_deepTree] at h
    exact absurd h (by simp)
  rw [FileTree.get?, if_neg hhome, List.lookup_eq_none_iff]
  intro entry hentry
  have hlength := length_le_of_mem_deepTree entry hentry
  have hne : place ≠ entry.1 := by
    rintro rfl
    omega
  simpa using hne

theorem get?_deepTree {depth i : Nat} (h : i ≤ depth) :
    (deepTree depth).get? (deepPlace i) = some .directory := by
  induction depth with
  | zero =>
    obtain rfl := Nat.le_zero.mp h
    exact FileTree.get?_home _
  | succ depth ih =>
    have hfree : (deepTree depth).get? (deepPlace (depth + 1)) ≠ some .directory := by
      rw [get?_deepTree_of_length (by simp [deepPlace])]
      simp
    rw [deepTree, FileTree.get?_set hfree]
    split
    · rfl
    · next hne =>
      refine ih (Nat.le_of_lt_succ (lt_of_le_of_ne h ?_))
      rintro rfl
      exact hne rfl

/-- A document at the end of the directories. -/
def deepDocument (depth : Nat) : FileTree :=
  (deepTree depth).set (deepPlace depth ++ ["a.json"]) classDocument

theorem get?_deepDocument (depth : Nat) (q : Place) :
    (deepDocument depth).get? q =
      if q = deepPlace depth ++ ["a.json"] then some classDocument
      else (deepTree depth).get? q := by
  refine FileTree.get?_set ?_ q
  rw [get?_deepTree_of_length (by simp [deepPlace])]
  simp

/-- The document is all that is at the end of the directories. -/
theorem mem_names_deepDocument {depth : Nat}
    (h : name ∈ (deepDocument depth).names (deepPlace depth)) : name = "a.json" := by
  obtain ⟨node, hnode⟩ := FileTree.mem_names.mp h
  rcases List.mem_cons.mp hnode with heq | hnode
  · have hplace := (Prod.ext_iff.mp heq).1
    exact List.singleton_inj.mp (List.append_cancel_left hplace)
  · have hlength := length_le_of_mem_deepTree _ (List.mem_of_mem_filter hnode)
    simp [deepPlace] at hlength

/-- The pieces that lead to the directory of the document, behind so many `.`. -/
def deepPieces (points depth : Nat) : List String :=
  List.replicate points "." ++ deepPlace depth

theorem forall_mem_deepPieces {P : String → Prop} (hpoint : P ".") (hname : P (nameOf 255))
    (points depth : Nat) : ∀ p ∈ deepPieces points depth, P p :=
  List.forall_mem_append.mpr ⟨List.forall_mem_replicate.mpr (.inr hpoint),
    List.forall_mem_replicate.mpr (.inr hname)⟩

theorem walk_points (t : FileTree) (n : Nat) :
    t.walk t.home (List.replicate n ".") = .ok (t.home, some .directory) := by
  induction n with
  | zero => rw [List.replicate_zero, FileTree.walk, t.get?_home]
  | succ n ih =>
    rw [List.replicate_succ, FileTree.walk_cons_of_directory t.get?_home,
      Place.enter_of_isIdle (by decide)]
    exact ih

theorem get?_deepPlace {depth i : Nat} (h : i ≤ depth) :
    (deepDocument depth).get? (deepPlace i) = some .directory := by
  have hne : deepPlace i ≠ deepPlace depth ++ ["a.json"] := fun heq => by
    have hlength := congrArg List.length heq
    simp [deepPlace] at hlength
    omega
  rw [get?_deepDocument, if_neg hne, get?_deepTree h]

theorem walk_deepPlace {depth i j : Nat} (h : i + j ≤ depth) :
    (deepDocument depth).walk (deepPlace i) (deepPlace j) =
      .ok (deepPlace (i + j), some .directory) := by
  have hthere := get?_deepPlace (Nat.le_of_add_right_le h)
  induction j generalizing i with
  | zero =>
    show (deepDocument depth).walk (deepPlace i) [] = _
    rw [FileTree.walk, hthere, Nat.add_zero]
  | succ j ih =>
    have hcons : deepPlace (j + 1) = nameOf 255 :: deepPlace j := List.replicate_succ
    have hconcat : deepPlace i ++ [nameOf 255] = deepPlace (i + 1) := List.replicate_succ'.symm
    rw [hcons, FileTree.walk_cons_of_directory hthere,
      Place.enter_of_isFileName (isFileName_nameOf (by decide) (by decide)), hconcat,
      show i + (j + 1) = i + 1 + j by omega]
    have hrest : i + 1 + j ≤ depth := by omega
    exact ih hrest (get?_deepPlace (Nat.le_of_add_right_le hrest))

theorem isPiece_deepPieces (points depth : Nat) :
    ∀ p ∈ deepPieces points depth, Glob.IsPiece p := by
  have hname := isFileName_nameOf (by decide) (le_refl 255)
  exact forall_mem_deepPieces ⟨by decide, by decide⟩ ⟨hname.noSlash, hname.noNull⟩ points depth

theorem isAbsolute_deepPieces (points depth : Nat) :
    Path.isAbsolute (Glob.spell (deepPieces points depth)) = false := by
  have hname := isFileName_nameOf (by decide) (le_refl 255)
  refine Glob.isAbsolute_spell (isPiece_deepPieces points depth)
    (forall_mem_deepPieces (by decide) ?_ points depth)
  exact fun hempty => absurd hname.notIdle (by rw [hempty]; decide)

theorem leads_deepPieces (points depth : Nat) :
    (deepDocument depth).Leads (Glob.spell (deepPieces points depth)) (deepPlace depth) := by
  have hpieces := isPiece_deepPieces points depth
  have hstart : (deepDocument depth).start (Glob.spell (deepPieces points depth)) =
      (deepDocument depth).home := by
    rw [FileTree.start, isAbsolute_deepPieces]
    rfl
  have hhome : (deepDocument depth).home = deepPlace 0 := home_deepTree depth
  refine ⟨Glob.isLead_spell _, fun hnull => ?_, ?_⟩
  · refine Glob.forall_mem_spell (P := (· ≠ '\x00')) (by decide) ?_ _ hnull rfl
    exact fun p hp c hc heq => (hpieces p hp).noNull (heq ▸ hc)
  · rw [Glob.leadPieces_spell hpieces, hstart, deepPieces,
      FileTree.walk_append (walk_points _ points), hhome, walk_deepPlace (by omega), Nat.zero_add]

theorem size_deepPieces (points depth : Nat) :
    (Glob.spell (deepPieces points depth)).utf8ByteSize = 2 * points + 256 * depth := by
  have hpoint : ".".utf8ByteSize = 1 := rfl
  rw [deepPieces, deepPlace, Glob.spell_append, String.utf8ByteSize_append,
    Glob.size_spell_replicate, Glob.size_spell_replicate, size_nameOf, hpoint]
  omega

theorem isPattern_deepPieces (points depth : Nat) :
    isPattern (Glob.spell (deepPieces points depth)) = false := by
  have hname : isPattern (nameOf 255) = false := List.any_eq_false.mpr fun c hc => by
    rw [eq_of_mem_nameOf hc]
    decide
  have hplain := forall_mem_deepPieces (P := fun p => isPattern p = false) (by decide) hname
    points depth
  rw [isPattern, List.any_eq_false]
  exact Glob.forall_mem_spell (by decide) fun p hp => List.any_eq_false.mp (hplain p hp)

theorem isRead_deepDocument (depth : Nat) :
    ∃ e, IsRead (deepDocument depth) (deepPlace depth) "a.json" e := by
  have hnode : (deepDocument depth).get? (deepPlace depth ++ ["a.json"]) = some classDocument := by
    rw [get?_deepDocument, if_pos rfl]
  cases hparse : Descriptor.parse "a.json" classText with
  | ok d => exact ⟨⟨Path.stem "a.json", d⟩, rfl, classText, hnode, hparse⟩
  | error fault =>
    have hreads : (Descriptor.parse "a.json" classText).isOk = true := by decide +kernel
    rw [hparse] at hreads
    cases hreads

/-- The document is in the directory, but it has no path that could be opened. -/
theorem losesDocument_deep : LosesDocument (deepDocument 15)
    (Glob.spell (deepPieces 127 15)) (deepPlace 15) "a.json" := by
  have hne : deepPieces 127 15 ≠ [] := List.cons_ne_nil _ _
  have hsize := size_deepPieces 127 15
  have hempty : Glob.spell (deepPieces 127 15) ≠ "" := fun heq => by
    rw [heq] at hsize
    cases hsize
  have hd := (leads_deepPieces 127 15).find_lead hempty (by rw [hsize]; decide)
  refine ⟨hd, isPattern_deepPieces 127 15, ?_, isRead_deepDocument 15, fun search => ?_⟩
  · refine FileTree.isDocument_iff.mpr ⟨⟨classDocument, ?_, rfl⟩, by decide⟩
    rw [get?_deepDocument, if_pos rfl]
  · refine loadBy_of_tooLong hd (fun name hname => ?_) fun name hname => ?_
    · rw [mem_names_deepDocument hname]
      decide
    · rw [mem_names_deepDocument hname, Glob.leadOf_spell hne, String.utf8ByteSize_append, hsize]
      decide

/-- What a directory has, what is loaded from it and what the pattern over it gives are three
things. -/
theorem load_isOver_apart : LoadsApart besideStar "api" "api/*" ["a"] ["b"] ∧
    LosesDocument (deepDocument 15) (Glob.spell (deepPieces 127 15)) (deepPlace 15) "a.json" :=
  ⟨loadsApart_star, losesDocument_deep⟩

end ApiSurface.Entity
