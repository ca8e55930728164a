import ApiSurface.Descriptor.Load
import ApiSurface.Proofs.TreeChanges
import Mathlib.Data.List.Dedup
import Mathlib.Data.String.Basic

/-!
# Paths into one directory

One directory can be written in many ways: `api`, `./api`, `api//.`. Whichever is taken, the paths
of the files in it are one text with the names of the files behind it, a lead (`IsLead`). The format
of a file, its id and its place in the order of paths depend on the name alone, and so does what the
path leads to, where the lead leads into the directory (`FileTree.Leads`).

So files of one directory are loaded name by name, in the order of the names
(`Entity.loadFiles_lead`), and so is a directory (`Entity.loadBy_directory_eq_mapM`).
-/

namespace ApiSurface

namespace Path

variable {lead name a b directory : String}

/-- What an entry of a directory can be called. -/
structure IsFileName (name : String) : Prop where
  noSlash : '/' ∉ name.toList
  noNull : '\x00' ∉ name.toList
  notIdle : isIdle name = false
  notAbove : name ≠ ".."
  size : name.utf8ByteSize ≤ 255

instance : DecidablePred IsFileName := fun name =>
  decidable_of_iff ('/' ∉ name.toList ∧ '\x00' ∉ name.toList ∧ isIdle name = false ∧
      name ≠ ".." ∧ name.utf8ByteSize ≤ 255)
    ⟨fun ⟨h₁, h₂, h₃, h₄, h₅⟩ => ⟨h₁, h₂, h₃, h₄, h₅⟩, fun ⟨h₁, h₂, h₃, h₄, h₅⟩ =>
      ⟨h₁, h₂, h₃, h₄, h₅⟩⟩

/-- A text that makes a path when a name is written behind it: nothing, or one with a slash at its
end. -/
def IsLead (lead : String) : Prop :=
  lead = "" ∨ ∃ front, lead = front ++ "/"

/-- The pieces of a lead, without the empty one behind its last slash. -/
def leadPieces (lead : String) : List String :=
  (pieces lead).dropLast

/-! ## Leads -/

theorem isLead_empty : IsLead "" :=
  .inl rfl

theorem isLead_concat (front : String) : IsLead (front ++ "/") :=
  .inr ⟨front, rfl⟩

theorem pieces_concat (front : String) : pieces (front ++ "/") = pieces front ++ [""] := by
  have h := pieces_append front ""
  rwa [String.append_empty, show pieces "" = [""] by decide] at h

theorem leadPieces_concat (front : String) : leadPieces (front ++ "/") = pieces front := by
  rw [leadPieces, pieces_concat, List.dropLast_concat]

theorem IsLead.pieces_eq (h : IsLead lead) : pieces lead = leadPieces lead ++ [""] := by
  obtain rfl | ⟨front, rfl⟩ := h
  · decide
  · rw [leadPieces_concat, pieces_concat]

theorem IsLead.pieces_append (h : IsLead lead) (hname : '/' ∉ name.toList) :
    pieces (lead ++ name) = leadPieces lead ++ [name] := by
  obtain rfl | ⟨front, rfl⟩ := h
  · rw [String.empty_append, pieces_of_notMem hname]
    rfl
  · rw [Path.pieces_append, pieces_of_notMem hname, leadPieces_concat]

theorem IsLead.isAbsolute_append (h : IsLead lead) (hname : '/' ∉ name.toList) :
    isAbsolute (lead ++ name) = isAbsolute lead := by
  obtain rfl | ⟨front, rfl⟩ := h
  · rw [String.empty_append, isAbsolute_of_notMem hname]
    rfl
  · cases hfront : front.toList <;> simp [isAbsolute, hfront]

theorem isAbsolute_concat (hdirectory : directory ≠ "") :
    isAbsolute (directory ++ "/") = isAbsolute directory := by
  cases hchars : directory.toList with
  | nil => exact absurd (String.toList_inj.mp hchars) hdirectory
  | cons c rest => simp [isAbsolute, hchars]

/-- The lead of the paths in a directory: its own path, with a slash at the end. -/
def leadOf (directory : String) : String :=
  if endsInSlash directory then directory else directory ++ "/"

theorem isLead_leadOf (directory : String) : IsLead (leadOf directory) := by
  rw [leadOf]
  split
  · next h => exact .inr (exists_append_of_endsInSlash h)
  · exact isLead_concat directory

theorem isAbsolute_leadOf (hdirectory : directory ≠ "") :
    isAbsolute (leadOf directory) = isAbsolute directory := by
  rw [leadOf]
  split
  · rfl
  · exact isAbsolute_concat hdirectory

theorem pieces_eq_leadPieces_leadOf (directory : String) :
    pieces directory =
      leadPieces (leadOf directory) ++ if endsInSlash directory then [""] else [] := by
  rw [leadOf]
  split
  · next h =>
    obtain ⟨front, rfl⟩ := exists_append_of_endsInSlash h
    rw [leadPieces_concat, pieces_concat]
  · rw [leadPieces_concat, List.append_nil]

theorem join_eq_leadOf (hdirectory : directory ≠ "") (hname : '/' ∉ name.toList) :
    join directory name = leadOf directory ++ name := by
  rw [join, isAbsolute_of_notMem hname, Bool.false_or, if_neg (by simpa using hdirectory), leadOf]
  split <;> rfl

theorem endsInSlash_concat (front : String) : endsInSlash (front ++ "/") = true := by
  simp [endsInSlash, String.toList_append]

theorem leadOf_ne_empty (directory : String) : leadOf directory ≠ "" := by
  obtain hempty | ⟨front, hfront⟩ := isLead_leadOf directory
  · rw [leadOf] at hempty
    split at hempty
    · next h =>
      rw [hempty] at h
      cases h
    · simp at hempty
  · simp [hfront]

/-- A path that is a lead keeps it; behind another piece comes a slash. -/
theorem IsLead.leadOf_append (h : IsLead lead) (hname : '/' ∉ name.toList)
    (hne : lead ++ name ≠ "") :
    leadOf (lead ++ name) = if name = "" then lead else lead ++ name ++ "/" := by
  rcases eq_or_ne name "" with rfl | hsome
  · rw [String.append_empty] at hne ⊢
    obtain ⟨front, rfl⟩ := h.resolve_left hne
    rw [leadOf, if_pos (endsInSlash_concat front), if_pos rfl]
  · have hslash : endsInSlash (lead ++ name) = false := by
      obtain ⟨c, hc⟩ := Option.ne_none_iff_exists'.mp
        (mt List.getLast?_eq_none_iff.mp (mt String.toList_eq_nil_iff.mp hsome))
      have hc' : c ≠ '/' := by
        rintro rfl
        exact hname (List.mem_of_getLast? hc)
      simp [endsInSlash, String.toList_append, List.getLast?_append, hc, hc']
    rw [leadOf, hslash, if_neg (by simp), if_neg hsome]

/-! ## Names behind leads -/

theorem IsLead.names_append (h : IsLead lead) (hname : IsFileName name) :
    names (lead ++ name) = names lead ++ [name] := by
  have hempty : isIdle "" = true := rfl
  rw [names, names, h.pieces_append hname.noSlash, h.pieces_eq]
  simp only [List.filter_append, List.filter_singleton, hname.notIdle, hempty, Bool.not_true,
    Bool.not_false, cond_true, cond_false, List.append_nil]

theorem IsLead.fileName?_append (h : IsLead lead) (hname : IsFileName name) :
    fileName? (lead ++ name) = some name := by
  rw [fileName?, h.names_append hname, List.getLast?_concat]
  split
  · next heq => exact absurd (Option.some.inj heq) hname.notAbove
  · rfl

theorem IsFileName.fileName?_eq (hname : IsFileName name) : fileName? name = some name := by
  simpa using isLead_empty.fileName?_append hname

theorem IsLead.stem_append (h : IsLead lead) (hname : IsFileName name) :
    stem (lead ++ name) = stem name := by
  rw [stem, stem, h.fileName?_append hname, hname.fileName?_eq]

theorem IsLead.extension?_append (h : IsLead lead) (hname : IsFileName name) :
    extension? (lead ++ name) = extension? name := by
  rw [extension?, extension?, h.fileName?_append hname, hname.fileName?_eq]

/-! ## The order of names -/

theorem IsLead.steps_append (h : IsLead lead) (hname : IsFileName name) :
    steps (lead ++ name) = steps lead ++ [.name name] := by
  have hhead : (pieces (lead ++ name)).head? = some "." ↔ (pieces lead).head? = some "." := by
    rw [h.pieces_append hname.noSlash, h.pieces_eq]
    cases hpieces : leadPieces lead with
    | nil =>
      have hpoint : name ≠ "." := by
        rintro rfl
        exact absurd hname.notIdle (by decide)
      simp [hpoint]
    | cons piece rest => simp
  have hstep : Step.ofName name = .name name := if_neg hname.notAbove
  simp only [steps, h.isAbsolute_append hname.noSlash, hhead, h.names_append hname,
    List.map_append, List.map_singleton, hstep, List.append_assoc]

theorem Step.compare_self (step : Step) : step.compare step = .eq := by
  cases step <;> simp [Step.compare, compareOfLessAndEq]

theorem stepsLe_append (s : List Step) (a b : String) :
    stepsLe (s ++ [.name a]) (s ++ [.name b]) = decide (a ≤ b) := by
  induction s with
  | nil =>
    simp only [List.nil_append, stepsLe, Step.compare, compareOfLessAndEq]
    rcases lt_trichotomy a b with hlt | rfl | hgt
    · simp [hlt, hlt.le]
    · simp
    · simp [hgt.not_gt, hgt.ne', hgt.not_ge]
  | cons step rest ih => rw [List.cons_append, List.cons_append, stepsLe, step.compare_self, ih]

/-- Paths into one directory are in the order of the names. -/
theorem IsLead.le_append (h : IsLead lead) (ha : IsFileName a) (hb : IsFileName b) :
    le (lead ++ a) (lead ++ b) = decide (a ≤ b) := by
  rw [le, h.steps_append ha, h.steps_append hb, stepsLe_append]

theorem IsLead.steps_inj (h : IsLead lead) (ha : IsFileName a) (hb : IsFileName b) :
    steps (lead ++ a) = steps (lead ++ b) ↔ a = b := by
  rw [h.steps_append ha, h.steps_append hb, List.append_right_inj]
  simp

end Path

theorem Place.enter_of_isFileName {place : Place} {name : String} (hname : Path.IsFileName name) :
    place.enter name = .ok (place ++ [name]) := by
  have hidle : ¬(name = "" ∨ name = ".") := fun hor => by
    simpa [Path.isIdle_iff.mpr hor] using hname.notIdle
  rw [Place.enter, if_neg hidle, if_neg hname.notAbove, if_neg (Nat.not_lt.mpr hname.size)]

namespace FileTree

variable {t : FileTree} {lead name : String} {place q : Place} {ps : List String} {node : FileNode}

/-! ## Walks through directories -/

/-- A walk that comes to something starts at a directory, unless there is nothing to walk. -/
theorem get?_of_walk (h : t.walk place ps = .ok (q, some .directory)) :
    t.get? place = some .directory := by
  cases ps with
  | nil =>
    obtain ⟨rfl, hdirectory⟩ := Prod.ext_iff.mp (Except.ok.inj h)
    exact hdirectory
  | cons piece rest =>
    obtain ⟨hdirectory, -⟩ | ⟨-, -, hnone, -⟩ := walk_cons_eq_ok h
    · exact hdirectory
    · cases hnone

/-- A walk to a directory goes on from there. -/
theorem walk_append (h : t.walk place ps = .ok (q, some .directory)) (qs : List String) :
    t.walk place (ps ++ qs) = t.walk q qs := by
  induction ps generalizing place with
  | nil =>
    obtain ⟨rfl, -⟩ := Prod.ext_iff.mp (Except.ok.inj h)
    rfl
  | cons piece rest ih =>
    obtain ⟨hdirectory, next, hnext, hwalk⟩ | ⟨-, -, hnone, -⟩ := walk_cons_eq_ok h
    · rw [List.cons_append, walk_cons_of_directory hdirectory, hnext]
      exact ih hwalk
    · cases hnone

theorem walk_singleton (h : t.get? place = some .directory) (piece : String) :
    t.walk place [piece] = (place.enter piece).map fun next => (next, t.get? next) := by
  rw [walk_cons_of_directory h]
  cases place.enter piece <;> rfl

/-! ## Leads into a directory -/

/-- A lead leads into a directory when its pieces do. -/
structure Leads (t : FileTree) (lead : String) (place : Place) : Prop where
  isLead : Path.IsLead lead
  noNull : '\x00' ∉ lead.toList
  walk : t.walk (t.start lead) (Path.leadPieces lead) = .ok (place, some .directory)

namespace Leads

variable (h : t.Leads lead place) (hname : Path.IsFileName name)

include h

theorem get?_eq : t.get? place = some .directory := by
  obtain ⟨-, hnode, -⟩ := walk_eq_ok h.walk
  exact hnode.symm

/-- A lead is a path of its directory itself. -/
theorem find_lead (hne : lead ≠ "") (hsize : lead.utf8ByteSize ≤ 4095) :
    t.find lead = .ok (place, .directory) := by
  rw [FileTree.find_eq_ok, resolve_eq_ok_iff, h.isLead.pieces_eq, FileTree.walk_append h.walk,
    walk_singleton h.get?_eq, Place.enter_of_isIdle rfl, ← h.get?_eq]
  exact ⟨⟨h.noNull, hne, hsize⟩, rfl⟩

include hname

theorem walkable_iff : Walkable (lead ++ name) ↔ (lead ++ name).utf8ByteSize ≤ 4095 := by
  refine ⟨Walkable.size, fun hsize => ⟨?_, fun hempty => ?_, hsize⟩⟩
  · rw [String.toList_append, List.mem_append, not_or]
    exact ⟨h.noNull, hname.noNull⟩
  · have hfile := h.isLead.fileName?_append hname
    rw [hempty] at hfile
    cases hfile

theorem walk_append :
    t.walk (t.start (lead ++ name)) (Path.pieces (lead ++ name)) =
      .ok (place ++ [name], t.get? (place ++ [name])) := by
  have hstart : t.start (lead ++ name) = t.start lead := by
    rw [start, start, h.isLead.isAbsolute_append hname.noSlash]
  rw [hstart, h.isLead.pieces_append hname.noSlash, FileTree.walk_append h.walk,
    walk_singleton h.get?_eq, Place.enter_of_isFileName hname]
  rfl

/-- What a path into a directory leads to is what has the name there. -/
theorem find_eq_ok : t.find (lead ++ name) = .ok (q, node) ↔
    (lead ++ name).utf8ByteSize ≤ 4095 ∧ q = place ++ [name] ∧
      t.get? (place ++ [name]) = some node := by
  rw [FileTree.find_eq_ok, resolve_eq_ok_iff, h.walk_append hname, h.walkable_iff hname]
  simp [eq_comm]

theorem isFile_iff : t.isFile (lead ++ name) = true ↔
    (lead ++ name).utf8ByteSize ≤ 4095 ∧
      ∃ node, t.get? (place ++ [name]) = some node ∧ node.isFile = true := by
  rw [isFile]
  constructor
  · intro hfile
    split at hfile
    · next found =>
      obtain ⟨hsize, -, hnode⟩ := (h.find_eq_ok hname).mp found
      exact ⟨hsize, _, hnode, hfile⟩
    · cases hfile
  · rintro ⟨hsize, node, hnode, hfile⟩
    rw [(h.find_eq_ok hname).mpr ⟨hsize, rfl, hnode⟩]
    exact hfile

end Leads

/-- The text of a directory, with a slash at its end, leads into it. -/
theorem leads_of_find {directory : String} (h : t.find directory = .ok (place, .directory)) :
    t.Leads (Path.leadOf directory) place := by
  obtain ⟨hpath, hwalk⟩ := resolve_eq_ok_iff.mp (FileTree.find_eq_ok.mp h)
  rw [Path.leadOf]
  split
  · next hslash =>
    obtain ⟨front, rfl⟩ := Path.exists_append_of_endsInSlash hslash
    refine ⟨Path.isLead_concat front, hpath.noNull, ?_⟩
    rw [Path.pieces_concat] at hwalk
    obtain ⟨d, hd⟩ := walk_of_append hwalk
    -- The last piece is empty, so the walk has come to the directory before it.
    rw [walk_append hd, walk_singleton (walk_eq_ok hd).2.1.symm, Place.enter_of_isIdle rfl] at hwalk
    obtain ⟨rfl, -⟩ := Prod.ext_iff.mp (Except.ok.inj hwalk)
    rw [Path.leadPieces_concat, hd]
  · have hstart : t.start (directory ++ "/") = t.start directory := by
      rw [start, start, Path.isAbsolute_concat hpath.nonempty]
    refine ⟨Path.isLead_concat directory, by simpa using hpath.noNull, ?_⟩
    rw [Path.leadPieces_concat, hstart, hwalk]

/-! ## Names in a directory -/

theorem mem_names : name ∈ t.names place ↔ ∃ node, (place ++ [name], node) ∈ t.entries := by
  simp only [names, List.mem_mergeSort, List.mem_filterMap, Prod.exists]
  constructor
  · rintro ⟨p, node, hmem, hname⟩
    split at hname
    · next hplace =>
      obtain ⟨front, rfl⟩ := List.getLast?_eq_some_iff.mp hname
      rw [List.dropLast_concat] at hplace
      exact ⟨node, hplace ▸ hmem⟩
    · cases hname
  · rintro ⟨node, hmem⟩
    exact ⟨_, node, hmem, by rw [if_pos List.dropLast_concat, List.getLast?_concat]⟩

/-- What holds of the last names of all entries holds of the names in every directory. -/
theorem forall_mem_names {P : String → Prop}
    (h : ∀ entry ∈ t.entries, ∀ name ∈ entry.1.getLast?, P name) :
    ∀ name ∈ t.names place, P name := by
  intro name hname
  obtain ⟨node, hmem⟩ := mem_names.mp hname
  exact h _ hmem name List.getLast?_concat

/-- A file is among the names of its directory. -/
theorem mem_names_of_get? (h : t.get? (place ++ [name]) = some node) (hfile : node.isFile = true) :
    name ∈ t.names place := by
  rw [get?] at h
  split at h
  · obtain rfl := Option.some.inj h
    cases hfile
  · obtain ⟨before, after, hentries, -⟩ := List.lookup_eq_some_iff.mp h
    exact mem_names.mpr ⟨node, by simp [hentries]⟩

/-- Entries that are in order are listed as they stand. -/
theorem names_eq {ns : List String} (hsorted : ns.Pairwise (· ≤ ·))
    (h : (t.entries.filterMap fun entry =>
      if entry.1.dropLast = place then entry.1.getLast? else none) = ns) : t.names place = ns := by
  subst h
  exact List.mergeSort_of_pairwise (hsorted.imp decide_eq_true)

theorem pairwise_mergeSort (names : List String) :
    (names.mergeSort fun a b => decide (a ≤ b)).Pairwise (· ≤ ·) := by
  refine (List.pairwise_mergeSort (fun a b c hab hbc => ?_) (fun a b => ?_) _).imp of_decide_eq_true
  · exact decide_eq_true (le_trans (of_decide_eq_true hab) (of_decide_eq_true hbc))
  · simpa using le_total a b

theorem pairwise_names (t : FileTree) (place : Place) : (t.names place).Pairwise (· ≤ ·) :=
  pairwise_mergeSort _

/-- Whether a name in a directory is that of a document: a file with the extension of a format. -/
def isDocument (t : FileTree) (place : Place) (name : String) : Bool :=
  (t.get? (place ++ [name])).any (·.isFile) && (DocumentKind.ofPath? name).isSome

/-- The names of the documents directly in a directory, in order and each once. -/
def documentNames (t : FileTree) (place : Place) : List String :=
  ((t.names place).filter (t.isDocument place)).dedup

theorem isDocument_iff : t.isDocument place name = true ↔
    (∃ node, t.get? (place ++ [name]) = some node ∧ node.isFile = true) ∧
      (DocumentKind.ofPath? name).isSome = true := by
  rw [isDocument, Bool.and_eq_true, Option.any_eq_true]

theorem mem_names_of_isDocument (h : t.isDocument place name = true) : name ∈ t.names place := by
  obtain ⟨⟨node, hnode, hfile⟩, -⟩ := isDocument_iff.mp h
  exact mem_names_of_get? hnode hfile

theorem mem_documentNames : name ∈ t.documentNames place ↔ t.isDocument place name = true := by
  rw [documentNames, List.mem_dedup, List.mem_filter]
  exact and_iff_right_of_imp mem_names_of_isDocument

/-- What is in order is strictly so once repeats are dropped. -/
theorem pairwise_lt_dedup {names : List String} (h : names.Pairwise (· ≤ ·)) :
    names.dedup.Pairwise (· < ·) :=
  ((h.sublist (List.dedup_sublist _)).and (List.nodup_dedup _)).imp fun ⟨hab, hne⟩ =>
    lt_of_le_of_ne hab hne

theorem pairwise_documentNames (t : FileTree) (place : Place) :
    (t.documentNames place).Pairwise (· < ·) :=
  pairwise_lt_dedup ((t.pairwise_names place).filter _)

end FileTree

/-! ## Documents of a directory -/

theorem DocumentKind.ofPath?_append {lead name : String} (h : Path.IsLead lead)
    (hname : Path.IsFileName name) : ofPath? (lead ++ name) = ofPath? name := by
  rw [ofPath?, ofPath?, h.extension?_append hname]

namespace Entity

variable {search : Glob.Search} {t : FileTree} {directory lead name : String} {place : Place}
  {names : List String} {node : FileNode}

/-- What a document comes to depends on its name and on what is in it. Its path is told where there
is a fault. -/
theorem loadFile_lead (h : t.Leads lead place) (hname : Path.IsFileName name)
    (hsize : (lead ++ name).utf8ByteSize ≤ 4095)
    (hnode : t.get? (place ++ [name]) = some node)
    (hkind : (DocumentKind.ofPath? name).isSome = true) :
    loadFile t (lead ++ name) =
      match node.text with
      | .error fault => .error (.unreadable (lead ++ name) fault)
      | .ok text =>
        ((Descriptor.parse name text).map ({ id := Path.stem name, descriptor := · })).mapError
          fun _ => .invalid (lead ++ name) := by
  have hread : t.read (lead ++ name) = node.text := by
    rw [FileTree.read, (h.find_eq_ok hname).mpr ⟨hsize, rfl, hnode⟩]
    rfl
  rw [loadFile, hread]
  cases node.text with
  | error fault => rfl
  | ok text =>
    obtain ⟨kind, hkind⟩ := Option.isSome_iff_exists.mp hkind
    simp only [Descriptor.parse, DocumentKind.ofPath?_append h.isLead hname, hkind,
      h.isLead.stem_append hname]
    cases (kind.read? text).bind Descriptor.decode <;> rfl

/-- Names in order lose their repeats where the paths do. -/
theorem dropRepeats_lead (hlead : Path.IsLead lead) (hnames : ∀ name ∈ names, Path.IsFileName name)
    (hsorted : names.Pairwise (· ≤ ·)) :
    dropRepeats (names.map (lead ++ ·)) = names.dedup.map (lead ++ ·) := by
  induction names with
  | nil => simp [dropRepeats]
  | cons a names ih =>
    obtain ⟨ha, hrest⟩ := List.forall_mem_cons.mp hnames
    obtain ⟨hle, hsorted⟩ := List.pairwise_cons.mp hsorted
    have ih := ih hrest hsorted
    cases names with
    | nil => simp [dropRepeats]
    | cons b names =>
      rw [List.map_cons, List.map_cons, dropRepeats]
      simp only [hlead.steps_inj ha (hrest b List.mem_cons_self)]
      split
      · next hab =>
        subst hab
        rw [List.dedup_cons_of_mem List.mem_cons_self, ← ih, List.map_cons]
      · next hab =>
        -- All that is left lies behind `b`, so `a` does not come again.
        have hlt : a < b := lt_of_le_of_ne (hle b List.mem_cons_self) hab
        have hnotMem : a ∉ b :: names := by
          rw [List.mem_cons, not_or]
          refine ⟨hab, fun hmem => ?_⟩
          exact hlt.not_ge ((List.pairwise_cons.mp hsorted).1 a hmem)
        rw [List.dedup_cons_of_notMem hnotMem, List.map_cons, ← ih, List.map_cons]

/-- Files of one directory are loaded by their names, in the order of these and each once, however
often and in whatever order they are given. -/
theorem loadFiles_lead {sorted : List String} (hlead : Path.IsLead lead)
    (hnames : ∀ name ∈ names, Path.IsFileName name) (hsorted : sorted.Pairwise (· < ·))
    (hmem : ∀ name, name ∈ names ↔ name ∈ sorted) :
    loadFiles t (names.map (lead ++ ·)) = sorted.mapM fun name => loadFile t (lead ++ name) := by
  let ordered := names.mergeSort fun a b => decide (a ≤ b)
  have hpaths : (names.map (lead ++ ·)).mergeSort Path.le = ordered.map (lead ++ ·) := by
    refine (List.map_mergeSort fun a ha b hb => ?_).symm
    exact (hlead.le_append (hnames a ha) (hnames b hb)).symm
  have hordered : ordered.Pairwise (· ≤ ·) := FileTree.pairwise_mergeSort names
  have hfile : ∀ name ∈ ordered, Path.IsFileName name := fun name hname =>
    hnames name (List.mem_mergeSort.mp hname)
  have hdedup : ordered.dedup = sorted := by
    have hstrict := FileTree.pairwise_lt_dedup hordered
    have hperm : ordered.dedup.Perm sorted :=
      (List.perm_ext_iff_of_nodup (List.nodup_dedup _) (hsorted.imp ne_of_lt)).mpr fun name => by
        rw [List.mem_dedup, List.mem_mergeSort, hmem]
    exact hperm.eq_of_pairwise (fun _ _ _ _ hab hba => absurd hab hba.not_gt) hstrict hsorted
  rw [loadFiles, hpaths, dropRepeats_lead hlead hfile hordered, hdedup, List.mapM_map]
  rfl

/-- The documents of a directory are loaded name by name, however the directory is written and its
names are listed, as long as the paths can be walked. -/
theorem loadFiles_documents (h : t.Leads lead place)
    (hnames : ∀ name ∈ t.names place, Path.IsFileName name)
    (hsize : ∀ name, t.isDocument place name = true → (lead ++ name).utf8ByteSize ≤ 4095)
    (hmem : ∀ name, name ∈ names ↔ name ∈ t.names place) :
    loadFiles t ((names.map (lead ++ ·)).filter fun path =>
        t.isFile path && (DocumentKind.ofPath? path).isSome) =
      (t.documentNames place).mapM fun name => loadFile t (lead ++ name) := by
  have hfile : ∀ name ∈ names, Path.IsFileName name := fun name hname =>
    hnames name ((hmem name).mp hname)
  have hfilter : (names.map (lead ++ ·)).filter (fun path =>
        t.isFile path && (DocumentKind.ofPath? path).isSome) =
      (names.filter (t.isDocument place)).map (lead ++ ·) := by
    rw [List.filter_map]
    refine congrArg _ (List.filter_congr fun name hname => ?_)
    have hname := hfile name hname
    rw [Bool.eq_iff_iff, Function.comp_apply, Bool.and_eq_true, h.isFile_iff hname,
      DocumentKind.ofPath?_append h.isLead hname, FileTree.isDocument_iff]
    constructor
    · rintro ⟨⟨-, hnode⟩, hkind⟩
      exact ⟨hnode, hkind⟩
    · rintro ⟨hnode, hkind⟩
      exact ⟨⟨hsize name (FileTree.isDocument_iff.mpr ⟨hnode, hkind⟩), hnode⟩, hkind⟩
  rw [hfilter]
  refine loadFiles_lead h.isLead (fun name hname => hfile name (List.mem_of_mem_filter hname))
    (t.pairwise_documentNames place) fun name => ?_
  rw [List.mem_filter, hmem, FileTree.mem_documentNames]
  exact and_iff_right_of_imp FileTree.mem_names_of_isDocument

/-! ## Loads of a directory -/

theorem loadBy_directory (hd : t.find directory = .ok (place, .directory))
    (hnames : ∀ name ∈ t.names place, '/' ∉ name.toList) :
    loadBy search t directory =
      loadFiles t (((t.names place).map (Path.leadOf directory ++ ·)).filter fun path =>
        t.isFile path && (DocumentKind.ofPath? path).isSome) := by
  obtain ⟨hpath, -⟩ := FileTree.resolve_eq_ok_iff.mp (FileTree.find_eq_ok.mp hd)
  have hisDirectory : t.isDirectory directory = true := by rw [FileTree.isDirectory, hd]
  have hjoin : (t.names place).map (Path.join directory) =
      (t.names place).map (Path.leadOf directory ++ ·) :=
    List.map_congr_left fun name hname => Path.join_eq_leadOf hpath.nonempty (hnames name hname)
  rw [loadBy, if_pos hisDirectory, documentsIn, FileTree.namesIn, hd]
  dsimp only
  rw [hjoin]

/-- The documents of a directory are loaded by their names where none of the paths is too long. -/
theorem loadBy_directory_eq_mapM (hd : t.find directory = .ok (place, .directory))
    (hnames : ∀ name ∈ t.names place, Path.IsFileName name)
    (hshort : ∀ name, t.isDocument place name = true →
      (Path.leadOf directory ++ name).utf8ByteSize ≤ 4095) :
    loadBy search t directory =
      (t.documentNames place).mapM fun name => loadFile t (Path.leadOf directory ++ name) := by
  rw [loadBy_directory hd fun name hname => (hnames name hname).noSlash,
    loadFiles_documents (FileTree.leads_of_find hd) hnames hshort fun _ => Iff.rfl]

/-- Loads the documents among some names in a directory, each of them once. -/
def loadNames (t : FileTree) (directory : String) (place : Place) (names : List String) :
    Except LoadError (List Entity) :=
  (names.filter (t.isDocument place)).dedup.mapM fun name =>
    loadFile t (Path.leadOf directory ++ name)

/-- A directory is loaded by its names where these are known, and in order. -/
theorem loadBy_of_names (hd : t.find directory = .ok (place, .directory))
    (hnames : (t.entries.filterMap fun entry =>
      if entry.1.dropLast = place then entry.1.getLast? else none) = names)
    (hsorted : names.Pairwise (· ≤ ·))
    (hfile : ∀ name ∈ names, Path.IsFileName name ∧
      (Path.leadOf directory ++ name).utf8ByteSize ≤ 4095) :
    loadBy search t directory = loadNames t directory place names := by
  obtain rfl := FileTree.names_eq hsorted hnames
  rw [loadBy_directory_eq_mapM hd (fun name hname => (hfile name hname).1) fun name hname =>
    (hfile name (FileTree.mem_names_of_isDocument hname)).2]
  rfl

theorem load_of_names (hd : t.find directory = .ok (place, .directory))
    (hnames : (t.entries.filterMap fun entry =>
      if entry.1.dropLast = place then entry.1.getLast? else none) = names)
    (hsorted : names.Pairwise (· ≤ ·))
    (hfile : ∀ name ∈ names, Path.IsFileName name ∧
      (Path.leadOf directory ++ name).utf8ByteSize ≤ 4095)
    (hok : (loadNames t directory place names).isOk = true) :
    load t directory = .ok ((loadNames t directory place names).toOption.getD []) :=
  (loadBy_of_names hd hnames hsorted hfile).trans (eq_ok_of_isOk hok [])

end Entity

end ApiSurface
