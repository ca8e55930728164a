import ApiSurface.Files.Tree
import ApiSurface.Proofs.Outcomes
import ApiSurface.Proofs.PathNames

/-!
# What writing changes in a tree

The place of a path can be told from its names alone: a name leads inside, `..` leads above
(`place?`). Where a walk comes to an end, it ends at that place, and every place it led through
holds a directory (`place?_of_resolve`).

Making directories puts directories at places that the path leads through and that held nothing
(`makeDirectories_made`); writing a file puts it at the place of its path (`write_eq_ok`). Nothing
else changes.
-/

namespace ApiSurface

/-! ## Places -/

namespace Place

variable {place q : Place} {ns ms : List String} {name : String}

/-- The place that a name leads to. -/
def step? (place : Place) (name : String) : Option Place :=
  if name = ".." then parent? place else some (place ++ [name])

/-- The place that names lead to. -/
def follow (place : Place) (names : List String) : Option Place :=
  names.foldlM step? place

/-- The places that names lead through, from the first to the one they lead to. -/
def through (place : Place) (names : List String) : List Place :=
  names.inits.filterMap place.follow

@[simp] theorem follow_nil (place : Place) : place.follow [] = some place :=
  rfl

theorem follow_cons (place : Place) (name : String) (ns : List String) :
    place.follow (name :: ns) = (place.step? name).bind (follow · ns) := by
  rw [follow, List.foldlM_cons]
  rfl

theorem follow_append (place : Place) (ns ms : List String) :
    place.follow (ns ++ ms) = (place.follow ns).bind (follow · ms) := by
  rw [follow, List.foldlM_append]
  rfl

/-- Names that do not lead upwards are added to a place. -/
theorem follow_of_notMem (h : ".." ∉ ns) : place.follow ns = some (place ++ ns) := by
  induction ns generalizing place with
  | nil => simp
  | cons name rest ih =>
    simp only [List.mem_cons, not_or] at h
    rw [follow_cons, step?, if_neg (Ne.symm h.1), Option.bind_some, ih h.2, List.append_assoc,
      List.singleton_append]

/-- The place that a piece of a path leads to from a directory. -/
def enter (place : Place) (piece : String) : Except FileFault Place :=
  if piece = "" ∨ piece = "." then .ok place
  else if piece = ".." then
    match parent? place with
    | some above => .ok above
    | none => .error .notFound
  else if 255 < piece.utf8ByteSize then .error .nameTooLong
  else .ok (place ++ [piece])

theorem enter_of_isIdle {piece : String} (h : Path.isIdle piece = true) :
    place.enter piece = .ok place := by
  rw [enter, if_pos (Path.isIdle_iff.mp h)]

theorem step?_of_enter {piece : String} (hidle : Path.isIdle piece = false)
    (h : place.enter piece = .ok q) : place.step? piece = some q := by
  rw [enter, if_neg (by rw [← Path.isIdle_iff, hidle]; simp)] at h
  rw [step?]
  split at h
  · next habove =>
    rw [if_pos habove]
    split at h
    · next hparent =>
      cases h
      exact hparent
    · cases h
  · next hname =>
    rw [if_neg hname]
    split at h <;> cases h
    rfl

theorem mem_through : q ∈ place.through ns ↔ ∃ ms, ms <+: ns ∧ place.follow ms = some q := by
  simp [through]

theorem mem_through_of_follow (h : place.follow ns = some q) : q ∈ place.through ns :=
  mem_through.mpr ⟨ns, List.prefix_rfl, h⟩

theorem mem_through_mono (h : q ∈ place.through ms) (hinitial : ms <+: ns) :
    q ∈ place.through ns := by
  obtain ⟨ks, hks, hfollow⟩ := mem_through.mp h
  exact mem_through.mpr ⟨ks, hks.trans hinitial, hfollow⟩

end Place

namespace FileTree

variable {t t' made : FileTree} {path text : String} {place q : Place} {node : FileNode}
  {node? : Option FileNode} {pieces paths : List String} {way : List Place}

/-- Where the walk of a path starts. -/
def start (t : FileTree) (path : String) : Place :=
  if Path.isAbsolute path then ["/"] else t.home

/-- The place that a path leads to, if nothing is in its way. -/
def place? (t : FileTree) (path : String) : Option Place :=
  (t.start path).follow (Path.names path)

/-- The places that a path leads through, its own included. -/
def through (t : FileTree) (path : String) : List Place :=
  (t.start path).through (Path.names path)

@[simp] theorem place?_trimSlashes (t : FileTree) (path : String) :
    t.place? (Path.trimSlashes path) = t.place? path := by
  simp [place?, start]

theorem start_congr (h : t'.home = t.home) (path : String) : t'.start path = t.start path := by
  rw [start, start, h]

theorem place?_congr (h : t'.home = t.home) (path : String) : t'.place? path = t.place? path := by
  rw [place?, place?, start_congr h]

theorem through_congr (h : t'.home = t.home) (path : String) :
    t'.through path = t.through path := by
  rw [through, through, start_congr h]

/-! ## Nodes -/

theorem get?_home (t : FileTree) : t.get? t.home = some .directory := by
  rw [get?, if_pos rfl]

theorem ne_home_of_get? (h : t.get? place ≠ some .directory) : place ≠ t.home := by
  rintro rfl
  exact h t.get?_home

theorem lookup_cons_ne {entries : List (Place × FileNode)} (h : q ≠ place) :
    ((place, node) :: entries).lookup q = entries.lookup q := by
  rw [List.lookup_cons, show (q == place) = false by simpa using h]

theorem lookup_filter_ne {entries : List (Place × FileNode)} (h : q ≠ place) :
    (entries.filter (·.1 != place)).lookup q = entries.lookup q := by
  induction entries with
  | nil => rfl
  | cons entry rest ih =>
    obtain ⟨p, node⟩ := entry
    rcases eq_or_ne p place with rfl | hp
    · rw [List.filter_cons_of_neg (by simp), ih, lookup_cons_ne h]
    · rw [List.filter_cons_of_pos (by simpa using hp), List.lookup_cons, List.lookup_cons, ih]

/-- What is put at a place is there, and nothing else changes. -/
theorem get?_set (h : t.get? place ≠ some .directory) (q : Place) :
    (t.set place node).get? q = if q = place then some node else t.get? q := by
  rw [get?, set]
  dsimp only
  rcases eq_or_ne q place with rfl | hq
  · rw [if_neg (ne_home_of_get? h), if_pos rfl, List.lookup_cons_self]
  · rw [if_neg hq, get?, lookup_cons_ne hq, lookup_filter_ne hq]

/-! ## Walks -/

theorem walk_cons_of_directory (h : t.get? place = some .directory) (piece : String)
    (rest : List String) :
    t.walk place (piece :: rest) = (place.enter piece).bind (t.walk · rest) := by
  rw [walk, h, Place.enter]
  dsimp only
  split
  · rfl
  · split
    · cases Place.parent? place <;> rfl
    · split <;> rfl

/-- A walk goes on from directories only, or stays where nothing is. -/
theorem walk_cons_eq_ok {piece : String} {rest : List String}
    (h : t.walk place (piece :: rest) = .ok (q, node?)) :
    (t.get? place = some .directory ∧
      ∃ next, place.enter piece = .ok next ∧ t.walk next rest = .ok (q, node?)) ∨
    (t.get? place = none ∧ q = place ∧ node? = none ∧ ∀ p ∈ piece :: rest, p = "") := by
  cases hplace : t.get? place with
  | none =>
    rw [walk, hplace] at h
    dsimp only at h
    split at h <;> cases h
    next hempty =>
    exact .inr ⟨rfl, rfl, rfl, fun p hp => beq_iff_eq.mp (List.all_eq_true.mp hempty p hp)⟩
  | some node =>
    cases node with
    | directory =>
      rw [walk_cons_of_directory hplace] at h
      exact .inl ⟨rfl, bind_eq_ok.mp h⟩
    | file _ | binary | locked =>
      rw [walk, hplace] at h
      cases h

/-- Where a walk ends, and that directories stand at every place before. -/
theorem walk_eq_ok (h : t.walk place pieces = .ok (q, node?)) :
    place.follow (pieces.filter (!Path.isIdle ·)) = some q ∧ node? = t.get? q ∧
      ∀ ms d, ms <+: pieces.filter (!Path.isIdle ·) → ms ≠ pieces.filter (!Path.isIdle ·) →
        place.follow ms = some d → t.get? d = some .directory := by
  -- Idle pieces stay where they are; every other piece is the first name of what is left.
  induction pieces generalizing place with
  | nil =>
    cases h
    exact ⟨rfl, rfl, fun ms _ hms hne => absurd (List.prefix_nil.mp hms) hne⟩
  | cons piece rest ih =>
    obtain ⟨hdirectory, next, hnext, hwalk⟩ | ⟨hnone, rfl, rfl, hempty⟩ := walk_cons_eq_ok h
    · obtain ⟨hfollow, hnode, hway⟩ := ih hwalk
      cases hidle : Path.isIdle piece with
      | true =>
        rw [Place.enter_of_isIdle hidle] at hnext
        cases hnext
        rw [List.filter_cons_of_neg (by simp [hidle])]
        exact ⟨hfollow, hnode, hway⟩
      | false =>
        have hstep := Place.step?_of_enter hidle hnext
        rw [List.filter_cons_of_pos (by simp [hidle])]
        refine ⟨by rw [Place.follow_cons, hstep, Option.bind_some, hfollow], hnode, ?_⟩
        intro ms d hms hne hd
        cases ms with
        | nil =>
          obtain rfl := Option.some.inj hd
          exact hdirectory
        | cons m ms =>
          obtain ⟨rfl, hrest⟩ := List.cons_prefix_cons.mp hms
          rw [Place.follow_cons, hstep, Option.bind_some] at hd
          exact hway ms d hrest (fun heq => hne (by rw [heq])) hd
    · have hidle : (piece :: rest).filter (!Path.isIdle ·) = [] := by
        refine List.filter_eq_nil_iff.mpr fun p hp => ?_
        rw [hempty p hp]
        decide
      rw [hidle]
      exact ⟨rfl, hnone.symm, fun ms _ hms hne => absurd (List.prefix_nil.mp hms) hne⟩

/-- What a walk finds is found as long as directories stay. -/
theorem walk_mono (hdirectories : ∀ d, t.get? d = some .directory → t'.get? d = some .directory)
    (h : t.walk place pieces = .ok (q, some node)) :
    t'.walk place pieces = .ok (q, t'.get? q) := by
  induction pieces generalizing place with
  | nil =>
    obtain rfl : place = q := (Prod.ext_iff.mp (Except.ok.inj h)).1
    rfl
  | cons piece rest ih =>
    obtain ⟨hdirectory, next, hnext, hwalk⟩ | ⟨_, _, hnone, _⟩ := walk_cons_eq_ok h
    · rw [walk_cons_of_directory (hdirectories _ hdirectory), hnext]
      exact ih hwalk
    · cases hnone

/-- Where a walk finds something, a directory stands before its last piece. -/
theorem walk_of_append {last : String} (h : t.walk place (pieces ++ [last]) = .ok (q, some node)) :
    ∃ d, t.walk place pieces = .ok (d, some .directory) := by
  induction pieces generalizing place with
  | nil =>
    obtain ⟨hdirectory, -⟩ | ⟨-, -, hnone, -⟩ := walk_cons_eq_ok h
    · exact ⟨place, by rw [walk, hdirectory]⟩
    · cases hnone
  | cons piece rest ih =>
    obtain ⟨hdirectory, next, hnext, hwalk⟩ | ⟨-, -, hnone, -⟩ := walk_cons_eq_ok h
    · obtain ⟨d, hd⟩ := ih hwalk
      exact ⟨d, by rw [walk_cons_of_directory hdirectory, hnext]; exact hd⟩
    · cases hnone

/-- A file put where a walk ends is found there. -/
theorem walk_set (h : t.walk place pieces = .ok (q, node?)) (hq : t.get? q ≠ some .directory)
    (hlast : pieces.getLast? ≠ some "") :
    (t.set q node).walk place pieces = .ok (q, some node) := by
  induction pieces generalizing place with
  | nil =>
    cases h
    rw [walk, get?_set hq, if_pos rfl]
  | cons piece rest ih =>
    obtain ⟨hdirectory, next, hnext, hwalk⟩ | ⟨_, _, _, hempty⟩ := walk_cons_eq_ok h
    -- The walk goes on from directories, and the place of the file is none.
    · have hstays : (t.set q node).get? place = some .directory := by
        rw [get?_set hq, if_neg (fun heq : place = q => hq (heq ▸ hdirectory)), hdirectory]
      rw [walk_cons_of_directory hstays, hnext]
      refine ih hwalk fun hrest => hlast ?_
      rw [List.getLast?_cons, hrest]
      rfl
    · obtain ⟨last, hsome⟩ := List.getLast?_isSome.mpr (List.cons_ne_nil piece rest) |>
        Option.isSome_iff_exists.mp
      exact absurd (hempty last (List.mem_of_getLast? hsome) ▸ hsome) hlast

/-! ## Paths -/

/-- What a path needs for being walked at all, whatever the tree. -/
structure Walkable (path : String) : Prop where
  noNull : '\x00' ∉ path.toList
  nonempty : path ≠ ""
  size : path.utf8ByteSize ≤ 4095

theorem resolve_eq_ok_iff :
    t.resolve path = .ok (q, node?) ↔
      Walkable path ∧ t.walk (t.start path) (Path.pieces path) = .ok (q, node?) := by
  have hwalk : (if Path.isAbsolute path then t.walk ["/"] (Path.pieces path)
      else t.walk t.home (Path.pieces path)) = t.walk (t.start path) (Path.pieces path) := by
    rw [start]
    split <;> rfl
  rw [resolve, hwalk]
  constructor
  · intro h
    split at h
    · cases h
    · next hnull =>
      split at h
      · cases h
      · next hempty =>
        split at h
        · cases h
        · next hsize => exact ⟨⟨hnull, hempty, Nat.le_of_not_lt hsize⟩, h⟩
  · rintro ⟨hpath, h⟩
    rw [if_neg hpath.noNull, if_neg hpath.nonempty, if_neg (Nat.not_lt.mpr hpath.size), h]

/-- Where a path leads, and that directories stand at every place before. -/
theorem place?_of_resolve (h : t.resolve path = .ok (q, node?)) :
    t.place? path = some q ∧ node? = t.get? q ∧
      (Path.names path ≠ [] → ∀ d ∈ (t.start path).through (Path.names path).dropLast,
        t.get? d = some .directory) := by
  obtain ⟨-, hwalk⟩ := resolve_eq_ok_iff.mp h
  obtain ⟨hfollow, hnode, hway⟩ := walk_eq_ok hwalk
  rw [← Path.names] at hway
  refine ⟨hfollow, hnode, fun hne d hd => ?_⟩
  obtain ⟨ms, hms, hd⟩ := Place.mem_through.mp hd
  refine hway ms d (hms.trans (List.dropLast_prefix _)) (fun heq => hne ?_) hd
  have hlength := hms.length_le
  rw [heq, List.length_dropLast] at hlength
  exact List.length_eq_zero_iff.mp (by omega)

theorem find_eq_ok : t.find path = .ok (q, node) ↔ t.resolve path = .ok (q, some node) := by
  rw [find, bind_eq_ok]
  constructor
  · rintro ⟨⟨place, _ | _⟩, hresolve, h⟩ <;> cases h
    exact hresolve
  · exact fun hresolve => ⟨_, hresolve, rfl⟩

/-- What a path leads to is found as long as directories stay. -/
theorem find_mono (hhome : t'.home = t.home)
    (hdirectories : ∀ d, t.get? d = some .directory → t'.get? d = some .directory)
    {node' : FileNode} (hq : t'.get? q = some node') (h : t.find path = .ok (q, node)) :
    t'.find path = .ok (q, node') := by
  obtain ⟨hpath, hwalk⟩ := resolve_eq_ok_iff.mp (find_eq_ok.mp h)
  rw [find_eq_ok, resolve_eq_ok_iff, start_congr hhome, walk_mono hdirectories hwalk, hq]
  exact ⟨hpath, rfl⟩

/-- Where a path leads to something, its directory is there. -/
theorem find_directory {directory file : String} (hdirectory : directory ≠ "")
    (hslash : Path.endsInSlash directory = false) (hfile : '/' ∉ file.toList)
    (h : t.find (Path.join directory file) = .ok (q, node)) :
    ∃ d, t.find directory = .ok (d, .directory) := by
  have hjoin : Path.join directory file = directory ++ "/" ++ file := by
    rw [Path.join, Path.isAbsolute_of_notMem hfile, hslash, if_neg (by simpa using hdirectory)]
    rfl
  have hstart : t.start (Path.join directory file) = t.start directory := by
    rw [start, start, Path.isAbsolute_join (Path.isAbsolute_of_notMem hfile)]
  obtain ⟨hpath, hwalk⟩ := resolve_eq_ok_iff.mp (find_eq_ok.mp h)
  rw [hstart, hjoin, Path.pieces_append, Path.pieces_of_notMem hfile] at hwalk
  obtain ⟨d, hd⟩ := walk_of_append hwalk
  have hnull : '\x00' ∉ directory.toList := fun hnull => hpath.noNull (by
    rw [hjoin, String.toList_append, String.toList_append]
    simp [hnull])
  have hsize : directory.utf8ByteSize ≤ 4095 := by
    have hsize := hpath.size
    rw [hjoin, String.utf8ByteSize_append, String.utf8ByteSize_append] at hsize
    omega
  exact ⟨d, find_eq_ok.mpr (resolve_eq_ok_iff.mpr ⟨⟨hnull, hdirectory, hsize⟩, hd⟩)⟩

/-! ## Directories -/

/-- What making directories does: some places on the way that held nothing hold directories. -/
structure Made (way : List Place) (before after : FileTree) : Prop where
  home : after.home = before.home
  made : ∀ q, after.get? q = before.get? q ∨
    q ∈ way ∧ before.get? q = none ∧ after.get? q = some .directory

namespace Made

theorem refl (way : List Place) (t : FileTree) : Made way t t :=
  ⟨rfl, fun _ => .inl rfl⟩

theorem trans (h : Made way t made) (h' : Made way made t') : Made way t t' := by
  refine ⟨h'.home.trans h.home, fun q => ?_⟩
  obtain hsame | ⟨hq, hnone, hdirectory⟩ := h.made q <;>
    obtain hsame' | ⟨hq', hnone', hdirectory'⟩ := h'.made q
  · exact .inl (hsame'.trans hsame)
  · exact .inr ⟨hq', hsame ▸ hnone', hdirectory'⟩
  · exact .inr ⟨hq, hnone, hsame'.trans hdirectory⟩
  · exact .inr ⟨hq, hnone, hdirectory'⟩

/-- What was there stays. -/
theorem get?_of_some (h : Made way t made) (hnode : t.get? q = some node) :
    made.get? q = some node := by
  obtain hsame | ⟨-, hnone, -⟩ := h.made q
  · rw [hsame, hnode]
  · rw [hnode] at hnone
    cases hnone

end Made

theorem makeDirectory_made (h : t.makeDirectory path = .ok made)
    (hway : ∀ q, t.place? path = some q → q ∈ way) : Made way t made := by
  obtain ⟨⟨place, _ | _⟩, hresolve, h⟩ := bind_eq_ok.mp h <;> cases h
  obtain ⟨hplace, hnone, -⟩ := place?_of_resolve hresolve
  rw [place?_trimSlashes] at hplace
  have hfree : t.get? place ≠ some .directory := by simp [← hnone]
  refine ⟨rfl, fun q => ?_⟩
  rw [get?_set hfree]
  split
  · next heq =>
    subst heq
    exact .inr ⟨hway q hplace, hnone.symm, rfl⟩
  · exact .inl rfl

theorem ensureDirectory_made (h : t.ensureDirectory path = .ok made)
    (hway : ∀ q, t.place? path = some q → q ∈ way) : Made way t made := by
  obtain hmade | ⟨fault, -, hthere⟩ := tryCatch_eq_ok.mp h
  · exact makeDirectory_made hmade hway
  · split at hthere <;> cases hthere
    exact .refl _ _

theorem makeFirst_made (h : t.makeFirst paths = .ok (made, rest))
    (hway : ∀ path ∈ paths, ∀ q, t.place? path = some q → q ∈ way) :
    Made way t made ∧ rest ⊆ paths := by
  induction paths generalizing made rest with
  | nil =>
    cases h
    exact ⟨.refl _ _, List.Subset.refl _⟩
  | cons path above ih =>
    obtain ⟨hpath, habove⟩ := List.forall_mem_cons.mp hway
    obtain hfirst | ⟨fault, -, hlater⟩ := tryCatch_eq_ok.mp h
    · obtain ⟨_, hensure, heq⟩ := map_eq_ok.mp hfirst
      cases heq
      exact ⟨ensureDirectory_made hensure hpath, List.nil_subset _⟩
    · split at hlater
      · obtain ⟨⟨made', rest'⟩, hfirst, heq⟩ := map_eq_ok.mp hlater
        cases heq
        obtain ⟨hmade, hsubset⟩ := ih hfirst habove
        refine ⟨hmade, List.append_subset.mpr ⟨List.subset_cons_of_subset _ hsubset, ?_⟩⟩
        simp
      · cases hlater

theorem makeAll_made {result : Except FileFault Unit} (h : t.makeAll paths = (made, result))
    (hway : ∀ path ∈ paths, ∀ q, t.place? path = some q → q ∈ way) : Made way t made := by
  induction paths generalizing t with
  | nil =>
    cases h
    exact .refl _ _
  | cons path rest ih =>
    obtain ⟨hpath, hrest⟩ := List.forall_mem_cons.mp hway
    rw [makeAll] at h
    cases hensure : t.ensureDirectory path with
    | error fault =>
      rw [hensure] at h
      cases h
      exact .refl _ _
    | ok next =>
      rw [hensure] at h
      have hstep := ensureDirectory_made hensure hpath
      refine hstep.trans (ih h fun p hp q hq => hrest p hp q ?_)
      rwa [place?_congr hstep.home] at hq

/-- Making the directories of a path puts directories where the path leads through and nothing was,
also when it ends with a fault. -/
theorem makeDirectories_made {result : Except FileFault Unit}
    (h : t.makeDirectories path = (made, result)) : Made (t.through path) t made := by
  have hway : ∀ p ∈ Path.upwards path, ∀ q, t.place? p = some q → q ∈ t.through path := by
    intro p hp q hq
    obtain ⟨hnames, habsolute⟩ := Path.of_mem_upwards hp
    rw [place?, start, habsolute, ← start] at hq
    exact Place.mem_through.mpr ⟨_, hnames, hq⟩
  rw [makeDirectories] at h
  cases hfirst : t.makeFirst (Path.upwards path) with
  | error fault =>
    rw [hfirst] at h
    cases h
    exact .refl _ _
  | ok first =>
    rw [hfirst] at h
    obtain ⟨hmade, hsubset⟩ := makeFirst_made hfirst hway
    refine hmade.trans (makeAll_made h fun p hp q hq => hway p (hsubset hp) q ?_)
    rwa [place?_congr hmade.home] at hq

/-! ## Files -/

/-- A file is put at the place of its path, which is no directory, and is found there. -/
theorem write_eq_ok (h : t.write path text = .ok t') :
    ∃ place, t.resolve path = .ok (place, t.get? place) ∧ t.get? place ≠ some .directory ∧
      t' = t.set place (.file text) ∧ t'.find path = .ok (place, .file text) := by
  obtain ⟨⟨place, node?⟩, hresolve, h⟩ := bind_eq_ok.mp h
  split at h
  · cases h
  · next hdirectory heq =>
    cases heq
    split at h
    · cases h
    next hslash =>
    split at h <;> cases h
    have hslash : Path.endsInSlash path = false := by simpa using hslash
    rw [Path.trimSlashes_of_endsInSlash hslash] at hresolve
    obtain ⟨hpath, hwalk⟩ := resolve_eq_ok_iff.mp hresolve
    obtain ⟨-, rfl, -⟩ := place?_of_resolve hresolve
    have hfree : t.get? place ≠ some .directory := hdirectory
    exact ⟨place, hresolve, hfree, rfl, find_eq_ok.mpr (resolve_eq_ok_iff.mpr
      ⟨hpath, walk_set hwalk hfree (Path.getLast?_pieces hpath.nonempty hslash)⟩)⟩

end FileTree

end ApiSurface
