import ApiSurface.Files.Path
import Mathlib.Data.List.Infix
import Mathlib.Data.List.TakeWhile

/-!
# The names in a path

A path is known by its names and by whether it is absolute. Joining paths appends their names
(`names_join`), the parent has all names but the last (`names_parent`), and slashes at the end add
none. The paths above a path have an initial part of its names (`of_mem_upwards`).

A directory whose path ends in a name is the parent of what lies in it, letter by letter
(`parent_join`).
-/

namespace ApiSurface.Path

variable {path directory inner piece : String} {s t : List Char}

/-! ## Pieces -/

theorem splitSlashes_ne_nil (s : List Char) : splitSlashes s ≠ [] := by
  cases s with
  | nil => simp [splitSlashes]
  | cons c rest =>
    rw [splitSlashes]
    split
    · simp
    · split <;> simp

theorem splitSlashes_of_notMem (h : '/' ∉ s) : splitSlashes s = [s] := by
  induction s with
  | nil => rfl
  | cons c rest ih =>
    simp only [List.mem_cons, not_or] at h
    rw [splitSlashes, if_neg (Ne.symm h.1), ih h.2]

theorem splitSlashes_append (s t : List Char) :
    splitSlashes (s ++ '/' :: t) = splitSlashes s ++ splitSlashes t := by
  induction s with
  | nil => simp [splitSlashes]
  | cons c rest ih =>
    rw [List.cons_append, splitSlashes, splitSlashes, ih]
    split
    · rfl
    · cases hrest : splitSlashes rest with
      | nil => exact absurd hrest (splitSlashes_ne_nil rest)
      | cons piece pieces => rfl

theorem notMem_of_mem_splitSlashes {piece : List Char} (h : piece ∈ splitSlashes s) :
    '/' ∉ piece := by
  induction s generalizing piece with
  | nil => simp_all [splitSlashes]
  | cons c rest ih =>
    rw [splitSlashes] at h
    split at h
    · rcases List.mem_cons.mp h with rfl | h
      · simp
      · exact ih h
    · next hc =>
      cases hrest : splitSlashes rest with
      | nil => exact absurd hrest (splitSlashes_ne_nil rest)
      | cons first others =>
        rw [hrest] at h ih
        rcases List.mem_cons.mp h with rfl | h
        · simp [Ne.symm hc, ih List.mem_cons_self]
        · exact ih (List.mem_cons_of_mem _ h)

theorem subset_of_mem_splitSlashes {piece : List Char} (h : piece ∈ splitSlashes s) :
    piece ⊆ s := by
  induction s generalizing piece with
  | nil => simp_all [splitSlashes]
  | cons c rest ih =>
    rw [splitSlashes] at h
    split at h
    · rcases List.mem_cons.mp h with rfl | h
      · exact List.nil_subset _
      · exact List.subset_cons_of_subset _ (ih h)
    · cases hrest : splitSlashes rest with
      | nil => exact absurd hrest (splitSlashes_ne_nil rest)
      | cons first others =>
        rw [hrest] at h ih
        rcases List.mem_cons.mp h with rfl | h
        · exact List.cons_subset_cons _ (ih List.mem_cons_self)
        · exact List.subset_cons_of_subset _ (ih (List.mem_cons_of_mem _ h))

/-- The first piece is empty exactly where a path begins with a slash or has nothing. -/
theorem head?_splitSlashes (s : List Char) :
    (splitSlashes s).head? = some [] ↔ s = [] ∨ s.head? = some '/' := by
  cases s with
  | nil => simp [splitSlashes]
  | cons c rest =>
    rw [splitSlashes]
    split
    · simp [*]
    · cases hrest : splitSlashes rest <;> simp [*]

/-- The last piece is empty only where a path ends in a slash or has nothing. -/
theorem getLast?_splitSlashes_append (s : List Char) {c : Char} (hc : c ≠ '/') :
    (splitSlashes (s ++ [c])).getLast? ≠ some [] := by
  induction s with
  | nil => simp [splitSlashes, hc]
  | cons d rest ih =>
    rw [List.cons_append, splitSlashes]
    cases hrest : splitSlashes (rest ++ [c]) with
    | nil => exact absurd hrest (splitSlashes_ne_nil _)
    | cons piece pieces =>
      rw [hrest] at ih
      split
      · rwa [List.getLast?_cons_cons]
      · cases pieces with
        | nil => simp
        | cons other others => rwa [List.getLast?_cons_cons] at ih ⊢

theorem pieces_ne_nil (path : String) : pieces path ≠ [] := by
  simpa [pieces] using splitSlashes_ne_nil path.toList

theorem pieces_append (directory inner : String) :
    pieces (directory ++ "/" ++ inner) = pieces directory ++ pieces inner := by
  have hslash : (directory ++ "/" ++ inner).toList = directory.toList ++ '/' :: inner.toList := by
    rw [String.toList_append, String.toList_append, show "/".toList = ['/'] from rfl]
    simp
  rw [pieces, hslash, splitSlashes_append, List.map_append]
  rfl

theorem pieces_of_notMem (h : '/' ∉ path.toList) : pieces path = [path] := by
  rw [pieces, splitSlashes_of_notMem h, List.map_singleton, String.ofList_toList]

theorem notMem_of_mem_pieces (h : piece ∈ pieces path) : '/' ∉ piece.toList := by
  obtain ⟨cs, hcs, rfl⟩ := List.mem_map.mp h
  simpa using notMem_of_mem_splitSlashes hcs

theorem subset_of_mem_pieces (h : piece ∈ pieces path) : piece.toList ⊆ path.toList := by
  obtain ⟨cs, hcs, rfl⟩ := List.mem_map.mp h
  simpa using subset_of_mem_splitSlashes hcs

/-- A path is made of its pieces. -/
theorem pieces_intercalate {ps : List String} (hne : ps ≠ []) (h : ∀ p ∈ ps, '/' ∉ p.toList) :
    pieces ("/".intercalate ps) = ps := by
  induction ps with
  | nil => exact absurd rfl hne
  | cons p rest ih =>
    obtain ⟨hp, hrest⟩ := List.forall_mem_cons.mp h
    cases rest with
    | nil => rw [String.intercalate_singleton, pieces_of_notMem hp]
    | cons q rest =>
      rw [String.intercalate_cons_cons, pieces_append, pieces_of_notMem hp,
        ih (List.cons_ne_nil q rest) hrest, List.singleton_append]

theorem intercalate_splitSlashes (s : List Char) : ['/'].intercalate (splitSlashes s) = s := by
  induction s with
  | nil => rfl
  | cons c rest ih =>
    obtain ⟨piece, pieces, hrest⟩ := List.exists_cons_of_ne_nil (splitSlashes_ne_nil rest)
    rw [splitSlashes]
    split
    · next hc =>
      rw [hrest, List.intercalate_cons_cons, ← hrest, ih, hc]
      rfl
    · rw [hrest] at ih ⊢
      cases pieces with
      | nil => simpa using ih
      | cons piece' pieces =>
        rw [List.intercalate_cons_cons] at ih ⊢
        simpa using ih

/-- The pieces of a path make up the path. -/
theorem intercalate_pieces (path : String) : "/".intercalate (pieces path) = path := by
  apply String.toList_inj.mp
  rw [String.toList_intercalate, pieces, List.map_map]
  have hcomp : String.toList ∘ String.ofList = id := funext fun s => String.toList_ofList
  rw [hcomp, List.map_id]
  exact intercalate_splitSlashes path.toList

/-! ## Names -/

theorem isIdle_iff : isIdle piece = true ↔ piece = "" ∨ piece = "." := by
  rw [isIdle, Bool.or_eq_true, beq_iff_eq, beq_iff_eq]

@[simp] theorem names_empty : names "" = [] := by
  decide

theorem names_append (directory inner : String) :
    names (directory ++ "/" ++ inner) = names directory ++ names inner := by
  simp only [names, pieces_append, List.filter_append]

theorem names_of_notMem (h : '/' ∉ path.toList) (hidle : isIdle path = false) :
    names path = [path] := by
  rw [names, pieces_of_notMem h]
  simp [hidle]

theorem length_names_le_one (h : '/' ∉ path.toList) : (names path).length ≤ 1 := by
  rw [names, pieces_of_notMem h]
  exact List.length_filter_le _ [path]

theorem notMem_of_mem_names (h : piece ∈ names path) : '/' ∉ piece.toList :=
  notMem_of_mem_pieces (List.mem_of_mem_filter h)

/-! ## Joining -/

theorem isAbsolute_of_notMem (h : '/' ∉ path.toList) : isAbsolute path = false := by
  cases hpath : path.toList with
  | nil => simp [isAbsolute, hpath]
  | cons c rest =>
    simp only [hpath, List.mem_cons, not_or] at h
    simp [isAbsolute, hpath, Ne.symm h.1]

/-- A path that ends in a slash is another with a slash behind it. -/
theorem exists_append_of_endsInSlash (h : endsInSlash path = true) :
    ∃ front, path = front ++ "/" := by
  obtain ⟨front, hfront⟩ : ∃ front, path.toList = front ++ ['/'] := by
    simpa [endsInSlash, List.getLast?_eq_some_iff] using h
  exact ⟨String.ofList front, String.toList_inj.mp (by simp [hfront])⟩

theorem getLast?_pieces (hne : path ≠ "") (h : endsInSlash path = false) :
    (pieces path).getLast? ≠ some "" := by
  rcases List.eq_nil_or_concat path.toList with hempty | ⟨front, c, hpath⟩
  · exact absurd (String.toList_inj.mp hempty) hne
  · have hc : c ≠ '/' := by simpa [endsInSlash, hpath] using h
    intro hlast
    rw [pieces, hpath, List.concat_eq_append, List.getLast?_map] at hlast
    obtain ⟨piece, hpiece, hnone⟩ := Option.map_eq_some_iff.mp hlast
    refine getLast?_splitSlashes_append front hc (hpiece.trans ?_)
    rw [← String.toList_ofList (l := piece), hnone]
    rfl

theorem names_join (h : isAbsolute inner = false) :
    names (join directory inner) = names directory ++ names inner := by
  rw [join, h, Bool.false_or]
  split
  · next hempty =>
    rw [beq_iff_eq.mp hempty, names_empty, List.nil_append]
  · split
    · next hslash =>
      obtain ⟨front, rfl⟩ := exists_append_of_endsInSlash hslash
      have hfront : names (front ++ "/") = names front := by
        simpa using names_append front ""
      rw [names_append, hfront]
    · exact names_append directory inner

theorem isAbsolute_join (h : isAbsolute inner = false) :
    isAbsolute (join directory inner) = isAbsolute directory := by
  rw [join, h, Bool.false_or]
  split
  · next hempty =>
    rw [beq_iff_eq.mp hempty, h]
    rfl
  · next hne =>
    have hhead : directory.toList.head? ≠ none := fun hnone =>
      hne (beq_iff_eq.mpr (String.toList_inj.mp (List.head?_eq_none_iff.mp hnone)))
    obtain ⟨c, hc⟩ := Option.ne_none_iff_exists'.mp hhead
    split <;> simp [isAbsolute, List.head?_append, hc]

/-- A path inside a directory ends as it does on its own. -/
theorem exists_toList_join (directory inner : String) :
    ∃ front, (join directory inner).toList = front ++ inner.toList := by
  rw [join]
  split
  · exact ⟨[], rfl⟩
  · split
    · exact ⟨_, String.toList_append⟩
    · exact ⟨_, String.toList_append⟩

/-! ## Slashes at the end -/

theorem names_ofList_append (s : List Char) {slashes : List Char} (h : ∀ c ∈ slashes, c = '/') :
    names (String.ofList (s ++ slashes)) = names (String.ofList s) := by
  induction slashes generalizing s with
  | nil => rw [List.append_nil]
  | cons c rest ih =>
    obtain ⟨rfl, hrest⟩ := List.forall_mem_cons.mp h
    have hcons : String.ofList (s ++ '/' :: rest)
        = String.ofList s ++ "/" ++ String.ofList ([] ++ rest) := by
      apply String.toList_inj.mp
      rw [String.toList_append, String.toList_append, show "/".toList = ['/'] from rfl]
      simp
    rw [hcons, names_append, ih [] hrest]
    simp

/-- A path is the trimmed path and slashes. Nothing but the empty path is trimmed to nothing. -/
theorem exists_slashes (path : String) : ∃ slashes : List Char, (∀ c ∈ slashes, c = '/') ∧
    path.toList = (trimSlashes path).toList ++ slashes ∧ (trimSlashes path = "" → path = "") := by
  rw [trimSlashes]
  split
  · exact ⟨[], by simp, by simp, id⟩
  · next hne =>
    refine ⟨(path.toList.reverse.takeWhile (· == '/')).reverse, fun c hc => ?_, ?_, fun h => ?_⟩
    · simpa using List.mem_takeWhile_imp (List.mem_reverse.mp hc)
    · rw [String.toList_ofList, ← List.reverse_append, List.takeWhile_append_dropWhile,
        List.reverse_reverse]
    · exact absurd (beq_iff_eq.mpr h) hne

@[simp] theorem names_trimSlashes (path : String) : names (trimSlashes path) = names path := by
  obtain ⟨slashes, hslashes, hpath, -⟩ := exists_slashes path
  have h := names_ofList_append (trimSlashes path).toList hslashes
  rw [← hpath, String.ofList_toList, String.ofList_toList] at h
  exact h.symm

@[simp] theorem isAbsolute_trimSlashes (path : String) :
    isAbsolute (trimSlashes path) = isAbsolute path := by
  obtain ⟨slashes, -, hpath, hempty⟩ := exists_slashes path
  cases hcs : (trimSlashes path).toList with
  | nil =>
    have htrim : trimSlashes path = "" := String.toList_inj.mp hcs
    rw [htrim, hempty htrim]
  | cons c rest => simp [isAbsolute, hpath, hcs]

theorem trimSlashes_of_endsInSlash (h : endsInSlash path = false) : trimSlashes path = path := by
  obtain ⟨slashes, hslashes, hpath, -⟩ := exists_slashes path
  rcases List.eq_nil_or_concat slashes with rfl | ⟨front, c, rfl⟩
  · exact String.toList_inj.mp (by rw [hpath, List.append_nil])
  · have hc := hslashes c (by simp)
    simp [endsInSlash, hpath, hc] at h

/-! ## Parents -/

theorem dropIdle_suffix (reversed : List String) : dropIdle reversed <:+ reversed := by
  rw [dropIdle]
  split
  · exact List.drop_suffix _ _
  · exact List.dropWhile_suffix _

theorem dropIdle_ne_nil {reversed : List String} (h : reversed ≠ []) : dropIdle reversed ≠ [] := by
  rw [dropIdle]
  split
  · have := List.length_pos_iff.mpr h
    rw [Ne, List.drop_eq_nil_iff]
    omega
  · next hkept => simpa using hkept

theorem getLast?_dropIdle (reversed : List String) :
    (dropIdle reversed).getLast? = reversed.getLast? := by
  rcases eq_or_ne reversed [] with rfl | hne
  · rfl
  · obtain ⟨front, hfront⟩ := dropIdle_suffix reversed
    obtain ⟨last, hlast⟩ : ∃ last, (dropIdle reversed).getLast? = some last :=
      Option.ne_none_iff_exists'.mp (by simpa using dropIdle_ne_nil hne)
    rw [← congrArg List.getLast? hfront, List.getLast?_append, hlast]
    rfl

theorem filter_dropIdle (reversed : List String) :
    (dropIdle reversed).filter (!isIdle ·) = reversed.filter (!isIdle ·) := by
  have hsplit : reversed.takeWhile isIdle ++ reversed.dropWhile isIdle = reversed :=
    List.takeWhile_append_dropWhile
  have hidle : (reversed.takeWhile isIdle).filter (!isIdle ·) = [] := by
    simpa using fun piece => List.mem_takeWhile_imp (p := isIdle)
  rw [dropIdle]
  split
  · next hkept =>
    rw [List.isEmpty_iff.mp hkept, List.append_nil] at hsplit
    rw [hsplit] at hidle
    rw [hidle]
    exact List.sublist_nil.mp (hidle ▸ (List.drop_sublist _ _).filter _)
  · rw [← congrArg (List.filter (!isIdle ·)) hsplit, List.filter_append, hidle, List.nil_append]

/-- Idle pieces at the end go, unless all are idle. -/
theorem isIdle_of_dropIdle {reversed above : List String} {last : String}
    (h : dropIdle reversed = last :: above) : isIdle last = false ∨ above = [] := by
  rw [dropIdle] at h
  split at h
  · right
    have hlength := congrArg List.length h
    rw [List.length_drop, List.length_cons] at hlength
    exact List.length_eq_zero_iff.mp (by omega)
  · left
    have hhead := List.head_dropWhile_not isIdle (l := reversed) (by simp [h])
    simpa only [h, List.head_cons] using hhead

/-- The first piece is empty where a path is absolute or empty. -/
theorem head?_pieces (path : String) :
    (pieces path).head? = some "" ↔ path = "" ∨ isAbsolute path = true := by
  have hpath : path.toList = [] ↔ path = "" := by
    rw [← String.toList_inj]
    rfl
  rw [isAbsolute, beq_iff_eq, ← hpath, ← head?_splitSlashes, pieces, List.head?_map]
  constructor
  · intro h
    obtain ⟨cs, hcs, hempty⟩ := Option.map_eq_some_iff.mp h
    rw [hcs, ← String.toList_ofList (l := cs), hempty]
    rfl
  · intro h
    rw [h]
    rfl

theorem dropIdle_cons (hidle : isIdle piece = false) (rest : List String) :
    dropIdle (piece :: rest) = piece :: rest := by
  rw [dropIdle, List.dropWhile_cons_of_neg (by simp [hidle])]
  rfl

/-- The pieces that a parent is made of, where a path has names above its last. -/
theorem parent_of_dropIdle {last : String} {above : List String} (habove : above ≠ [])
    (h : dropIdle (pieces path).reverse = last :: above) :
    names (parent path) = (names path).dropLast ∧
      isAbsolute (parent path) = (isAbsolute path && !(names path).isEmpty) := by
  have hlast : isIdle last = false := (isIdle_of_dropIdle h).resolve_right habove
  -- The last name goes, and the idle pieces in front of it go with it.
  have hreverse := filter_dropIdle (pieces path).reverse
  rw [h, List.filter_reverse, List.filter_cons_of_pos (by simp [hlast])] at hreverse
  have hnames : names path = (above.filter (!isIdle ·)).reverse ++ [last] := by
    rw [names, ← List.reverse_inj, ← hreverse]
    simp
  have hhead : (dropIdle above).reverse.head? = (pieces path).head? := by
    have hends := getLast?_dropIdle (pieces path).reverse
    rw [h, List.getLast?_cons, List.getLast?_reverse] at hends
    rw [List.head?_reverse, getLast?_dropIdle, ← hends]
    obtain ⟨last, hlast⟩ := Option.ne_none_iff_exists'.mp (mt List.getLast?_eq_none_iff.mp habove)
    rw [hlast]
    rfl
  have hpieces : pieces ("/".intercalate (dropIdle above).reverse) = (dropIdle above).reverse := by
    refine pieces_intercalate (by simpa using dropIdle_ne_nil habove) fun p hp => ?_
    have hmem : p ∈ last :: above :=
      List.mem_cons_of_mem _ ((dropIdle_suffix above).subset (List.mem_reverse.mp hp))
    rw [← h] at hmem
    exact notMem_of_mem_pieces (List.mem_reverse.mp ((dropIdle_suffix _).subset hmem))
  have hpath : path ≠ "" := by
    rintro rfl
    have hone : dropIdle (pieces "").reverse = [""] := by decide
    rw [hone] at h
    exact habove (List.cons.inj h).2.symm
  -- Both paths begin with the same piece, so they start from the same place.
  have habsolute := head?_pieces ("/".intercalate (dropIdle above).reverse)
  rw [hpieces, hhead, head?_pieces, or_iff_right hpath] at habsolute
  have htext : names ("/".intercalate (dropIdle above).reverse) = (names path).dropLast := by
    rw [names, hpieces, List.filter_reverse, filter_dropIdle, hnames, List.dropLast_concat]
  have hsome : (names path).isEmpty = false := by
    simp [hnames]
  rw [parent, h, hsome, Bool.not_false, Bool.and_true]
  dsimp only
  rw [if_neg (by simpa using habove)]
  split
  · next hroot =>
    simp only [Bool.and_eq_true, beq_iff_eq] at hroot
    rw [← htext, hroot.1, hroot.2]
    exact ⟨by decide, by decide⟩
  · next hroot =>
    simp only [Bool.and_eq_true, beq_iff_eq, not_and] at hroot
    refine ⟨htext, Bool.eq_iff_iff.mpr ⟨fun hp => habsolute.mpr (.inr hp), fun hp => ?_⟩⟩
    exact (habsolute.mp hp).resolve_left fun hempty => hroot hempty hp

/-- A parent has all names but the last, and is absolute with the path where that has names. -/
theorem parent_spec (path : String) :
    names (parent path) = (names path).dropLast ∧
      isAbsolute (parent path) = (isAbsolute path && !(names path).isEmpty) := by
  cases h : dropIdle (pieces path).reverse with
  | nil => exact absurd h (dropIdle_ne_nil (by simpa using pieces_ne_nil path))
  | cons last above =>
    rcases eq_or_ne above [] with rfl | habove
    · have hreverse := filter_dropIdle (pieces path).reverse
      rw [h, List.filter_reverse] at hreverse
      have hparent : parent path = "" := by
        rw [parent, h]
        rfl
      have hhead : (pieces path).head? = some last := by
        have hends := getLast?_dropIdle (pieces path).reverse
        rw [h, List.getLast?_reverse] at hends
        exact hends.symm
      rw [hparent, names_empty, ← List.reverse_reverse (names path), names, ← hreverse]
      cases hidle : isIdle last with
      | true => simp [hidle, isAbsolute]
      | false =>
        have hrelative : isAbsolute path = false := by
          by_contra habsolute
          have hempty := (head?_pieces path).mpr (.inr (by simpa using habsolute))
          rw [hhead, Option.some.injEq] at hempty
          rw [hempty] at hidle
          cases hidle
        rw [hrelative]
        simp [hidle, isAbsolute]
    · exact parent_of_dropIdle habove h

theorem names_parent (path : String) : names (parent path) = (names path).dropLast :=
  (parent_spec path).1

theorem isAbsolute_parent (path : String) :
    isAbsolute (parent path) = (isAbsolute path && !(names path).isEmpty) :=
  (parent_spec path).2

/-! ## Directories with a name -/

variable {file last : String}

/-- The last piece of a path is a name. -/
def EndsInName (path : String) : Prop :=
  ∃ last, (pieces path).getLast? = some last ∧ isIdle last = false

namespace EndsInName

theorem ne_empty (h : EndsInName directory) : directory ≠ "" := by
  obtain ⟨last, hlast, hidle⟩ := h
  rintro rfl
  cases (Option.some.inj hlast : "" = last)
  cases hidle

theorem endsInSlash (h : EndsInName directory) : endsInSlash directory = false := by
  obtain ⟨last, hlast, hidle⟩ := h
  by_contra hslash
  obtain ⟨front, rfl⟩ := exists_append_of_endsInSlash (by simpa using hslash)
  have hpieces := pieces_append front ""
  rw [String.append_empty] at hpieces
  rw [hpieces, List.getLast?_append] at hlast
  cases (Option.some.inj hlast : "" = last)
  cases hidle

theorem join_eq (h : EndsInName directory) (hinner : isAbsolute inner = false) :
    join directory inner = directory ++ "/" ++ inner := by
  have hempty : (directory == "") = false := by simpa using h.ne_empty
  rw [Path.join, hinner, hempty, h.endsInSlash]
  rfl

end EndsInName

theorem endsInName_of_notMem (hslash : '/' ∉ last.toList) (hidle : isIdle last = false) :
    EndsInName last :=
  ⟨last, by rw [pieces_of_notMem hslash]; rfl, hidle⟩

theorem endsInName_join (directory : String) (hslash : '/' ∉ last.toList)
    (hidle : isIdle last = false) : EndsInName (join directory last) := by
  have hbehind (front : String) : EndsInName (front ++ "/" ++ last) :=
    ⟨last, by rw [pieces_append, pieces_of_notMem hslash, List.getLast?_concat], hidle⟩
  rw [join, isAbsolute_of_notMem hslash, Bool.false_or]
  split
  · exact endsInName_of_notMem hslash hidle
  · split
    · next hend =>
      obtain ⟨front, rfl⟩ := exists_append_of_endsInSlash hend
      exact hbehind front
    · exact hbehind directory

/-- What lies in a directory that ends in a name has that directory above it. -/
theorem parent_join (h : EndsInName directory) (hslash : '/' ∉ file.toList)
    (hidle : isIdle file = false) : parent (join directory file) = directory := by
  have hne := h.ne_empty
  have hjoin := h.join_eq (isAbsolute_of_notMem hslash)
  obtain ⟨last, hlast, hlastIdle⟩ := h
  obtain ⟨front, hfront⟩ := List.getLast?_eq_some_iff.mp hlast
  have hpieces : (pieces (join directory file)).reverse = file :: last :: front.reverse := by
    rw [hjoin, pieces_append, pieces_of_notMem hslash, hfront]
    simp
  have hdirectory : "/".intercalate (last :: front.reverse).reverse = directory := by
    rw [← intercalate_pieces directory, hfront]
    simp
  rw [parent, hpieces, dropIdle_cons hidle]
  dsimp only
  rw [dropIdle_cons hlastIdle, hdirectory, if_neg (by simp), if_neg (by simp [hne])]

/-- A path through a directory inside another. -/
theorem join_join (h : EndsInName directory) (hslash : '/' ∉ last.toList)
    (hidle : isIdle last = false) (hfile : isAbsolute file = false) :
    join (join directory last) file = join directory (last ++ "/" ++ file) := by
  have hlast := isAbsolute_of_notMem hslash
  have hinner : isAbsolute (last ++ "/" ++ file) = false := by
    rw [← (endsInName_of_notMem hslash hidle).join_eq hfile, isAbsolute_join hfile, hlast]
  rw [(endsInName_join directory hslash hidle).join_eq hfile, h.join_eq hlast, h.join_eq hinner]
  simp only [String.append_assoc]

/-! ## Upwards -/

theorem of_mem_upwards_go {n : Nat} {q : String}
    (hn : isAbsolute path = true → n ≤ (names path).length) (h : q ∈ upwards.go n path) :
    names q <+: names path ∧ isAbsolute q = isAbsolute path := by
  -- An absolute path has at least as many names as steps are left, so the root is never passed.
  induction n generalizing path with
  | zero => cases h
  | succ n ih =>
    rcases List.mem_cons.mp h with rfl | h
    · exact ⟨List.prefix_rfl, rfl⟩
    · have hsame : isAbsolute (parent path) = isAbsolute path := by
        rw [isAbsolute_parent]
        cases habsolute : isAbsolute path with
        | false => rfl
        | true =>
          have := hn habsolute
          have hne : names path ≠ [] := List.length_pos_iff.mp (by omega)
          simpa using hne
      have hn' : isAbsolute (parent path) = true → n ≤ (names (parent path)).length := by
        intro hparent
        have := hn (hsame ▸ hparent)
        rw [names_parent, List.length_dropLast]
        omega
      obtain ⟨hnames, habsolute⟩ := ih hn' h
      rw [names_parent] at hnames
      exact ⟨hnames.trans (List.dropLast_prefix _), habsolute.trans hsame⟩

/-- The paths above a path have the first of its names, and start where it starts. -/
theorem of_mem_upwards {q : String} (h : q ∈ upwards path) :
    names q <+: names path ∧ isAbsolute q = isAbsolute path := by
  refine of_mem_upwards_go (fun habsolute => ?_) h
  rw [steps, if_pos habsolute, List.singleton_append, List.filter_cons_of_neg (by simp)]
  exact (List.length_filter_le _ _).trans (List.length_map _).le

/-! ## Stems -/

/-- A stem is part of a name, so there are no slashes in it. -/
theorem notMem_stem (path : String) : '/' ∉ (stem path).toList := by
  rw [stem]
  split
  · next name hname =>
    have hmem : name ∈ names path := by
      rw [fileName?] at hname
      split at hname
      · cases hname
      · exact List.mem_of_getLast? hname
    rw [String.toList_ofList, splitName]
    split
    · exact notMem_of_mem_names hmem
    · exact fun h => notMem_of_mem_names hmem (List.mem_of_mem_take h)
  · simp

end ApiSurface.Path
