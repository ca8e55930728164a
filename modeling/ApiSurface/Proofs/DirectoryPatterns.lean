import ApiSurface.Proofs.DirectoryPaths

/-!
# Patterns over one directory

A load by the pattern of all names in a directory relies on the search for one thing: that it finds
those names behind one lead into the directory, whatever the lead is and the order in which they
come (`Glob.FindsNames`).

The search of a run matches a pattern whose pieces are names up to a `*` at its end by walking the
directories: every piece has one entry to go on with. What it writes down on the way need not be the
path that was given, since it leaves out empty pieces and the first `.`, but it leads into the same
directory (`Glob.Found.Sound`) and is no longer. Only an empty piece behind the working directory
leads nowhere: `.//api/*` matches nothing (`Glob.breaksOff`). Other than that, the search finds the
names of every directory (`Glob.exists_findsNames_iff`).
-/

namespace ApiSurface

namespace Glob

variable {t : FileTree} {f : Found} {piece name front : String} {ps tail : List String}
  {place next : Place}

/-! ## Reading -/

theorem readTokens_plain {s : List Char}
    (h : s.any (fun c => c == '*' || c == '?' || c == '[') = false) :
    readTokens 0 s = some (s.map .char) := by
  induction s with
  | nil => rfl
  | cons c rest ih =>
    simp only [List.any_cons, Bool.or_eq_false_iff, beq_eq_false_iff_ne] at h
    -- None of the equations for the characters with a meaning applies to `c`.
    obtain ⟨⟨⟨hstar, hmark⟩, hbracket⟩, hrest⟩ := h
    simp [readTokens, ih hrest]

theorem literal?_char (s : List Char) : literal? (s.map .char) = some s := by
  induction s with
  | nil => rfl
  | cons c rest ih =>
    rw [literal?] at ih ⊢
    rw [List.map_cons, List.mapM_cons, ih]
    rfl

theorem isPattern_of_subset {text : String} (h : piece.toList ⊆ text.toList)
    (htext : Entity.isPattern text = false) : Entity.isPattern piece = false := by
  rw [Entity.isPattern, List.any_eq_false] at htext ⊢
  exact fun c hc => htext c (h hc)

theorem isPattern_leadOf {directory : String} (h : Entity.isPattern directory = false) :
    Entity.isPattern (Path.leadOf directory) = false := by
  rw [Path.leadOf]
  split
  · exact h
  · rw [Entity.isPattern] at h ⊢
    rw [String.toList_append, List.any_append, h]
    decide

/-- A piece without anything that stands for other characters is a name. -/
theorem readPiece_plain (h : Entity.isPattern piece = false) :
    readPiece piece = some (.literal piece) := by
  have hstars : piece ≠ "**" := by
    rintro rfl
    exact absurd h (by decide)
  rw [readPiece, if_neg hstars, readTokens_plain h, Option.map_some, literal?_char]
  simp

theorem mapM_readPiece (h : ∀ p ∈ ps, Entity.isPattern p = false) :
    (ps ++ ["*"]).mapM readPiece = some (ps.map .literal ++ [.tokens [.anyRun]]) := by
  induction ps with
  | nil => decide
  | cons p rest ih =>
    obtain ⟨hp, hrest⟩ := List.forall_mem_cons.mp h
    rw [List.cons_append, List.mapM_cons, readPiece_plain hp, ih hrest]
    rfl

theorem matchTokens_anyRun (s : List Char) : matchTokens [.anyRun] s = true := by
  have hnil : [] ∈ tails s := by
    induction s with
    | nil => simp [tails]
    | cons c rest ih => exact List.mem_cons_of_mem _ ih
  rw [matchTokens, List.any_eq_true]
  exact ⟨[], hnil, rfl⟩

/-! ## What is found on the way -/

/-- What is written in front of the names in a directory that has been found. -/
def Found.lead (f : Found) : String :=
  if f.path = "." then "" else Path.leadOf f.path

/-- What is written in front of them one piece further on. -/
def leadInto (lead piece : String) : String :=
  if piece = "" ∨ lead = "" ∧ piece = "." then lead else lead ++ piece ++ "/"

/-- What is found by a piece that leads to a place. -/
def Found.into (f : Found) (piece : String) (next : Place) : Found :=
  { path := if f.lead = "" ∧ piece = "." then "." else f.lead ++ piece, place := next }

/-- What can stand between two slashes of a path that is walked. -/
structure IsPiece (piece : String) : Prop where
  noSlash : '/' ∉ piece.toList
  noNull : '\x00' ∉ piece.toList

/-- What has been found leads to the directory at its place. -/
structure Found.Sound (t : FileTree) (f : Found) : Prop where
  nonempty : f.path ≠ ""
  leads : t.Leads f.lead f.place

namespace Found

theorem lead_eq_empty (f : Found) : f.lead = "" ↔ f.path = "." := by
  rw [lead]
  split <;> simp [*, Path.leadOf_ne_empty]

theorem isLead_lead (f : Found) : Path.IsLead f.lead := by
  rw [lead]
  split
  · exact Path.isLead_empty
  · exact Path.isLead_leadOf f.path

theorem path_inside (hpath : f.path ≠ "") (hname : '/' ∉ name.toList) :
    (f.inside name).path = f.lead ++ name := by
  rw [inside, lead]
  dsimp only
  split
  · exact String.empty_append.symm
  · exact Path.join_eq_leadOf hpath hname

/-- A path with a slash in it is not that of the working directory. -/
theorem lead_append_ne (f : Found) (hhere : ¬(f.lead = "" ∧ piece = ".")) :
    f.lead ++ piece ≠ "." := by
  intro heq
  obtain hempty | ⟨front, hfront⟩ := f.isLead_lead
  · exact hhere ⟨hempty, by rwa [hempty, String.empty_append] at heq⟩
  · have hslash : '/' ∈ (f.lead ++ piece).toList := by simp [hfront]
    rw [heq] at hslash
    exact absurd hslash (by decide)

/-- Every piece that leads on is written behind the others, but for a `.` at the start. -/
theorem lead_into (hpiece : '/' ∉ piece.toList) (hgoes : ¬(f.lead = "" ∧ piece = ""))
    (next : Place) : (f.into piece next).lead = leadInto f.lead piece := by
  rw [leadInto, into, lead]
  dsimp only
  by_cases hhere : f.lead = "" ∧ piece = "."
  · rw [if_pos hhere, if_pos rfl, if_pos (.inr hhere), hhere.1]
  · have hne : f.lead ++ piece ≠ "" := fun heq => hgoes (String.append_eq_empty_iff.mp heq)
    rw [if_neg hhere, if_neg (f.lead_append_ne hhere), f.isLead_lead.leadOf_append hpiece hne]
    simp [hhere]

end Found

theorem leads_leadInto (h : t.Leads front place) (hpiece : IsPiece piece)
    (hnext : place.enter piece = .ok next) (hthere : t.get? next = some .directory) :
    t.Leads (leadInto front piece) next := by
  rw [leadInto]
  split
  · next hidle =>
    have hidle : Path.isIdle piece = true :=
      Path.isIdle_iff.mpr (hidle.imp_right And.right)
    rw [Place.enter_of_isIdle hidle] at hnext
    cases hnext
    exact h
  · next hpieces =>
    have hne : front ++ piece ≠ "" := fun heq =>
      hpieces (.inl (String.append_eq_empty_iff.mp heq).2)
    have hstart : t.start (front ++ piece ++ "/") = t.start front := by
      rw [FileTree.start, FileTree.start, Path.isAbsolute_concat hne,
        h.isLead.isAbsolute_append hpiece.noSlash]
    refine ⟨Path.isLead_concat _, ?_, ?_⟩
    · simpa [h.noNull] using hpiece.noNull
    · rw [hstart, Path.leadPieces_concat, h.isLead.pieces_append hpiece.noSlash,
        FileTree.walk_append h.walk, FileTree.walk_singleton h.get?_eq, hnext, ← hthere]
      rfl

theorem Found.Sound.into (h : f.Sound t) (hpiece : IsPiece piece)
    (hnext : f.place.enter piece = .ok next) (hthere : t.get? next = some .directory)
    (hgoes : ¬(f.lead = "" ∧ piece = "")) : (f.into piece next).Sound t where
  nonempty := by
    rw [Found.into]
    dsimp only
    split
    · decide
    · exact fun heq => hgoes (String.append_eq_empty_iff.mp heq)
  leads := by
    rw [Found.lead_into hpiece.noSlash hgoes]
    exact leads_leadInto h.leads hpiece hnext hthere

/-- A piece that leads to a directory is the only way on. -/
theorem step_literal (h : f.Sound t) (hpiece : IsPiece piece)
    (hnext : f.place.enter piece = .ok next) (hthere : t.get? next = some .directory)
    (hgoes : ¬(f.lead = "" ∧ piece = "")) : step t f (.literal piece) = [f.into piece next] := by
  have hwritten : (if f.path = "." then piece else Path.join f.path piece) = f.lead ++ piece :=
    Found.path_inside h.nonempty hpiece.noSlash
  have hpath := f.lead_eq_empty
  rw [step]
  by_cases hspecial : isSpecial piece = true
  · rw [if_pos hspecial, if_pos h.leads.get?_eq]
    simp only [isSpecial, Bool.or_eq_true, beq_iff_eq] at hspecial
    obtain (rfl | rfl) | rfl := hspecial
    · rw [Place.enter_of_isIdle rfl] at hnext
      cases hnext
      have hhere : f.path ≠ "." := fun heq => hgoes ⟨hpath.mpr heq, rfl⟩
      rw [if_neg hhere] at hwritten
      rw [Found.special?, if_pos rfl, if_neg hhere, hwritten, Found.into, if_neg (by simp)]
      rfl
    · rw [Place.enter_of_isIdle rfl] at hnext
      cases hnext
      by_cases hhere : f.path = "."
      · simp [Found.special?, Found.into, hpath, hhere]
      · rw [if_neg hhere] at hwritten
        simp [Found.special?, Found.into, hpath, hhere, hwritten]
    · have hparent : Place.parent? f.place = some next :=
        Place.step?_of_enter (by decide) hnext
      simp [Found.special?, Found.into, hparent, hwritten]
  · rw [if_neg hspecial]
    simp only [isSpecial, Bool.or_eq_true, beq_iff_eq, not_or] at hspecial
    obtain ⟨⟨hempty, hpoint⟩, habove⟩ := hspecial
    have hidle : Path.isIdle piece = false := by simp [Path.isIdle, hempty, hpoint]
    have hplace := Place.step?_of_enter hidle hnext
    rw [Place.step?, if_neg habove, Option.some.injEq] at hplace
    subst hplace
    rw [hthere, Option.isSome_some, if_pos rfl, Found.into, if_neg (fun hhere => hpoint hhere.2),
      ← hwritten]
    rfl

/-! ## Searching -/

theorem expand_cons {piece : Piece} (h : piece ≠ .anyDepth) (rest : List Piece) (f : Found) :
    expand t (piece :: rest) f = (step t f piece).flatMap (expand t rest) := by
  cases piece with
  | anyDepth => exact absurd rfl h
  | literal name => rw [expand] <;> simp
  | tokens ts => rw [expand] <;> simp

theorem eq_of_leadInto_eq_empty (hgoes : ¬(front = "" ∧ piece = ""))
    (h : leadInto front piece = "") : front = "" ∧ piece = "." := by
  rw [leadInto] at h
  split at h
  · next hstays =>
    subst h
    exact hstays.elim (fun hpiece => absurd ⟨rfl, hpiece⟩ hgoes) id
  · simp at h

/-- Names that lead to a directory are searched without another way on, unless one is empty behind
the working directory. -/
theorem expand_literals (h : f.Sound t) (hps : ∀ p ∈ ps, IsPiece p)
    (hwalk : t.walk f.place ps = .ok (place, some .directory))
    (hgoes : f.lead = "" → (ps.dropWhile (· == ".")).head? ≠ some "") (rest : List Piece) :
    ∃ g : Found, g.Sound t ∧ g.place = place ∧ g.lead = ps.foldl leadInto f.lead ∧
      expand t (ps.map .literal ++ rest) f = expand t rest g := by
  induction ps generalizing f with
  | nil =>
    obtain ⟨rfl, -⟩ := Prod.ext_iff.mp (Except.ok.inj hwalk)
    exact ⟨f, h, rfl, rfl, rfl⟩
  | cons p ps ih =>
    obtain ⟨hpiece, hps⟩ := List.forall_mem_cons.mp hps
    obtain ⟨-, next, hnext, hwalk⟩ | ⟨-, -, hnone, -⟩ := FileTree.walk_cons_eq_ok hwalk
    · have hthere := FileTree.get?_of_walk hwalk
      have hp : ¬(f.lead = "" ∧ p = "") := by
        rintro ⟨hempty, rfl⟩
        exact hgoes hempty rfl
      have hlead := Found.lead_into hpiece.noSlash hp next
      have hrest : (f.into p next).lead = "" → (ps.dropWhile (· == ".")).head? ≠ some "" := by
        intro hempty
        obtain ⟨hhere, rfl⟩ := eq_of_leadInto_eq_empty hp (hlead ▸ hempty)
        exact hgoes hhere
      obtain ⟨g, hg, hplace, hglead, hexpand⟩ :=
        ih (h.into hpiece hnext hthere hp) hps hwalk hrest
      refine ⟨g, hg, hplace, by rw [hglead, hlead, List.foldl_cons], ?_⟩
      rw [List.map_cons, List.cons_append, expand_cons (by simp),
        step_literal h hpiece hnext hthere hp, List.flatMap_singleton, hexpand]
    · cases hnone

/-- A `*` gives all names of a directory. -/
theorem expand_anyRun (h : f.Sound t) (hnames : ∀ name ∈ t.names f.place, '/' ∉ name.toList) :
    (expand t [.tokens [.anyRun]] f).map (·.path) = (t.names f.place).map (f.lead ++ ·) := by
  have hstep : step t f (.tokens [.anyRun]) = (t.names f.place).map f.inside := by
    simp [step, Found.entries, h.leads.get?_eq, matchTokens_anyRun]
  have hend : expand t [] = fun f => [f] := funext fun f => by rw [expand]
  rw [expand_cons (by simp), hstep, hend, List.flatMap_singleton', List.map_map]
  exact List.map_congr_left fun name hname => Found.path_inside h.nonempty (hnames name hname)

/-! ## What is written on the way -/

/-- What pieces are written as in front of a name, when all of them are. -/
def spell : List String → String
  | [] => ""
  | piece :: rest => piece ++ "/" ++ spell rest

theorem spell_eq (hne : ps ≠ []) : spell ps = "/".intercalate ps ++ "/" := by
  induction ps with
  | nil => exact absurd rfl hne
  | cons p ps ih =>
    cases ps with
    | nil => simp [spell]
    | cons q ps =>
      rw [spell, ih (List.cons_ne_nil q ps), String.intercalate_cons_cons]
      simp only [String.append_assoc]

theorem isLead_spell (ps : List String) : Path.IsLead (spell ps) := by
  rcases eq_or_ne ps [] with rfl | hne
  · exact Path.isLead_empty
  · rw [spell_eq hne]
    exact Path.isLead_concat _

theorem spell_leadPieces (h : Path.IsLead front) : spell (Path.leadPieces front) = front := by
  obtain rfl | ⟨front, rfl⟩ := h
  · decide
  · rw [Path.leadPieces_concat, spell_eq (Path.pieces_ne_nil front), Path.intercalate_pieces]

theorem leadPieces_spell (h : ∀ p ∈ ps, IsPiece p) : Path.leadPieces (spell ps) = ps := by
  rcases eq_or_ne ps [] with rfl | hne
  · decide
  · rw [spell_eq hne, Path.leadPieces_concat,
      Path.pieces_intercalate hne fun p hp => (h p hp).noSlash]

theorem leadOf_spell (hne : ps ≠ []) : Path.leadOf (spell ps) = spell ps := by
  rw [Path.leadOf, spell_eq hne, if_pos (Path.endsInSlash_concat _)]

theorem spell_append (ps qs : List String) : spell (ps ++ qs) = spell ps ++ spell qs := by
  induction ps with
  | nil => simp [spell]
  | cons p ps ih => simp only [List.cons_append, spell, ih, String.append_assoc]

theorem size_spell_replicate (n : Nat) (piece : String) :
    (spell (List.replicate n piece)).utf8ByteSize = n * (piece.utf8ByteSize + 1) := by
  induction n with
  | zero => simp [spell]
  | succ n ih =>
    have hslash : "/".utf8ByteSize = 1 := rfl
    rw [List.replicate_succ, spell, String.utf8ByteSize_append, String.utf8ByteSize_append, ih,
      hslash, Nat.succ_mul, Nat.add_comm]

/-- What holds of all characters of the pieces, and of a slash, holds of all that is written. -/
theorem forall_mem_spell {P : Char → Prop} (hslash : P '/') (h : ∀ p ∈ ps, ∀ c ∈ p.toList, P c) :
    ∀ c ∈ (spell ps).toList, P c := by
  induction ps with
  | nil => simp [spell]
  | cons p ps ih =>
    obtain ⟨hp, hps⟩ := List.forall_mem_cons.mp h
    intro c hc
    simp only [spell, String.toList_append, List.mem_append] at hc
    obtain (hc | hc) | hc := hc
    · exact hp c hc
    · rw [List.mem_singleton.mp hc]
      exact hslash
    · exact ih hps c hc

theorem isAbsolute_spell (h : ∀ p ∈ ps, IsPiece p) (hne : ∀ p ∈ ps, p ≠ "") :
    Path.isAbsolute (spell ps) = false := by
  cases ps with
  | nil => rfl
  | cons p ps =>
    obtain ⟨c, rest, hp⟩ := List.exists_cons_of_ne_nil
      (mt String.toList_eq_nil_iff.mp (hne p List.mem_cons_self))
    have hc : c ≠ '/' := by
      rintro rfl
      exact (h p List.mem_cons_self).noSlash (hp ▸ List.mem_cons_self)
    simp [Path.isAbsolute, spell, hp, hc]

/-- Nothing that is written on the way is longer than the pieces. -/
theorem size_foldl_leadInto (front : String) (ps : List String) :
    (ps.foldl leadInto front).utf8ByteSize ≤ front.utf8ByteSize + (spell ps).utf8ByteSize := by
  induction ps generalizing front with
  | nil => simp
  | cons p ps ih =>
    have hstep : (leadInto front p).utf8ByteSize ≤
        front.utf8ByteSize + (p ++ "/").utf8ByteSize := by
      rw [leadInto]
      split
      · exact Nat.le_add_right _ _
      · rw [String.append_assoc, String.utf8ByteSize_append]
    have hrest := ih (leadInto front p)
    rw [List.foldl_cons, spell, String.utf8ByteSize_append]
    omega

/-! ## Searches over names and a `*` -/

/-- A search over names and a `*` gives the names in the directory that the names lead to. -/
theorem expand_over (h : f.Sound t) (hps : ∀ p ∈ ps, IsPiece p)
    (hwalk : t.walk f.place ps = .ok (place, some .directory))
    (hgoes : f.lead = "" → (ps.dropWhile (· == ".")).head? ≠ some "")
    (hnames : ∀ name ∈ t.names place, '/' ∉ name.toList) :
    t.Leads (ps.foldl leadInto f.lead) place ∧
      (expand t (ps.map .literal ++ [.tokens [.anyRun]]) f).map (·.path) =
        (t.names place).map (ps.foldl leadInto f.lead ++ ·) := by
  obtain ⟨g, hg, rfl, hlead, hexpand⟩ := expand_literals h hps hwalk hgoes [.tokens [.anyRun]]
  rw [hexpand, expand_anyRun hg hnames, ← hlead]
  exact ⟨hg.leads, rfl⟩

/-- From the working directory, an empty piece behind nothing but `.` leads nowhere. -/
theorem expand_breaksOff (h : (ps.dropWhile (· == ".")).head? = some "") (rest : List Piece) :
    expand t (ps.map .literal ++ rest) ⟨".", t.home⟩ = [] := by
  induction ps with
  | nil => cases h
  | cons p ps ih =>
    rw [List.map_cons, List.cons_append, expand_cons (by simp)]
    by_cases hpoint : p = "."
    · subst hpoint
      have hstep : step t ⟨".", t.home⟩ (.literal ".") = [⟨".", t.home⟩] := by
        simp [step, isSpecial, t.get?_home, Found.special?]
      rw [hstep, List.flatMap_singleton, ih h]
    · rw [List.dropWhile_cons_of_neg (by simpa using hpoint)] at h
      obtain rfl := Option.some.inj h
      have hstep : step t ⟨".", t.home⟩ (.literal "") = [] := by
        simp [step, isSpecial, t.get?_home, Found.special?]
      rw [hstep, List.flatMap_nil]

theorem sound_home (t : FileTree) : Found.Sound t ⟨".", t.home⟩ where
  nonempty := show "." ≠ "" by decide
  leads := by
    refine ⟨Path.isLead_empty, by simp [Found.lead], ?_⟩
    show t.walk t.home [] = _
    rw [FileTree.walk, FileTree.get?_home]

theorem sound_root (h : t.get? ["/"] = some .directory) : Found.Sound t ⟨"/", ["/"]⟩ where
  nonempty := by decide
  leads := by
    refine ⟨Path.isLead_concat "", by decide, ?_⟩
    show t.walk ["/"] [""] = _
    rw [FileTree.walk_singleton h, Place.enter_of_isIdle rfl, ← h]
    rfl

theorem foldl_leadInto_append (h : tail = [] ∨ tail = [""]) (front : String) (ps : List String) :
    (ps ++ tail).foldl leadInto front = ps.foldl leadInto front := by
  obtain rfl | rfl := h
  · rw [List.append_nil]
  · rw [List.foldl_append, List.foldl_cons, List.foldl_nil, leadInto, if_pos (.inl rfl)]

/-! ## Patterns over a directory -/

/-- The pattern of all names in a directory finds them: `*` stands for every name, also for one that
begins with a point, and for nothing that has a slash in it. The directory may be written in another
way, which is the same for all names, and they may come in any order. -/
structure FindsNames (search : Search) (t : FileTree) (pattern lead : String) (place : Place) :
    Prop where
  leads : t.Leads lead place
  found : ∃ names : List String, search t pattern = some (names.map (lead ++ ·)) ∧
    ∀ name, name ∈ names ↔ name ∈ t.names place

/-- How the pattern of all names in a directory is written. -/
def IsOver (directory pattern : String) : Prop :=
  pattern = directory ++ "/*" ∨ pattern = Path.join directory "*"

/-- Whether a pattern goes on with an empty piece from the working directory, where it has come to
by nothing but `.`. -/
def breaksOff (pattern : String) : Bool :=
  !Path.isAbsolute pattern && ((Path.pieces pattern).dropWhile (· == ".")).head? == some ""

variable {directory pattern : String}

theorem breaksOff_iff (hpieces : Path.pieces pattern = ps ++ ["*"]) :
    breaksOff pattern = true ↔
      Path.isAbsolute pattern = false ∧ (ps.dropWhile (· == ".")).head? = some "" := by
  have hhead : ((ps ++ ["*"]).dropWhile (· == ".")).head? = some "" ↔
      (ps.dropWhile (· == ".")).head? = some "" := by
    rw [List.dropWhile_append]
    cases ps.dropWhile (· == ".") <;> simp
  rw [breaksOff, hpieces, Bool.and_eq_true, Bool.not_eq_true', beq_iff_eq, hhead]

namespace IsOver

theorem toList_eq (h : IsOver directory pattern) : ∃ front, pattern.toList = front ++ ['*'] := by
  obtain rfl | rfl := h
  · exact ⟨directory.toList ++ ['/'], by simp⟩
  · exact Path.exists_toList_join directory "*"

theorem isPattern (h : IsOver directory pattern) : Entity.isPattern pattern = true := by
  obtain ⟨front, hfront⟩ := h.toList_eq
  simp [Entity.isPattern, hfront]

theorem namesDirectory_eq (h : IsOver directory pattern) : Path.namesDirectory pattern = false := by
  obtain ⟨front, hfront⟩ := h.toList_eq
  have hpoint : pattern ≠ "." := by
    rintro rfl
    have hlast := congrArg List.getLast? hfront
    rw [List.getLast?_concat] at hlast
    exact absurd hlast (by decide)
  simp [Path.namesDirectory, Path.endsInSlash, hpoint, hfront, List.isSuffixOf, List.isPrefixOf]

theorem isAbsolute_eq (hdirectory : directory ≠ "") (h : IsOver directory pattern) :
    Path.isAbsolute pattern = Path.isAbsolute directory := by
  obtain rfl | rfl := h
  · obtain ⟨c, rest, hchars⟩ := List.exists_cons_of_ne_nil
      (mt String.toList_eq_nil_iff.mp hdirectory)
    simp [Path.isAbsolute, hchars]
  · exact Path.isAbsolute_join (by decide)

/-- A pattern over a directory is a lead of the directory, perhaps with a second slash, and `*`. -/
theorem pieces_eq (hdirectory : directory ≠ "") (h : IsOver directory pattern) :
    ∃ tail, (tail = [] ∨ tail = [""]) ∧
      Path.pieces pattern = Path.leadPieces (Path.leadOf directory) ++ tail ++ ["*"] := by
  have hstar : '/' ∉ "*".toList := by decide
  obtain rfl | rfl := h
  · have htext : directory ++ "/*" = directory ++ "/" ++ "*" := by
      rw [String.append_assoc]
      rfl
    refine ⟨if Path.endsInSlash directory then [""] else [], ?_, ?_⟩
    · split <;> simp
    · rw [htext, Path.pieces_append, Path.pieces_of_notMem hstar,
        ← Path.pieces_eq_leadPieces_leadOf]
  · refine ⟨[], .inl rfl, ?_⟩
    rw [Path.join_eq_leadOf hdirectory hstar,
      (Path.isLead_leadOf directory).pieces_append hstar, List.append_nil]

end IsOver

theorem mem_pieces_leadOf (h : tail = [] ∨ tail = [""])
    (hpiece : piece ∈ Path.leadPieces (Path.leadOf directory) ++ tail) :
    piece ∈ Path.pieces (Path.leadOf directory) := by
  rw [(Path.isLead_leadOf directory).pieces_eq]
  obtain rfl | rfl := h
  · exact List.mem_append_left _ (by simpa using hpiece)
  · exact hpiece

theorem walk_leadPieces (h : tail = [] ∨ tail = [""]) (hleads : t.Leads front place) :
    t.walk (t.start front) (Path.leadPieces front ++ tail) = .ok (place, some .directory) := by
  rw [FileTree.walk_append hleads.walk, ← hleads.get?_eq]
  obtain rfl | rfl := h
  · rfl
  · rw [FileTree.walk_singleton hleads.get?_eq, Place.enter_of_isIdle rfl]
    rfl

theorem read?_eq (hpieces : Path.pieces pattern = ps ++ ["*"])
    (hps : ∀ p ∈ ps, Entity.isPattern p = false) :
    read? pattern = some (ps.map .literal ++ [.tokens [.anyRun]]) := by
  rw [read?, hpieces, List.getLast?_concat]
  exact mapM_readPiece hps

theorem isPattern_of_mem (hplain : Entity.isPattern directory = false)
    (htail : tail = [] ∨ tail = [""]) :
    ∀ p ∈ Path.leadPieces (Path.leadOf directory) ++ tail, Entity.isPattern p = false :=
  fun _ hp => isPattern_of_subset (Path.subset_of_mem_pieces (mem_pieces_leadOf htail hp))
    (isPattern_leadOf hplain)

theorem exists_of_isAbsolute (h : Path.isAbsolute directory = true) :
    ∃ rest, Path.leadPieces (Path.leadOf directory) = "" :: rest := by
  have hlead := Path.isLead_leadOf directory
  have hne : directory ≠ "" := by
    rintro rfl
    cases h
  cases hpieces : Path.leadPieces (Path.leadOf directory) with
  | nil =>
    have hspell := spell_leadPieces hlead
    rw [hpieces] at hspell
    exact absurd hspell.symm (Path.leadOf_ne_empty directory)
  | cons p rest =>
    have hhead := (Path.head?_pieces (Path.leadOf directory)).mpr
      (.inr ((Path.isAbsolute_leadOf hne).trans h))
    rw [hlead.pieces_eq, hpieces] at hhead
    exact ⟨rest, congrArg (· :: rest) (Option.some.inj hhead)⟩

/-- What a search writes in front of the names in a directory. -/
def writtenLead (directory : String) : String :=
  if Path.isAbsolute directory then
    ((Path.leadPieces (Path.leadOf directory)).drop 1).foldl leadInto "/"
  else (Path.leadPieces (Path.leadOf directory)).foldl leadInto ""

/-- A search writes no more than the path of the directory. -/
theorem size_writtenLead_le (directory : String) :
    (writtenLead directory).utf8ByteSize ≤ (Path.leadOf directory).utf8ByteSize := by
  have hspell := congrArg String.utf8ByteSize (spell_leadPieces (Path.isLead_leadOf directory))
  rw [writtenLead, ← hspell]
  split
  · next hroot =>
    obtain ⟨rest, hrest⟩ := exists_of_isAbsolute hroot
    rw [hrest, spell, String.empty_append, String.utf8ByteSize_append, List.drop_one,
      List.tail_cons]
    exact size_foldl_leadInto "/" rest
  · simpa using size_foldl_leadInto "" (Path.leadPieces (Path.leadOf directory))

/-- A pattern over a directory finds the names in it. -/
theorem findsNames_paths? (hd : t.find directory = .ok (place, .directory))
    (hnames : ∀ name ∈ t.names place, '/' ∉ name.toList)
    (hplain : Entity.isPattern directory = false) (hover : IsOver directory pattern)
    (hgoes : breaksOff pattern = false) :
    FindsNames paths? t pattern (writtenLead directory) place := by
  suffices h : t.Leads (writtenLead directory) place ∧
      paths? t pattern = some ((t.names place).map (writtenLead directory ++ ·)) from
    ⟨h.1, t.names place, h.2, fun _ => Iff.rfl⟩
  obtain ⟨hpath, -⟩ := FileTree.resolve_eq_ok_iff.mp (FileTree.find_eq_ok.mp hd)
  have hleads := FileTree.leads_of_find hd
  have habsolute := hover.isAbsolute_eq hpath.nonempty
  obtain ⟨tail, htail, hpieces⟩ := hover.pieces_eq hpath.nonempty
  have hread := read?_eq hpieces (isPattern_of_mem hplain htail)
  have hps : ∀ p ∈ Path.leadPieces (Path.leadOf directory) ++ tail, IsPiece p := fun p hp =>
    have hmem := mem_pieces_leadOf htail hp
    ⟨Path.notMem_of_mem_pieces hmem,
      fun hnull => hleads.noNull (Path.subset_of_mem_pieces hmem hnull)⟩
  have hwalk := walk_leadPieces htail hleads
  rw [FileTree.start, Path.isAbsolute_leadOf hpath.nonempty] at hwalk
  rw [paths?, hread, hover.namesDirectory_eq, habsolute, writtenLead]
  simp only [Option.map_some, Bool.false_eq_true, ite_false, Option.some.injEq]
  cases hroot : Path.isAbsolute directory with
  | false =>
    rw [hroot, if_neg Bool.false_ne_true] at hwalk
    have hhere : ((Path.leadPieces (Path.leadOf directory) ++ tail).dropWhile (· == ".")).head? ≠
        some "" := fun hhead =>
      Bool.false_ne_true
        (hgoes.symm.trans ((breaksOff_iff hpieces).mpr ⟨habsolute.trans hroot, hhead⟩))
    obtain ⟨hlead, hpaths⟩ := expand_over (sound_home t) hps hwalk (fun _ => hhere) hnames
    rw [foldl_leadInto_append htail] at hlead hpaths
    rw [if_neg Bool.false_ne_true, if_neg Bool.false_ne_true, hpaths]
    exact ⟨hlead, rfl⟩
  | true =>
    obtain ⟨rest, hrest⟩ := exists_of_isAbsolute hroot
    rw [hrest] at hps hwalk ⊢
    rw [if_pos rfl, if_pos rfl, List.cons_append, List.map_cons, List.cons_append, List.drop_one,
      List.drop_one, List.tail_cons, List.tail_cons]
    rw [hroot, if_pos rfl] at hwalk
    have hthere := FileTree.get?_of_walk hwalk
    rw [List.cons_append, FileTree.walk_cons_of_directory hthere,
      Place.enter_of_isIdle rfl] at hwalk
    have hps : ∀ p ∈ rest ++ tail, IsPiece p := fun p hp => hps p (List.mem_cons_of_mem _ hp)
    obtain ⟨hlead, hpaths⟩ := expand_over (sound_root hthere) hps hwalk
      (fun hempty => absurd hempty (by decide)) hnames
    rw [foldl_leadInto_append htail] at hlead hpaths
    rw [hpaths]
    exact ⟨hlead, rfl⟩

/-- A pattern over a directory that breaks off finds nothing. -/
theorem paths?_of_breaksOff (hdirectory : directory ≠ "")
    (hplain : Entity.isPattern directory = false) (hover : IsOver directory pattern)
    (hbreaks : breaksOff pattern = true) : paths? t pattern = some [] := by
  obtain ⟨tail, htail, hpieces⟩ := hover.pieces_eq hdirectory
  obtain ⟨habsolute, hhead⟩ := (breaksOff_iff hpieces).mp hbreaks
  rw [paths?, read?_eq hpieces (isPattern_of_mem hplain htail), Option.map_some, habsolute,
    if_neg Bool.false_ne_true, expand_breaksOff hhead]
  simp

/-- **The search of a run** finds the names of a directory, unless there are none or the pattern
breaks off, and it writes the directory no longer than it is given. -/
theorem exists_findsNames_iff (hd : t.find directory = .ok (place, .directory))
    (hnames : ∀ name ∈ t.names place, '/' ∉ name.toList)
    (hplain : Entity.isPattern directory = false) (hover : IsOver directory pattern)
    (hsome : t.names place ≠ []) :
    (∃ lead, FindsNames paths? t pattern lead place ∧
      lead.utf8ByteSize ≤ (Path.leadOf directory).utf8ByteSize) ↔ breaksOff pattern = false := by
  obtain ⟨hpath, -⟩ := FileTree.resolve_eq_ok_iff.mp (FileTree.find_eq_ok.mp hd)
  constructor
  · rintro ⟨lead, ⟨-, names, hfound, hmem⟩, -⟩
    refine eq_false_of_ne_true fun hbreaks => hsome ?_
    rw [paths?_of_breaksOff hpath.nonempty hplain hover hbreaks, Option.some.injEq] at hfound
    obtain rfl := List.map_eq_nil_iff.mp hfound.symm
    exact List.eq_nil_iff_forall_not_mem.mpr fun name hname =>
      List.not_mem_nil ((hmem name).mpr hname)
  · exact fun hgoes =>
      ⟨_, findsNames_paths? hd hnames hplain hover hgoes, size_writtenLead_le directory⟩

end Glob

end ApiSurface
