import ApiSurface.Proofs.CheckedSlices
import ApiSurface.Proofs.FrontMatter
import ApiSurface.Proofs.TypeForms
import ApiSurface.Signature

/-!
# Readings whose slices are checked

Types, parameters, signatures and guides read with every slice of a text and every range of lines
checked. Each comes to what it comes to without the checks, value or fault (`slices_exist`): the
position that one cut hands to the next is that of a bracket, which is one byte long, or of the end
of a text.
-/

namespace ApiSurface

namespace Checked

open Text (byteLength)

/-! ## Types -/

/-- The form of a core. -/
def coreForm (core : List Char) : Except (Stop ParseError) TypeForm := do
  match ← Nesting.Checked.outermost? core with
  | none => return .name core
  | some (outer, inner) =>
    match Wrapper.ofName? (String.ofList outer) with
    | none => return .name outer
    | some .smartPointer => return .smartPointer inner
    | some .optional => return .optional inner
    | some .tuple =>
      let pieces ← Nesting.Checked.split ',' inner
      return .tuple (pieces.filter (!·.isEmpty))
    | some .container => return .sequence inner

theorem coreForm_eq (core : List Char) : coreForm core = checked (ApiSurface.coreForm core) := by
  rw [coreForm, ApiSurface.coreForm, Nesting.Checked.outermost?_eq]
  cases Nesting.outermost? core with
  | error e => rfl
  | ok parts =>
    cases parts with
    | none => rfl
    | some parts =>
      obtain ⟨outer, inner⟩ := parts
      rw [checked_ok, ok_bind]
      dsimp only
      cases Wrapper.ofName? (String.ofList outer) with
      | none => rfl
      | some w =>
        cases w with
        | smartPointer => rfl
        | optional => rfl
        | container => rfl
        | tuple =>
          dsimp only
          rw [Nesting.Checked.split_eq]
          cases Nesting.split ',' inner <;> rfl

/-- The form of a token. -/
def tokenForm (token : List Char) : Except (Stop ParseError) TypeForm :=
  let core := dropQualifiers (Text.trim token)
  if core.isEmpty then .error (.fault (.emptyType (String.ofList token))) else coreForm core

theorem tokenForm_eq (token : List Char) :
    tokenForm token = checked (ApiSurface.tokenForm token) := by
  rw [tokenForm, ApiSurface.tokenForm, coreForm_eq]
  split <;> rfl

/-- Maps a canonical type to a language. -/
def mapToken (l : Language) (token : List Char) : Except (Stop ParseError) MappedType :=
  match hform : tokenForm token with
  | .error stop => .error stop
  | .ok form =>
    have hshorter : ∀ part ∈ form.parts, part.length < token.length := fun part hpart =>
      (tokenForm_parts (checked_eq_ok.mp ((tokenForm_eq token).symm.trans hform)) part hpart).2
    Except.map (displayAs l (Text.trim token)) <|
      match form with
      | .name name => .ok (mapName l name)
      | .smartPointer inner =>
        have := hshorter inner List.mem_cons_self
        mapToken l inner
      | .optional inner =>
        have := hshorter inner List.mem_cons_self
        (mapToken l inner).map ({ · with nullable := true })
      | .tuple pieces =>
        Except.map (fun args => { MappedType.named (Vocabulary.tuple l) with args }) <|
          pieces.attach.mapM fun ⟨piece, hpiece⟩ =>
            have := hshorter piece hpiece
            mapToken l piece
      | .sequence inner =>
        if l = .js then
          have := hshorter inner List.mem_cons_self
          (mapToken l inner).map fun element =>
            { MappedType.named (Vocabulary.sequence l) with element := some element }
        else .ok (.named (Vocabulary.sequence l))
termination_by token.length

theorem mapToken_eq (l : Language) (token : List Char) :
    mapToken l token = checked (ApiSurface.mapToken l token) := by
  induction token using token_induction with
  | h token ih =>
  rw [mapToken, mapToken_eq_form]
  split
  · next stop hform =>
    obtain ⟨e, hmodel, rfl⟩ := checked_eq_error.mp ((tokenForm_eq token).symm.trans hform)
    rw [hmodel]
    rfl
  · next form hform =>
    have hmodel := checked_eq_ok.mp ((tokenForm_eq token).symm.trans hform)
    have hparts := ih form hmodel
    rw [hmodel, ok_bind, ← checked_map]
    dsimp only
    refine congrArg _ ?_
    cases form with
    | name name => rfl
    | smartPointer inner => exact hparts inner List.mem_cons_self
    | optional inner =>
      dsimp only [mapForm]
      rw [← checked_map, hparts inner List.mem_cons_self]
    | sequence inner =>
      dsimp only [mapForm]
      split
      · rw [← checked_map, hparts inner List.mem_cons_self]
      · rfl
    | tuple pieces =>
      have hpieces : pieces.attach.mapM (fun piece => mapToken l piece.1) =
          pieces.mapM fun piece => checked (ApiSurface.mapToken l piece) := by
        have hmapped : (fun piece : { piece // piece ∈ pieces } => mapToken l piece.1) =
            fun piece => checked (ApiSurface.mapToken l piece.1) :=
          funext fun piece => hparts piece.1 piece.2
        rw [hmapped]
        simp
      dsimp only [mapForm]
      rw [hpieces, checked_mapM, checked_map]

/-! ## Signatures -/

variable {Member : Type}

/-- Moves the marks in front of a name to the end of its type. -/
def moveMarkers (type name : List Char) : Except (Stop ParseError) (List Char × List Char) := do
  let bare := name.dropWhile isMarker
  if byteLength name < byteLength bare then throw .outOfBounds
  let markers ← slice name 0 (byteLength name - byteLength bare)
  return (type ++ markers, bare)

theorem moveMarkers_eq (type name : List Char) :
    moveMarkers type name = .ok (ApiSurface.moveMarkers type name) := by
  have hname : name = name.takeWhile isMarker ++ name.dropWhile isMarker :=
    List.takeWhile_append_dropWhile.symm
  have hlength : byteLength name =
      byteLength (name.takeWhile isMarker) + byteLength (name.dropWhile isMarker) := by
    rw [← Text.byteLength_append, ← hname]
  have hbare : ¬ byteLength name < byteLength (name.dropWhile isMarker) := by omega
  rw [moveMarkers]
  dsimp only
  rw [if_neg hbare, hlength, Nat.add_sub_cancel, slice_front _ _ hname]
  rfl

/-- Reads an item `Type name`. -/
def readParameter (l : Language) (context text : List Char) :
    Except (Stop ParseError) (Parameter Member) := do
  let item := Text.trim text
  let malformed := ParseError.malformedParameter (String.ofList item) (String.ofList context)
  let some (before, after) ← Nesting.Checked.splitLast? item | throw (.fault malformed)
  let (type, name) ← moveMarkers before after
  if !Identifier.isName name || type.isEmpty then throw (.fault malformed)
  let mapped ← mapToken l type
  return { type := mapped, name := String.ofList (Identifier.convert l name) }

theorem readParameter_eq (l : Language) (context text : List Char) :
    (readParameter l context text : Except _ (Parameter Member)) =
      checked (ApiSurface.readParameter l context text) := by
  rw [ApiSurface.readParameter_eq, readParameter, Nesting.Checked.splitLast?_eq]
  cases Nesting.splitLast? (Text.trim text) with
  | error e => rfl
  | ok parts =>
    cases parts with
    | none => rfl
    | some parts =>
      obtain ⟨before, after⟩ := parts
      show (moveMarkers before after >>= _) = _
      rw [moveMarkers_eq, ok_bind]
      dsimp only
      split
      · rfl
      · rw [mapToken_eq]
        cases ApiSurface.mapToken l (ApiSurface.moveMarkers before after).1 <;> rfl

/-- Reads what stands between the parentheses of a signature. -/
def readParameters (l : Language) (source list : List Char) :
    Except (Stop ParseError) (List (Parameter Member)) := do
  if (Text.trim list).isEmpty then return []
  let items ← Nesting.Checked.split ',' list
  items.mapM fun item =>
    if item.isEmpty then .error (.fault (.malformedParameter "" (String.ofList source)))
    else readParameter l source item

theorem readParameters_eq (l : Language) (source list : List Char) :
    (readParameters l source list : Except _ (List (Parameter Member))) =
      checked (ApiSurface.readParameters l source list) := by
  rw [ApiSurface.readParameters_eq, readParameters, Nesting.Checked.split_eq]
  split
  · rfl
  · cases Nesting.split ',' list with
    | error e => rfl
    | ok items =>
      rw [checked_ok, ok_bind]
      dsimp only
      rw [← checked_mapM]
      refine congrArg (items.mapM ·) (funext fun item => ?_)
      split
      · rfl
      · exact readParameter_eq l source item

/-- Reads what stands before the parameter list: the return type, if there is one, and the name. -/
def readHead (l : Language) (source head trailing : List Char) :
    Except (Stop ParseError) (Option MappedType × List Char) := do
  match ← Nesting.Checked.splitLast? head with
  | none =>
    if trailing.isEmpty then return (none, head)
    else throw (.fault (.malformedSignature (String.ofList source)))
  | some (before, after) =>
    let (type, name) ← moveMarkers before after
    if type = "void".toList then return (none, name)
    let mapped ← mapToken l type
    return (some mapped, name)

theorem readHead_eq (l : Language) (source head trailing : List Char) :
    readHead l source head trailing = checked (ApiSurface.readHead l source head trailing) := by
  rw [ApiSurface.readHead_eq, readHead, Nesting.Checked.splitLast?_eq]
  cases Nesting.splitLast? head with
  | error e => rfl
  | ok parts =>
    cases parts with
    | none =>
      rw [checked_ok, ok_bind]
      dsimp only
      split <;> rfl
    | some parts =>
      obtain ⟨before, after⟩ := parts
      show (moveMarkers before after >>= _) = _
      rw [moveMarkers_eq, ok_bind]
      dsimp only
      split
      · rfl
      · rw [mapToken_eq]
        cases ApiSurface.mapToken l (ApiSurface.moveMarkers before after).1 <;> rfl

/-- Reads a signature. -/
def readSignature (l : Language) (text : List Char) :
    Except (Stop ParseError) (Signature Member) := do
  let source := Text.trim text
  let some opening ← Nesting.Checked.position? '(' source
    | throw (.fault (.missingParameterList (String.ofList source)))
  let closing ← Nesting.Checked.closePosition source opening
  let head ← slice source 0 opening
  let behind ← slice source (closing + 1) (byteLength source)
  let (returnType, name) ← readHead l source (Text.trimEnd head) (Text.trim behind)
  if !Identifier.isName name then throw (.fault (.malformedSignature (String.ofList source)))
  let list ← slice source (opening + 1) closing
  let parameters ← readParameters l source list
  let signature : Signature Member :=
    { name := String.ofList (Identifier.convert l name), parameters, returnType, display := "" }
  return { signature with
    display := if l = .cpp then String.ofList source else signature.callText }

theorem readSignature_eq (l : Language) (text : List Char) :
    (readSignature l text : Except _ (Signature Member)) =
      checked (ApiSurface.readSignature l text) := by
  rw [ApiSurface.readSignature_eq, readSignature, Nesting.Checked.position?_eq, Nesting.position?,
    String.toList_ofList]
  dsimp only
  set source := Text.trim text
  cases hfind : Nesting.find? '(' source with
  | error e => rfl
  | ok parts =>
    cases parts with
    | none => rfl
    | some parts =>
      obtain ⟨before, opened⟩ := parts
      obtain ⟨rest, rfl, hsource, -⟩ := Nesting.find?_eq_some hfind
      have hhead := slice_front before _ hsource
      show (Nesting.Checked.closePosition source (byteLength before) >>= _) = _
      dsimp only
      cases henclosed : Nesting.enclosed before ('(' :: rest) with
      | error e =>
        rw [Nesting.Checked.closePosition_of_error source (k := .parens) hsource henclosed]
        rfl
      | ok parts =>
        obtain ⟨list, behind⟩ := parts
        obtain ⟨stop, hstop, hlist, hbehind, -⟩ :=
          Nesting.Checked.exists_closePosition source (k := .parens) hsource henclosed
        rw [hstop, ok_bind, hhead, ok_bind, hbehind, ok_bind, readHead_eq]
        dsimp only
        rw [← checked_bind]
        refine bind_congr fun head => ?_
        split
        · rfl
        · rw [hlist, ok_bind, readParameters_eq]
          cases ApiSurface.readParameters l source list <;> rfl

/-! ## Guides -/

/-- The lines from one place to another, when there are so many. -/
def range? {α : Type} (lines : List α) (i j : Nat) : Option (List α) :=
  if i ≤ j ∧ j ≤ lines.length then some ((lines.take j).drop i) else none

/-- A range of lines that has to exist. -/
def range {ε α : Type} (lines : List α) (i j : Nat) : Except (Stop ε) (List α) :=
  match range? lines i j with
  | some part => .ok part
  | none => .error .outOfBounds

theorem range_eq {ε α : Type} {lines : List α} (front middle back : List α) {i j : Nat}
    (h : lines = front ++ middle ++ back) (hi : i = front.length)
    (hj : j = (front ++ middle).length) :
    (range lines i j : Except (Stop ε) (List α)) = .ok middle := by
  have hle : i ≤ j ∧ j ≤ lines.length := by
    simp only [h, hi, hj, List.length_append]
    omega
  rw [range, range?, if_pos hle, h, hi, hj, List.take_left, List.drop_left]

/-- The priority and the body of a guide. -/
def readFront (path : String) (lines : List (List Char)) :
    Except (Stop GuideError) (Int × List (List Char)) :=
  match lines with
  | [] => do
    let body ← range lines 0 lines.length
    return (0, body)
  | first :: _ =>
    if Guide.isFrontFence first then do
      let rest ← range lines 1 lines.length
      let some closing := rest.findIdx? Guide.isFrontFence | throw (.fault (.unterminated path))
      let front ← range lines 1 (closing + 1)
      let some priority := Guide.priority? front | throw (.fault (.frontMatter path))
      let body ← range lines (closing + 2) lines.length
      return (priority, body)
    else do
      let body ← range lines 0 lines.length
      return (0, body)

theorem readFront_eq (path : String) (lines : List (List Char)) :
    readFront path lines = checked (Guide.readFront path lines) := by
  have hall : (range lines 0 lines.length : Except (Stop GuideError) _) = .ok lines :=
    range_eq [] lines [] (List.append_nil lines).symm rfl rfl
  obtain ⟨front?, body, hdivided⟩ | hunterminated := Guide.divided_or_unterminated lines
  · rw [Guide.readFront_of_divided path hdivided]
    cases hdivided with
    | bare hbody =>
      cases lines with
      | nil => rfl
      | cons first rest =>
        have hfirst : Guide.isFrontFence first = false := hbody first rfl
        rw [readFront, hall, hfirst]
        rfl
    | @fenced opening closing front body hopening hfront hclosing =>
      set lines := opening :: (front ++ closing :: body) with hlines
      have hrest : (range lines 1 lines.length : Except (Stop GuideError) _) =
          .ok (front ++ closing :: body) := range_eq [opening] _ [] (by simp [hlines]) rfl rfl
      have hclose : (front ++ closing :: body).findIdx? Guide.isFrontFence = some front.length := by
        have hnone := List.findIdx?_eq_none_iff.mpr hfront
        simp [List.findIdx?_append, hnone, List.findIdx?_cons, hclosing]
      have hbetween : (range lines 1 (front.length + 1) : Except (Stop GuideError) _) = .ok front :=
        range_eq [opening] front (closing :: body) rfl rfl (by simp)
      have hbody : (range lines (front.length + 2) lines.length : Except (Stop GuideError) _) =
          .ok body :=
        range_eq (opening :: (front ++ [closing])) body [] (by simp [hlines]) (by simp)
          (by simp [hlines])
      rw [readFront, if_pos hopening, hrest, ok_bind, hclose]
      dsimp only
      rw [hbetween, ok_bind, hbody]
      rw [Guide.priorityOf?, Option.elim_some]
      cases Guide.priority? front <;> rfl
  · rw [Guide.readFront_of_unterminated path hunterminated]
    obtain ⟨opening, rest, rfl, hopening, hrest⟩ := hunterminated
    have hbehind : (range (opening :: rest) 1 (opening :: rest).length :
        Except (Stop GuideError) _) = .ok rest := range_eq [opening] rest [] (by simp) rfl rfl
    rw [readFront, if_pos hopening, hbehind, ok_bind, List.findIdx?_eq_none_iff.mpr hrest]
    rfl

/-- Reads a guide for a language. -/
def readGuide (path id text : String) (l : Language) : Except (Stop GuideError) Guide :=
  (readFront path (Text.lines text.toList)).map fun (priority, body) =>
    let content := Guide.joinLines (Guide.keptLines l body)
    let name := match (Text.lines content).findSome? Guide.title? with
      | some title => String.ofList title
      | none => id
    { id, name, priority, content := String.ofList content }

theorem readGuide_eq (path id text : String) (l : Language) :
    readGuide path id text l = checked (Guide.parse path id text l) := by
  rw [readGuide, readFront_eq, checked_map]
  rfl

end Checked

/-! ## All slices -/

/-- **Every slice exists**: the readings that check each slice of a text and each range of lines come
to what the readings on characters come to, so none is ever out of bounds. The position of a closing
bracket can be asked for from a position exactly when a character begins or the text ends there. -/
theorem slices_exist (Member : Type) (l : Language) (text : List Char) :
    (∀ separator,
      Nesting.Checked.split separator text = checked (Nesting.split separator text)) ∧
    (∀ target, Nesting.Checked.position? target text =
      checked (Nesting.position? (String.ofList text) target)) ∧
    (∀ start, Nesting.Checked.closePosition text start =
        checked (Nesting.closePosition (String.ofList text) start) ↔
      String.Pos.Raw.IsValid (String.ofList text) ⟨start⟩) ∧
    Nesting.Checked.outermost? text = checked (Nesting.outermost? text) ∧
    Nesting.Checked.splitLast? text = checked (Nesting.splitLast? text) ∧
    (∀ type, Checked.moveMarkers type text = .ok (moveMarkers type text)) ∧
    (∀ context, Checked.readParameter l context text =
      checked (readParameter l context text : Except _ (Parameter Member))) ∧
    Checked.mapToken l text = checked (mapToken l text) ∧
    Checked.readSignature l text = checked (readSignature l text : Except _ (Signature Member)) ∧
    ∀ path id, Checked.readGuide path id (String.ofList text) l =
      checked (Guide.parse path id (String.ofList text) l) :=
  ⟨Nesting.Checked.split_eq text, Nesting.Checked.position?_eq text,
    Nesting.Checked.closePosition_eq_iff text, Nesting.Checked.outermost?_eq text,
    Nesting.Checked.splitLast?_eq text, fun type => Checked.moveMarkers_eq type text,
    fun context => Checked.readParameter_eq l context text, Checked.mapToken_eq l text,
    Checked.readSignature_eq l text,
    fun path id => Checked.readGuide_eq path id (String.ofList text) l⟩

end ApiSurface
