import ApiSurface.Declaration
import ApiSurface.Proofs.DeclarationOrder
import ApiSurface.Proofs.Outcomes
import ApiSurface.View.OfDescriptor

/-!
# Bases in the declaration file

The file is a heading, one block for each declared entity in the order of declarations, and an end
(`file_eq_ok_iff`). So a declaration stands behind the text of all entities in front of it, and as
the order puts a class behind its base, the block of the base is part of that text.

Only one base has no block: the entity that the interface of signals stands for. A class derived
from it is declared all the same, and extends a class that the file does not declare. The file
declares all bases in front of what is derived from them exactly when there is no such class.
-/

namespace ApiSurface.Declaration

variable {r : TypeTextRules} {module text front code : String} {vs : List EntityView}
  {v : EntityView}

/-! ## The layout of the file -/

/-- What stands in front of all declarations. -/
def heading (module : String) : String :=
  "declare module \"" ++ module ++ "\" \x7b\n"

/-- A declaration as it stands in the file, with the empty line behind it. -/
def block (code : String) : String :=
  indent code ++ "\n\n"

/-- The blocks of those entities that have a declaration. -/
def blocks (r : TypeTextRules) (vs : List EntityView) : String :=
  String.join ((vs.filterMap (entityText? r)).map block)

/-- What stands behind all declarations. -/
def ending : String :=
  indent signalText ++ "\x7d\n"

/-- The blocks of entities around one that is declared. -/
theorem blocks_around {before after : List EntityView} (h : entityText? r v = some code) :
    blocks r (before ++ v :: after) = blocks r before ++ (block code ++ blocks r after) := by
  simp only [blocks, List.filterMap_append, List.filterMap_cons_some h, List.map_append,
    List.map_cons, String.join_append, String.join_cons]

/-- A file is made of the blocks of the ordered entities. -/
theorem file_eq_ok_iff :
    file r module vs = .ok text ↔
      ∃ order, declarationOrder vs = .ok order ∧
        text = heading module ++ (blocks r order ++ ending) := by
  rw [file, map_eq_ok]
  refine exists_congr fun order => and_congr_right fun _ => ?_
  rw [← String.append_assoc, ending, ← String.append_assoc, eq_comm]
  rfl

/-- The declaration `code` of an entity among `vs` stands in `text` right behind `front`: behind
the heading and the blocks of all that is ordered in front of the entity. -/
structure StandsBehind (r : TypeTextRules) (module : String) (vs : List EntityView)
    (text front : String) (v : EntityView) (code : String) : Prop where
  declared : entityText? r v = some code
  ordered : ∃ before after, declarationOrder vs = .ok (before ++ v :: after) ∧
    front = heading module ++ blocks r before
  rest : ∃ back, text = front ++ (block code ++ back)

/-- Every entity with a declaration stands in the file where the order has it. -/
theorem standsBehind_of_order {before after : List EntityView} (h : file r module vs = .ok text)
    (horder : declarationOrder vs = .ok (before ++ v :: after))
    (hcode : entityText? r v = some code) :
    StandsBehind r module vs text (heading module ++ blocks r before) v code := by
  obtain ⟨order, horder', rfl⟩ := file_eq_ok_iff.mp h
  obtain rfl := Except.ok.inj (horder'.symm.trans horder)
  refine ⟨hcode, ⟨before, after, horder, rfl⟩, blocks r after ++ ending, ?_⟩
  rw [blocks_around hcode]
  simp only [String.append_assoc]

/-! ## Classes -/

/-- A class has a declaration as a class, unless the interface of signals stands for it. -/
theorem entityText?_class (hclass : v.isClass = true) (hname : v.name ≠ signalName) :
    entityText? r v = some (structureText r false v) := by
  have hkind : v.kind? = some .classType := by simpa [EntityView.isClass] using hclass
  rw [entityText?, if_neg hname, hkind]

/-- The entity that the interface of signals stands for has no declaration. -/
theorem name_ne_signalName (h : entityText? r v = some code) : v.name ≠ signalName := by
  rintro hname
  rw [entityText?, if_pos hname] at h
  cases h

/-- Whenever a class with a base is declared in the file, its base is declared there as a class, and
the declaration of the base ends before that of the class begins. -/
def BasesFirst (r : TypeTextRules) (module : String) (vs : List EntityView) (text : String) : Prop :=
  ∀ v base front code, v.isClass = true → v.base = some base →
    StandsBehind r module vs text front v code →
      ∃ p ∈ vs, p.isClass = true ∧ p.name = base.name ∧
        ∃ before between, StandsBehind r module vs text before p (structureText r false p) ∧
          front = before ++ (block (structureText r false p) ++ between)

/-- Where no class is derived from the entity of signals, bases come first. -/
theorem basesFirst_of_ne_signalName (h : file r module vs = .ok text)
    (hbases : ∀ v ∈ vs, v.isClass = true → v.name ≠ signalName →
      v.parentName? ≠ some signalName) : BasesFirst r module vs text := by
  intro v base front code hclass hbase hstands
  obtain ⟨before, after, horder, rfl⟩ := hstands.ordered
  have hperm := Order.perm_of_ok horder
  obtain ⟨p, hp, hpclass, hderives⟩ :=
    Order.exists_base_before_of_ok horder hclass (by simp [hbase])
  have hparent : v.parentName? = some p.name := Order.derivesFrom_iff.mp hderives
  have hv : v ∈ vs := hperm.mem_iff.mp (by simp)
  have hpname : p.name ≠ signalName := fun hname =>
    hbases v hv hclass (name_ne_signalName hstands.declared) (hname ▸ hparent)
  have hcode := entityText?_class (r := r) hpclass hpname
  obtain ⟨first, second, rfl⟩ := List.append_of_mem hp
  refine ⟨p, hperm.mem_iff.mp (by simp), hpclass, ?_, heading module ++ blocks r first,
    blocks r second, ?_, ?_⟩
  · simpa [EntityView.parentName?, hbase, eq_comm] using hparent
  · exact standsBehind_of_order h (by rw [horder, List.append_assoc, List.cons_append]) hcode
  · rw [blocks_around hcode]
    simp only [String.append_assoc]

/-- A class derived from the entity of signals is declared without its base. -/
theorem not_basesFirst_of_signalName (h : file r module vs = .ok text) (hv : v ∈ vs)
    (hclass : v.isClass = true) (hname : v.name ≠ signalName)
    (hparent : v.parentName? = some signalName) : ¬ BasesFirst r module vs text := by
  intro hfirst
  obtain ⟨order, horder, -⟩ := file_eq_ok_iff.mp h
  obtain ⟨before, after, rfl⟩ := List.append_of_mem
    ((Order.perm_of_ok horder).mem_iff.mpr hv)
  obtain ⟨base, hbase, hbasename⟩ := Option.map_eq_some_iff.mp hparent
  obtain ⟨p, -, -, hpname, front, _, hstands, -⟩ := hfirst v base _ _ hclass hbase
    (standsBehind_of_order h horder (entityText?_class hclass hname))
  exact name_ne_signalName hstands.declared (hpname.trans hbasename)

/-- **When bases are declared before what is derived from them**: exactly when no declared class is
derived from the entity that the interface of signals stands for. -/
theorem file_basesFirst_iff (h : file r module vs = .ok text) :
    BasesFirst r module vs text ↔
      ∀ v ∈ vs, v.isClass = true → v.name ≠ signalName → v.parentName? ≠ some signalName :=
  ⟨fun hfirst _ hv hclass hname hparent =>
      not_basesFirst_of_signalName h hv hclass hname hparent hfirst,
    basesFirst_of_ne_signalName h⟩

/-- A base that is given behind the class derived from it is declared in front of it. -/
theorem file_basesFirst_iff_button :
    let view : EntityView := { id := "view", name := "View", kind := "Class" }
    let button : EntityView := { view with name := "Button", base := some (.named "View") }
    ∃ text, file {} "gui" [button, view] = .ok text ∧
      BasesFirst {} "gui" [button, view] text := by
  intro view button
  have horder : declarationOrder [button, view] = .ok [view, button] := by cbv
  obtain ⟨text, h⟩ : ∃ text, file {} "gui" [button, view] = .ok text :=
    ⟨_, file_eq_ok_iff.mpr ⟨_, horder, rfl⟩⟩
  refine ⟨text, h, (file_basesFirst_iff h).mpr ?_⟩
  simp [button, view, signalName, EntityView.parentName?, MappedType.named]

/-- A class derived from the entity of signals is declared, and its base is not. -/
theorem file_basesFirst_signal :
    let signal : Entity := ⟨"signal", { name := "Signal", kind := "class" }⟩
    let click : Entity :=
      ⟨"click", { name := "Click", kind := "refcounted", base := some "Signal" }⟩
    ∃ vs text, Entity.views {} .js [click, signal] = .ok vs ∧ file {} "gui" vs = .ok text ∧
      ¬ BasesFirst {} "gui" vs text := by
  intro signal click
  let signalView : EntityView := { id := "signal", name := "Signal", kind := "Class" }
  let clickView : EntityView :=
    { id := "click", name := "Click", kind := "Class", base := some (.linked "Signal".toList) }
  have hbase : click.descriptor.base.mapM (MappedType.ofToken .js) = .ok clickView.base := by
    show (some "Signal").mapM (MappedType.ofToken .js) = _
    rw [Option.mapM_some, MappedType.ofToken, mapToken_eq]
    cbv
  have hclick : Entity.view {} .js click = .ok (some clickView) := by
    rw [Entity.view, if_pos (by rfl), hbase]
    cbv
  have hsignal : Entity.view {} .js signal = .ok (some signalView) := by cbv
  have hviews : Entity.views {} .js [click, signal] = .ok [clickView, signalView] := by
    rw [Entity.views, List.mapM_cons, hclick, List.mapM_cons, hsignal]
    rfl
  have horder : declarationOrder [clickView, signalView] = .ok [signalView, clickView] := by cbv
  obtain ⟨text, h⟩ : ∃ text, file {} "gui" [clickView, signalView] = .ok text :=
    ⟨_, file_eq_ok_iff.mpr ⟨_, horder, rfl⟩⟩
  exact ⟨_, text, hviews, h, not_basesFirst_of_signalName (v := clickView) h List.mem_cons_self
    (by decide) (by decide) (by cbv)⟩

end ApiSurface.Declaration
