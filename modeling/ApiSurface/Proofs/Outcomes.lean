import Mathlib.Control.Monad.Basic
import Mathlib.Data.List.Forall2

/-!
# Readings that come to a value and readings that fail

What is known of the steps of a reading when the whole of it comes to a value, and of the items of a
list when all of them are read. A reading fails with a fault of one of its steps, so what holds of
the faults of all steps holds of its own (`Faults`).
-/

namespace ApiSurface

variable {ε α β : Type}

theorem bind_eq_ok {r : Except ε α} {f : α → Except ε β} {b : β} :
    r >>= f = .ok b ↔ ∃ a, r = .ok a ∧ f a = .ok b := by
  cases r with
  | error e => exact ⟨fun h => (nomatch h), fun ⟨_, h, _⟩ => (nomatch h)⟩
  | ok a => exact ⟨fun h => ⟨a, rfl, h⟩, fun ⟨_, rfl, h⟩ => h⟩

theorem map_eq_ok {r : Except ε α} {f : α → β} {b : β} :
    r.map f = .ok b ↔ ∃ a, r = .ok a ∧ f a = b := by
  cases r with
  | error e => exact ⟨fun h => (nomatch h), fun ⟨_, h, _⟩ => (nomatch h)⟩
  | ok a => exact ⟨fun h => ⟨a, rfl, Except.ok.inj h⟩, fun ⟨_, rfl, h⟩ => congrArg _ h⟩

theorem map_eq_error {r : Except ε α} {f : α → β} {e : ε} :
    r.map f = .error e ↔ r = .error e := by
  cases r with
  | error e' =>
    exact ⟨fun h => congrArg _ (Except.error.inj h), fun h => congrArg _ (Except.error.inj h)⟩
  | ok a => exact ⟨fun h => (nomatch h), fun h => (nomatch h)⟩

theorem ok_of_mapError {ε' : Type} {r : Except ε α} {f : ε → ε'} {a : α}
    (h : r.mapError f = .ok a) : r = .ok a := by
  cases r with
  | error e => cases h
  | ok b => exact congrArg _ (Except.ok.inj h)

theorem tryCatch_eq_ok {r : Except ε α} {f : ε → Except ε α} {a : α} :
    tryCatch r f = .ok a ↔ r = .ok a ∨ ∃ e, r = .error e ∧ f e = .ok a := by
  cases r with
  | error e => exact ⟨fun h => .inr ⟨e, rfl, h⟩, by rintro (h | ⟨_, h, hf⟩) <;> cases h; exact hf⟩
  | ok b => exact ⟨.inl, by rintro (h | ⟨_, h, _⟩) <;> cases h; rfl⟩

/-- A reading that succeeds comes to its value. -/
theorem eq_ok_of_isOk {r : Except ε α} (h : r.isOk = true) (default : α) :
    r = .ok (r.toOption.getD default) := by
  cases r with
  | error e => cases h
  | ok a => rfl

/-- Mapping each element of a list succeeds when mapping each of them does. -/
theorem mapM_eq_ok {f : α → Except ε β} {g : α → β} {items : List α}
    (h : ∀ a ∈ items, f a = .ok (g a)) : items.mapM f = .ok (items.map g) := by
  induction items with
  | nil => rfl
  | cons a items ih =>
    obtain ⟨ha, hitems⟩ := List.forall_mem_cons.mp h
    rw [List.mapM_cons, ha, ih hitems]
    rfl

/-- What is read from a list is what is read from its items. -/
theorem mapM_eq_ok_iff {f : α → Except ε β} {items : List α} {bs : List β} :
    items.mapM f = .ok bs ↔ List.Forall₂ (fun a b => f a = .ok b) items bs := by
  induction items generalizing bs with
  | nil => exact ⟨fun h => Except.ok.inj h ▸ .nil, fun h => by cases h; rfl⟩
  | cons a items ih =>
    rw [List.mapM_cons, bind_eq_ok]
    constructor
    · rintro ⟨b, hb, h⟩
      obtain ⟨rest, hrest, h⟩ := bind_eq_ok.mp h
      cases h
      exact .cons hb (ih.mp hrest)
    · rintro (_ | ⟨hb, hrest⟩)
      exact ⟨_, hb, bind_eq_ok.mpr ⟨_, ih.mpr hrest, rfl⟩⟩

/-- A list fails with the fault of an item behind items that are all read. -/
theorem mapM_eq_error_iff {f : α → Except ε β} {items : List α} {e : ε} :
    items.mapM f = .error e ↔ ∃ before a after, items = before ++ a :: after ∧
      (∀ b ∈ before, ∃ c, f b = .ok c) ∧ f a = .error e := by
  induction items with
  | nil => exact ⟨fun h => (nomatch h), fun ⟨_, _, _, h, _⟩ => absurd h (by simp)⟩
  | cons a items ih =>
    rw [List.mapM_cons]
    cases ha : f a with
    | error e' =>
      constructor
      · exact fun h => ⟨[], a, items, rfl, by simp, ha.trans (congrArg _ (Except.error.inj h))⟩
      · rintro ⟨_ | ⟨b, before⟩, a', after, heq, hbefore, ha'⟩
        · obtain ⟨rfl, -⟩ := List.cons.inj heq
          exact congrArg _ (Except.error.inj (ha.symm.trans ha'))
        · obtain ⟨rfl, -⟩ := List.cons.inj heq
          obtain ⟨c, hc⟩ := hbefore a List.mem_cons_self
          cases ha.symm.trans hc
    | ok b =>
      have hrest : ((do let bs ← items.mapM f; pure (b :: bs)) : Except ε (List β)) = .error e ↔
          items.mapM f = .error e := map_eq_error (r := items.mapM f) (f := (b :: ·))
      refine hrest.trans (ih.trans ⟨?_, ?_⟩)
      · rintro ⟨before, a', after, rfl, hbefore, ha'⟩
        exact ⟨a :: before, a', after, rfl, List.forall_mem_cons.mpr ⟨⟨b, ha⟩, hbefore⟩, ha'⟩
      · rintro ⟨_ | ⟨b', before⟩, a', after, heq, hbefore, ha'⟩
        · obtain ⟨rfl, -⟩ := List.cons.inj heq
          cases ha.symm.trans ha'
        · obtain ⟨-, rfl⟩ := List.cons.inj heq
          exact ⟨before, a', after, rfl, (List.forall_mem_cons.mp hbefore).2, ha'⟩

/-- Everything read from a list is read from one of its items. -/
theorem exists_mem_of_mapM_eq_ok {f : α → Except ε β} {items : List α} {bs : List β} {b : β}
    (h : items.mapM f = .ok bs) (hb : b ∈ bs) : ∃ a ∈ items, f a = .ok b := by
  induction mapM_eq_ok_iff.mp h with
  | nil => cases hb
  | cons ha hrest ih =>
    rcases List.mem_cons.mp hb with rfl | hb
    · exact ⟨_, List.mem_cons_self, ha⟩
    · obtain ⟨a, hmem, ha⟩ := ih (mapM_eq_ok_iff.mpr hrest) hb
      exact ⟨a, List.mem_cons_of_mem _ hmem, ha⟩

/-- Every item of a list that is read has been read. -/
theorem exists_of_mapM_eq_ok {f : α → Except ε β} {items : List α} {bs : List β} {a : α}
    (h : items.mapM f = .ok bs) (ha : a ∈ items) : ∃ b ∈ bs, f a = .ok b := by
  induction mapM_eq_ok_iff.mp h with
  | nil => cases ha
  | cons hfirst hrest ih =>
    rcases List.mem_cons.mp ha with rfl | ha
    · exact ⟨_, List.mem_cons_self, hfirst⟩
    · obtain ⟨b, hmem, hb⟩ := ih (mapM_eq_ok_iff.mpr hrest) ha
      exact ⟨b, List.mem_cons_of_mem _ hmem, hb⟩

/-- What holds of all that can be read from an item holds of everything read from a list of them. -/
theorem forall_mem_of_mapM_eq_ok {f : α → Except ε β} {P : β → Prop}
    (hf : ∀ a b, f a = .ok b → P b) {items : List α} {bs : List β} (h : items.mapM f = .ok bs) :
    ∀ b ∈ bs, P b := by
  intro b hb
  obtain ⟨a, -, ha⟩ := exists_mem_of_mapM_eq_ok h hb
  exact hf a b ha

/-! ## Faults -/

/-- What a reading fails with satisfies `P`. -/
def Faults (P : ε → Prop) (r : Except ε α) : Prop :=
  ∀ e, r = .error e → P e

namespace Faults

variable {P : ε → Prop} {r : Except ε α}

theorem ok (a : α) : Faults P (.ok a) :=
  fun _ h => nomatch h

theorem error {e : ε} (h : P e) : Faults P (.error e : Except ε α) :=
  fun _ he => Except.error.inj he ▸ h

theorem bind {f : α → Except ε β} (h : Faults P r) (hf : ∀ a, r = .ok a → Faults P (f a)) :
    Faults P (r >>= f) := by
  cases r with
  | error e => exact error (h e rfl)
  | ok a => exact hf a rfl

theorem map {f : α → β} (h : Faults P r) : Faults P (r.map f) := by
  cases r with
  | error e => exact error (h e rfl)
  | ok a => exact ok (f a)

theorem mapM {f : α → Except ε β} {items : List α} (h : ∀ a ∈ items, Faults P (f a)) :
    Faults P (items.mapM f) := by
  induction items with
  | nil => exact ok []
  | cons a items ih =>
    obtain ⟨ha, hitems⟩ := List.forall_mem_cons.mp h
    rw [List.mapM_cons]
    exact ha.bind fun b _ => (ih hitems).bind fun bs _ => ok (b :: bs)

end Faults

end ApiSurface
