/-
Something kept for each of some editors.

`get?_set_self`, `get?_set_ne`, `get?_remove_self` and `get?_remove_ne` say that a change
for one editor shows there and nowhere else.
-/
import ModalScript.Editor.Id

namespace ModalScript

universe u

variable {α : Type u}

/-- A finite map from editors. -/
structure PerEditor (α : Type u) where
  entries : List (EditorId × α)

namespace PerEditor

/-- The map without editors. -/
def empty : PerEditor α :=
  ⟨[]⟩

instance : Inhabited (PerEditor α) :=
  ⟨empty⟩

/-- What is kept in the first entry of an editor. -/
def find (id : EditorId) : List (EditorId × α) → Option α
  | [] => none
  | e :: es => if e.1 = id then some e.2 else find id es

/-- What is kept for an editor. -/
def get? (m : PerEditor α) (id : EditorId) : Option α :=
  find id m.entries

/-- Forgets an editor. -/
def remove (m : PerEditor α) (id : EditorId) : PerEditor α :=
  ⟨m.entries.filter (fun e => e.1 ≠ id)⟩

/-- Keeps something for an editor, in place of what was kept before. -/
def set (m : PerEditor α) (id : EditorId) (a : α) : PerEditor α :=
  ⟨(id, a) :: (m.remove id).entries⟩

/-- Replaces what is kept for every editor. -/
def map (f : α → α) (m : PerEditor α) : PerEditor α :=
  ⟨m.entries.map fun e => (e.1, f e.2)⟩

/-! ### What the operations do to `get?` -/

theorem find_filter_self (id : EditorId) (es : List (EditorId × α)) :
    find id (es.filter (fun e => e.1 ≠ id)) = none := by
  induction es with
  | nil => rfl
  | cons e es ih =>
    by_cases he : e.1 = id
    · rw [List.filter_cons_of_neg (by simpa using he), ih]
    · rw [List.filter_cons_of_pos (by simpa using he)]
      simp only [find, he, if_false, ih]

theorem find_filter_ne {id id' : EditorId} (h : id' ≠ id) (es : List (EditorId × α)) :
    find id' (es.filter (fun e => e.1 ≠ id)) = find id' es := by
  induction es with
  | nil => rfl
  | cons e es ih =>
    by_cases he : e.1 = id
    · -- the entry that is left out is not that of the other editor
      have hne : e.1 ≠ id' := fun he' => h (he' ▸ he)
      rw [List.filter_cons_of_neg (by simpa using he), ih]
      simp [find, hne]
    · rw [List.filter_cons_of_pos (by simpa using he)]
      simp only [find, ih]

@[simp] theorem get?_empty (id : EditorId) : (empty : PerEditor α).get? id = none :=
  rfl

@[simp] theorem get?_remove_self (m : PerEditor α) (id : EditorId) :
    (m.remove id).get? id = none :=
  find_filter_self id m.entries

theorem get?_remove_ne (m : PerEditor α) {id id' : EditorId} (h : id' ≠ id) :
    (m.remove id).get? id' = m.get? id' :=
  find_filter_ne h m.entries

@[simp] theorem get?_set_self (m : PerEditor α) (id : EditorId) (a : α) :
    (m.set id a).get? id = some a := by
  simp [set, get?, find]

theorem get?_set_ne (m : PerEditor α) {id id' : EditorId} (a : α) (h : id' ≠ id) :
    (m.set id a).get? id' = m.get? id' := by
  have hne : id ≠ id' := Ne.symm h
  simp only [set, get?, find, hne, if_false]
  exact find_filter_ne h m.entries

theorem get?_set (m : PerEditor α) (id id' : EditorId) (a : α) :
    (m.set id a).get? id' = if id' = id then some a else m.get? id' := by
  split
  · next h => rw [h, get?_set_self]
  · next h => exact get?_set_ne m a h

theorem get?_map (f : α → α) (m : PerEditor α) (id : EditorId) :
    (m.map f).get? id = (m.get? id).map f := by
  obtain ⟨es⟩ := m
  simp only [map, get?]
  induction es with
  | nil => rfl
  | cons e es ih =>
    simp only [List.map_cons, find]
    split
    · rfl
    · exact ih

end PerEditor

end ModalScript
