/-
The heap: the lists and dictionaries that values refer to.

A container is created behind all existing ones and is never removed, so a reference
stays good for ever.  `Heap.items` and `Heap.table` read a container, and the lemmas say
what creating and changing containers does to these two readings: only the container that
was written reads differently.
-/
import ModalScript.Value.Basic

namespace ModalScript

/-- The containers in existence. -/
structure Heap where
  lists : Array (List Value)
  dicts : Array (Dict Value)
  deriving Inhabited

namespace Heap

/-- The heap without containers. -/
def empty : Heap :=
  ⟨#[], #[]⟩

/-- The elements of a list. -/
def items (h : Heap) (r : ListRef) : List Value :=
  h.lists[r.slot]?.getD []

/-- The entries of a dictionary. -/
def table (h : Heap) (r : DictRef) : Dict Value :=
  h.dicts[r.slot]?.getD Dict.empty

/-- A new list. -/
def newList (h : Heap) (vs : List Value) : ListRef × Heap :=
  (⟨h.lists.size⟩, { h with lists := h.lists.push vs })

/-- A new dictionary. -/
def newDict (h : Heap) (d : Dict Value) : DictRef × Heap :=
  (⟨h.dicts.size⟩, { h with dicts := h.dicts.push d })

/-- Gives a list new elements. -/
def setItems (h : Heap) (r : ListRef) (vs : List Value) : Heap :=
  { h with lists := h.lists.setIfInBounds r.slot vs }

/-- Gives a dictionary new entries. -/
def setTable (h : Heap) (r : DictRef) (d : Dict Value) : Heap :=
  { h with dicts := h.dicts.setIfInBounds r.slot d }

/-- Whether a list has been created. -/
def HasList (h : Heap) (r : ListRef) : Prop :=
  r.slot < h.lists.size

/-- Whether a dictionary has been created. -/
def HasDict (h : Heap) (r : DictRef) : Prop :=
  r.slot < h.dicts.size

/-! ### Creating -/

theorem items_newList_self (h : Heap) (vs : List Value) :
    (h.newList vs).2.items (h.newList vs).1 = vs := by
  simp [newList, items]

theorem items_newList_of_hasList {h : Heap} {r : ListRef} (vs : List Value) (hr : h.HasList r) :
    (h.newList vs).2.items r = h.items r := by
  have : r.slot ≠ h.lists.size := Nat.ne_of_lt hr
  simp [newList, items, Array.getElem?_push, this]

@[simp] theorem table_newList (h : Heap) (vs : List Value) (r : DictRef) :
    (h.newList vs).2.table r = h.table r :=
  rfl

theorem table_newDict_self (h : Heap) (d : Dict Value) :
    (h.newDict d).2.table (h.newDict d).1 = d := by
  simp [newDict, table]

theorem table_newDict_of_hasDict {h : Heap} {r : DictRef} (d : Dict Value) (hr : h.HasDict r) :
    (h.newDict d).2.table r = h.table r := by
  have : r.slot ≠ h.dicts.size := Nat.ne_of_lt hr
  simp [newDict, table, Array.getElem?_push, this]

@[simp] theorem items_newDict (h : Heap) (d : Dict Value) (r : ListRef) :
    (h.newDict d).2.items r = h.items r :=
  rfl

/-! ### Changing -/

theorem items_setItems_self {h : Heap} {r : ListRef} (vs : List Value) (hr : h.HasList r) :
    (h.setItems r vs).items r = vs := by
  have : r.slot < h.lists.size := hr
  simp [setItems, items, this]

theorem items_setItems_ne (h : Heap) {r r' : ListRef} (vs : List Value) (hne : r' ≠ r) :
    (h.setItems r vs).items r' = h.items r' := by
  -- a reference is its slot
  have : r.slot ≠ r'.slot := fun he => hne (by cases r; cases r'; cases he; rfl)
  simp [setItems, items, this]

@[simp] theorem table_setItems (h : Heap) (r : ListRef) (vs : List Value) (r' : DictRef) :
    (h.setItems r vs).table r' = h.table r' :=
  rfl

theorem table_setTable_self {h : Heap} {r : DictRef} (d : Dict Value) (hr : h.HasDict r) :
    (h.setTable r d).table r = d := by
  have : r.slot < h.dicts.size := hr
  simp [setTable, table, this]

theorem table_setTable_ne (h : Heap) {r r' : DictRef} (d : Dict Value) (hne : r' ≠ r) :
    (h.setTable r d).table r' = h.table r' := by
  have : r.slot ≠ r'.slot := fun he => hne (by cases r; cases r'; cases he; rfl)
  simp [setTable, table, this]

@[simp] theorem items_setTable (h : Heap) (r : DictRef) (d : Dict Value) (r' : ListRef) :
    (h.setTable r d).items r' = h.items r' :=
  rfl

end Heap

end ModalScript
