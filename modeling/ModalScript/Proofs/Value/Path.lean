/-
Paths through containers.

From a value a path leads through the elements of containers, each of which is told by its
place; `Heap.follow` gives what stands at its end.  Containers may be shared and may hold
themselves, so that different paths may end at the same container and a value may have paths
of any length.

`Heap.shapeAt` keeps of the end of a path its shape only: the length of a list, the keys of a
dictionary in their order, and any other value as it is.  Values that have the same shapes on
all paths (`SameShapes`) differ only in which containers they are made of.  They are written
alike (`SameShapes.writeAt`), so that what a value is written as depends on the containers on
its paths only (`SameFrom.write`).
-/
import Mathlib.Data.List.Forall2
import ModalScript.Value.Display
import ModalScript.Value.Heap

namespace ModalScript

/-- Whether a value is a list or a dictionary. -/
def Value.isContainer : Value → Bool
  | .list _ | .dict _ => true
  | _ => false

/-- A value apart from the elements in it. -/
inductive Shape where
  | list (length : Nat)
  | dict (keys : List String)
  | scalar (v : Value)

namespace Heap

variable {h h' h'' : Heap} {v w : Value}

/-! ### Paths -/

/-- The elements of a container, those of a dictionary in the order of its keys. -/
def elements (h : Heap) : Value → List Value
  | .list r => h.items r
  | .dict r => (h.table r).values
  | _ => []

/-- The value at the end of a path. -/
def follow (h : Heap) : Value → List Nat → Option Value
  | v, [] => some v
  | v, i :: p => (h.elements v)[i]?.bind fun w => follow h w p

/-- The value at the end of a path that begins in a list of values. -/
def followIn (h : Heap) (vs : List Value) : List Nat → Option Value
  | [] => none
  | i :: p => vs[i]?.bind fun v => h.follow v p

/-- Whether some path leads from a value to another one. -/
def Reaches (h : Heap) (v w : Value) : Prop :=
  ∃ p, h.follow v p = some w

theorem Reaches.refl (h : Heap) (v : Value) : h.Reaches v v :=
  ⟨[], rfl⟩

/-- The paths from an element are those of the container behind its place. -/
theorem follow_element (hw : w ∈ h.elements v) :
    ∃ i, ∀ p, h.follow v (i :: p) = h.follow w p := by
  obtain ⟨i, hi⟩ := List.getElem?_of_mem hw
  refine ⟨i, fun p => ?_⟩
  rw [follow, hi, Option.bind_some]

/-- What an element reaches, the container reaches too. -/
theorem Reaches.of_element {u : Value} (hw : w ∈ h.elements v) (hu : h.Reaches w u) :
    h.Reaches v u := by
  obtain ⟨i, hi⟩ := follow_element hw
  obtain ⟨p, hp⟩ := hu
  exact ⟨i :: p, (hi p).trans hp⟩

/-- What elements have from their containers, everything has that a value reaches. -/
theorem Reaches.inherits {P : Value → Prop} (helements : ∀ v, P v → ∀ w ∈ h.elements v, P w)
    (hv : P v) (hw : h.Reaches v w) : P w := by
  obtain ⟨p, hp⟩ := hw
  -- along the path, from container to element
  induction p generalizing v with
  | nil =>
    cases hp
    exact hv
  | cons i p ih =>
    obtain ⟨u, hu, hp⟩ := Option.bind_eq_some_iff.mp hp
    exact ih (helements v hv u (List.mem_of_getElem? hu)) hp

/-- What holds of a value and of everything in the containers of the heap, holds of everything
that the value reaches. -/
theorem Reaches.of_contents {P : Value → Prop} (hlists : ∀ vs ∈ h.lists.toList, ∀ w ∈ vs, P w)
    (hdicts : ∀ d ∈ h.dicts.toList, ∀ w ∈ d.values, P w) (hv : P v) (hw : h.Reaches v w) :
    P w := by
  refine hw.inherits (fun u _ x hx => ?_) hv
  -- the elements of a container are among those of the heap, or there are none
  cases u with
  | list r =>
    rw [elements, items] at hx
    cases hr : h.lists[r.slot]? with
    | none =>
      rw [hr] at hx
      cases hx
    | some vs =>
      rw [hr] at hx
      exact hlists vs (Array.mem_toList_iff.mpr (Array.mem_of_getElem? hr)) x hx
  | dict r =>
    rw [elements, table] at hx
    cases hr : h.dicts[r.slot]? with
    | none =>
      rw [hr] at hx
      cases hx
    | some d =>
      rw [hr] at hx
      exact hdicts d (Array.mem_toList_iff.mpr (Array.mem_of_getElem? hr)) x hx
  | _ => cases hx

/-- All paths of a value are shorter than a bound. -/
def Shallow (h : Heap) (n : Nat) (v : Value) : Prop :=
  ∀ p w, h.follow v p = some w → p.length < n

theorem not_shallow_zero : ¬ h.Shallow 0 v :=
  fun hv => Nat.not_lt_zero _ (hv [] v rfl)

theorem shallow_iff_length_le {n : Nat} :
    h.Shallow (n + 1) v ↔ ∀ p w, h.follow v p = some w → p.length ≤ n := by
  simp only [Shallow, Nat.lt_succ_iff]

/-- The paths of a container are longer by one than those of its elements. -/
theorem shallow_succ_iff {n : Nat} :
    h.Shallow (n + 1) v ↔ ∀ w ∈ h.elements v, h.Shallow n w := by
  constructor
  · intro hv w hw p u hu
    obtain ⟨i, hi⟩ := follow_element hw
    exact Nat.lt_of_succ_lt_succ (hv (i :: p) u ((hi p).trans hu))
  · intro hv p u hu
    cases p with
    | nil => exact Nat.succ_pos n
    | cons i p =>
      obtain ⟨w, hw, hu⟩ := Option.bind_eq_some_iff.mp hu
      exact Nat.succ_lt_succ (hv w (List.mem_of_getElem? hw) p u hu)

/-! ### Containers that are the same in two heaps -/

/-- The container that a value refers to, if it does, is the same in both heaps. -/
def SameAt (h h' : Heap) : Value → Prop
  | .list r => h'.items r = h.items r
  | .dict r => h'.table r = h.table r
  | _ => True

theorem SameAt.refl (h : Heap) (v : Value) : h.SameAt h v := by
  cases v with
  | list r | dict r => exact Eq.refl _
  | _ => trivial

theorem SameAt.trans (hv : h.SameAt h' v) (hv' : h'.SameAt h'' v) : h.SameAt h'' v := by
  cases v with
  | list r => exact Eq.trans hv' hv
  | dict r => exact Eq.trans hv' hv
  | _ => trivial

/-- The same container has the same elements. -/
theorem SameAt.elements (hv : h.SameAt h' v) : h'.elements v = h.elements v := by
  cases v with
  | list r => exact hv
  | dict r => exact congrArg Dict.values hv
  | _ => rfl

/-- The shape of a value. -/
def shape (h : Heap) : Value → Shape
  | .list r => .list (h.items r).length
  | .dict r => .dict (h.table r).keys
  | v => .scalar v

theorem SameAt.shape (hv : h.SameAt h' v) : h'.shape v = h.shape v := by
  cases v with
  | list r => exact congrArg (fun vs => Shape.list vs.length) hv
  | dict r => exact congrArg (fun d => Shape.dict d.keys) hv
  | _ => rfl

/-- There is nothing in a scalar. -/
theorem elements_of_not_container (hv : v.isContainer = false) : h.elements v = [] := by
  cases v with
  | list r | dict r => cases hv
  | _ => rfl

/-- A scalar has no path but the empty one. -/
theorem eq_of_follow_of_not_container {p : List Nat} (hv : v.isContainer = false)
    (hw : h.follow v p = some w) : w = v := by
  cases p with
  | nil => exact (Option.some.inj hw).symm
  | cons i p =>
    rw [follow, elements_of_not_container hv] at hw
    cases hw

theorem shape_of_not_container (hv : v.isContainer = false) : h.shape v = .scalar v := by
  cases v with
  | list r | dict r => cases hv
  | _ => rfl

/-- Scalars are their own shapes. -/
theorem eq_of_shape (hv : v.isContainer = false) (hshape : h'.shape w = h.shape v) : w = v := by
  rw [shape_of_not_container hv] at hshape
  cases w with
  | list r | dict r => cases hshape
  | _ => exact Shape.scalar.inj hshape

theorem sameAt_of_not_container (hv : v.isContainer = false) : h.SameAt h' v := by
  cases v with
  | list r | dict r => cases hv
  | _ => trivial

/-- The shape of the value at the end of a path. -/
def shapeAt (h : Heap) (v : Value) (p : List Nat) : Option Shape :=
  (h.follow v p).map h.shape

/-! ### Values with the same shapes -/

/-- The shapes on all paths of two values are the same. -/
def SameShapes (h : Heap) (v : Value) (h' : Heap) (w : Value) : Prop :=
  ∀ p, h'.shapeAt w p = h.shapeAt v p

/-- The shapes behind an element are those of the element. -/
theorem shapeAt_cons (h : Heap) (v : Value) (i : Nat) (p : List Nat) :
    h.shapeAt v (i :: p) = (h.elements v)[i]?.bind fun w => h.shapeAt w p :=
  Option.map_bind

/-- The shape of a container tells how many elements it has. -/
theorem length_elements_of_shape (hshape : h'.shape w = h.shape v) :
    (h'.elements w).length = (h.elements v).length := by
  cases v with
  | list r =>
    cases w with
    | list r' => exact Shape.list.inj hshape
    | _ => cases hshape
  | dict r =>
    cases w with
    | dict r' =>
      -- as many values as keys
      have hlength := congrArg List.length (Shape.dict.inj hshape)
      rw [Dict.keys, Dict.keys, List.length_map, List.length_map] at hlength
      rw [elements, elements, Dict.values, Dict.values, List.length_map, List.length_map, hlength]
    | _ => cases hshape
  | _ =>
    rw [eq_of_shape rfl hshape]
    rfl

theorem isContainer_of_shape (hshape : h'.shape w = h.shape v) :
    w.isContainer = v.isContainer := by
  cases v with
  | list r | dict r =>
    cases w with
    | list r' | dict r' => rfl
    | _ => cases hshape
  | _ => rw [eq_of_shape rfl hshape]

/-- Values have the same shapes if they have the same shape themselves and their elements have
the same shapes. -/
theorem sameShapes_iff :
    h.SameShapes v h' w ↔ h'.shape w = h.shape v ∧
      List.Forall₂ (fun x y => h.SameShapes x h' y) (h.elements v) (h'.elements w) := by
  rw [List.forall₂_iff_get]
  constructor
  · intro hshapes
    have hshape : h'.shape w = h.shape v := Option.some.inj (hshapes [])
    refine ⟨hshape, (length_elements_of_shape hshape).symm, fun i hi hi' p => ?_⟩
    -- behind the first step the paths are those of the elements
    have hp := hshapes (i :: p)
    rwa [shapeAt_cons, shapeAt_cons, List.getElem?_eq_getElem hi, List.getElem?_eq_getElem hi',
      Option.bind_some, Option.bind_some] at hp
  · rintro ⟨hshape, hlength, helements⟩ p
    cases p with
    | nil => exact congrArg some hshape
    | cons i p =>
      rw [shapeAt_cons, shapeAt_cons]
      by_cases hi : i < (h.elements v).length
      · have hi' : i < (h'.elements w).length := hlength ▸ hi
        rw [List.getElem?_eq_getElem hi, List.getElem?_eq_getElem hi']
        exact helements i hi hi' p
      · rw [List.getElem?_eq_none (Nat.le_of_not_lt hi),
          List.getElem?_eq_none (hlength ▸ Nat.le_of_not_lt hi)]
        rfl

theorem SameShapes.shape (hshapes : h.SameShapes v h' w) : h'.shape w = h.shape v :=
  Option.some.inj (hshapes [])

/-- What is written for a shape, from what is written for the elements. -/
def writeShape : Shape → List (List Char) → List Char
  | .list _, parts => bracketed '[' ']' parts
  | .dict keys, parts => bracketed '\x7b' '\x7d' (List.zipWith writeEntry keys parts)
  | .scalar v, _ => empty.writeAt 0 v

/-- A value is written by its shape and by what its elements are written as. -/
theorem writeAt_succ (h : Heap) (n : Nat) (v : Value) :
    h.writeAt (n + 1) v = writeShape (h.shape v) ((h.elements v).map (h.writeAt n)) := by
  cases v with
  | dict r =>
    rw [writeAt, shape, elements, writeShape, Dict.keys, Dict.values, List.map_map,
      List.zipWith_map, List.zipWith_self]
    rfl
  | _ => rfl

theorem SameShapes.writeAt (hshapes : h.SameShapes v h' w) (n : Nat) :
    h'.writeAt n w = h.writeAt n v := by
  -- on the levels, since containers may hold themselves
  induction n generalizing v w with
  | zero =>
    have hshape := hshapes.shape
    cases v with
    | list r | dict r =>
      cases w with
      | list r' | dict r' => first | rfl | cases hshape
      | _ => cases hshape
    | _ =>
      rw [eq_of_shape rfl hshape]
      rfl
  | succ n ih =>
    obtain ⟨hshape, helements⟩ := sameShapes_iff.mp hshapes
    have hparts : (h.elements v).map (h.writeAt n) = (h'.elements w).map (h'.writeAt n) := by
      rw [← List.forall₂_eq_eq_eq, List.forall₂_map_left_iff, List.forall₂_map_right_iff]
      exact helements.imp fun _ _ hshapes => (ih hshapes).symm
    rw [writeAt_succ, writeAt_succ, hshape, hparts]

/-- Values with the same shapes are written alike. -/
theorem SameShapes.write (hshapes : h.SameShapes v h' w) : h'.write w = h.write v := by
  rw [Heap.write, Heap.write, hshapes.writeAt]

/-! ### Values that reach the same containers -/

/-- The containers that a value reaches are the same in both heaps. -/
def SameFrom (h h' : Heap) (v : Value) : Prop :=
  ∀ w, h.Reaches v w → h.SameAt h' w

namespace SameFrom

/-- The containers that an element reaches are the same too. -/
theorem element (hv : h.SameFrom h' v) (hw : w ∈ h.elements v) : h.SameFrom h' w :=
  fun u hu => hv u (hu.of_element hw)

/-- So all paths lead where they led. -/
theorem follow (hv : h.SameFrom h' v) (p : List Nat) : h'.follow v p = h.follow v p := by
  induction p generalizing v with
  | nil => rfl
  | cons i p ih =>
    rw [Heap.follow, Heap.follow, (hv v (.refl h v)).elements]
    cases hw : (h.elements v)[i]? with
    | none => rfl
    | some w => exact ih (hv.element (List.mem_of_getElem? hw))

theorem shapeAt (hv : h.SameFrom h' v) (p : List Nat) : h'.shapeAt v p = h.shapeAt v p := by
  rw [Heap.shapeAt, Heap.shapeAt, hv.follow p]
  cases hw : h.follow v p with
  | none => rfl
  | some w => exact congrArg some (hv w ⟨p, hw⟩).shape

theorem shapes (hv : h.SameFrom h' v) : h.SameShapes v h' v :=
  hv.shapeAt

/-- The written form depends on the containers that are reached. -/
theorem write (hv : h.SameFrom h' v) : h'.write v = h.write v :=
  hv.shapes.write

end SameFrom

end Heap

end ModalScript
