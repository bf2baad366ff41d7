/-
Deep copies.

A copy is made from the elements upward: first a copy of each element, one after the other,
and then a container for these copies (`copyAt_succ`).  What has been made so far is never
touched again (`Grown`), so that the paths of the value lead where they led, and those of an
earlier copy too.  `CopyOf` collects what is known of the paths of a copy: they have the
shapes of those of the value, and every container on them is new and on one of them only.
It holds of no elements, is kept when one more copy is made, and when the container for the
copies is made, and thus of all copies by induction on the levels.

A copy of no more than `n` levels is made just if all paths are shorter than `n`.

Main result: `Value.deepCopy_faithful`.
-/
import Mathlib.Logic.ExistsUnique
import Mathlib.Tactic.ByContra
import ModalScript.Proofs.Fallible
import ModalScript.Proofs.Value.Equality
import ModalScript.Script.Interp

namespace ModalScript

namespace Heap

variable {h h₁ h₂ : Heap} {v w : Value} {vs ws : List Value}

/-! ### Heaps with more containers -/

/-- Whether the container that a value refers to has been created, if it refers to one. -/
def Has (h : Heap) : Value → Prop
  | .list r => h.HasList r
  | .dict r => h.HasDict r
  | _ => True

/-- The containers that a value reaches have been created. -/
def Closed (h : Heap) (v : Value) : Prop :=
  ∀ w, h.Reaches v w → h.Has w

theorem Closed.element (hv : h.Closed v) (hw : w ∈ h.elements v) : h.Closed w :=
  fun u hu => hv u (hu.of_element hw)

/-- Containers may have been added, and all the old ones are the same. -/
structure Grown (h h' : Heap) : Prop where
  has : ∀ v, h.Has v → h'.Has v
  same : ∀ v, h.Has v → h.SameAt h' v

theorem Grown.refl (h : Heap) : h.Grown h where
  has _ hv := hv
  same v _ := .refl h v

theorem Grown.trans (h₀ : h.Grown h₁) (h₁' : h₁.Grown h₂) : h.Grown h₂ where
  has v hv := h₁'.has v (h₀.has v hv)
  same v hv := (h₀.same v hv).trans (h₁'.same v (h₀.has v hv))

/-- What a value reaches is not touched when the heap grows. -/
theorem Grown.sameFrom (hgrown : h.Grown h₁) (hv : h.Closed v) : h.SameFrom h₁ v :=
  fun w hw => hgrown.same w (hv w hw)

/-- No value comes to reach anything new. -/
theorem Grown.closed (hgrown : h.Grown h₁) (hv : h.Closed v) : h₁.Closed v := by
  -- a path in the grown heap has been there before
  rintro w ⟨p, hp⟩
  rw [(hgrown.sameFrom hv).follow] at hp
  exact hgrown.has w (hv w ⟨p, hp⟩)

theorem Grown.shallow_iff {n : Nat} (hgrown : h.Grown h₁) (hv : h.Closed v) :
    h₁.Shallow n v ↔ h.Shallow n v := by
  simp only [Shallow, (hgrown.sameFrom hv).follow]

/-- The paths from values whose containers have been created are the same in a grown heap. -/
theorem Grown.followIn (hgrown : h.Grown h₁) (hvs : ∀ v ∈ vs, h.Closed v) (p : List Nat) :
    h₁.followIn vs p = h.followIn vs p := by
  cases p with
  | nil => rfl
  | cons i p =>
    rw [Heap.followIn, Heap.followIn]
    cases hv : vs[i]? with
    | none => rfl
    | some v => exact (hgrown.sameFrom (hvs v (List.mem_of_getElem? hv))).follow p

/-- The shapes on the paths are the same as well. -/
theorem Grown.shape_followIn (hgrown : h.Grown h₁) (hvs : ∀ v ∈ vs, h.Closed v)
    (p : List Nat) : (h₁.followIn vs p).map h₁.shape = (h.followIn vs p).map h.shape := by
  cases p with
  | nil => rfl
  | cons i p =>
    rw [Heap.followIn, Heap.followIn]
    cases hv : vs[i]? with
    | none => rfl
    | some v => exact (hgrown.sameFrom (hvs v (List.mem_of_getElem? hv))).shapeAt p

/-- A new list stands behind all that there are. -/
theorem grown_newList (h : Heap) (vs : List Value) : h.Grown (h.newList vs).2 where
  has v hv := by
    cases v with
    | list r =>
      show r.slot < (h.lists.push vs).size
      rw [Array.size_push]
      exact Nat.lt_succ_of_lt hv
    | _ => exact hv
  same v hv := by
    cases v with
    | list r => exact items_newList_of_hasList vs hv
    | dict r => exact table_newList h vs r
    | _ => trivial

theorem grown_newDict (h : Heap) (d : Dict Value) : h.Grown (h.newDict d).2 where
  has v hv := by
    cases v with
    | dict r =>
      show r.slot < (h.dicts.push d).size
      rw [Array.size_push]
      exact Nat.lt_succ_of_lt hv
    | _ => exact hv
  same v hv := by
    cases v with
    | list r => exact items_newDict h d r
    | dict r => exact table_newDict_of_hasDict d hv
    | _ => trivial

/-! ### Building a value from its elements -/

/-- A new container of a shape with given elements, or the scalar that the shape is. -/
def build (h : Heap) (shape : Shape) (ws : List Value) : Value × Heap :=
  match shape with
  | .list _ =>
    let (r, h') := h.newList ws
    (.list r, h')
  | .dict keys =>
    let (r, h') := h.newDict (Dict.ofList (keys.zip ws))
    (.dict r, h')
  | .scalar v => (v, h)

theorem grown_build (h : Heap) (shape : Shape) (ws : List Value) :
    h.Grown (h.build shape ws).2 := by
  cases shape with
  | list n => exact grown_newList h ws
  | dict keys => exact grown_newDict h _
  | scalar v => exact .refl h

/-- A container that is built like another one is new, and has its shape and the given
elements. -/
theorem build_of_container {c : Value} (hv : v.isContainer = true)
    (hlength : ws.length = (h.elements v).length) (hbuild : h₁.build (h.shape v) ws = (c, h₂)) :
    ¬ h₁.Has c ∧ h₂.Has c ∧ h₂.elements c = ws ∧ h₂.shape c = h.shape v := by
  cases v with
  | list r =>
    cases hbuild
    refine ⟨Nat.lt_irrefl _, ?_, items_newList_self h₁ ws, ?_⟩
    · show h₁.lists.size < (h₁.lists.push ws).size
      rw [Array.size_push]
      exact Nat.lt_succ_self _
    · show Shape.list ((h₁.newList ws).2.items (h₁.newList ws).1).length = _
      rw [items_newList_self, hlength]
      rfl
  -- the keys are in order already, so that no entry is lost or moved
  | dict r =>
    cases hbuild
    have hzip : (h.table r).keys.length = ws.length := by
      rw [hlength]
      simp only [elements, Dict.keys, Dict.values, List.length_map]
    have htable : (Dict.ofList ((h.table r).keys.zip ws)).entries = (h.table r).keys.zip ws := by
      refine Dict.entries_ofList (List.pairwise_map.mp ?_)
      rw [List.map_fst_zip (Nat.le_of_eq hzip)]
      exact (h.table r).sorted_keys
    let d := Dict.ofList ((h.table r).keys.zip ws)
    refine ⟨Nat.lt_irrefl _, ?_, ?_, ?_⟩
    · show h₁.dicts.size < (h₁.dicts.push d).size
      rw [Array.size_push]
      exact Nat.lt_succ_self _
    · show ((h₁.newDict d).2.table (h₁.newDict d).1).values = ws
      rw [table_newDict_self, Dict.values, htable, List.map_snd_zip (Nat.le_of_eq hzip.symm)]
    · show Shape.dict ((h₁.newDict d).2.table (h₁.newDict d).1).keys = Shape.dict _
      rw [table_newDict_self, Dict.keys, htable, List.map_fst_zip (Nat.le_of_eq hzip)]
  | _ => cases hv

/-! ### The paths of a copy -/

/-- What is known of the paths of a copy, which is made in `h` and has paths `g` in `h'`, of
something that has paths `f` in `h`. -/
structure CopyOf (h : Heap) (f : List Nat → Option Value) (h' : Heap)
    (g : List Nat → Option Value) : Prop where
  grown : h.Grown h'
  shapes : ∀ p, (g p).map h'.shape = (f p).map h.shape
  /-- Containers on the paths are new. -/
  fresh : ∀ p c, g p = some c → c.isContainer → ¬ h.Has c ∧ h'.Has c
  /-- No container is on two paths. -/
  unique : ∀ p q c, g p = some c → g q = some c → c.isContainer → p = q

theorem has_of_not_container (h : Heap) (hv : v.isContainer = false) : h.Has v := by
  cases v with
  | list r | dict r => cases hv
  | _ => trivial

namespace CopyOf

/-- The containers of a copy have been created, as they are new ones. -/
theorem closed (hcopy : CopyOf h (h.follow v) h₁ (h₁.follow w)) : h₁.Closed w := by
  rintro c ⟨p, hp⟩
  cases hc : c.isContainer with
  | true => exact (hcopy.fresh p c hp hc).2
  | false => exact has_of_not_container h₁ hc

theorem closed_of_mem (hcopy : CopyOf h (h.followIn vs) h₁ (h₁.followIn ws)) (hw : w ∈ ws) :
    h₁.Closed w := by
  obtain ⟨i, hi⟩ := List.getElem?_of_mem hw
  rintro c ⟨p, hp⟩
  have hip : h₁.followIn ws (i :: p) = some c := by rw [followIn, hi, Option.bind_some, hp]
  cases hc : c.isContainer with
  | true => exact (hcopy.fresh (i :: p) c hip hc).2
  | false => exact has_of_not_container h₁ hc

/-- On a copy each container has one path. -/
theorem existsUnique_path {c : Value} (hcopy : CopyOf h (h.follow v) h₁ (h₁.follow w))
    (hw : h₁.Reaches w c) (hc : c.isContainer) :
    ¬ h.Has c ∧ h₁.Has c ∧ ∃! p, h₁.follow w p = some c := by
  obtain ⟨p, hp⟩ := hw
  obtain ⟨hnew, hhas⟩ := hcopy.fresh p c hp hc
  exact ⟨hnew, hhas, p, hp, fun q hq => hcopy.unique q p c hq hp hc⟩

/-- A copy is equal to what it was made from. -/
theorem equal (hcopy : CopyOf h (h.follow v) h₁ (h₁.follow w)) (hclosed : h.Closed v)
    (hshallow : h.Shallow (nestingLimit + 1) v)
    (hnan : ∀ x, h.Reaches v (.float x) → x.isNaN = false) : h₁.equal v w = .ok true := by
  have hsame : h.SameFrom h₁ v := hcopy.grown.sameFrom hclosed
  -- a copy has the same shapes, and the paths are short enough to be compared
  refine equal_of_shapes (fun p => ?_) ((hcopy.grown.shallow_iff hclosed).mpr hshallow) ?_
  · rw [hsame.shapeAt]
    exact hcopy.shapes p
  · rintro x ⟨p, hp⟩
    rw [hsame.follow] at hp
    exact hnan x ⟨p, hp⟩

/-- As long as the new containers are the same, a copy is written as before. -/
theorem write (hcopy : CopyOf h (h.follow v) h₁ (h₁.follow w))
    (hkept : ∀ c, h₁.Has c → ¬ h.Has c → h₁.SameAt h₂ c) : h₂.write w = h₁.write w := by
  refine SameFrom.write ?_
  rintro c ⟨p, hp⟩
  cases hc : c.isContainer with
  | true =>
    obtain ⟨hnew, hhas⟩ := hcopy.fresh p c hp hc
    exact hkept c hhas hnew
  | false => exact sameAt_of_not_container hc

/-- There is nothing to be copied. -/
theorem nil (h : Heap) : CopyOf h (h.followIn []) h (h.followIn []) where
  grown := .refl h
  shapes _ := rfl
  fresh p c hp := by cases p <;> cases hp
  unique p _ c hp := by cases p <;> cases hp

/-- One copy after the other. -/
theorem cons (hv : CopyOf h (h.follow v) h₁ (h₁.follow w))
    (hvs : CopyOf h₁ (h₁.followIn vs) h₂ (h₂.followIn ws)) (hclosed : ∀ v ∈ vs, h.Closed v) :
    CopyOf h (h.followIn (v :: vs)) h₂ (h₂.followIn (w :: ws)) := by
  -- the paths of the first copy are not touched when the others are made
  have hkept := hvs.grown.sameFrom hv.closed
  have hfirst (p : List Nat) : h₂.followIn (w :: ws) (0 :: p) = h₁.follow w p := hkept.follow p
  refine ⟨hv.grown.trans hvs.grown, ?_, ?_, ?_⟩
  · intro p
    match p with
    | [] => rfl
    | 0 :: p =>
      exact (hkept.shapeAt p).trans (hv.shapes p)
    | (i + 1) :: p =>
      exact (hvs.shapes (i :: p)).trans (hv.grown.shape_followIn hclosed (i :: p))
  · intro p c hp hc
    match p with
    | [] => cases hp
    | 0 :: p =>
      rw [hfirst] at hp
      obtain ⟨hnew, hold⟩ := hv.fresh p c hp hc
      exact ⟨hnew, hvs.grown.has c hold⟩
    | (i + 1) :: p =>
      obtain ⟨hnew, hold⟩ := hvs.fresh (i :: p) c hp hc
      exact ⟨fun hhas => hnew (hv.grown.has c hhas), hold⟩
  · intro p q c hp hq hc
    match p, q with
    | [], _ => cases hp
    | _ :: _, [] => cases hq
    | 0 :: p, 0 :: q =>
      rw [hfirst] at hp hq
      rw [hv.unique p q c hp hq hc]
    | 0 :: p, (j + 1) :: q =>
      rw [hfirst] at hp
      exact absurd (hv.fresh p c hp hc).2 (hvs.fresh (j :: q) c hq hc).1
    | (i + 1) :: p, 0 :: q =>
      rw [hfirst] at hq
      exact absurd (hv.fresh q c hq hc).2 (hvs.fresh (i :: p) c hp hc).1
    | (i + 1) :: p, (j + 1) :: q =>
      cases hvs.unique (i :: p) (j :: q) c hp hq hc
      rfl

/-- A container for the copies of the elements is a copy of the container, and a scalar is a
copy of itself. -/
theorem build {c : Value} (hcopies : CopyOf h (h.followIn (h.elements v)) h₁ (h₁.followIn ws))
    (hlength : ws.length = (h.elements v).length) (hbuild : h₁.build (h.shape v) ws = (c, h₂)) :
    CopyOf h (h.follow v) h₂ (h₂.follow c) := by
  have hgrown : h₁.Grown h₂ := by
    have hstep := h₁.grown_build (h.shape v) ws
    rwa [hbuild] at hstep
  cases hv : v.isContainer with
  | false =>
    rw [shape_of_not_container hv] at hbuild
    cases hbuild
    have hclosed : h.Closed v := by
      rintro w ⟨p, hp⟩
      rw [eq_of_follow_of_not_container hv hp]
      exact has_of_not_container h hv
    have hscalar (p : List Nat) (w : Value) (hp : h₁.follow v p = some w) :
        ¬ w.isContainer = true := by
      rw [eq_of_follow_of_not_container hv hp, hv]
      exact Bool.false_ne_true
    exact ⟨hcopies.grown, (hcopies.grown.sameFrom hclosed).shapeAt,
      fun p w hp hw => absurd hw (hscalar p w hp), fun p _ w hp _ hw => absurd hw (hscalar p w hp)⟩
  | true =>
    obtain ⟨hnew, hhas, helements, hshape⟩ := build_of_container hv hlength hbuild
    -- behind the first step the paths are those of the copies
    have hclosed : ∀ w ∈ ws, h₁.Closed w := fun w hw => hcopies.closed_of_mem hw
    have hin (i : Nat) (p : List Nat) : h₂.follow c (i :: p) = h₂.followIn ws (i :: p) := by
      rw [follow, followIn, helements]
    have hpath (i : Nat) (p : List Nat) : h₂.follow c (i :: p) = h₁.followIn ws (i :: p) :=
      (hin i p).trans (hgrown.followIn hclosed _)
    refine ⟨hcopies.grown.trans hgrown, ?_, ?_, ?_⟩
    · intro p
      cases p with
      | nil => exact congrArg some hshape
      | cons i p =>
        rw [hin, hgrown.shape_followIn hclosed, hcopies.shapes]
        rfl
    · intro p w hp hw
      cases p with
      | nil =>
        cases hp
        exact ⟨fun hold => hnew (hcopies.grown.has c hold), hhas⟩
      | cons i p =>
        rw [hpath] at hp
        obtain ⟨hfresh, hmade⟩ := hcopies.fresh (i :: p) w hp hw
        exact ⟨hfresh, hgrown.has w hmade⟩
    · intro p q w hp hq hw
      cases p with
      | nil =>
        cases hp
        cases q with
        | nil => rfl
        | cons j q =>
          rw [hpath] at hq
          exact absurd (hcopies.fresh (j :: q) c hq hw).2 hnew
      | cons i p =>
        rw [hpath] at hp
        cases q with
        | nil =>
          cases hq
          exact absurd (hcopies.fresh (i :: p) c hp hw).2 hnew
        | cons j q =>
          rw [hpath] at hq
          exact hcopies.unique (i :: p) (j :: q) w hp hq hw

end CopyOf

end Heap

/-! ### Making copies -/

namespace Value

open Heap

variable {h h' : Heap} {v w : Value} {vs ws : List Value} {levels : Nat}

/-- The values of entries are computed in their order, and the keys stay with them. -/
theorem mapM_entries {α β : Type} {m : Type → Type} [Monad m] [LawfulMonad m] (f : α → m β)
    (es : List (String × α)) :
    es.mapM (fun e => do return (e.1, ← f e.2)) =
      (do let bs ← (es.map (·.2)).mapM f; return (es.map (·.1)).zip bs) := by
  induction es with
  | nil => simp only [List.mapM_nil, List.map_nil, pure_bind, List.zip_nil_left]
  | cons e es ih =>
    simp only [List.mapM_cons, List.map_cons, ih, bind_assoc, pure_bind, List.zip_cons_cons]

/-- A copy is built from copies of the elements. -/
theorem copyAt_succ (levels : Nat) (v : Value) (h : Heap) :
    copyAt (levels + 1) v h =
      ((h.elements v).mapM (copyAt levels) h).map fun r => r.2.build (h.shape v) r.1 := by
  cases v with
  | list r =>
    show ((h.items r).mapM (copyAt levels) h).bind _ =
      ((h.items r).mapM (copyAt levels) h).map _
    cases (h.items r).mapM (copyAt levels) h <;> rfl
  | dict r =>
    show (((h.table r).entries.mapM fun e : String × Value => do
        return (e.1, ← copyAt levels e.2)) h).bind _ =
      ((h.table r).values.mapM (copyAt levels) h).map _
    rw [mapM_entries]
    show (((h.table r).values.mapM (copyAt levels) h).bind _).bind _ = _
    cases (h.table r).values.mapM (copyAt levels) h <;> rfl
  | _ => rfl

/-- A copy is made of what has short paths only. -/
def CopiesShallow (levels : Nat) : Prop :=
  ∀ {v h}, h.Closed v → h.Shallow levels v →
    ∃ w h', copyAt levels v h = .ok (w, h') ∧ CopyOf h (h.follow v) h' (h'.follow w)

/-- The copies of several values. -/
theorem CopiesShallow.mapM (hcopy : CopiesShallow levels) (hclosed : ∀ v ∈ vs, h.Closed v)
    (hshallow : ∀ v ∈ vs, h.Shallow levels v) :
    ∃ ws h', vs.mapM (copyAt levels) h = .ok (ws, h') ∧ ws.length = vs.length ∧
      CopyOf h (h.followIn vs) h' (h'.followIn ws) := by
  induction vs generalizing h with
  | nil => exact ⟨[], h, rfl, rfl, .nil h⟩
  | cons v vs ih =>
    rw [List.forall_mem_cons] at hclosed hshallow
    obtain ⟨w, h₁, hw, hfirst⟩ := hcopy hclosed.1 hshallow.1
    obtain ⟨ws, h₂, hws, hlength, hrest⟩ :=
      ih (fun u hu => hfirst.grown.closed (hclosed.2 u hu)) fun u hu =>
        (hfirst.grown.shallow_iff (hclosed.2 u hu)).mpr (hshallow.2 u hu)
    refine ⟨w :: ws, h₂, ?_, congrArg (· + 1) hlength, hfirst.cons hrest hclosed.2⟩
    rw [mapM_cons_apply_of_ok vs hw, hws]
    rfl

theorem copiesShallow (levels : Nat) : CopiesShallow levels := by
  induction levels with
  | zero => exact fun _ hshallow => absurd hshallow not_shallow_zero
  | succ levels ih =>
    intro v h hclosed hshallow
    obtain ⟨ws, h₁, hws, hlength, hcopies⟩ :=
      ih.mapM (fun u hu => hclosed.element hu) (shallow_succ_iff.mp hshallow)
    refine ⟨_, _, ?_, hcopies.build hlength rfl⟩
    rw [copyAt_succ, hws]
    rfl

/-- The first value with a path that is too long ends the copying. -/
theorem mapM_copyAt_of_deep
    (hdeep : ∀ {v h}, h.Closed v → ¬ h.Shallow levels v →
      copyAt levels v h = .error .nestedTooDeep)
    (hclosed : ∀ v ∈ vs, h.Closed v) (hvs : ¬ ∀ v ∈ vs, h.Shallow levels v) :
    vs.mapM (copyAt levels) h = .error .nestedTooDeep := by
  induction vs generalizing h with
  | nil => exact absurd (List.forall_mem_nil _) hvs
  | cons v vs ih =>
    rw [List.forall_mem_cons] at hclosed hvs
    -- the first one is copied, and a later one is not, or the first one is not
    by_cases hv : h.Shallow levels v
    · obtain ⟨w, h₁, hw, hfirst⟩ := copiesShallow levels hclosed.1 hv
      have hrest : vs.mapM (copyAt levels) h₁ = .error .nestedTooDeep := by
        refine ih (fun u hu => hfirst.grown.closed (hclosed.2 u hu)) fun hall => hvs ⟨hv, ?_⟩
        exact fun u hu => (hfirst.grown.shallow_iff (hclosed.2 u hu)).mp (hall u hu)
      rw [mapM_cons_apply_of_ok vs hw, hrest]
      rfl
    · exact mapM_cons_apply_of_error vs (hdeep hclosed.1 hv)

/-- What has a path that is too long is not copied. -/
theorem copyAt_of_deep (hclosed : h.Closed v) (hv : ¬ h.Shallow levels v) :
    copyAt levels v h = .error .nestedTooDeep := by
  induction levels generalizing v h with
  | zero => rfl
  | succ levels ih =>
    have helements : (h.elements v).mapM (copyAt levels) h = .error .nestedTooDeep :=
      mapM_copyAt_of_deep ih (fun u hu => hclosed.element hu) fun hall =>
        hv (shallow_succ_iff.mpr hall)
    rw [copyAt_succ, helements]
    rfl

/-- What is copied has short paths only. -/
theorem copyOf_of_deepCopy (hclosed : h.Closed v) (hw : v.deepCopy h = .ok (w, h')) :
    h.Shallow (nestingLimit + 1) v ∧ CopyOf h (h.follow v) h' (h'.follow w) := by
  have hshallow : h.Shallow (nestingLimit + 1) v := by
    by_contra hv
    rw [deepCopy, copyAt_of_deep hclosed hv] at hw
    cases hw
  obtain ⟨w', h'', hw', hcopy⟩ := copiesShallow _ hclosed hshallow
  rw [deepCopy, hw'] at hw
  cases hw
  exact ⟨hshallow, hcopy⟩

/-- **A deep copy is faithful and shares nothing.**  The value is any value all of whose
containers have been created; they may be shared, nested and hold themselves.

It is copied if and only if no path leads through more than `nestingLimit` elements; else the
only outcome is the error, and nothing has changed.  When it is copied, all containers are
what they were.  The containers that the copy reaches have been created with it, and each
of them stands at the end of one path.  The copy has the same lengths, keys and scalars on the
same paths.  It is equal to the value, if there is no NaN in this.  However the containers
that there were before are changed later, the copy is written as it is now. -/
theorem deepCopy_faithful (s : State) (v : Value) (hclosed : s.session.heap.Closed v) :
    let h := s.session.heap
    let shallow := ∀ p w, h.follow v p = some w → p.length ≤ nestingLimit
    (shallow ↔ ∃ w h', v.deepCopy h = .ok (w, h')) ∧
      (¬ shallow → v.deepCopy h = .error .nestedTooDeep ∧
        Interp.onHeap v.deepCopy s = (.failed (.eval .nestedTooDeep), s)) ∧
      ∀ w h', v.deepCopy h = .ok (w, h') →
        (∀ c, h.Has c → h'.Has c ∧ h.SameAt h' c) ∧
        (∀ c, h'.Reaches w c → c.isContainer → ¬ h.Has c ∧ h'.Has c ∧
          ∃! p, h'.follow w p = some c) ∧
        (∀ p, (h'.follow w p).map h'.shape = (h.follow v p).map h.shape) ∧
        ((∀ x, h.Reaches v (.float x) → x.isNaN = false) → h'.equal v w = .ok true) ∧
        ∀ h'' : Heap, (∀ c, h'.Has c → ¬ h.Has c → h'.SameAt h'' c) →
          h''.write w = h'.write w := by
  intro h shallow
  have hshallow : shallow ↔ h.Shallow (nestingLimit + 1) v := shallow_iff_length_le.symm
  refine ⟨⟨fun hv => ?_, ?_⟩, fun hv => ?_, fun w h' hw => ?_⟩
  · obtain ⟨w, h', hw, -⟩ := copiesShallow _ hclosed (hshallow.mp hv)
    exact ⟨w, h', hw⟩
  · rintro ⟨w, h', hw⟩
    exact hshallow.mpr (copyOf_of_deepCopy hclosed hw).1
  · have herror : v.deepCopy s.session.heap = .error .nestedTooDeep :=
      copyAt_of_deep hclosed fun hv' => hv (hshallow.mpr hv')
    refine ⟨herror, ?_⟩
    rw [Interp.onHeap, herror]
  · obtain ⟨hv, hcopy⟩ := copyOf_of_deepCopy hclosed hw
    exact ⟨fun c hc => ⟨hcopy.grown.has c hc, hcopy.grown.same c hc⟩,
      fun c hc => hcopy.existsUnique_path hc, hcopy.shapes, hcopy.equal hclosed hv,
      fun h'' hkept => hcopy.write hkept⟩

/-- A list that holds another one twice is copied, and the copy holds two lists; a list that
holds itself is not copied. -/
theorem deepCopy_faithful_of_shared :
    let h : Heap := ⟨#[[.integer 1], [.list ⟨0⟩, .list ⟨0⟩], [.list ⟨2⟩]], #[]⟩
    h.Closed (list ⟨1⟩) ∧ h.Closed (list ⟨2⟩) ∧
    (∃ w h', (list ⟨1⟩).deepCopy h = .ok (w, h') ∧ h'.equal (list ⟨1⟩) w = .ok true ∧
      h'.follow w [0] ≠ h'.follow w [1]) ∧
    (list ⟨2⟩).deepCopy h = .error .nestedTooDeep := by
  intro h
  have hfloat (r : ListRef) (x : Float) : list r ≠ .float x := by
    intro hx
    cases hx
  -- everything there is has been created, and is no float
  have helements (v : Value) (hv : h.Has v ∧ ∀ x, v ≠ .float x) (w : Value)
      (hw : w ∈ h.elements v) : h.Has w ∧ ∀ x, w ≠ .float x := by
    obtain ⟨hhas, -⟩ := hv
    cases v with
    | list r =>
      obtain ⟨n⟩ := r
      have hn : n < 3 := hhas
      obtain rfl | rfl | rfl : n = 0 ∨ n = 1 ∨ n = 2 := by omega
      · cases List.mem_singleton.mp hw
        exact ⟨trivial, fun x hx => by cases hx⟩
      · obtain rfl : w = .list ⟨0⟩ := by simpa [elements, items, h] using hw
        exact ⟨Nat.succ_pos 2, hfloat _⟩
      · cases List.mem_singleton.mp hw
        exact ⟨Nat.lt_succ_self 2, hfloat _⟩
    | dict r => exact absurd hhas (Nat.not_lt_zero _)
    | _ => cases hw
  have hlist (n : Nat) (hn : n < 3) : h.Has (.list ⟨n⟩) ∧ ∀ x, list ⟨n⟩ ≠ .float x :=
    ⟨hn, hfloat _⟩
  have hclosed (n : Nat) (hn : n < 3) : h.Closed (.list ⟨n⟩) :=
    fun w hw => (hw.inherits helements (hlist n hn)).1
  let s : State := { (default : State) with session := { (default : Session) with heap := h } }
  obtain ⟨-, -, hcopied⟩ := deepCopy_faithful s (.list ⟨1⟩) (hclosed 1 (by decide))
  obtain ⟨-, hdeep, -⟩ := deepCopy_faithful s (.list ⟨2⟩) (hclosed 2 (by decide))
  refine ⟨hclosed 1 (by decide), hclosed 2 (by decide), ?_, (hdeep fun hshallow => ?_).1⟩
  · obtain ⟨w, h', r, hw, hr⟩ : ∃ w h' r, (list ⟨1⟩).deepCopy h = .ok (w, h') ∧
        h'.follow w [0] = some (.list r) := ⟨_, _, _, rfl, rfl⟩
    obtain ⟨-, hpaths, -, hequal, -⟩ := hcopied w h' hw
    obtain ⟨-, -, p, -, hunique⟩ := hpaths (.list r) ⟨[0], hr⟩ rfl
    -- one list on two paths would not be a copy
    refine ⟨w, h', hw, hequal fun x hx => ?_, fun hsame => ?_⟩
    · exact absurd rfl ((hx.inherits helements (hlist 1 (by decide))).2 x)
    · cases (hunique [0] hr).trans (hunique [1] (hsame.symm.trans hr)).symm
  · have hlong := hshallow (List.replicate 101 0) (.list ⟨2⟩) rfl
    exact absurd hlong (by decide)

end Value

end ModalScript
