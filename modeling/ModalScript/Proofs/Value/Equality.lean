/-
Equality of values.

Two values are equal if they are the same, or if they are containers of one shape whose
elements are equal on the level below (`Heap.equalAt_succ_iff`).  That two containers are the
same may decide a comparison before the levels run out.  Still, whatever is found equal has
the same shapes on all paths (`Heap.sameShapes_of_equalAt`), so that it is written alike; and
values with the same shapes are equal if their paths are short (`Heap.equal_of_shapes`).

Floats are compared like numbers: the two zeros are equal, and a NaN differs from itself.  This
is symmetric and transitive, and so is the equality of values.  Nothing smaller than the whole
library has the facts about the comparison of floats (`PartialEquivBEq Float`).

Main result: `Heap.equal_equivalence`.
-/
import Mathlib
import ModalScript.Proofs.Lists
import ModalScript.Proofs.Value.Path
import ModalScript.Value.Equality

namespace ModalScript

/-! ### Tests on all pairs -/

section AllPairs

variable {α ε : Type} {test test' : α → α → Except ε Bool} {xs ys : List α}

theorem allPairs_comm (htest : ∀ x y, test x y = test' y x) (xs ys : List α) :
    allPairs test xs ys = allPairs test' ys xs := by
  induction xs generalizing ys with
  | nil => cases ys <;> rfl
  | cons x xs ih =>
    cases ys with
    | nil => rfl
    | cons y ys => rw [allPairs, allPairs, htest, ih]

theorem allPairs_eq_ok_true_iff (hlength : xs.length = ys.length) :
    allPairs test xs ys = .ok true ↔ List.Forall₂ (fun x y => test x y = .ok true) xs ys := by
  induction xs generalizing ys with
  | nil =>
    obtain rfl := List.length_eq_zero_iff.mp hlength.symm
    exact iff_of_true rfl .nil
  | cons x xs ih =>
    cases ys with
    | nil => cases hlength
    | cons y ys =>
      rw [List.forall₂_cons, ← ih (Nat.succ.inj hlength), allPairs]
      cases test x y with
      | error e => simp
      | ok b => cases b <;> simp

/-- An error is the error of a test. -/
theorem exists_of_allPairs_eq_error {e : ε} (h : allPairs test xs ys = .error e) :
    ∃ x y, test x y = .error e := by
  induction xs generalizing ys with
  | nil => cases h
  | cons x xs ih =>
    cases ys with
    | nil => cases h
    | cons y ys =>
      rw [allPairs] at h
      split at h
      · exact ih h
      · exact ⟨x, y, h⟩

end AllPairs

/-! ### Relations of elements at equal places -/

/-- Entries are equal if their keys are the same and their values are equal. -/
theorem forall₂_entries_iff {α β : Type} {R : α → β → Prop} {es : List (String × α)}
    {es' : List (String × β)} :
    List.Forall₂ (fun e e' => e.1 = e'.1 ∧ R e.2 e'.2) es es' ↔
      es'.map (·.1) = es.map (·.1) ∧ List.Forall₂ R (es.map (·.2)) (es'.map (·.2)) := by
  induction es generalizing es' with
  | nil => cases es' <;> simp
  | cons e es ih =>
    cases es' with
    | nil => simp
    | cons e' es' =>
      rw [List.forall₂_cons, ih]
      simp only [List.map_cons, List.forall₂_cons, List.cons.injEq, @eq_comm _ e.1]
      exact and_and_and_comm

/-! ### Values that are the same -/

namespace Value

variable {u v w : Value}

/-- Values other than floats are the same as themselves only. -/
theorem same_iff :
    v.same w ↔ (v = w ∧ ∀ x, v ≠ .float x) ∨ ∃ x y, v = .float x ∧ w = .float y ∧ x == y := by
  cases v <;> cases w <;> simp [same]

theorem eq_of_same (hsame : v.same w) (hv : ∀ x, v ≠ .float x) : v = w := by
  obtain ⟨heq, -⟩ | ⟨x, y, hx, -⟩ := same_iff.mp hsame
  · exact heq
  · exact absurd hx (hv x)

theorem eq_of_same_of_container (hsame : v.same w) (hv : v.isContainer) : v = w := by
  refine eq_of_same hsame fun x hx => ?_
  rw [hx] at hv
  cases hv

theorem same_comm (v w : Value) : v.same w = w.same v := by
  cases v <;> cases w <;> first | rfl | exact BEq.comm

theorem same_trans (huv : u.same v) (hvw : v.same w) : u.same w := by
  rw [same_iff] at huv hvw ⊢
  obtain ⟨rfl, -⟩ | ⟨x, y, rfl, rfl, hxy⟩ := huv
  · exact hvw
  · obtain ⟨-, hfloat⟩ | ⟨y', z, hy', rfl, hyz⟩ := hvw
    · exact absurd rfl (hfloat y)
    · cases hy'
      exact .inr ⟨x, z, rfl, rfl, PartialEquivBEq.trans hxy hyz⟩

/-- Only a NaN is not the same as itself. -/
theorem same_self (hnan : ∀ x, v = .float x → x.isNaN = false) : v.same v := by
  cases v with
  | float x =>
    have hx := hnan x rfl
    rw [Float.isNaN_eq_decide_eq_nan, decide_eq_false_iff_not] at hx
    exact Float.beq_self_iff.mpr hx
  | _ => exact beq_self_eq_true _

end Value

namespace Heap

variable {h : Heap} {u v w : Value} {n : Nat}

/-! ### Comparing on one level -/

/-- Values are equal if they are the same, or containers of the same shape with equal
elements. -/
theorem equalAt_succ_iff :
    h.equalAt (n + 1) v w = .ok true ↔
      v.same w ∨ v.isContainer ∧ h.shape w = h.shape v ∧
        List.Forall₂ (fun x y => h.equalAt n x y = .ok true) (h.elements v) (h.elements w) := by
  cases v with
  | list r =>
    cases w with
    | list r' =>
      rw [equalAt]
      split
      · next heq => exact iff_of_true rfl (.inl (beq_iff_eq.mpr heq))
      · next hne =>
        rw [Value.same, beq_iff_eq, or_iff_right hne]
        split
        · next hlength => simp [Value.isContainer, shape, Ne.symm hlength]
        · next hlength =>
          have hlength := of_not_not hlength
          rw [allPairs_eq_ok_true_iff hlength]
          simp [Value.isContainer, shape, elements, hlength]
    | _ => simp [equalAt, Value.same, shape]
  | dict r =>
    cases w with
    | dict r' =>
      rw [equalAt]
      split
      · next heq => exact iff_of_true rfl (.inl (beq_iff_eq.mpr heq))
      · next hne =>
        rw [Value.same, beq_iff_eq, or_iff_right hne]
        split
        · next hsize =>
          have hkeys : (h.table r').keys ≠ (h.table r).keys := by
            intro hkeys
            have hlength := congrArg List.length hkeys
            rw [Dict.keys, Dict.keys, List.length_map, List.length_map] at hlength
            exact hsize hlength.symm
          simp [shape, hkeys]
        · next hsize =>
          have htest (e e' : String × Value) :
              ((if e.1 ≠ e'.1 then .ok false else h.equalAt n e.2 e'.2) = .ok true) ↔
                e.1 = e'.1 ∧ h.equalAt n e.2 e'.2 = .ok true := by
            by_cases hkey : e.1 = e'.1 <;> simp [hkey]
          rw [allPairs_eq_ok_true_iff (of_not_not hsize)]
          simp only [htest]
          rw [forall₂_entries_iff (R := fun x y => h.equalAt n x y = .ok true)]
          simp [Value.isContainer, shape, elements, Dict.keys, Dict.values]
    | _ => simp [equalAt, Value.same, shape]
  | _ => cases w <;> simp [equalAt, Value.same, Value.isContainer]

/-! ### Equality is an equivalence -/

/-- Both orders of the operands have the same outcome, be it an answer or an error. -/
theorem equalAt_comm (h : Heap) (n : Nat) (v w : Value) : h.equalAt n v w = h.equalAt n w v := by
  induction n generalizing v w with
  | zero => rfl
  | succ n ih =>
    cases v with
    | list r =>
      cases w with
      | list r' =>
        by_cases hr : r = r'
        · rw [hr]
        · rw [equalAt, equalAt, if_neg hr, if_neg (Ne.symm hr)]
          by_cases hlength : (h.items r).length = (h.items r').length
          · rw [if_neg (not_not_intro hlength), if_neg (not_not_intro hlength.symm)]
            exact allPairs_comm ih _ _
          · rw [if_pos hlength, if_pos (Ne.symm hlength)]
      | _ => rfl
    | dict r =>
      cases w with
      | dict r' =>
        by_cases hr : r = r'
        · rw [hr]
        · rw [equalAt, equalAt, if_neg hr, if_neg (Ne.symm hr)]
          by_cases hsize : (h.table r).size = (h.table r').size
          · rw [if_neg (not_not_intro hsize), if_neg (not_not_intro hsize.symm)]
            refine allPairs_comm (fun e e' => ?_) _ _
            by_cases hkey : e.1 = e'.1
            · rw [if_neg (not_not_intro hkey), if_neg (not_not_intro hkey.symm), ih]
            · rw [if_pos hkey, if_pos (Ne.symm hkey)]
          · rw [if_pos hsize, if_pos (Ne.symm hsize)]
      | _ => rfl
    | _ =>
      cases w with
      | list r' | dict r' => rfl
      | _ => first | rfl | exact congrArg Except.ok BEq.comm

/-- The only error is that the values are nested too deep. -/
theorem eq_nestedTooDeep_of_equalAt {e : EvalError} (herror : h.equalAt n v w = .error e) :
    e = .nestedTooDeep := by
  induction n generalizing v w with
  | zero =>
    cases herror
    rfl
  | succ n ih =>
    cases v with
    | list r =>
      cases w with
      | list r' =>
        rw [equalAt] at herror
        split at herror
        · cases herror
        · split at herror
          · cases herror
          · obtain ⟨x, y, hxy⟩ := exists_of_allPairs_eq_error herror
            exact ih hxy
      | _ => cases herror
    | dict r =>
      cases w with
      | dict r' =>
        rw [equalAt] at herror
        split at herror
        · cases herror
        · split at herror
          · cases herror
          · obtain ⟨x, y, hxy⟩ := exists_of_allPairs_eq_error herror
            split at hxy
            · cases hxy
            · exact ih hxy
      | _ => cases herror
    | _ => cases w <;> cases herror

theorem equalAt_trans (huv : h.equalAt n u v = .ok true) (hvw : h.equalAt n v w = .ok true) :
    h.equalAt n u w = .ok true := by
  induction n generalizing u v w with
  | zero => cases huv
  | succ n ih =>
    rw [equalAt_succ_iff] at huv hvw ⊢
    obtain huv | ⟨hu, hshape, helements⟩ := huv
    · obtain hvw | ⟨hv, hvw⟩ := hvw
      · exact .inl (Value.same_trans huv hvw)
      · -- the first two are one container
        rw [Value.same_comm] at huv
        obtain rfl := Value.eq_of_same_of_container huv hv
        exact .inr ⟨hv, hvw⟩
    · obtain hvw | ⟨-, hshape', helements'⟩ := hvw
      · -- the last two are one container
        obtain rfl := Value.eq_of_same_of_container hvw ((isContainer_of_shape hshape).trans hu)
        exact .inr ⟨hu, hshape, helements⟩
      · exact .inr ⟨hu, hshape'.trans hshape, forall₂_trans ih helements helements'⟩

/-! ### Equality and the shapes -/

/-- What is equal has the same shapes, also where the comparison did not look because two
containers were the same. -/
theorem sameShapes_of_equalAt (hequal : h.equalAt n v w = .ok true)
    (hfloat : ∀ x, ¬ h.Reaches v (.float x)) : h.SameShapes v h w := by
  induction n generalizing v w with
  | zero => cases hequal
  | succ n ih =>
    rw [equalAt_succ_iff] at hequal
    obtain hsame | ⟨-, hshape, helements⟩ := hequal
    · have heq : v = w := Value.eq_of_same hsame fun x hx => hfloat x (hx ▸ .refl h v)
      rw [heq]
      exact fun p => rfl
    · have hmem := forall₂_mem helements
      refine sameShapes_iff.mpr ⟨hshape, hmem.imp fun x y hxy => ?_⟩
      exact ih hxy.2 fun z hz => hfloat z (hz.of_element hxy.1)

theorem equalAt_of_shapes (hshapes : h.SameShapes v h w) (hshallow : h.Shallow n v)
    (hnan : ∀ x, h.Reaches v (.float x) → x.isNaN = false) : h.equalAt n v w = .ok true := by
  induction n generalizing v w with
  | zero => exact absurd hshallow not_shallow_zero
  | succ n ih =>
    obtain ⟨hshape, helements⟩ := sameShapes_iff.mp hshapes
    rw [equalAt_succ_iff]
    cases hv : v.isContainer with
    | false =>
      rw [eq_of_shape hv hshape]
      exact .inl (Value.same_self fun x hx => hnan x (hx ▸ .refl h v))
    | true =>
      have hmem := forall₂_mem helements
      refine .inr ⟨rfl, hshape, hmem.imp fun x y hxy => ?_⟩
      exact ih hxy.2 (shallow_succ_iff.mp hshallow x hxy.1)
        fun z hz => hnan z (hz.of_element hxy.1)

/-- Values with the same shapes are equal, unless there is a NaN in them or they are nested
too deep. -/
theorem equal_of_shapes (hshapes : h.SameShapes v h w) (hshallow : h.Shallow (nestingLimit + 1) v)
    (hnan : ∀ x, h.Reaches v (.float x) → x.isNaN = false) : h.equal v w = .ok true :=
  equalAt_of_shapes hshapes hshallow hnan

/-- **Equality is an equivalence that the written form respects.**  The containers of the heap
may be shared and may hold themselves.

A comparison answers, or the values are nested too deep; and it comes to the same in either
order.  A container equals itself.  Values that equal one value equal each other: the levels
never run out in the comparison of the two.  Equal values without floats are written alike,
down to the containers that are left out. -/
theorem equal_equivalence (h : Heap) :
    (∀ v w, h.equal v w = h.equal w v ∧
      (h.equal v w = .ok true ∨ h.equal v w = .ok false ∨
        h.equal v w = .error .nestedTooDeep)) ∧
    (∀ v, v.isContainer → h.equal v v = .ok true) ∧
    (∀ u v w, h.equal u v = .ok true → h.equal v w = .ok true → h.equal u w = .ok true) ∧
    ∀ v w, h.equal v w = .ok true → (∀ x, ¬ h.Reaches v (.float x)) →
      h.write v = h.write w := by
  refine ⟨fun v w => ⟨equalAt_comm h _ v w, ?_⟩, fun v hv => ?_, fun u v w => equalAt_trans,
    fun v w hequal hfloat => (sameShapes_of_equalAt hequal hfloat).write.symm⟩
  · cases houtcome : h.equal v w with
    | ok b => cases b <;> simp
    | error e =>
      rw [eq_nestedTooDeep_of_equalAt houtcome]
      exact .inr (.inr rfl)
  · refine equalAt_succ_iff.mpr (.inl (Value.same_self fun x hx => ?_))
    rw [hx] at hv
    cases hv

/-- A list that holds a dictionary that holds the list, and two copies that come to the list
after one and two rounds: all are equal and written alike, while a cycle of its own is not told
from them. -/
theorem equal_equivalence_of_cyclic :
    let entry (n : Nat) : Dict Value := Dict.ofList [("k", .list ⟨n⟩)]
    let h : Heap := ⟨#[[.string "a", .dict ⟨0⟩], [.string "a", .dict ⟨0⟩],
      [.string "a", .dict ⟨1⟩], [.string "a", .dict ⟨2⟩]], #[entry 0, entry 1, entry 3]⟩
    (∀ x, ¬ h.Reaches (.list ⟨2⟩) (.float x)) ∧
      h.equal (.list ⟨2⟩) (.list ⟨1⟩) = .ok true ∧ h.equal (.list ⟨1⟩) (.list ⟨0⟩) = .ok true ∧
      h.equal (.list ⟨0⟩) (.list ⟨0⟩) = .ok true ∧
      h.equal (.list ⟨2⟩) (.list ⟨0⟩) = .ok true ∧ h.write (.list ⟨2⟩) = h.write (.list ⟨0⟩) ∧
      h.equal (.list ⟨0⟩) (.list ⟨3⟩) = .error .nestedTooDeep ∧
      h.equal (.list ⟨3⟩) (.list ⟨0⟩) = .error .nestedTooDeep := by
  intro entry h
  obtain ⟨hcomm, hself, htrans, hwrite⟩ := equal_equivalence h
  have hfloat (x : Float) (hx : h.Reaches (.list ⟨2⟩) (.float x)) : False :=
    hx.of_contents (P := fun v => v.kind ≠ .float) (by decide) (by decide) (by decide) rfl
  have hsecond : h.equal (.list ⟨2⟩) (.list ⟨1⟩) = .ok true := by rfl
  have hfirst : h.equal (.list ⟨1⟩) (.list ⟨0⟩) = .ok true := by rfl
  have hdeep : h.equal (.list ⟨0⟩) (.list ⟨3⟩) = .error .nestedTooDeep := by decide +kernel
  have hequal := htrans _ _ _ hsecond hfirst
  exact ⟨hfloat, hsecond, hfirst, hself _ rfl, hequal, hwrite _ _ hequal hfloat, hdeep,
    (hcomm _ _).1.symm.trans hdeep⟩

end Heap

end ModalScript
