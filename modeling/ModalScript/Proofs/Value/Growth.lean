/-
What is created leaves alone what there was.

Copies, joined lists, lists of keys and values, the parts of a text and decoded values are all
new containers: the heap has grown, and the containers of before are the same.  A computation
on the heap `Grows` if this is all that it does, and it is closed under everything that these
computations are made of.  The one thing that a script can do to the heap in a built-in
function and that is not of this kind is to add an element to a list (`Builtin.addTo`).
-/
import ModalScript.Proofs.Value.DeepCopy
import ModalScript.Script.Builtin

namespace ModalScript

namespace Allocating

variable {α β : Type} {m : Allocating α}

/-- The computation adds containers to the heap, if any, and changes none. -/
def Grows (m : Allocating α) : Prop :=
  ∀ h a h', m h = .ok (a, h') → h.Grown h'

theorem grows_pure (a : α) : (pure a : Allocating α).Grows := by
  rintro h _ _ ⟨⟩
  exact .refl h

/-- A computation that fails leaves no heap behind. -/
theorem grows_throw (e : EvalError) : (throw e : Allocating α).Grows := by
  rintro h a h' ⟨⟩

theorem grows_get : (get : Allocating Heap).Grows := by
  rintro h _ _ ⟨⟩
  exact .refl h

theorem grows_lift (r : Except EvalError α) : (liftM r : Allocating α).Grows := by
  rintro h a h' hrun
  cases r with
  | error e => cases hrun
  | ok a =>
    cases hrun
    exact .refl h

/-- A new list stands behind all that there are. -/
theorem grows_newList (vs : List Value) : (newList vs).Grows := by
  rintro h _ _ ⟨⟩
  exact h.grown_newList vs

theorem grows_newDict (d : Dict Value) : (newDict d).Grows := by
  rintro h _ _ ⟨⟩
  exact h.grown_newDict d

/-- What is created first is still there when more is created. -/
theorem Grows.bind {f : α → Allocating β} (hm : m.Grows) (hf : ∀ a, (f a).Grows) :
    (m >>= f).Grows := by
  intro h b h₂ hrun
  -- a computation after another one is the composition of the two, as functions of the heap
  have hbind : (m >>= f) h = m h >>= fun p => f p.1 p.2 := rfl
  rw [hbind] at hrun
  cases hr : m h with
  | error e =>
    rw [hr] at hrun
    cases hrun
  | ok p =>
    rw [hr] at hrun
    exact (hm h p.1 p.2 hr).trans (hf p.1 p.2 b h₂ hrun)

/-- Containers may be created for one element after the other. -/
theorem Grows.mapM {as : List α} {f : α → Allocating β} (hf : ∀ a ∈ as, (f a).Grows) :
    (as.mapM f).Grows := by
  induction as with
  | nil => exact grows_pure []
  | cons a as ih =>
    rw [List.forall_mem_cons] at hf
    rw [List.mapM_cons]
    exact hf.1.bind fun b => (ih hf.2).bind fun bs => grows_pure _

end Allocating

open Allocating

namespace Value

/-! ### Copies -/

/-- A shallow copy is one new container. -/
theorem grows_shallowCopy (v : Value) : v.shallowCopy.Grows := by
  cases v with
  | list r => exact grows_get.bind fun h => grows_newList _
  | dict r => exact grows_get.bind fun h => grows_newDict _
  | _ => exact grows_pure _

/-- A copy is made of new containers, on all its levels. -/
theorem grows_copyAt (levels : Nat) (v : Value) : (v.copyAt levels).Grows := by
  induction levels generalizing v with
  | zero => exact grows_throw _
  | succ levels ih =>
    cases v with
    | list r =>
      -- first the copies of the elements, then the container for them
      exact grows_get.bind fun h => (Grows.mapM fun w _ => ih w).bind fun ws => grows_newList _
    | dict r =>
      exact grows_get.bind fun h =>
        (Grows.mapM fun e _ => (ih e.2).bind fun w => grows_pure _).bind fun es => grows_newDict _
    | _ => exact grows_pure _

theorem grows_deepCopy (v : Value) : v.deepCopy.Grows :=
  grows_copyAt _ v

/-! ### Operators -/

/-- Two lists are joined by making a third one. -/
theorem grows_arithmetic (op : Arithmetic) (v w : Value) : (arithmetic op v w).Grows := by
  unfold arithmetic
  -- two lists are joined, and everything else is a number
  split
  · split
    · exact grows_get.bind fun h => grows_newList _
    · exact grows_throw _
  · split
    · exact grows_throw _
    · split
      · exact grows_throw _
      · split
        · exact (grows_lift _).bind fun x => (grows_lift _).bind fun y =>
            (grows_lift _).bind fun z => grows_pure _
        · exact (grows_lift _).bind fun m => (grows_lift _).bind fun n =>
            (grows_lift _).bind fun k => grows_pure _

/-- Only arithmetic creates anything: the other operators compute a value. -/
theorem grows_binary (op : BinaryOp) (v w : Value) : (binary op v w).Grows := by
  cases op with
  | arithmetic op => exact grows_arithmetic op v w
  | concat => exact (grows_lift _).bind fun s => (grows_lift _).bind fun t => grows_pure _
  | eq | ne => exact grows_get.bind fun h => (grows_lift _).bind fun b => grows_pure _
  | lt | le | gt | ge => exact (grows_lift _).bind fun o => grows_pure _
  | and =>
    -- the second operand counts only if the first one does not decide
    refine (grows_lift _).bind fun b => ?_
    split
    · exact (grows_lift _).bind fun c => grows_pure _
    · exact grows_pure _
  | or =>
    refine (grows_lift _).bind fun b => ?_
    split
    · exact grows_pure _
    · exact (grows_lift _).bind fun c => grows_pure _
  | is | isNot => exact grows_pure _

/-! ### Decoding -/

mutual

/-- A JSON value is decoded into containers of its own. -/
theorem grows_ofJson : ∀ j : Json, (ofJson j).Grows
  | .null | .bool _ | .integer _ | .float _ | .string _ => by
    rw [ofJson]
    exact grows_pure _
  | .array js => by
    rw [ofJson]
    exact (grows_ofJsons js).bind fun vs => grows_newList vs
  | .object ms => by
    rw [ofJson]
    exact (grows_ofMembers ms).bind fun es => grows_newDict _

/-- The values of an array are decoded in their order. -/
theorem grows_ofJsons : ∀ js : List Json, (ofJsons js).Grows
  | [] => by
    rw [ofJsons]
    exact grows_pure _
  | j :: js => by
    rw [ofJsons]
    exact (grows_ofJson j).bind fun v => (grows_ofJsons js).bind fun vs => grows_pure _

/-- The values of an object are decoded in the order of its members. -/
theorem grows_ofMembers : ∀ ms : List (String × Json), (ofMembers ms).Grows
  | [] => by
    rw [ofMembers]
    exact grows_pure _
  | (k, j) :: ms => by
    rw [ofMembers]
    exact (grows_ofJson j).bind fun v => (grows_ofMembers ms).bind fun es => grows_pure _

end

/-- Whatever the text is, and however it is read, decoding it touches nothing. -/
theorem grows_decode [Json.Codec] (s : String) : (decode s).Grows := by
  unfold decode
  split
  · exact grows_ofJson _
  · exact grows_throw _

end Value

/-! ### Built-in functions -/

namespace Builtin

theorem grows_keyList (dict : Value) : (keyList dict).Grows :=
  (grows_lift _).bind fun _ h => grows_newList _ h

theorem grows_valueList (dict : Value) : (valueList dict).Grows :=
  (grows_lift _).bind fun _ h => grows_newList _ h

/-- The parts of a text are put into a new list, whether a separator is given or not. -/
theorem grows_splitText (text : Value) (separator? : Option Value) :
    (splitText text separator?).Grows := by
  refine (grows_lift _).bind fun s => ?_
  cases separator? with
  | none => exact (grows_pure none).bind fun _ => grows_newList _
  | some v =>
    exact (grows_lift _).bind fun t => (grows_pure _).bind fun _ => grows_newList _

end Builtin

end ModalScript
