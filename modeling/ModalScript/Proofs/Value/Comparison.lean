/-
Comparisons of integers and strings.

Whether two values are equal and in which order they stand are computed apart.  Two strings are
compared as texts by both computations, and the other pairs as the numbers that they stand for;
either way it is one linear order that the two look at, and so they agree (`InOrder`).  Each of the
six comparisons says something about where the operands stand in it.

The linear order depends on the operands, and so there is no order of three: the string "10" is less
than "9", which equals the integer 9, which is less than "10".

Main result: `Value.compared_of_plain`.
-/
import Mathlib.Data.String.Basic
import ModalScript.Value.Operator

namespace ModalScript

/-! ### Linear orders -/

section Compare

variable {α : Type} [LE α] [LT α] [DecidableLT α] [DecidableEq α] [Std.IsLinearOrder α]
  [Std.LawfulOrderLT α] (x y : α)

/-- In a linear order to be equal is to be neither less nor greater. -/
theorem beq_eq_compareOfLessAndEq [DecidableLE α] : (x == y) = (compareOfLessAndEq x y == .eq) := by
  apply Bool.eq_iff_iff.mpr
  rw [beq_iff_eq, beq_iff_eq]
  exact (compareOfLessAndEq_eq_eq (fun x => Std.le_refl x) Std.not_le).symm

theorem compareOfLessAndEq_swap : compareOfLessAndEq y x = (compareOfLessAndEq x y).swap :=
  compareOfLessAndEq_eq_swap Std.le_antisymm (fun _ _ => Std.le_total) Std.not_le

end Compare

namespace Value

variable {a b : Value} {o : Ordering}

/-- Whether a value is an integer or a string. -/
def isPlain : Value → Bool
  | .integer _ | .string _ => true
  | _ => false

/-! ### Where two values stand -/

/-- Two values stand in an order, and they are equal if it says so. -/
structure InOrder (a b : Value) (o : Ordering) : Prop where
  order : a.order b = .ok o
  equal : ∀ h, looselyEqual h a b = .ok (o == .eq)

/-- An order that comes from a linear one is the other way round for the swapped operands. -/
theorem exists_inOrder_of_compare {α : Type} [LE α] [LT α] [DecidableLE α] [DecidableLT α]
    [DecidableEq α] [Std.IsLinearOrder α] [Std.LawfulOrderLT α] {x y : α}
    (horder : a.order b = .ok (compareOfLessAndEq x y))
    (hequal : ∀ h, looselyEqual h a b = .ok (x == y))
    (horder' : b.order a = .ok (compareOfLessAndEq y x))
    (hequal' : ∀ h, looselyEqual h b a = .ok (y == x)) :
    ∃ o, InOrder a b o ∧ InOrder b a o.swap := by
  refine ⟨compareOfLessAndEq x y, ⟨horder, fun h => ?_⟩, ?_⟩
  · rw [hequal, beq_eq_compareOfLessAndEq]
  · rw [← compareOfLessAndEq_swap]
    refine ⟨horder', fun h => ?_⟩
    rw [hequal', beq_eq_compareOfLessAndEq]

/-- Any two plain values stand in an order, and the other way round in the swapped one. -/
theorem exists_inOrder (ha : a.isPlain) (hb : b.isPlain) :
    ∃ o, InOrder a b o ∧ InOrder b a o.swap := by
  -- an integer on either side makes both operands numbers, and only two strings are texts
  cases a with
  | integer m =>
    cases b with
    | integer n =>
      exact exists_inOrder_of_compare (x := m) (y := n) rfl (fun _ => rfl) rfl fun _ => rfl
    | string t =>
      exact exists_inOrder_of_compare (x := m) (y := Decimal.leading t.toList) rfl (fun _ => rfl)
        rfl fun _ => rfl
    | _ => cases hb
  | string s =>
    cases b with
    | integer n =>
      exact exists_inOrder_of_compare (x := Decimal.leading s.toList) (y := n) rfl (fun _ => rfl)
        rfl fun _ => rfl
    | string t =>
      exact exists_inOrder_of_compare (x := s) (y := t) rfl (fun _ => rfl) rfl fun _ => rfl
    | _ => cases hb
  -- no other value is plain
  | _ => cases ha

/-! ### What the comparisons answer -/

/-- An operator succeeds with a truth value and leaves the heap as it is. -/
def Answers (op : BinaryOp) (a b : Value) (t : Bool) : Prop :=
  ∀ h, binary op a b h = .ok (.bool t, h)

/-- All comparisons of two values, from whether one of them is less, equal and greater. -/
structure Compared (a b : Value) (less equal greater : Bool) : Prop where
  lt : Answers .lt a b less
  eq : Answers .eq a b equal
  gt : Answers .gt a b greater
  le : Answers .le a b (less || equal)
  ge : Answers .ge a b (greater || equal)
  ne : Answers .ne a b (!equal)

/-- Four comparisons look at the order alone. -/
theorem answers_of_order {op : BinaryOp} {f : Ordering → Bool}
    (hop : binary op a b = do return .bool (f (← a.order b))) (horder : a.order b = .ok o) :
    Answers op a b (f o) := by
  intro h
  rw [hop, horder]
  rfl

/-- The other two ask whether the operands are equal. -/
theorem answers_of_equal {op : BinaryOp} {f : Bool → Bool} {t : Bool}
    (hop : binary op a b = do return .bool (f (← looselyEqual (← get) a b)))
    (hequal : ∀ h, looselyEqual h a b = .ok t) : Answers op a b (f t) := by
  intro h
  have hstep : binary op a b h =
      (do return .bool (f (← looselyEqual h a b)) : Allocating Value) h := by
    rw [hop]
    rfl
  rw [hstep, hequal]
  rfl

/-- All six comparisons say where the operands stand. -/
theorem InOrder.compared (h : InOrder a b o) : Compared a b (o == .lt) (o == .eq) (o == .gt) where
  lt := answers_of_order (f := (· == .lt)) rfl h.order
  eq := answers_of_equal (f := id) rfl h.equal
  gt := answers_of_order (f := (· == .gt)) rfl h.order
  le := by
    -- less or equal is not greater
    have hle : (o == .lt || o == .eq) = (o != .gt) := by cases o <;> rfl
    rw [hle]
    exact answers_of_order (f := (· != .gt)) rfl h.order
  ge := by
    have hge : (o == .gt || o == .eq) = (o != .lt) := by cases o <;> rfl
    rw [hge]
    exact answers_of_order (f := (· != .lt)) rfl h.order
  ne := answers_of_equal (f := (!·)) rfl h.equal

/-- The answers tell which of the three cases it is. -/
theorem Compared.eq_of_answers {less equal greater t u : Bool}
    (h : Compared a b less equal greater) (hlt : binary .lt a b Heap.empty = .ok (.bool t, .empty))
    (hgt : binary .gt a b Heap.empty = .ok (.bool u, .empty)) : less = t ∧ greater = u := by
  have hbool : ∀ t u, Value.bool t = .bool u → t = u := by decide
  rw [h.lt] at hlt
  rw [h.gt] at hgt
  exact ⟨hbool _ _ (congrArg Prod.fst (Except.ok.inj hlt)),
    hbool _ _ (congrArg Prod.fst (Except.ok.inj hgt))⟩

/-- **Comparisons are coherent.**  Of two operands that are integers or strings, in any
combination, one is either less than the other, or equal to it, or greater, and the six
comparisons succeed and say so; with the operands swapped, less is greater and greater is less. -/
theorem compared_of_plain (ha : a.isPlain) (hb : b.isPlain) :
    ∃ less equal greater : Bool, [less, equal, greater].count true = 1 ∧
      Compared a b less equal greater ∧ Compared b a greater equal less := by
  obtain ⟨o, hab, hba⟩ := exists_inOrder ha hb
  have hlt : (o.swap == .lt) = (o == .gt) := by cases o <;> rfl
  have heq : (o.swap == .eq) = (o == .eq) := by cases o <;> rfl
  have hgt : (o.swap == .gt) = (o == .lt) := by cases o <;> rfl
  have hswapped := hba.compared
  -- the swapped operands are compared by the swapped order
  rw [hlt, heq, hgt] at hswapped
  refine ⟨o == .lt, o == .eq, o == .gt, ?_, hab.compared, hswapped⟩
  cases o <;> rfl

/-- A string that begins with a numeral is greater than an integer, and less than a string that
stands for this integer. -/
theorem compared_of_plain_of_text :
    (string "10x").isPlain ∧ (integer 9).isPlain ∧ (string "9").isPlain ∧
      Compared (string "10x") (integer 9) false false true ∧
      Compared (integer 9) (string "10x") true false false ∧
      Compared (string "10x") (string "9") true false false := by
  -- two of the three truth values determine the third
  have hcase : ∀ less equal greater t u : Bool, [less, equal, greater].count true = 1 →
      less = t ∧ greater = u → less = t ∧ equal = !(t || u) ∧ greater = u := by decide
  obtain ⟨less, equal, greater, hone, h, hswapped⟩ :=
    compared_of_plain (a := string "10x") (b := integer 9) rfl rfl
  obtain ⟨less', equal', greater', hone', h', -⟩ :=
    compared_of_plain (a := string "10x") (b := string "9") rfl rfl
  obtain ⟨rfl, rfl, rfl⟩ := hcase _ _ _ false true hone (h.eq_of_answers rfl rfl)
  obtain ⟨rfl, rfl, rfl⟩ := hcase _ _ _ true false hone' (h'.eq_of_answers rfl rfl)
  exact ⟨rfl, rfl, rfl, h, hswapped, h'⟩

end Value

end ModalScript
