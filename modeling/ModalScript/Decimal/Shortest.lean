/-
The shortest decimal that reads back as a given double.

A finite double is m · 2^e.  The reals that round to it form a `Window` around it,
whose ends count exactly when m is even.  `shortest` looks for a decimal in the
window on coarser grids first: for 1, 2, …, 17 significant digits it tries the two
multiples of the grid's unit next to the value, and the first grid with a hit wins.
If both neighbours hit, the nearer one is taken, and `Tie` says which one it is when
they are equally near.

Everything is computed on natural numbers, so nothing is rounded on the way.
-/

namespace ModalScript.Decimal

/-- A double taken apart. -/
inductive Parts where
  | nan
  | infinite (negative : Bool)
  /-- The number ± `mantissa` · 2 ^ `exponent`. -/
  | finite (negative : Bool) (mantissa : Nat) (exponent : Int)
  deriving DecidableEq

/-- The sign bit, the exponent field and the fraction field of a double, read as a number. -/
def parts (x : Float) : Parts :=
  let bits := x.toBits.toNat
  let negative := bits / 0x8000000000000000 == 1
  let field : Nat := bits / 0x10000000000000 % 0x800
  let fraction := bits % 0x10000000000000
  if field = 2047 then
    if fraction = 0 then .infinite negative else .nan
  else if field = 0 then .finite negative fraction (-1074)
  else .finite negative (0x10000000000000 + fraction) ((field : Int) - 1075)

/-! ### The window of a value -/

/-- A value with the ends of the interval that rounds to it, as numerators over one
denominator. -/
structure Window where
  value : Nat
  low : Nat
  high : Nat
  denominator : Nat
  /-- Whether the ends belong to the interval. -/
  closed : Bool

/-- The window of m · 2^e.  Below a power of two the doubles lie twice as close. -/
def window (m : Nat) (e : Int) : Window :=
  let scale := Nat.pow 2 e.toNat
  { value := 4 * m * scale
    low := (4 * m - if m = 0x10000000000000 ∧ -1074 < e then 1 else 2) * scale
    high := (4 * m + 2) * scale
    denominator := 4 * Nat.pow 2 (-e).toNat
    closed := m % 2 == 0 }

/-- Whether the fraction n / d lies in the window. -/
def Window.contains (w : Window) (n d : Nat) : Bool :=
  if w.closed then
    w.low * d ≤ n * w.denominator && n * w.denominator ≤ w.high * d
  else
    w.low * d < n * w.denominator && n * w.denominator < w.high * d

/-- Which of two equally near decimals is taken. -/
inductive Tie where
  | up
  | toEven
  deriving DecidableEq

/-- The multiple of 10^g, as a count of units, that lies in the window and nearest to its
value. -/
def Window.onGrid? (w : Window) (tie : Tie) (g : Int) : Option Nat :=
  let unit := Nat.pow 10 g.toNat
  let parts := Nat.pow 10 (-g).toNat
  let n := w.value * parts
  let d := w.denominator * unit
  let c := n / d
  match w.contains (c * unit) parts, w.contains ((c + 1) * unit) parts with
  | false, false => none
  | true, false => some c
  | false, true => some (c + 1)
  | true, true =>
    match compare (2 * (n - c * d)) d with
    | .lt => some c
    | .gt => some (c + 1)
    | .eq =>
      match tie with
      | .up => some (c + 1)
      | .toEven => some (if c % 2 = 0 then c else c + 1)

/-- How many digits the whole part of the value has; zero or negative for values below
one tenth, one hundredth and so on.  The smallest double is above 10^-400. -/
def Window.wholeDigits (w : Window) : Int :=
  (Nat.toDigits 10 (w.value * Nat.pow 10 400 / w.denominator)).length - 400

/-! ### Digits -/

/-- Significant digits: the decimal d₁.d₂d₃… · 10^`exponent`. -/
structure Digits where
  digits : List Char
  exponent : Int
  deriving DecidableEq

/-- The digits of c · 10^g, without zeros at the end. -/
def Digits.ofGrid (c : Nat) (g : Int) : Digits :=
  let ds := Nat.toDigits 10 c
  { digits := (ds.reverse.dropWhile (· == '0')).reverse
    exponent := ds.length - 1 + g }

/-- The shortest decimal that reads back as m · 2^e, and of those the nearest. -/
def shortest (tie : Tie) (m : Nat) (e : Int) : Digits :=
  if m = 0 then ⟨['0'], 0⟩
  else
    let w := window m e
    let whole := w.wholeDigits
    let hit? := (List.range 17).findSome? fun (i : Nat) =>
      let g := whole - ((i : Int) + 1)
      (w.onGrid? tie g).map fun c => Digits.ofGrid c g
    hit?.getD ⟨['0'], 0⟩

end ModalScript.Decimal
