/-! # Decimals and doubles

A number written in decimal digits stands for the double nearest to it. A double is written as the
decimal with the fewest digits that reads back as it, found in exact arithmetic on natural numbers:
the reals that round to a double form an interval, and the grids of one, two, three digits are
tried in turn for a point inside it. -/

namespace StateFlow

/-- The double nearest to a row of digits times a power of ten. -/
def nearestDouble (digits : List Char) (exponent : Int) : Float :=
  let digits := digits.dropWhile (· = '0')
  let n := digits.foldl (fun n c => n * 10 + (c.toNat - '0'.toNat)) 0
  if n = 0 then 0
  else if 400 < exponent + digits.length then 1 / 0
  else if exponent + digits.length < -400 then 0
  else Float.ofScientific n (exponent < 0) exponent.natAbs

/-! ## Shortest decimals -/

/-- The decimal number `digits * 10 ^ exponent`. -/
structure Decimal where
  digits : Nat
  exponent : Int
deriving DecidableEq, Repr

/-- The interval of reals that round to one double, all four lengths counted in the same small
unit: the double itself is `value / unit`, the interval reaches from `low / unit` to
`high / unit`. -/
structure Rounding where
  low : Nat
  value : Nat
  high : Nat
  unit : Nat
  /-- The ends round to the double as well: halves go to the even mantissa. -/
  closed : Bool

namespace Rounding

/-- The interval of `mantissa * 2 ^ exponent`. Below a power of two the next smaller double is only
half as far away as the next larger one. -/
def ofDyadic (mantissa : Nat) (exponent : Int) (narrow : Bool) : Rounding :=
  let up := Nat.pow 2 (exponent - 2).toNat
  { low := (4 * mantissa - if narrow then 1 else 2) * up
    value := 4 * mantissa * up
    high := (4 * mantissa + 2) * up
    unit := Nat.pow 2 (2 - exponent).toNat
    closed := mantissa % 2 == 0 }

/-- The interval of the finite double with these bits, its sign left out. -/
def ofBits (bits : UInt64) : Rounding :=
  let biased := (bits >>> 52 &&& 0x7FF).toNat
  let fraction := (bits &&& 0xFFFFFFFFFFFFF).toNat
  if biased = 0 then ofDyadic fraction (-1074) false
  else ofDyadic (Nat.pow 2 52 + fraction) (biased - 1075) (fraction == 0 && 1 < biased)

/-- The same interval, its unit changed so that one unit is one step of the grid `10 ^ step`. -/
def onGrid (r : Rounding) (step : Int) : Rounding :=
  let finer := Nat.pow 10 (-step).toNat
  { r with
    low := r.low * finer
    value := r.value * finer
    high := r.high * finer
    unit := r.unit * Nat.pow 10 step.toNat }

/-- The point `n` of the grid rounds to the double. -/
def contains (r : Rounding) (n : Nat) : Bool :=
  if r.closed then r.low ≤ n * r.unit && n * r.unit ≤ r.high
  else r.low < n * r.unit && n * r.unit < r.high

/-- The point of the grid that rounds to the double: of two the nearer, of two equally near ones
the even. -/
def point? (r : Rounding) : Option Nat :=
  let n := r.value / r.unit
  match r.contains n, r.contains (n + 1) with
  | false, false => none
  | true, false => some n
  | false, true => some (n + 1)
  | true, true =>
    let twice := 2 * (r.value - n * r.unit)
    if twice < r.unit then some n
    else if r.unit < twice then some (n + 1)
    else some (n + n % 2)

/-- The power of ten of the digit in front, for a value other than zero. The binary logarithm
gives it up to one step. -/
def leading (r : Rounding) : Int :=
  let guess := ((r.value.log2 : Int) - r.unit.log2 - 1) * 30103 / 100000
  let reaches (k : Int) : Bool := (r.onGrid k).unit ≤ (r.onGrid k).value
  if reaches (guess + 2) then guess + 2 else if reaches (guess + 1) then guess + 1 else guess

/-- The value with all its digits; the unit is a power of two. -/
def exact (r : Rounding) : Decimal :=
  ⟨r.value * Nat.pow 5 r.unit.log2, -r.unit.log2⟩

/-- The shortest decimal in the interval, tried at one to seventeen digits. -/
def shortest (r : Rounding) : Decimal :=
  let k := r.leading
  let found := (List.range 17).findSome? fun (n : Nat) =>
    (r.onGrid (k - n)).point?.map fun digits => ⟨digits, k - n⟩
  found.getD r.exact

end Rounding

/-- Move the zeros at the end of the digits into the exponent. -/
def Decimal.strip (d : Decimal) : Decimal :=
  if d.digits ≠ 0 ∧ d.digits % 10 = 0 then
    strip ⟨d.digits / 10, d.exponent + 1⟩
  else d
termination_by d.digits
decreasing_by omega

/-- The shortest decimal that reads back as the magnitude of a finite double other than zero. -/
def shortestDecimal (x : Float) : Decimal :=
  (Rounding.ofBits x.toBits).shortest.strip

end StateFlow
