/-!
Decimal text of binary floating-point numbers: the shortest decimal that reads back as the
number, written without an exponent.

Every finite number of the format is a whole multiple of `10 ^ (-scale)`, and so are the midpoints
between it and its neighbours.  All arithmetic below is on such multiples, hence exact.
-/

namespace BlockIR

namespace Decimal

/-- The number of decimal places after which every midpoint of the format ends. -/
def scale : Nat := 1076

/-- The reals that round to one number, with the number itself, in units of `10 ^ (-scale)`. -/
structure Interval where
  low : Nat
  value : Nat
  high : Nat
  /-- Whether the end points round to the number too. -/
  closed : Bool

namespace Interval

def contains (i : Interval) (x : Nat) : Bool :=
  if i.closed then i.low ≤ x && x ≤ i.high else i.low < x && x < i.high

/-- The nearer of the two multiples of `step` next to the value that lie in the interval; the
upper one where both are equally near. -/
def nearest? (i : Interval) (step : Nat) : Option Nat :=
  let below := i.value / step * step
  let above := below + step
  match i.contains below, i.contains above with
  | true, true => some (if i.value - below < above - i.value then below else above)
  | true, false => some below
  | false, true => some above
  | false, false => none

/-- Search the grids of the multiples of `10 ^ j`, from the coarsest to the finest, for the first
that meets the interval.  The finest grid has the value itself. -/
def coarsest (i : Interval) : Nat → Nat
  | 0 => i.value
  | j + 1 => (i.nearest? (Nat.pow 10 (j + 1))).getD (i.coarsest j)

/-- The member of the interval with the fewest digits.  A power of ten beyond the upper end is no
use as a grid, and has fewer than a third as many zeros as the end has binary digits. -/
def shortest (i : Interval) : Nat :=
  i.coarsest (i.high.log2 / 3)

end Interval

/-- The value of the leading digit of a significand, which is stored only through the exponent. -/
def leadingDigit : Nat := 0x10000000000000

/-- The interval of a positive number `m * 2 ^ (e - 1075)`; the exponents `0` and `1` stand for the
same power.  Below a power of two the lower neighbour is twice as near. -/
def interval (exponent significand : Nat) : Interval :=
  let unit := Nat.pow 5 scale * Nat.pow 2 (exponent - 1)
  let lower := if significand = leadingDigit && 1 < exponent then 1 else 2
  { low := (4 * significand - lower) * unit
    value := 4 * significand * unit
    high := (4 * significand + 2) * unit
    closed := significand % 2 = 0 }

/-- The decimal places of `x * 10 ^ (-scale)` for `x` below `10 ^ scale`, up to the last one that
is not zero. -/
def places (x : Nat) : List Char :=
  let digits := Nat.toDigits 10 x
  let padded := List.replicate (scale - digits.length) '0' ++ digits
  (padded.reverse.dropWhile (· == '0')).reverse

/-- The text of `x * 10 ^ (-scale)`: a point stands only before decimal places. -/
def positional (x : Nat) : String :=
  let whole := Nat.repr (x / Nat.pow 10 scale)
  match places (x % Nat.pow 10 scale) with
  | [] => whole
  | digits => whole ++ "." ++ String.ofList digits

/-- The text of a finite number without its sign. -/
def magnitude (exponent significand : Nat) : String :=
  if significand = 0 then "0" else positional (interval exponent significand).shortest

end Decimal

/-- A binary floating-point number of 64 bits, given by its representation. -/
structure Binary64 where
  bits : UInt64
deriving DecidableEq

namespace Binary64

def isNegative (x : Binary64) : Bool :=
  x.bits >>> 63 == 1

/-- The exponent field, eleven bits. -/
def exponent (x : Binary64) : Nat :=
  ((x.bits >>> 52) &&& 0x7ff).toNat

/-- The field of the significand's stored digits, fifty-two bits. -/
def fraction (x : Binary64) : Nat :=
  (x.bits &&& 0xfffffffffffff).toNat

/-- The significand as a whole number. -/
def significand (x : Binary64) : Nat :=
  if x.exponent = 0 then x.fraction else Decimal.leadingDigit + x.fraction

def sign (x : Binary64) : String :=
  if x.isNegative then "-" else ""

/-- The fewest digits that read back, the nearest of those, and the upper one of two equally near.
Whole numbers have no point and the sign of zero is kept. -/
def text (x : Binary64) : String :=
  if x.exponent = 2047 then
    if x.fraction = 0 then x.sign ++ "inf" else "NaN"
  else x.sign ++ Decimal.magnitude x.exponent x.significand

example : (mk 0x3ff8000000000000).text = "1.5" := by decide +kernel

example : (mk 0x8000000000000000).text = "-0" := by decide +kernel

example : (mk 0x444b1ae4d6e2ef50).text = "1000000000000000000000" := by decide +kernel

example : (mk 0x3e60000000000000).text = "0.000000029802322387695313" := by decide +kernel

example : (mk 0xfff8000000000000).text = "NaN" := by decide +kernel

end Binary64

end BlockIR
