import Arbor.Number.Binary
import Arbor.Number.Digits

/-!
# The shortest decimal of a single-precision number

Many decimals round to the same single-precision number; they fill an interval around it.  The
shortest one is the point of that interval on the coarsest decimal grid that has one there, and of
two such points the nearer.  `Tie` says which of two equally near ones is taken.

`Decimal.layout` writes a decimal with a point, as digits before and after it.
-/

namespace Arbor

/-- The number `significand·10^exponent`. -/
structure Decimal where
  significand : Nat
  exponent : Int
  deriving DecidableEq, Repr

/-- Which of two equally near points of a grid is taken. -/
inductive Tie where
  | up
  /-- The one whose last digit is even. -/
  | even
  deriving DecidableEq, Repr

/-- The decimals that round to a value, in units of a quarter of its last binary place. -/
structure RoundingInterval where
  low : Nat
  value : Nat
  high : Nat
  /-- The binary exponent of one quarter. -/
  q : Int
  /-- Whether the ends round to the value as well. -/
  closed : Bool

namespace RoundingInterval

/-- The interval of the single-precision number `m·2^q`.  Below a power of two the numbers are twice
as dense, and an even significand wins the ties at both ends. -/
def ofSingle (m : Nat) (q : Int) : RoundingInterval where
  low := if m = 1 <<< 23 ∧ BinaryFormat.single.lowest < q then 4 * m - 1 else 4 * m - 2
  value := 4 * m
  high := 4 * m + 2
  q := q - 2
  closed := m % 2 == 0

/-- The point of the grid of multiples of `10^e` that stands for the interval, if it has one. -/
def point? (tie : Tie) (i : RoundingInterval) (e : Int) : Option Nat :=
  let unit := Nat.pow 10 e.toNat <<< (-i.q).toNat
  let quarter := Nat.pow 10 (-e).toNat <<< i.q.toNat
  let value := i.value * quarter
  let inside (c : Nat) : Bool :=
    if i.closed then i.low * quarter ≤ c * unit && c * unit ≤ i.high * quarter
    else i.low * quarter < c * unit && c * unit < i.high * quarter
  let below := value / unit
  let above := below + 1
  match inside below, inside above with
  | true, true =>
    let down := value - below * unit
    let up := above * unit - value
    if down < up then some below
    else if up < down then some above
    else match tie with
      | .up => some above
      | .even => some (if below % 2 = 0 then below else above)
  | true, false => some below
  | false, true => some above
  | false, false => none

/-- The first hit on the grids `10^(least + fuel)`, …, `10^(least + 1)`, `10^least`. -/
def search (tie : Tie) (i : RoundingInterval) (least : Int) : Nat → Decimal
  | 0 => ⟨(i.point? tie least).getD 0, least⟩
  | fuel + 1 =>
    match i.point? tie (least + (fuel + 1 : Nat)) with
    | some c => ⟨c, least + (fuel + 1 : Nat)⟩
    | none => search tie i least fuel

end RoundingInterval

/-- The shortest decimal that rounds to the positive single-precision number `m·2^q`.  All of them
are below `10^39`, and every interval has a multiple of `10^(-46)`. -/
def shortestDecimal (tie : Tie) (m : Nat) (q : Int) : Decimal :=
  (RoundingInterval.ofSingle m q).search tie (-46) 85

namespace Decimal

/-- The exponent of the scientific form, with one digit before the point. -/
def scale (d : Decimal) : Int := d.exponent + (digits d.significand).length - 1

/-- The digits before and after the decimal point.  There is at least one digit before it. -/
def layout (d : Decimal) : List Digit × List Digit :=
  let ds := digits d.significand
  if 0 ≤ d.exponent then (ds ++ List.replicate d.exponent.toNat Digit.zero, [])
  else
    let places := (-d.exponent).toNat
    if places < ds.length then ds.splitAt (ds.length - places)
    else ([Digit.zero], List.replicate (places - ds.length) Digit.zero ++ ds)

end Decimal

def digitChars (ds : List Digit) : List Char := ds.map Digit.char

/-- A number as it stands in a message: the shortest decimal, written with a point where it has a
fraction and never with an exponent. -/
def plainText (f : Float32) : String :=
  match unpackSingle f with
  | .nan => "NaN"
  | .infinite negative => if negative then "-inf" else "inf"
  | .finite negative m q =>
    let (whole, fraction) := if m = 0 then ([Digit.zero], []) else (shortestDecimal .up m q).layout
    let sign := if negative then ['-'] else []
    let rest := if fraction.isEmpty then [] else '.' :: digitChars fraction
    String.ofList (sign ++ digitChars whole ++ rest)

end Arbor
