import Arbor.Json.Tree
import Arbor.Number.Shortest

/-!
# Numerals and the numbers they stand for

Numbers are written with the fewest digits that read back, in positional form within a fixed range
of magnitudes and with a power of ten outside it (`Numeral.ofSingle?`).

A numeral is read in two ways.  As a count it must be a plain natural number below a bound
(`Numeral.count?`).  As a measure (`Numeral.single?`) a plain integer of at most 64 bits is rounded
once, and any other numeral goes through double precision: its significand is cut to what fits into
64 bits, rounded, and multiplied or divided by a rounded power of ten.
-/

namespace Arbor

/-- The exponent that a power of ten states. -/
def Power.exponent (p : Power) : Int :=
  match p.mark with
  | .minus => -(ofDigits p.digits : Int)
  | _ => ofDigits p.digits

namespace Numeral

/-! ## Writing -/

def ofNat (n : Nat) : Numeral := ⟨false, digits n, [], none⟩

/-- The exponents of the scientific form for which a number is written without one. -/
def isPositional (scale : Int) : Bool := -6 ≤ scale && scale ≤ 12

/-- A decimal in positional form with at least one digit after the point, or in scientific form. -/
def ofDecimal (negative : Bool) (d : Decimal) : Numeral :=
  if isPositional d.scale then
    let (whole, fraction) := d.layout
    ⟨negative, whole, if fraction.isEmpty then [Digit.zero] else fraction, none⟩
  else
    let (first, rest) := (digits d.significand).splitAt 1
    let mark := if d.scale < 0 then PowerMark.minus else PowerMark.plus
    ⟨negative, first, rest, some ⟨mark, digits d.scale.natAbs⟩⟩

def ofSingle? (f : Float32) : Option Numeral :=
  match unpackSingle f with
  | .nan => none
  | .infinite _ => none
  | .finite negative m q =>
    if m = 0 then some ⟨negative, [Digit.zero], [Digit.zero], none⟩
    else some (ofDecimal negative (shortestDecimal .even m q))

/-! ## Reading -/

/-- Whether there is neither a fraction nor a power of ten. -/
def isInteger (n : Numeral) : Bool := n.fraction.isEmpty && n.power.isNone

/-- A plain natural number below `bound`. -/
def count? (bound : Nat) (n : Numeral) : Option Nat :=
  if n.isInteger && !n.negative && ofDigits n.whole < bound then some (ofDigits n.whole) else none

/-- Append digits to a significand while it fits into 64 bits; the digits left over come second. -/
def absorb : Nat → List Digit → Nat × List Digit
  | s, [] => (s, [])
  | s, d :: ds => if 10 * s + d < UInt64.size then absorb (10 * s + d) ds else (s, d :: ds)

/-- The size of the number as a significand of 64 bits and a power of ten.  A digit before the point
that no longer fits counts as a place, one after it is dropped. -/
def scaled (n : Numeral) : Nat × Int :=
  let (s, places) := absorb 0 n.whole
  let (s, dropped) := absorb s n.fraction
  let stated := (n.power.map Power.exponent).getD 0
  (s, places.length - (n.fraction.length - dropped.length : Nat) + stated)

/-- The double-precision number nearest to `10^k`. -/
def tenTo (k : Nat) : Float :=
  Float.ofBits (UInt64.ofNat (BinaryFormat.double.nearest false (Nat.pow 10 k) 0))

/-- The double-precision number `s·10^e`, rounded after each step; none when it is too large.  The
powers of ten up to 308 are the finite ones, and two of them bring any significand to zero. -/
def double? (s : Nat) (e : Int) : Option Float :=
  let f := (UInt64.ofNat s).toFloat
  if 0 ≤ e then
    if e ≤ 308 then
      let product := f * tenTo e.toNat
      if product.isFinite then some product else none
    else if s = 0 then some f else none
  else
    let k := (-e).toNat
    if k ≤ 308 then some (f / tenTo k)
    else if k ≤ 616 then some (f / tenTo 308 / tenTo (k - 308))
    else some 0

/-- The number in single precision; none when it is out of the range of double precision. -/
def single? (n : Numeral) : Option Float32 :=
  let m := ofDigits n.whole
  if n.isInteger && (if n.negative then 0 < m && 2 * m ≤ UInt64.size else m < UInt64.size) then
    some (nearestSingle n.negative m 0)
  else
    let (s, e) := n.scaled
    (double? s e).map fun f => singleOfDouble (if n.negative then -f else f)

end Numeral

end Arbor
