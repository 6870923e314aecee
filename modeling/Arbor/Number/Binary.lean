/-!
# Binary number formats

A binary interchange format packs a sign, an exponent and a fraction into one word.
`BinaryFormat.unpack` reads such a word as an exact value `±m·2^q`, and `BinaryFormat.nearest` packs
an exact value, rounded to the nearest value of the format with ties to an even significand.
-/

namespace Arbor

/-- The widths of the fields of a binary format. -/
structure BinaryFormat where
  fractionBits : Nat
  exponentBits : Nat

/-- The value of a word in a binary format. -/
inductive Unpacked where
  | nan
  | infinite (negative : Bool)
  /-- The value `±m·2^q`. -/
  | finite (negative : Bool) (m : Nat) (q : Int)
  deriving DecidableEq, Repr

namespace BinaryFormat

def single : BinaryFormat := ⟨23, 8⟩

def double : BinaryFormat := ⟨52, 11⟩

/-- The exponent of the last place of the smallest values. -/
def lowest (fmt : BinaryFormat) : Int := 2 - (1 <<< (fmt.exponentBits - 1) : Nat) - fmt.fractionBits

/-- The word of positive infinity, the first one above all finite magnitudes. -/
def infinity (fmt : BinaryFormat) : Nat := ((1 <<< fmt.exponentBits) - 1) <<< fmt.fractionBits

def unpack (fmt : BinaryFormat) (word : Nat) : Unpacked :=
  let fraction := word % (1 <<< fmt.fractionBits)
  let exponent := (word >>> fmt.fractionBits) % (1 <<< fmt.exponentBits)
  let negative := (word >>> (fmt.fractionBits + fmt.exponentBits)) % 2 == 1
  if exponent = (1 <<< fmt.exponentBits) - 1 then
    if fraction = 0 then .infinite negative else .nan
  else if exponent = 0 then .finite negative fraction fmt.lowest
  else .finite negative ((1 <<< fmt.fractionBits) + fraction) (fmt.lowest + (exponent - 1 : Nat))

/-- `m / 2^k`, rounded to the nearest natural number with ties to the even one. -/
def shiftRounded (m k : Nat) : Nat :=
  let unit := 1 <<< k
  let quotient := m / unit
  let twice := 2 * (m % unit)
  if twice < unit then quotient
  else if unit < twice then quotient + 1
  else quotient + quotient % 2

/-- The word of the value nearest to `±m·2^q`; values beyond the largest finite one by half a place
or more become infinite. -/
def nearest (fmt : BinaryFormat) (negative : Bool) (m : Nat) (q : Int) : Nat :=
  let sign := if negative then 1 <<< (fmt.fractionBits + fmt.exponentBits) else 0
  if m = 0 then sign
  else
    let place := max (m.log2 + q - fmt.fractionBits) fmt.lowest
    let significand :=
      if place ≤ q then m <<< (q - place).toNat else shiftRounded m (place - q).toNat
    sign + min (((place - fmt.lowest).toNat <<< fmt.fractionBits) + significand) fmt.infinity

end BinaryFormat

def unpackSingle (f : Float32) : Unpacked := BinaryFormat.single.unpack f.toBits.toNat

/-- The single-precision number nearest to `±m·2^q`. -/
def nearestSingle (negative : Bool) (m : Nat) (q : Int) : Float32 :=
  Float32.ofBits (UInt32.ofNat (BinaryFormat.single.nearest negative m q))

/-- The single-precision number nearest to a double-precision one. -/
def singleOfDouble (f : Float) : Float32 :=
  match BinaryFormat.double.unpack f.toBits.toNat with
  | .nan => Float32.ofBits 0x7fc00000
  | .infinite negative => Float32.ofBits (if negative then 0xff800000 else 0x7f800000)
  | .finite negative m q => nearestSingle negative m q

end Arbor
