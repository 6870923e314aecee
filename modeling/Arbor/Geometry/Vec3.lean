/-!
# Vectors in single precision

Points and directions with `Float32` components.  Every operation rounds once per arithmetic step
and its steps stand in a fixed order, so that results agree bit for bit wherever they are computed;
no law of real arithmetic may be used to rearrange them.  Two vectors are equal (`=`) when their
bits are, while `==` compares components as numbers: `-0` matches `0`, and NaN matches nothing.
-/

namespace Arbor

/-- A point or direction in space. -/
structure Vec3 where
  x : Float32
  y : Float32
  z : Float32
  deriving DecidableEq, BEq, Repr, Inhabited

namespace Vec3

def zero : Vec3 := ⟨0, 0, 0⟩

def unitY : Vec3 := ⟨0, 1, 0⟩

def unitZ : Vec3 := ⟨0, 0, 1⟩

instance : Add Vec3 := ⟨fun a b => ⟨a.x + b.x, a.y + b.y, a.z + b.z⟩⟩

instance : Sub Vec3 := ⟨fun a b => ⟨a.x - b.x, a.y - b.y, a.z - b.z⟩⟩

instance : HMul Vec3 Float32 Vec3 := ⟨fun a k => ⟨a.x * k, a.y * k, a.z * k⟩⟩

instance : HDiv Vec3 Float32 Vec3 := ⟨fun a k => ⟨a.x / k, a.y / k, a.z / k⟩⟩

def dot (a b : Vec3) : Float32 := (a.x * b.x + a.y * b.y) + a.z * b.z

def cross (a b : Vec3) : Vec3 :=
  ⟨a.y * b.z - b.y * a.z, a.z * b.x - b.z * a.x, a.x * b.y - b.x * a.y⟩

def length (a : Vec3) : Float32 := (a.dot a).sqrt

def distance (a b : Vec3) : Float32 := (a - b).length

/-- The vector scaled to length one.  A vector without a usable length gives NaN components. -/
def normalize (a : Vec3) : Vec3 := a * (1 / a.length)

/-- The vector scaled to length one, or the zero vector when its length has no finite positive
reciprocal. -/
def normalizeOrZero (a : Vec3) : Vec3 :=
  let k := 1 / a.length
  if k.isFinite && 0 < k then a * k else zero

def isFinite (a : Vec3) : Bool := a.x.isFinite && a.y.isFinite && a.z.isFinite

end Vec3

end Arbor
