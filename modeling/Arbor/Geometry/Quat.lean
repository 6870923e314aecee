import Arbor.Geometry.Vec3

/-!
# Rotations

A rotation is a quaternion in single precision.  Sine and cosine are not arithmetic of the number
format, so the functions that need them take them as a `Trig`; `Trig.native` is the pair that the
machine computes.
-/

namespace Arbor

/-- A sine and a cosine of angles in radians. -/
structure Trig where
  sin : Float32 → Float32
  cos : Float32 → Float32

/-- The sine and cosine of the machine. -/
def Trig.native : Trig := ⟨Float32.sin, Float32.cos⟩

/-- An angle in radians, from one in degrees: the factor is π/180 in single precision. -/
def radians (degrees : Float32) : Float32 := degrees * Float32.ofBits 0x3c8efa35

/-- A quaternion `x i + y j + z k + w`. -/
structure Quat where
  x : Float32
  y : Float32
  z : Float32
  w : Float32
  deriving DecidableEq, BEq, Repr, Inhabited

namespace Quat

def identity : Quat := ⟨0, 0, 0, 1⟩

def vector (q : Quat) : Vec3 := ⟨q.x, q.y, q.z⟩

/-- The norm, summed over the pairs `x, z` and `y, w`. -/
def norm (q : Quat) : Float32 := ((q.x * q.x + q.z * q.z) + (q.y * q.y + q.w * q.w)).sqrt

/-- The quaternion scaled to norm one.  The zero quaternion gives NaN components. -/
def normalize (q : Quat) : Quat := ⟨q.x / q.norm, q.y / q.norm, q.z / q.norm, q.w / q.norm⟩

/-- The product: the rotation `b`, then the rotation `a`. -/
def mul (a b : Quat) : Quat where
  x := (a.w * b.x + a.x * b.w) + (a.y * b.z - a.z * b.y)
  y := (a.w * b.y - a.x * b.z) + (a.y * b.w + a.z * b.x)
  z := (a.w * b.z + a.x * b.y) + (a.z * b.w - a.y * b.x)
  w := (a.w * b.w - a.x * b.x) + (-(a.y * b.y) - a.z * b.z)

instance : Mul Quat := ⟨mul⟩

/-- The vector `v` rotated by `q`. -/
def rotate (q : Quat) (v : Vec3) : Vec3 :=
  let b := q.vector
  (v * (q.w * q.w - b.dot b) + b * (v.dot b * 2)) + b.cross v * (q.w * 2)

/-- The rotation by `angle` radians around the unit vector `around`. -/
def ofAxisAngle (trig : Trig) (around : Vec3) (angle : Float32) : Quat :=
  let half := angle * 0.5
  let v := around * trig.sin half
  ⟨v.x, v.y, v.z, trig.cos half⟩

end Quat

end Arbor
