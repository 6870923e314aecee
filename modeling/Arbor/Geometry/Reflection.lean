import Arbor.Geometry.Pose

/-!
# Alike values and reflections

Two numbers are alike when they are equal as numbers or both NaN, so that the sign of a zero makes no
difference; `Alike` carries this over to vectors, quaternions and poses by components.  A
reflection turns the first axis around.  A rotation is stored by two quaternions, one the
negative of the other.
-/

namespace Arbor

/-- Equal as numbers, or both no number. -/
def Float32Alike (a b : Float32) : Prop := a == b ∨ (a.isNaN ∧ b.isNaN)

structure Vec3.Alike (a b : Vec3) : Prop where
  x : Float32Alike a.x b.x
  y : Float32Alike a.y b.y
  z : Float32Alike a.z b.z

structure Quat.Alike (a b : Quat) : Prop where
  x : Float32Alike a.x b.x
  y : Float32Alike a.y b.y
  z : Float32Alike a.z b.z
  w : Float32Alike a.w b.w

structure Pose.Alike (a b : Pose) : Prop where
  position : a.position.Alike b.position
  rotation : a.rotation.Alike b.rotation

def Vec3.reflect (a : Vec3) : Vec3 := ⟨-a.x, a.y, a.z⟩

/-- A rotation as it looks when space is reflected. -/
def Quat.reflect (q : Quat) : Quat := ⟨q.x, -q.y, -q.z, q.w⟩

def Pose.reflect (p : Pose) : Pose := ⟨p.position.reflect, p.rotation.reflect⟩

/-- The other quaternion of the same rotation. -/
def Quat.neg (q : Quat) : Quat := ⟨-q.x, -q.y, -q.z, -q.w⟩

/-- The same pose with the other quaternion of its rotation. -/
def Pose.flip (p : Pose) : Pose := ⟨p.position, p.rotation.neg⟩

end Arbor
