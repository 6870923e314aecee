import Arbor.Geometry.Quat

/-!
# Poses

A pose says where the turtle stands and which way it faces.  The turtle grows along its own second
axis (`Pose.up`) and turns around its own third one.  Steering (`Pose.steer`) bends the direction of
growth away from the nearest point of a surface and never moves the turtle (`position_steer`).
-/

namespace Arbor

/-- A place and an orientation. -/
structure Pose where
  position : Vec3
  rotation : Quat
  deriving DecidableEq, BEq, Repr, Inhabited

namespace Pose

def origin : Pose := ⟨Vec3.zero, Quat.identity⟩

/-- A pose from any rotation, which is brought to norm one. -/
def facing (position : Vec3) (rotation : Quat) : Pose := ⟨position, rotation.normalize⟩

/-- The unturned pose at a place. -/
def upright (position : Vec3) : Pose := facing position Quat.identity

/-- The direction of growth. -/
def up (p : Pose) : Vec3 := p.rotation.rotate Vec3.unitY

/-- The pose `distance` further along the direction of growth. -/
def advance (p : Pose) (distance : Float32) : Pose :=
  { p with position := p.position + p.up * distance }

/-- The pose turned by `degrees` around the unit vector `around` of its own frame. -/
def turn (trig : Trig) (p : Pose) (around : Vec3) (degrees : Float32) : Pose :=
  { p with rotation := (p.rotation * Quat.ofAxisAngle trig around (radians degrees)).normalize }

/-- The pose turned by `degrees` around its third axis. -/
def turnZ (trig : Trig) (p : Pose) (degrees : Float32) : Pose := p.turn trig Vec3.unitZ degrees

/-- Turning axes shorter than this have no usable direction. -/
def shortestAxis : Float32 := 1e-6

/-- The unit vector toward `nearest`, or zero when the pose is already there. -/
def toward (p : Pose) (nearest : Vec3) : Vec3 := (nearest - p.position).normalizeOrZero

/-- The pose bent against the surface point `nearest`, and the angle in degrees.

The angle is `strength` times the cosine between growth and surface point, and the turn is around
their vector product, read in the turtle's own frame.  A pose that stands on the point, or grows
straight toward or away from it, has no such axis and stays as it is, with angle 0. -/
def steer (trig : Trig) (p : Pose) (nearest : Vec3) (strength : Float32) : Pose × Float32 :=
  let up := p.up
  let direction := p.toward nearest
  let around := direction.cross up
  if around.length < shortestAxis then (p, 0)
  else
    let angle := direction.dot up * strength
    (if angle != 0 then p.turn trig around.normalize angle else p, angle)

@[simp] theorem position_turnZ (trig : Trig) (p : Pose) (degrees : Float32) :
    (p.turnZ trig degrees).position = p.position := rfl

/-- Steering turns on the spot. -/
@[simp] theorem position_steer (trig : Trig) (p : Pose) (nearest : Vec3) (strength : Float32) :
    (p.steer trig nearest strength).1.position = p.position := by
  simp only [steer]
  split
  · rfl
  · dsimp only
    split <;> rfl

end Pose

end Arbor
