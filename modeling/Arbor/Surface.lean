import Arbor.Geometry.Vec3

/-!
# Reference surfaces

A surface answers which of its points is nearest to a query.  `Sphere` is a solid ball: a query
inside it is its own nearest point and any other is projected onto the shell.
-/

namespace Arbor

/-- The nearest surface point for every query. -/
abbrev Surface := Vec3 → Vec3

/-- No surface at all: every query is its own nearest point. -/
def Surface.absent : Surface := id

structure Sphere where
  center : Vec3
  radius : Float32
  deriving DecidableEq, BEq, Repr, Inhabited

namespace Sphere

/-- The ball around `center` whose radius is the size of `radius`. -/
def around (center : Vec3) (radius : Float32) : Sphere := ⟨center, radius.abs⟩

/-- The ball of radius one half around the origin. -/
def unit : Sphere := around Vec3.zero 0.5

/-- A query within the ball is its own nearest point; any other goes to the shell. -/
def nearest (s : Sphere) : Surface := fun query =>
  let offset := query - s.center
  let squared := offset.dot offset
  if squared ≤ s.radius * s.radius then s.center + offset
  else s.center + (offset / squared.sqrt) * s.radius

end Sphere

end Arbor
