/-!
# Turtle settings

How far a draw steps, how far a turn turns, how strongly surfaces bend the growth, and how many
poses may be saved at once.
-/

namespace Arbor

/-- The parameters of a walk. -/
structure Settings where
  /-- Distance covered by a draw. -/
  stepLength : Float32 := 1
  /-- Degrees covered by a turn of sign one. -/
  turnAngle : Float32 := 30
  /-- Degrees by which a surface straight ahead would bend the growth; 0 bends nothing. -/
  strength : Float32 := 0
  /-- How many poses may be saved at once. -/
  maxDepth : UInt64 := 1024
  deriving DecidableEq, BEq, Repr, Inhabited

end Arbor
