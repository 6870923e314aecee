import Arbor.Geometry.Vec3

/-!
# Branches

A drawn segment, and the list of them that a growth leaves behind.
-/

namespace Arbor

/-- A drawn segment. -/
structure Branch where
  start : Vec3
  stop : Vec3
  deriving DecidableEq, BEq, Repr, Inhabited

namespace Branch

def length (b : Branch) : Float32 := b.start.distance b.stop

/-- The unit vector from start to stop, or zero when they coincide. -/
def direction (b : Branch) : Vec3 := (b.stop - b.start).normalizeOrZero

end Branch

/-- Branches in the order in which they were drawn. -/
structure Skeleton where
  branches : List Branch
  deriving DecidableEq, BEq, Inhabited

namespace Skeleton

def empty : Skeleton := ⟨[]⟩

/-- One more branch, drawn last. -/
def add (s : Skeleton) (b : Branch) : Skeleton := ⟨s.branches ++ [b]⟩

def size (s : Skeleton) : Nat := s.branches.length

def isEmpty (s : Skeleton) : Bool := s.branches.isEmpty

/-- The sum of the lengths, added in order onto `-0`, the number that changes no other. -/
def totalLength (s : Skeleton) : Float32 :=
  s.branches.foldl (fun sum b => sum + b.length) (-0.0)

end Skeleton

end Arbor
