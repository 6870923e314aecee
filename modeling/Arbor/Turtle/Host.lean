import Arbor.Branch
import Arbor.Surface

/-!
# The surroundings of a walk

Three parties take part in a walk besides the turtle: a pacer, asked before every draw whether to go
on, a surface, asked after every step for its nearest point, and an emitter, handed every finished
branch.  A `Host` is the three of them over one shared state, so any of them may remember what it
was asked and answer differently the next time.  `Host.plain` is the case where nothing is
remembered.  A `Call` records one thing asked or handed over.
-/

namespace Arbor

inductive Pace where
  | go
  | stop
  deriving DecidableEq, Repr, Inhabited

/-- Asked before each draw, with the number of branches drawn so far. -/
abbrev Pacer := Nat → Pace

namespace Pacer

/-- Never stops a walk.  A pacer that only waits is this one: the wait shows in no result. -/
def unlimited : Pacer := fun _ => .go

/-- Stops a walk once `limit` branches are drawn. -/
def upTo (limit : Nat) : Pacer := fun drawn => if drawn < limit then .go else .stop

end Pacer

/-- The pacer, surface and emitter of a walk, over a state that they share. -/
structure Host (σ : Type) where
  /-- The pacer's word before a draw, given the number of branches drawn. -/
  pace : σ → Nat → Pace × σ
  nearest : σ → Vec3 → Vec3 × σ
  emit : σ → Branch → σ

namespace Host

variable {σ : Type}

/-- A host whose pacer alone remembers anything. -/
def paced (pace : σ → Nat → Pace × σ) (surface : Surface) : Host σ where
  pace := pace
  nearest h query := (surface query, h)
  emit h _ := h

/-- A host without memory. -/
def plain (pacer : Pacer) (surface : Surface) : Host Unit :=
  paced (fun _ drawn => (pacer drawn, ())) surface

/-- The same surface and emitter, with nobody to stop the walk. -/
def unpaced (host : Host σ) : Host σ := { host with pace := fun h _ => (.go, h) }

/-- The same pacer and emitter, beside a surface without memory. -/
def beside (host : Host σ) (surface : Surface) : Host σ :=
  { host with nearest := fun h query => (surface query, h) }

end Host

/-- One thing asked of the surroundings or handed over to them. -/
inductive Call where
  /-- The pacer gave its word before the draw of this number. -/
  | pace (drawn : Nat) (word : Pace)
  /-- The surface was asked for its point nearest to `query`. -/
  | query (query answer : Vec3)
  | emit (branch : Branch)
  deriving DecidableEq, Repr, Inhabited

namespace Call

/-- The branch that was handed over, if this call did so. -/
def branch? : Call → Option Branch
  | emit b => some b
  | _ => none

def isPace : Call → Bool
  | pace .. => true
  | _ => false

end Call

end Arbor
