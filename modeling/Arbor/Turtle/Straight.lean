import Arbor.Turtle.Walk

/-!
# Walks that ignore every surface

A walk in which drawing steps forward and hands over the branch, and nothing bends it.  No surface is
asked, so its only calls are those on the pacer and the emitter.
-/

namespace Arbor

variable {σ : Type}

/-- Step forward and hand over the branch. -/
def State.growStraight (settings : Settings) (host : Host σ) (s : State σ) : State σ :=
  s.reach host (s.pose.advance settings.stepLength)

/-- The draw of a walk without surfaces. -/
def State.drawStraight (settings : Settings) (host : Host σ) : State σ → Progress σ :=
  State.paced host (State.growStraight settings host)

/-- Walk a word from a pose and let no surface bend it. -/
def Turtle.walkStraight (trig : Trig) (t : Turtle) (host : Host σ) (h : σ) (pose : Pose)
    (word : Word) : Run σ :=
  ((State.start pose h).follow trig t.settings (State.drawStraight t.settings host) t.read word).run

end Arbor
