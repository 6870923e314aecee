import Arbor.Plant.Check
import Arbor.Turtle.Walk

/-!
# Growing a plant

Check the description, derive the word, walk it.  Nothing is drawn unless the check passes.
-/

namespace Arbor

/-- The reasons for which a plant does not grow. -/
inductive GrowthError where
  | config (e : ConfigError)
  | walk (e : WalkError)
  deriving DecidableEq, Repr

def GrowthError.message : GrowthError → String
  | config e => e.message
  | walk e => e.message

/-- A finished growth. -/
structure Growth (σ : Type) where
  /-- The report, or the reason for which there is none. -/
  outcome : Except GrowthError Report
  /-- The calls on the surroundings, first call first. -/
  calls : List Call
  host : σ

def Growth.branches {σ : Type} (g : Growth σ) : List Branch := g.calls.filterMap Call.branch?

namespace Plant

variable {σ : Type}

/-- Grow a plant with the alphabet of a turtle; the settings are those of the plant, whatever the
turtle has.  The delay before a draw never stops a growth, so the walk has no pacer. -/
def growWith (trig : Trig) (t : Turtle) (p : Plant) (host : Host σ) (h : σ) : Growth σ :=
  match p.check t.alphabet with
  | .error e => ⟨.error (.config e), [], h⟩
  | .ok () =>
    let run := Turtle.walkUnpaced trig { t with settings := p.settings } host h p.pose p.word
    ⟨run.outcome.mapError .walk, run.calls, run.host⟩

/-- Grow a plant with the standard alphabet. -/
def grow (trig : Trig) (p : Plant) (host : Host σ) (h : σ) : Growth σ :=
  p.growWith trig (Turtle.standard p.settings) host h

end Plant

end Arbor
