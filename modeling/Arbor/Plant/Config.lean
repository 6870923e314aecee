import Arbor.Geometry.Pose
import Arbor.Grammar.Preset
import Arbor.Plant.Duration
import Arbor.Turtle.Settings

/-!
# Plant configurations

All that determines a plant: the grammar and how often it is applied, the turtle's settings and
first pose, the delay between draws, and a ceiling on the length of the derived word.
-/

namespace Arbor

/-- The description of a plant. -/
structure Plant where
  start : Symbol
  productions : Productions
  /-- Rounds of substitution. -/
  rounds : UInt64
  settings : Settings
  /-- Where the turtle starts and which way it faces. -/
  pose : Pose
  delay : Duration
  /-- The most symbols that the derived word may have. -/
  maxSymbols : UInt64
  deriving DecidableEq, BEq

namespace Plant

/-- A built-in shape with the default parameters. -/
def ofPreset (shape : Preset) : Plant where
  start := Preset.start
  productions := shape.productions
  rounds := 4
  settings := {}
  pose := Pose.origin
  delay := Duration.zero
  maxSymbols := 4000000

instance : Inhabited Plant := ⟨ofPreset default⟩

def word (p : Plant) : Word := p.productions.expand p.start p.rounds.toNat

end Plant

end Arbor
