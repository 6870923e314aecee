import Arbor.Grammar.Census
import Arbor.Number.Shortest
import Arbor.Plant.Config
import Arbor.Turtle.Alphabet

/-!
# Checking a plant before it grows

A plant can be grown when its parameters are usable numbers, every symbol that can turn up has an
operation, and the derived word stays under the ceiling.  `Plant.check` reports the first defect, in
this order; the word itself is not built for it.
-/

namespace Arbor

/-- Where a symbol without an operation stands. -/
inductive Site where
  | start
  /-- It is in the production of `key`, on either side. -/
  | rule (key : Symbol)
  /-- A place in the words of the caller. -/
  | described (place : String)
  deriving DecidableEq, Repr

def Site.text : Site → String
  | start => "axiom"
  | rule key => s!"rule '{key}'"
  | described place => place

/-- The defects of a plant. -/
inductive ConfigError where
  | stepLength (value : Float32)
  | turnAngle (value : Float32)
  | strength (value : Float32)
  /-- A symbol that can turn up has no operation. -/
  | unmapped (symbol : Symbol) (site : Site)
  /-- The derived word would be longer than allowed. -/
  | tooLong (projected : Nat) (limit : Nat)
  deriving DecidableEq, Repr

def ConfigError.message : ConfigError → String
  | stepLength value => s!"step length must be positive and finite, got {plainText value}"
  | turnAngle value => s!"turn angle must be positive and finite, got {plainText value} degrees"
  | strength value => s!"adaptation strength must be finite, got {plainText value}"
  | unmapped symbol site => s!"symbol '{symbol}' in {site.text} has no turtle operation"
  | tooLong projected limit =>
    s!"expansion would produce {projected} symbols, limit is {limit}"

namespace Plant

/-- The first of a production's symbols without an operation, key before replacement. -/
def missing? (alphabet : Alphabet) (rule : Symbol × Word) : Option Symbol :=
  (rule.1 :: rule.2).find? fun c => !alphabet.contains c

/-- The first production, by ascending key, with a symbol that has no operation. -/
def missingRule? (alphabet : Alphabet) (productions : Productions) : Option ConfigError :=
  productions.toList.findSome? fun rule =>
    (missing? alphabet rule).map fun c => .unmapped c (.rule rule.1)

/-- Finite and greater than zero. -/
def usable (x : Float32) : Bool := x.isFinite && 0 < x

/-- The first defect of a plant under an alphabet, if it has one. -/
def check (alphabet : Alphabet) (p : Plant) : Except ConfigError Unit := do
  unless usable p.settings.stepLength do
    throw (.stepLength p.settings.stepLength)
  unless usable p.settings.turnAngle do
    throw (.turnAngle p.settings.turnAngle)
  unless p.settings.strength.isFinite do
    throw (.strength p.settings.strength)
  unless alphabet.contains p.start do
    throw (.unmapped p.start .start)
  if let some defect := missingRule? alphabet p.productions then
    throw defect
  let projected := p.productions.projectedLength p.start p.rounds.toNat
  if p.maxSymbols.toNat < projected then
    throw (.tooLong projected p.maxSymbols.toNat)

end Plant

end Arbor
