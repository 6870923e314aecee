import Arbor.Grammar.Productions

/-!
# Built-in plant shapes

Three production sets that grow from the start symbol `X`.
-/

namespace Arbor

inductive Preset where
  | climbing
  | bushy
  | dense
  deriving DecidableEq, Repr

namespace Preset

instance : Inhabited Preset := ⟨climbing⟩

/-- The symbol every built-in shape grows from. -/
def start : Symbol := 'X'

/-- Shapes by number: 1 is climbing, 2 is bushy, every other number is dense. -/
def ofIndex (i : Int) : Preset :=
  if i = 1 then climbing else if i = 2 then bushy else dense

def name : Preset → String
  | climbing => "Climbing"
  | bushy => "Bushy"
  | dense => "Dense"

def ofName? (s : String) : Option Preset :=
  [climbing, bushy, dense].find? fun shape => shape.name == s

def productions : Preset → Productions
  | climbing => .ofList [('X', "[F-[[X]+X]+F[+FX]-X]".toList), ('F', "FF".toList)]
  | bushy => .ofList [('X', "F+[-F-XF-X][+FF][--XF[+X]][++F-X]".toList), ('F', "FF".toList)]
  | dense =>
    .ofList [('X', "FF[+XZ++X-F[+ZX]][-X++F-X]".toList), ('Z', "[+F-X-F][++ZX]".toList),
      ('F', "FX[FX[+XF]]".toList)]

end Preset

end Arbor
