import Arbor.SymbolMap

/-!
# Turtle operations and alphabets

An alphabet says which operation each symbol stands for.  A symbol outside the alphabet stops a
walk; one that is in it as `Op.ignore` is passed over.
-/

namespace Arbor

/-- What a symbol asks of the turtle. -/
inductive Op where
  /-- Step forward, bend against the surface and leave a branch behind. -/
  | draw
  /-- Turn around the third axis by `sign` times the turning angle. -/
  | turn (sign : Float32)
  | push
  | pop
  | ignore
  deriving DecidableEq, BEq, Repr, Inhabited

/-- The operation of every symbol that has one. -/
abbrev Alphabet := SymbolMap Op

namespace Alphabet

/-- The standard plant symbols: `F` draws, `+` and `-` turn, brackets save and restore the pose,
and `X` and `Z` stand for buds that only the productions know. -/
def standardOps : List (Symbol × Op) :=
  [('F', .draw), ('+', .turn (-1)), ('-', .turn 1), ('[', .push), (']', .pop), ('X', .ignore),
    ('Z', .ignore)]

def standard : Alphabet := SymbolMap.ofList standardOps

end Alphabet

end Arbor
