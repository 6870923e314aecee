import Arbor.SymbolMap

/-!
# Why a walk fails

Every failure is a property of the symbols alone: an item without an operation, or brackets that do
not match or nest too deep.  Positions count symbols from 0.
-/

namespace Arbor

/-- The number that stands for a symbol in a tokenised word. -/
abbrev SymbolId := Nat

/-- The reasons for which a walk fails. -/
inductive WalkError where
  /-- A symbol outside the alphabet. -/
  | unknownSymbol (position : Nat) (symbol : Symbol)
  /-- A symbol number that stands for no symbol of the alphabet. -/
  | unknownId (position : Nat) (id : SymbolId)
  /-- A pose is to be restored and none is saved. -/
  | unbalancedPop (position : Nat)
  /-- The word ended while poses were still saved. -/
  | unclosed (depth : Nat)
  /-- A pose is to be saved and as many as allowed already are. -/
  | tooDeep (position : Nat) (limit : Nat)
  deriving DecidableEq, Repr, Inhabited

namespace WalkError

/-- Where the offending symbol stands; a word that ends too early has no such place. -/
def position? : WalkError → Option Nat
  | unknownSymbol position _ => some position
  | unknownId position _ => some position
  | unbalancedPop position => some position
  | unclosed _ => none
  | tooDeep position _ => some position

/-- Whether the brackets are at fault, as opposed to the alphabet. -/
def isStructural : WalkError → Bool
  | unknownSymbol .. => false
  | unknownId .. => false
  | unbalancedPop _ => true
  | unclosed _ => true
  | tooDeep .. => true

def message : WalkError → String
  | unknownSymbol position symbol =>
    s!"unrecognized symbol '{symbol}' at position {position}"
  | unknownId position id => s!"unmapped symbol id {id} at position {position}"
  | unbalancedPop position => s!"unbalanced ']' at position {position}: pose stack is empty"
  | unclosed depth => s!"string ended with {depth} unclosed '[' branch(es)"
  | tooDeep position limit =>
    s!"pose stack overflow at position {position}: depth limit is {limit}"

end WalkError

end Arbor
