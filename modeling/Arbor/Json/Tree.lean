import Arbor.Number.Digits
import Arbor.SymbolMap

/-!
# JSON values

The syntax tree of JSON text.  It keeps what a reader may still want to judge: numbers as they are
spelled, object members in order and with repeated keys, and strings in which an escape names only
one half of a surrogate pair.
-/

namespace Arbor

/-- How the power of ten of a numeral is marked. -/
inductive PowerMark where
  | bare
  | plus
  | minus
  deriving DecidableEq, Repr

structure Power where
  mark : PowerMark
  digits : List Digit
  deriving DecidableEq, Repr

/-- A number as it is spelled. -/
structure Numeral where
  negative : Bool
  whole : List Digit
  /-- The digits after the point; none when there is no point. -/
  fraction : List Digit
  power : Option Power
  deriving DecidableEq, Repr

inductive TextUnit where
  | scalar (c : Char)
  /-- One half of a surrogate pair, without the other. -/
  | half (code : Nat)
  deriving DecidableEq, Repr

abbrev Text := List TextUnit

namespace Text

def ofWord (w : Word) : Text := w.map .scalar

/-- The word that string contents spell, unless they hold half a surrogate pair. -/
def word? : Text → Option Word
  | [] => some []
  | .scalar c :: rest => (word? rest).map (c :: ·)
  | .half _ :: _ => none

@[simp] theorem word?_ofWord (w : Word) : word? (ofWord w) = some w := by
  induction w with
  | nil => rfl
  | cons c w ih => simpa [ofWord, word?] using ih

end Text

/-- A JSON value. -/
inductive Json where
  | null
  | bool (b : Bool)
  | number (n : Numeral)
  | string (t : Text)
  | array (items : List Json)
  | object (members : List (Text × Json))
  deriving Repr

end Arbor
