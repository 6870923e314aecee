import Arbor.Json.Numeral
import Arbor.Json.Parser
import Arbor.Json.Printer

/-!
# Values with a JSON form

`JsonForm α` says how the values of a type are written as JSON and read back; `JsonForm.write` and
`JsonForm.read?` go all the way to text.  A record is written as an object with its fields in a fixed
order.  It is read from an object whose members may stand in any order, among others that are
ignored, or from an array of the fields alone (`Json.fields?`).
-/

namespace Arbor

/-- A type whose values can be written as JSON and read from it. -/
class JsonForm (α : Type) where
  toJson : α → Json
  ofJson? : Json → Option α

namespace JsonForm

variable {α : Type} [JsonForm α]

def write (a : α) : String := String.ofList (toJson a).print

/-- The value that a JSON text stands for. -/
def read? (s : String) : Option α := (Json.parse? s.toList).bind ofJson?

end JsonForm

namespace Json

/-! ## Strings and objects -/

def word? : Json → Option Word
  | .string t => t.word?
  | _ => none

def symbol? (j : Json) : Option Symbol :=
  match j.word? with
  | some [c] => some c
  | _ => none

/-- A record: its fields under their names, in order. -/
def record (fields : List (String × Json)) : Json :=
  .object (fields.map fun f => (Text.ofWord f.1.toList, f.2))

/-- The only member under a name. -/
def member? (members : List (Text × Json)) (name : String) : Option Json :=
  match members.filter fun m => m.1 == Text.ofWord name.toList with
  | [m] => some m.2
  | _ => none

/-- The fields of a record, in the order of their names.  In an object each name stands once and
every name is a word; an array holds the fields and nothing else. -/
def fields? (names : List String) : Json → Option (List Json)
  | .array items => if items.length = names.length then some items else none
  | .object members =>
    if members.all fun m => m.1.word?.isSome then names.mapM (member? members) else none
  | _ => none

/-- The fields of a record that has no others. -/
def onlyFields? (names : List String) (j : Json) : Option (List Json) :=
  match j with
  | .object members =>
    if members.length = names.length then j.fields? names else none
  | j => j.fields? names

/-- The items of an array, all read as values of one type. -/
def list? {α : Type} (item? : Json → Option α) : Json → Option (List α)
  | .array items => items.mapM item?
  | _ => none

end Json

/-! ## Basic types -/

instance : JsonForm Bool where
  toJson b := .bool b
  ofJson?
    | .bool b => some b
    | _ => none

/-- Counts are below 2^64. -/
instance : JsonForm Nat where
  toJson n := .number (.ofNat n)
  ofJson?
    | .number n => n.count? UInt64.size
    | _ => none

instance : JsonForm UInt64 where
  toJson n := JsonForm.toJson n.toNat
  ofJson? j := (JsonForm.ofJson? j : Option Nat).map UInt64.ofNat

/-- Measures that are not finite are written as `null`, which is no number when read. -/
instance : JsonForm Float32 where
  toJson f := ((Numeral.ofSingle? f).map Json.number).getD .null
  ofJson?
    | .number n => n.single?
    | _ => none

instance : JsonForm Word where
  toJson w := .string (Text.ofWord w)
  ofJson? := Json.word?

instance : JsonForm Symbol where
  toJson c := JsonForm.toJson ([c] : Word)
  ofJson? := Json.symbol?

end Arbor
