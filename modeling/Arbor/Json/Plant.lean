import Arbor.Json.Turtle
import Arbor.Plant.Config

/-!
# JSON forms of grammars and plants

Productions are a record around an object with one member per symbol, by ascending symbol.  When they
are read the last member for a symbol counts.
-/

namespace Arbor

open JsonForm

instance : JsonForm Preset where
  toJson shape := toJson shape.name.toList
  ofJson?
    | .string t => t.word?.bind fun w => Preset.ofName? (String.ofList w)
    | .object [(key, .null)] => key.word?.bind fun w => Preset.ofName? (String.ofList w)
    | _ => none

/-- One member of the object of productions. -/
def Productions.ofMember? (m : Text × Json) : Option (Symbol × Word) := do
  let [c] ← m.1.word? | none
  return (c, ← ofJson? m.2)

instance : JsonForm Productions where
  toJson p :=
    .record [("rules", .object (p.toList.map fun r => (Text.ofWord [r.1], toJson r.2)))]
  ofJson? j := do
    let [.object members] ← j.fields? ["rules"] | none
    return .ofList (← members.mapM Productions.ofMember?)

/-- Nanoseconds are read up to 2^32 - 1; whole seconds among them are carried, and the sum has to
stay below 2^64 seconds. -/
instance : JsonForm Duration where
  toJson d := .record [("secs", toJson d.seconds), ("nanos", toJson d.nanos.val)]
  ofJson? j := do
    let [secs, .number nanos] ← j.onlyFields? ["secs", "nanos"] | none
    let secs : Nat ← ofJson? secs
    let nanos ← nanos.count? UInt32.size
    let seconds := secs + nanos / 1000000000
    if seconds < UInt64.size then
      return ⟨UInt64.ofNat seconds, ⟨nanos % 1000000000, Nat.mod_lt _ (by decide)⟩⟩
    else none

instance : JsonForm Plant where
  toJson p :=
    .record [("axiom", toJson p.start), ("rules", toJson p.productions),
      ("iterations", toJson p.rounds), ("turtle", toJson p.settings),
      ("initial_pose", toJson p.pose), ("step_delay", toJson p.delay),
      ("max_symbols", toJson p.maxSymbols)]
  ofJson? j := do
    let [start, productions, rounds, settings, pose, delay, maxSymbols] ←
      j.fields? ["axiom", "rules", "iterations", "turtle", "initial_pose", "step_delay",
        "max_symbols"]
      | none
    return ⟨← ofJson? start, ← ofJson? productions, ← ofJson? rounds, ← ofJson? settings,
      ← ofJson? pose, ← ofJson? delay, ← ofJson? maxSymbols⟩

end Arbor
