import Arbor.Json.Geometry
import Arbor.Turtle.Walk

/-!
# JSON forms of turtle values

An operation is its name, or an object with its name over its argument; the name alone may also
stand over `null`.
-/

namespace Arbor

open JsonForm

/-- An operation without an argument, by name. -/
def Op.ofName? (w : Word) : Option Op :=
  if w = "Draw".toList then some .draw
  else if w = "Push".toList then some .push
  else if w = "Pop".toList then some .pop
  else if w = "Ignore".toList then some .ignore
  else none

instance : JsonForm Op where
  toJson
    | .draw => toJson "Draw".toList
    | .turn sign => .record [("Turn", toJson sign)]
    | .push => toJson "Push".toList
    | .pop => toJson "Pop".toList
    | .ignore => toJson "Ignore".toList
  ofJson?
    | .string t => t.word?.bind Op.ofName?
    | .object [(key, value)] => do
      let name ← key.word?
      if name = "Turn".toList then return .turn (← ofJson? value)
      let .null := value | none
      Op.ofName? name
    | _ => none

instance : JsonForm Settings where
  toJson s :=
    .record [("step_length", toJson s.stepLength), ("turn_angle", toJson s.turnAngle),
      ("adaptation_strength", toJson s.strength), ("max_stack_depth", toJson s.maxDepth)]
  ofJson? j := do
    let [step, turn, strength, depth] ←
      j.fields? ["step_length", "turn_angle", "adaptation_strength", "max_stack_depth"] | none
    return ⟨← ofJson? step, ← ofJson? turn, ← ofJson? strength, ← ofJson? depth⟩

instance : JsonForm Report where
  toJson r :=
    .record [("symbols_processed", toJson r.symbols), ("branches_emitted", toJson r.branches),
      ("max_depth", toJson r.deepest), ("completed", toJson r.completed),
      ("final_pose", toJson r.finalPose)]
  ofJson? j := do
    let [symbols, branches, deepest, completed, pose] ←
      j.fields? ["symbols_processed", "branches_emitted", "max_depth", "completed", "final_pose"]
      | none
    return ⟨← ofJson? symbols, ← ofJson? branches, ← ofJson? deepest, ← ofJson? completed,
      ← ofJson? pose⟩

end Arbor
