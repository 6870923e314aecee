import Arbor.Branch
import Arbor.Geometry.Pose
import Arbor.Json.Form
import Arbor.Surface

/-!
# JSON forms of geometric values

Vectors and quaternions are arrays of their components; poses, branches and surfaces are records.
-/

namespace Arbor

open JsonForm

instance : JsonForm Vec3 where
  toJson v := .array [toJson v.x, toJson v.y, toJson v.z]
  ofJson?
    | .array [x, y, z] => do return ⟨← ofJson? x, ← ofJson? y, ← ofJson? z⟩
    | _ => none

instance : JsonForm Quat where
  toJson q := .array [toJson q.x, toJson q.y, toJson q.z, toJson q.w]
  ofJson?
    | .array [x, y, z, w] => do return ⟨← ofJson? x, ← ofJson? y, ← ofJson? z, ← ofJson? w⟩
    | _ => none

instance : JsonForm Pose where
  toJson p := .record [("position", toJson p.position), ("rotation", toJson p.rotation)]
  ofJson? j := do
    let [position, rotation] ← j.fields? ["position", "rotation"] | none
    return ⟨← ofJson? position, ← ofJson? rotation⟩

instance : JsonForm Branch where
  toJson b := .record [("start", toJson b.start), ("end", toJson b.stop)]
  ofJson? j := do
    let [start, stop] ← j.fields? ["start", "end"] | none
    return ⟨← ofJson? start, ← ofJson? stop⟩

instance : JsonForm Skeleton where
  toJson s := .record [("branches", .array (s.branches.map toJson))]
  ofJson? j := do
    let [branches] ← j.fields? ["branches"] | none
    return ⟨← branches.list? ofJson?⟩

/-- The radius is read as it stands, whatever its sign. -/
instance : JsonForm Sphere where
  toJson s := .record [("center", toJson s.center), ("radius", toJson s.radius)]
  ofJson? j := do
    let [center, radius] ← j.fields? ["center", "radius"] | none
    return ⟨← ofJson? center, ← ofJson? radius⟩

/-- The absence of a surface is `null`. -/
instance : JsonForm Unit where
  toJson _ := .null
  ofJson?
    | .null => some ()
    | _ => none

end Arbor
