import Arbor.Turtle.Brackets

/-!
# Bracket forests

A list of operations with matching brackets is the flattening of a forest whose leaves draw, turn or
do nothing and whose groups stand for a pair of brackets with what is between them.  A forest can be
walked without saved poses: a group is walked from the pose at its opening, and that pose is what
follows it (`Forest.walk`).
-/

namespace Arbor

/-- An operation that is no bracket. -/
inductive Leaf where
  | draw
  | turn (sign : Float32)
  | ignore
  deriving DecidableEq, Repr

def Leaf.op : Leaf → Op
  | draw => .draw
  | turn sign => .turn sign
  | ignore => .ignore

/-- Leaves and groups in a row. -/
inductive Forest where
  | nil
  | leaf (op : Leaf) (rest : Forest)
  | group (inner rest : Forest)
  deriving DecidableEq, Repr

namespace Forest

/-- The operations of a forest, a group between its brackets. -/
def flatten : Forest → List Op
  | nil => []
  | leaf op rest => op.op :: rest.flatten
  | group inner rest => .push :: (inner.flatten ++ .pop :: rest.flatten)

/-- How deep the groups nest. -/
def height : Forest → Nat
  | nil => 0
  | leaf _ rest => rest.height
  | group inner rest => max (inner.height + 1) rest.height

/-- Where a walk of a forest ends, and what it draws on the way. -/
structure Stretch (σ : Type) where
  pose : Pose
  branches : List Branch
  host : σ

/-- One draw from a pose, without a pacer. -/
def drawFrom {σ : Type} (trig : Trig) (settings : Settings) (host : Host σ) (pose : Pose) (h : σ) :
    Stretch σ :=
  let there := pose.advance settings.stepLength
  let (answer, h) := host.nearest h there.position
  let bent := (there.steer trig answer settings.strength).1
  let branch : Branch := ⟨pose.position, bent.position⟩
  ⟨bent, [branch], host.emit h branch⟩

def walk {σ : Type} (trig : Trig) (settings : Settings) (host : Host σ) :
    Forest → Pose → σ → Stretch σ
  | nil, pose, h => ⟨pose, [], h⟩
  | leaf .draw rest, pose, h =>
    let first := drawFrom trig settings host pose h
    let more := rest.walk trig settings host first.pose first.host
    { more with branches := first.branches ++ more.branches }
  | leaf (.turn sign) rest, pose, h =>
    rest.walk trig settings host (pose.turnZ trig (settings.turnAngle * sign)) h
  | leaf .ignore rest, pose, h => rest.walk trig settings host pose h
  | group inner rest, pose, h =>
    let aside := inner.walk trig settings host pose h
    let more := rest.walk trig settings host pose aside.host
    { more with branches := aside.branches ++ more.branches }

theorem drift_leaf (op : Leaf) : op.op.drift = 0 := by
  cases op <;> rfl

/-- A forest ends at the depth at which it starts. -/
theorem depth_flatten (f : Forest) : depth f.flatten = 0 := by
  induction f with
  | nil => rfl
  | leaf op rest ih => simp [flatten, drift_leaf, ih]
  | group inner rest ihInner ihRest => simp [flatten, ihInner, ihRest, Op.drift]

/-- The height of a forest is the peak of its operations. -/
theorem peak_flatten (f : Forest) : peak f.flatten = f.height := by
  induction f with
  | nil => rfl
  | leaf op rest ih =>
    simp only [flatten, peak, drift_leaf, ih, height]
    omega
  | group inner rest ihInner ihRest =>
    simp only [flatten, peak, peak_append, depth_flatten, ihInner, ihRest, Op.drift, height]
    omega

end Forest

end Arbor
