import Arbor.Geometry.Pose
import Arbor.Turtle.Alphabet
import Arbor.Turtle.Error
import Arbor.Turtle.Host
import Arbor.Turtle.Settings

/-!
# Walking a word

A turtle reads a word from left to right and performs the operation of every symbol.  The state of
a walk holds the current pose, the saved ones and what has been done so far.  `State.perform` is one
operation, given what it takes to draw, and `State.follow` all of a list of items, whatever it is
that an item is looked up in; a list is followed piece by piece (`follow_append`).

`State.draw` asks the pacer, and `State.grow` steps, bends against the surface and hands over the
branch.
`Turtle.walk` follows a word of symbols from a pose with it; its result (`Run`) holds the outcome,
every call that was made on the surroundings, also when the walk failed later, and the state in
which they were left.
-/

namespace Arbor

/-- What a walk did. -/
structure Report where
  /-- Symbols passed, placeholders included. -/
  symbols : Nat
  branches : Nat
  /-- The most poses that were saved at once. -/
  deepest : Nat
  /-- Whether the walk came to the end of its word. -/
  completed : Bool
  finalPose : Pose
  deriving DecidableEq, BEq, Repr, Inhabited

/-- A finished walk. -/
structure Run (σ : Type) where
  /-- The report, or the reason for which there is none. -/
  outcome : Except WalkError Report
  /-- The calls on the surroundings, first call first. -/
  calls : List Call
  host : σ

namespace Run

variable {σ : Type}

def branches (r : Run σ) : List Branch := r.calls.filterMap Call.branch?

/-- The run without the calls on its pacer, for a walk that has none. -/
def withoutPaces (r : Run σ) : Run σ := { r with calls := r.calls.filter fun c => !c.isPace }

end Run

/-- A turtle at work. -/
structure State (σ : Type) where
  pose : Pose
  /-- The saved poses, the last one first. -/
  saved : List Pose
  /-- How many symbols it has passed, which is the position of the next one. -/
  passed : Nat
  drawn : Nat
  /-- The most poses that were saved at once. -/
  deepest : Nat
  /-- The calls on the surroundings, the last one first. -/
  journal : List Call
  host : σ

/-- How a walk goes on after one symbol, or after many. -/
inductive Progress (σ : Type) where
  | ready (s : State σ)
  /-- The pacer stopped the walk before a symbol. -/
  | stopped (s : State σ)
  /-- A symbol could not be performed. -/
  | failed (s : State σ) (e : WalkError)

namespace State

variable {σ α : Type}

def start (pose : Pose) (host : σ) : State σ := ⟨pose, [], 0, 0, 0, [], host⟩

def report (s : State σ) (completed : Bool) : Report :=
  ⟨s.passed, s.drawn, s.deepest, completed, s.pose⟩

/-- The end of a walk with the given outcome. -/
def finish (s : State σ) (outcome : Except WalkError Report) : Run σ :=
  ⟨outcome, s.journal.reverse, s.host⟩

/-- The turtle after a symbol that leaves it at `pose` with `saved` poses. -/
def pass (s : State σ) (pose : Pose) (saved : List Pose) : State σ :=
  { s with pose, saved, passed := s.passed + 1 }

def ask (host : Host σ) (s : State σ) (query : Vec3) : Vec3 × State σ :=
  let (answer, h) := host.nearest s.host query
  (answer, { s with journal := .query query answer :: s.journal, host := h })

/-- The turtle at `pose`, with the branch that leads there handed over. -/
def reach (host : Host σ) (s : State σ) (pose : Pose) : State σ :=
  let branch : Branch := ⟨s.pose.position, pose.position⟩
  { s.pass pose s.saved with
    drawn := s.drawn + 1
    journal := .emit branch :: s.journal
    host := host.emit s.host branch }

/-- Step forward, bend against the surface and hand over the branch. -/
def grow (trig : Trig) (settings : Settings) (host : Host σ) (s : State σ) : State σ :=
  let there := s.pose.advance settings.stepLength
  let (answer, s) := s.ask host there.position
  s.reach host (there.steer trig answer settings.strength).1

/-- Do `grow`, unless the pacer objects. -/
def paced (host : Host σ) (grow : State σ → State σ) (s : State σ) : Progress σ :=
  match host.pace s.host s.drawn with
  | (.stop, h) => .stopped { s with journal := .pace s.drawn .stop :: s.journal, host := h }
  | (.go, h) => .ready (grow { s with journal := .pace s.drawn .go :: s.journal, host := h })

/-- The draw of a walk: ask the pacer, then grow. -/
def draw (trig : Trig) (settings : Settings) (host : Host σ) : State σ → Progress σ :=
  paced host (grow trig settings host)

def push (settings : Settings) (s : State σ) : Progress σ :=
  if settings.maxDepth.toNat ≤ s.saved.length then
    .failed s (.tooDeep s.passed settings.maxDepth.toNat)
  else
    .ready { s.pass s.pose (s.pose :: s.saved) with deepest := max s.deepest (s.saved.length + 1) }

def pop (s : State σ) : Progress σ :=
  match s.saved with
  | [] => .failed s (.unbalancedPop s.passed)
  | pose :: saved => .ready (s.pass pose saved)

/-- One operation, given what it takes to draw. -/
def perform (trig : Trig) (settings : Settings) (draw : State σ → Progress σ) (s : State σ) :
    Op → Progress σ
  | .draw => draw s
  | .turn sign => .ready (s.pass (s.pose.turnZ trig (settings.turnAngle * sign)) s.saved)
  | .push => s.push settings
  | .pop => s.pop
  | .ignore => .ready (s.pass s.pose s.saved)

/-- The operations of a list of items, as far as the walk gets.  `read` gives the operation of the
item at a position. -/
def follow (trig : Trig) (settings : Settings) (draw : State σ → Progress σ)
    (read : Nat → α → Except WalkError Op) : State σ → List α → Progress σ
  | s, [] => .ready s
  | s, item :: rest =>
    match read s.passed item with
    | .error e => .failed s e
    | .ok op =>
      match s.perform trig settings draw op with
      | .ready s => follow trig settings draw read s rest
      | halted => halted

end State

namespace Progress

variable {σ : Type}

/-- The end of the walk when no symbol is left: every saved pose has to be restored by then. -/
def run : Progress σ → Run σ
  | ready s =>
    s.finish (if s.saved.isEmpty then .ok (s.report true) else .error (.unclosed s.saved.length))
  | stopped s => s.finish (.ok (s.report false))
  | failed s e => s.finish (.error e)

/-- Go on with `next` where the walk has not halted. -/
def andThen (p : Progress σ) (next : State σ → Progress σ) : Progress σ :=
  match p with
  | ready s => next s
  | halted => halted

end Progress

/-- An alphabet with the settings to walk by. -/
structure Turtle where
  alphabet : Alphabet
  settings : Settings
  deriving BEq, Inhabited

namespace Turtle

variable {σ : Type}

def blank (settings : Settings) : Turtle := ⟨SymbolMap.empty, settings⟩

/-- A turtle that knows the standard plant symbols. -/
def standard (settings : Settings) : Turtle := ⟨Alphabet.standard, settings⟩

def read (t : Turtle) (position : Nat) (symbol : Symbol) : Except WalkError Op :=
  match t.alphabet.get? symbol with
  | some op => .ok op
  | none => .error (.unknownSymbol position symbol)

def walk (trig : Trig) (t : Turtle) (host : Host σ) (h : σ) (pose : Pose) (word : Word) : Run σ :=
  ((State.start pose h).follow trig t.settings (State.draw trig t.settings host) t.read word).run

/-- Walk a word from a pose without a pacer. -/
def walkUnpaced (trig : Trig) (t : Turtle) (host : Host σ) (h : σ) (pose : Pose) (word : Word) :
    Run σ :=
  (t.walk trig host.unpaced h pose word).withoutPaces

/-- Walk a word of standard plant symbols with the default limit on saved poses and no pacer. -/
def walkStandard (trig : Trig) (stepLength turnAngle strength : Float32) (host : Host σ) (h : σ)
    (pose : Pose) (word : Word) : Run σ :=
  (standard { stepLength, turnAngle, strength }).walkUnpaced trig host h pose word

end Turtle

namespace State

variable {σ α : Type}

/-! ## Following a list piece by piece -/

variable (trig : Trig) (settings : Settings) (draw : State σ → Progress σ)
  (read : Nat → α → Except WalkError Op)

@[simp] theorem follow_nil (s : State σ) : s.follow trig settings draw read [] = .ready s := rfl

theorem follow_cons (s : State σ) (item : α) (rest : List α) :
    s.follow trig settings draw read (item :: rest) =
      match read s.passed item with
      | .error e => .failed s e
      | .ok op =>
        (s.perform trig settings draw op).andThen fun s => s.follow trig settings draw read rest := by
  rw [follow]
  split
  · rfl
  · cases s.perform trig settings draw _ <;> rfl

/-- A list is followed piece by piece. -/
theorem follow_append (s : State σ) (front back : List α) :
    s.follow trig settings draw read (front ++ back) =
      (s.follow trig settings draw read front).andThen fun s =>
        s.follow trig settings draw read back := by
  induction front generalizing s with
  | nil => rfl
  | cons item front ih =>
    rw [List.cons_append, follow_cons, follow_cons]
    split
    · rfl
    · cases s.perform trig settings draw _ with
      | ready t => exact ih t
      | stopped t => rfl
      | failed t e => rfl

end State

end Arbor
