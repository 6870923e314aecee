import Mathlib
import Arbor.Turtle.Forest

/-!
# What one operation does

A walk is a run of `State.perform` over the operations of a word, so whatever is proved about walks
is proved by asking what one operation does to the state.  This file says it once for each
operation, with the condition under which it is done, and the theory of walks cites these lemmas
instead of unfolding the step.

`State.resume` is the state between the word of a pacer that lets the turtle go on and the growth
that follows; a draw under such a pacer is growth from there (`draw_of_go`).  `State.Step` lists all
that an operation can do, one constructor for each way it can go, and `step_perform` says that it
does one of these, so a fact about every operation is a case analysis of `Step`.
`Turtle.follow_eq_follow_ops` lets a word whose symbols all have an operation be followed as the
list of its operations.
-/

namespace Arbor

namespace State

variable {σ : Type}

/-- The branches that have been handed over, first one first. -/
def branches (s : State σ) : List Branch := s.journal.reverse.filterMap Call.branch?

/-- The turtle after its pacer said that it may go on. -/
def resume (host : Host σ) (s : State σ) : State σ :=
  { s with
    journal := .pace s.drawn .go :: s.journal
    host := (host.pace s.host s.drawn).2 }

section Journal

variable (trig : Trig) (settings : Settings) (host : Host σ) (s : State σ)

@[simp] lemma branches_resume : (s.resume host).branches = s.branches := by
  simp [branches, resume, Call.branch?]

/-- Growth hands over the branch of a draw without a pacer, after all others. -/
@[simp] lemma branches_grow :
    (s.grow trig settings host).branches =
      s.branches ++ (Forest.drawFrom trig settings host s.pose s.host).branches := by
  simp [branches, grow, reach, ask, pass, Forest.drawFrom, Call.branch?, List.filterMap_cons]

end Journal

section Pass

variable (s : State σ) (pose : Pose) (saved : List Pose)

@[simp] lemma pass_pose : (s.pass pose saved).pose = pose := rfl

@[simp] lemma pass_saved : (s.pass pose saved).saved = saved := rfl

@[simp] lemma pass_passed : (s.pass pose saved).passed = s.passed + 1 := rfl

@[simp] lemma pass_deepest : (s.pass pose saved).deepest = s.deepest := rfl

@[simp] lemma pass_host : (s.pass pose saved).host = s.host := rfl

@[simp] lemma branches_pass : (s.pass pose saved).branches = s.branches := rfl

end Pass

/-- The turtle after it has saved its pose. -/
def save (s : State σ) : State σ :=
  { s.pass s.pose (s.pose :: s.saved) with deepest := max s.deepest (s.saved.length + 1) }

section Save

variable (s : State σ)

@[simp] lemma save_saved : s.save.saved = s.pose :: s.saved := rfl

@[simp] lemma save_passed : s.save.passed = s.passed + 1 := rfl

@[simp] lemma save_deepest : s.save.deepest = max s.deepest (s.saved.length + 1) := rfl

end Save

section Perform

variable {trig : Trig} {settings : Settings} {host : Host σ} {s : State σ}

/-- Whatever growth may be, it is done when the pacer lets the turtle go on. -/
lemma paced_of_go {grow : State σ → State σ} (hgo : (host.pace s.host s.drawn).1 = .go) :
    paced host grow s = .ready (grow (s.resume host)) := by
  unfold paced resume
  split
  · rename_i h hstop
    simp [hstop] at hgo
  · rename_i h hpace
    rw [hpace]

/-- A draw grows when the pacer lets the turtle go on. -/
lemma draw_of_go (hgo : (host.pace s.host s.drawn).1 = .go) :
    s.draw trig settings host = .ready ((s.resume host).grow trig settings host) :=
  paced_of_go hgo

/-- A pose is saved as long as the limit is not reached. -/
lemma push_of_lt (hfree : s.saved.length < settings.maxDepth.toNat) :
    s.push settings = .ready s.save := by
  rw [push, if_neg (Nat.not_le.2 hfree)]
  rfl

lemma push_of_le (hfull : settings.maxDepth.toNat ≤ s.saved.length) :
    s.push settings = .failed s (.tooDeep s.passed settings.maxDepth.toNat) := by
  rw [push, if_pos hfull]

/-- The turtle goes back to the pose saved last. -/
lemma pop_of_cons {pose : Pose} {saved : List Pose} (hsaved : s.saved = pose :: saved) :
    s.pop = .ready (s.pass pose saved) := by
  simp only [pop, hsaved]

lemma pop_of_nil (hsaved : s.saved = []) : s.pop = .failed s (.unbalancedPop s.passed) := by
  simp only [pop, hsaved]

end Perform

/-! ## All that an operation can do -/

/-- The turtle after its pacer said that it must stop. -/
def refuse (host : Host σ) (s : State σ) : State σ :=
  { s with
    journal := .pace s.drawn .stop :: s.journal
    host := (host.pace s.host s.drawn).2 }

@[simp] lemma branches_refuse (host : Host σ) (s : State σ) :
    (s.refuse host).branches = s.branches := by
  simp [branches, refuse, Call.branch?]

lemma paced_of_stop {host : Host σ} {grow : State σ → State σ} {s : State σ}
    (hstop : (host.pace s.host s.drawn).1 = .stop) :
    paced host grow s = .stopped (s.refuse host) := by
  unfold paced refuse
  split
  · rename_i h hpace
    rw [hpace]
  · rename_i h hgo
    simp [hgo] at hstop

lemma draw_of_stop {trig : Trig} {settings : Settings} {host : Host σ} {s : State σ}
    (hstop : (host.pace s.host s.drawn).1 = .stop) :
    s.draw trig settings host = .stopped (s.refuse host) :=
  paced_of_stop hstop

/-- What an operation does to a state, with the condition under which it does that. -/
inductive Step (trig : Trig) (settings : Settings) (host : Host σ) (s : State σ) :
    Op → Progress σ → Prop
  | draw (hgo : (host.pace s.host s.drawn).1 = .go) :
      Step trig settings host s .draw (.ready ((s.resume host).grow trig settings host))
  | refused (hstop : (host.pace s.host s.drawn).1 = .stop) :
      Step trig settings host s .draw (.stopped (s.refuse host))
  | turn (sign : Float32) :
      Step trig settings host s (.turn sign)
        (.ready (s.pass (s.pose.turnZ trig (settings.turnAngle * sign)) s.saved))
  | ignore : Step trig settings host s .ignore (.ready (s.pass s.pose s.saved))
  | push (hfree : s.saved.length < settings.maxDepth.toNat) :
      Step trig settings host s .push (.ready s.save)
  | tooDeep (hfull : settings.maxDepth.toNat ≤ s.saved.length) :
      Step trig settings host s .push (.failed s (.tooDeep s.passed settings.maxDepth.toNat))
  | pop {pose : Pose} {saved : List Pose} (hsaved : s.saved = pose :: saved) :
      Step trig settings host s .pop (.ready (s.pass pose saved))
  | unbalanced (hsaved : s.saved = []) :
      Step trig settings host s .pop (.failed s (.unbalancedPop s.passed))

/-- Every operation does one of these. -/
lemma step_perform (trig : Trig) (settings : Settings) (host : Host σ) (s : State σ) (op : Op) :
    s.Step trig settings host op (s.perform trig settings (draw trig settings host) op) := by
  cases op with
  | draw =>
      rw [perform]
      cases hpace : (host.pace s.host s.drawn).1 with
      | go =>
          rw [draw_of_go hpace]
          exact .draw hpace
      | stop =>
          rw [draw_of_stop hpace]
          exact .refused hpace
  | turn sign => exact .turn sign
  | ignore => exact .ignore
  | push =>
      rw [perform]
      by_cases hfree : s.saved.length < settings.maxDepth.toNat
      · rw [push_of_lt hfree]
        exact .push hfree
      · rw [push_of_le (Nat.not_lt.1 hfree)]
        exact .tooDeep (Nat.not_lt.1 hfree)
  | pop =>
      rw [perform]
      cases hsaved : s.saved with
      | nil =>
          rw [pop_of_nil hsaved]
          exact .unbalanced hsaved
      | cons pose saved =>
          rw [pop_of_cons hsaved]
          exact .pop hsaved

section Follow

variable {α : Type} {trig : Trig} {settings : Settings} {draw : State σ → Progress σ}
  {read : ℕ → α → Except WalkError Op} {s : State σ} {item : α}

lemma follow_cons_of_ok {op : Op} (hread : read s.passed item = .ok op) (rest : List α) :
    s.follow trig settings draw read (item :: rest) =
      (s.perform trig settings draw op).andThen fun s => s.follow trig settings draw read rest := by
  rw [follow_cons, hread]

/-- An item that cannot be read ends the walk before anything is done for it. -/
lemma follow_cons_of_error {e : WalkError} (hread : read s.passed item = .error e)
    (rest : List α) : s.follow trig settings draw read (item :: rest) = .failed s e := by
  rw [follow_cons, hread]

end Follow

end State

namespace Run

variable {σ : Type}

@[simp] lemma outcome_withoutPaces (r : Run σ) : r.withoutPaces.outcome = r.outcome := rfl

/-- Without its calls on the pacer a run has the same branches. -/
@[simp] lemma branches_withoutPaces (r : Run σ) : r.withoutPaces.branches = r.branches := by
  simp only [branches, withoutPaces, List.filterMap_filter]
  congr 1
  funext c
  cases c <;> rfl

end Run

namespace Turtle

variable {σ : Type} {t : Turtle}

lemma read_of_get? {c : Symbol} {op : Op} (h : t.alphabet.get? c = some op) (position : ℕ) :
    t.read position c = .ok op := by
  simp only [read, h]

lemma read_of_get?_none {c : Symbol} (h : t.alphabet.get? c = none) (position : ℕ) :
    t.read position c = .error (.unknownSymbol position c) := by
  simp only [read, h]

/-- A word whose symbols all have an operation is followed as the list of these operations. -/
lemma follow_eq_follow_ops (trig : Trig) (settings : Settings) (draw : State σ → Progress σ)
    {w : Word} (hmapped : ∀ c ∈ w, t.alphabet.contains c) (s : State σ) :
    s.follow trig settings draw t.read w =
      s.follow trig settings draw (fun _ op => .ok op) (t.alphabet.ops w) := by
  induction w generalizing s with
  | nil => rfl
  | cons c w ih =>
      obtain ⟨op, hop⟩ := Option.isSome_iff_exists.1 (hmapped c List.mem_cons_self)
      rw [Alphabet.ops_cons_of_get? hop, State.follow_cons_of_ok (read_of_get? hop _),
        State.follow_cons_of_ok rfl]
      congr 1
      funext s
      exact ih (fun d hd => hmapped d (List.mem_cons_of_mem _ hd)) s

end Turtle

end Arbor
