import Arbor.Proofs.Geometry.Angles
import Arbor.Proofs.Geometry.Inside
import Arbor.Proofs.Turtle.Runs
import Arbor.Turtle.Straight

/-!
# Surfaces that bend nothing

A surface is asked before every branch, and what it answers may turn the pose that the branch leads
to.  A walk is straight all the same when its surface turns none of the poses to which the straight
walk draws (`Turtle.walk_eq_walkStraight`): up to the calls on the surface it is then the straight
walk, with its outcome, the words of its pacer and its branches.  Only poses that a walk really
draws to are looked at (`State.straightPoses`), so the walk may fail or be stopped anywhere.

There are two reasons for which a pose is not turned.  Without a surface each place is its own nearest
point, and nothing leads from a place to itself, be it infinite or no number
(`Turtle.walk_absent_eq_walkStraight`).  And an angle of strength zero is zero for any answer, unless
the cosine is no finite number (`Turtle.walk_eq_walkStraight_of_strength_zero`).
-/

namespace Arbor

variable {σ : Type}

/-! ## Without the surface -/

/-- Whether the surface was asked. -/
def Call.isQuery : Call → Bool
  | query .. => true
  | _ => false

/-- The run without the calls on its surface. -/
def Run.withoutQueries (r : Run σ) : Run σ :=
  { r with calls := r.calls.filter fun c => !c.isQuery }

/-- The turtle without the calls on its surface. -/
def State.withoutQueries (s : State σ) : State σ :=
  { s with journal := s.journal.filter fun c => !c.isQuery }

namespace Progress

def withoutQueries : Progress σ → Progress σ
  | ready s => .ready s.withoutQueries
  | stopped s => .stopped s.withoutQueries
  | failed s e => .failed s.withoutQueries e

lemma withoutQueries_run (p : Progress σ) : p.run.withoutQueries = p.withoutQueries.run := by
  cases p <;>
    simp only [run, withoutQueries, Run.withoutQueries, State.withoutQueries, State.finish,
      State.report, List.filter_reverse]

end Progress

namespace State

@[simp] lemma pose_withoutQueries (s : State σ) : s.withoutQueries.pose = s.pose := rfl

@[simp] lemma pose_resume (host : Host σ) (s : State σ) : (s.resume host).pose = s.pose := rfl

@[simp] lemma pose_growStraight (settings : Settings) (host : Host σ) (s : State σ) :
    (s.growStraight settings host).pose = s.pose.advance settings.stepLength := rfl

/-! ## One operation -/

variable {trig : Trig} {settings : Settings} {surface : Surface} (host : Host σ) (s : State σ)

/-- Where the surface does not turn the pose ahead, growth is straight. -/
lemma withoutQueries_grow
    (hstill : ((s.pose.advance settings.stepLength).steer trig
      (surface (s.pose.advance settings.stepLength).position) settings.strength).1 =
        s.pose.advance settings.stepLength) :
    (s.grow trig settings (host.beside surface)).withoutQueries =
      s.withoutQueries.growStraight settings host := by
  simp only [grow, ask, Host.beside, hstill]
  rfl

/-- **One operation.**  Unless a draw ends at a pose that the surface turns, the turtle does what it
does on a straight walk. -/
lemma withoutQueries_perform (op : Op)
    (hstill : ∀ u, s.withoutQueries.perform trig settings (drawStraight settings host) op = .ready u →
      op = .draw → (u.pose.steer trig (surface u.pose.position) settings.strength).1 = u.pose) :
    (s.perform trig settings (draw trig settings (host.beside surface)) op).withoutQueries =
      s.withoutQueries.perform trig settings (drawStraight settings host) op := by
  cases op with
  | draw =>
      show (s.draw trig settings (host.beside surface)).withoutQueries =
        s.withoutQueries.drawStraight settings host
      cases hpace : (host.pace s.host s.drawn).1 with
      | go =>
          have hgo : s.draw trig settings (host.beside surface) = _ := draw_of_go hpace
          have hgo' : s.withoutQueries.drawStraight settings host = _ := paced_of_go hpace
          have hpose := hstill _ hgo' rfl
          simp only [pose_growStraight, pose_resume, pose_withoutQueries] at hpose
          rw [hgo, hgo', Progress.withoutQueries,
            withoutQueries_grow host (s.resume (host.beside surface)) hpose]
          rfl
      | stop =>
          have hstop : s.draw trig settings (host.beside surface) = _ := draw_of_stop hpace
          have hstop' : s.withoutQueries.drawStraight settings host = _ := paced_of_stop hpace
          rw [hstop, hstop']
          rfl
  | turn sign => rfl
  | ignore => rfl
  | push =>
      show (s.push settings).withoutQueries = s.withoutQueries.push settings
      by_cases hfree : s.saved.length < settings.maxDepth.toNat
      · rw [push_of_lt hfree, push_of_lt (s := s.withoutQueries) hfree]
        rfl
      · have hfull := Nat.not_lt.1 hfree
        rw [push_of_le hfull, push_of_le (s := s.withoutQueries) hfull]
        rfl
  | pop =>
      show s.pop.withoutQueries = s.withoutQueries.pop
      cases hsaved : s.saved with
      | nil =>
          rw [pop_of_nil hsaved, pop_of_nil (s := s.withoutQueries) hsaved]
          rfl
      | cons pose saved =>
          rw [pop_of_cons hsaved, pop_of_cons (s := s.withoutQueries) hsaved]
          rfl

/-! ## Words -/

/-- The poses to which a straight walk of a word draws, first one first. -/
def straightPoses (trig : Trig) (t : Turtle) (host : Host σ) : State σ → Word → List Pose
  | _, [] => []
  | s, c :: w =>
    match s.follow trig t.settings (drawStraight t.settings host) t.read [c] with
    | .ready s' =>
      if t.alphabet.get? c = some .draw then s'.pose :: s'.straightPoses trig t host w
      else s'.straightPoses trig t host w
    | _ => []

variable {t : Turtle} {c : Symbol} {op : Op} {u : State σ}

lemma straightPoses_cons (hop : t.alphabet.get? c = some op) (w : Word) :
    s.straightPoses trig t host (c :: w) =
      match s.perform trig t.settings (drawStraight t.settings host) op with
      | .ready u =>
        if op = .draw then u.pose :: u.straightPoses trig t host w
        else u.straightPoses trig t host w
      | _ => [] := by
  have hone : s.follow trig t.settings (drawStraight t.settings host) t.read [c] =
      s.perform trig t.settings (drawStraight t.settings host) op := by
    rw [follow_cons_of_ok (Turtle.read_of_get? hop _)]
    cases s.perform trig t.settings (drawStraight t.settings host) op <;> rfl
  simp only [straightPoses, hone, hop, Option.some.injEq]

/-- **A whole word.**  Where the surface turns none of the poses to which the straight walk draws, the
walk is straight. -/
lemma withoutQueries_follow (w : Word)
    (hstill : ∀ p ∈ s.withoutQueries.straightPoses trig t host w,
      (p.steer trig (surface p.position) t.settings.strength).1 = p) :
    (s.follow trig t.settings (draw trig t.settings (host.beside surface)) t.read w).withoutQueries =
      s.withoutQueries.follow trig t.settings (drawStraight t.settings host) t.read w := by
  induction w generalizing s with
  | nil => rfl
  | cons c w ih =>
      cases hop : t.alphabet.get? c with
      | none =>
          have hread := Turtle.read_of_get?_none hop s.passed
          rw [follow_cons_of_error hread, follow_cons_of_error (s := s.withoutQueries) hread]
          rfl
      | some op =>
          rw [straightPoses_cons host _ hop] at hstill
          have hone : (s.perform trig t.settings (draw trig t.settings (host.beside surface))
              op).withoutQueries =
                s.withoutQueries.perform trig t.settings (drawStraight t.settings host) op := by
            refine withoutQueries_perform host s op fun u hready hdraw => hstill _ ?_
            rw [hready]
            show u.pose ∈ if op = .draw then u.pose :: _ else _
            rw [if_pos hdraw]
            exact List.mem_cons_self
          have hread := Turtle.read_of_get? hop s.passed
          rw [follow_cons_of_ok hread, follow_cons_of_ok (s := s.withoutQueries) hread, ← hone]
          rw [← hone] at hstill
          cases hperform :
            s.perform trig t.settings (draw trig t.settings (host.beside surface)) op with
          | ready u =>
              rw [hperform] at hstill
              refine ih u fun p hp => hstill p ?_
              show p ∈ if op = .draw then _ else _
              split
              · exact List.mem_cons_of_mem _ hp
              · exact hp
          | stopped u => rfl
          | failed u e => rfl

/-- A straight walk hands over a branch when it draws, and that one ends where the turtle is then. -/
lemma stops_perform_straight (trig : Trig) (settings : Settings) (op : Op) :
    (s.perform trig settings (drawStraight settings host) op).state.branches.map Branch.stop =
      s.branches.map Branch.stop ++
        match s.perform trig settings (drawStraight settings host) op with
        | .ready u => if op = .draw then [u.pose.position] else []
        | _ => [] := by
  cases op with
  | draw =>
      rw [perform, drawStraight]
      cases hpace : (host.pace s.host s.drawn).1 with
      | go =>
          rw [paced_of_go hpace]
          simp [branches, growStraight, reach, resume, pass, Progress.state, Call.branch?,
            List.filterMap_cons]
      | stop =>
          rw [paced_of_stop hpace]
          simp [Progress.state]
  | turn sign => simp [perform, Progress.state]
  | ignore => simp [perform, Progress.state]
  | push =>
      rw [perform, push]
      split <;> simp [Progress.state, branches, pass]
  | pop =>
      rw [perform, pop]
      split <;> simp [Progress.state]

/-- Each branch of a straight walk ends where the walk has drawn to. -/
lemma stops_follow_straight (w : Word) :
    (s.follow trig t.settings (drawStraight t.settings host) t.read w).state.branches.map
        Branch.stop =
      s.branches.map Branch.stop ++ (s.straightPoses trig t host w).map Pose.position := by
  induction w generalizing s with
  | nil => simp [straightPoses, Progress.state]
  | cons c w ih =>
      cases hop : t.alphabet.get? c with
      | none =>
          have hread := Turtle.read_of_get?_none hop s.passed
          simp [straightPoses, follow_cons_of_error hread, Progress.state]
      | some op =>
          rw [follow_cons_of_ok (Turtle.read_of_get? hop _), straightPoses_cons host s hop]
          have hone := stops_perform_straight host s trig t.settings op
          cases hperform : s.perform trig t.settings (drawStraight t.settings host) op with
          | ready u =>
              rw [hperform] at hone
              change u.branches.map Branch.stop = _ at hone
              rw [Progress.andThen, ih, hone, List.append_assoc]
              dsimp only
              split <;> rfl
          | stopped u =>
              rw [hperform] at hone
              exact hone
          | failed u e =>
              rw [hperform] at hone
              exact hone

end State

/-! ## Poses that are not turned -/

/-- Strength zero turns no pose for which the cosine is a finite number, whatever the axis may be. -/
lemma Pose.steer_of_strength_zero (trig : Trig) {p : Pose} {nearest : Vec3} {strength : Float32}
    (hzero : strength == 0) (hcosine : ((p.toward nearest).dot p.up).isFinite) :
    (p.steer trig nearest strength).1 = p := by
  have hangle : Float32Alike ((p.toward nearest).dot p.up * strength) 0 :=
    (Float32Alike.mul (.refl _) (.inl hzero)).trans (.mul_zero hcosine)
  have hstill : ((p.toward nearest).dot p.up * strength != 0) = false := hangle.bne_zero
  simp only [Pose.steer, hstill]
  split <;> rfl

/-! ## Walks -/

namespace Turtle

variable (trig : Trig) (t : Turtle) (host : Host σ) (h : σ) (pose : Pose) (w : Word)

/-- The poses to which the straight walk of a word draws, first one first. -/
def straightPoses : List Pose := (State.start pose h).straightPoses trig t host w

/-- These are the poses at the ends of its branches. -/
lemma stops_walkStraight :
    (t.walkStraight trig host h pose w).branches.map Branch.stop =
      (t.straightPoses trig host h pose w).map Pose.position := by
  rw [walkStraight, Progress.branches_run, State.stops_follow_straight]
  rfl

/-- A surface that turns none of the poses to which the straight walk draws bends nothing. -/
lemma walk_eq_walkStraight {surface : Surface}
    (hstill : ∀ p ∈ t.straightPoses trig host h pose w,
      (p.steer trig (surface p.position) t.settings.strength).1 = p) :
    (t.walk trig (host.beside surface) h pose w).withoutQueries =
      t.walkStraight trig host h pose w := by
  rw [walk, Progress.withoutQueries_run, State.withoutQueries_follow host (State.start pose h) w hstill]
  rfl

/-- **Without a surface walks are straight.**  Let the direction of growth be finite at every pose to
which the straight walk draws.  Then a walk without a surface is, up to the calls on the surface, the
straight walk: it ends with the same report or error, hears the same words from its pacer and hands
over the same branches, bit for bit.  The strength may be any number or none, and positions may
overflow. -/
theorem walk_absent_eq_walkStraight
    (hup : ∀ p ∈ t.straightPoses trig host h pose w, p.up.isFinite) :
    (t.walk trig (host.beside Surface.absent) h pose w).withoutQueries =
      t.walkStraight trig host h pose w := by
  apply walk_eq_walkStraight
  intro p hp
  exact congrArg Prod.fst (p.steer_of_alike_position trig (.refl _) (hup p hp) _)

/-- A turtle whose steps are so long that two of them overflow, and whose strength is no number. -/
def striding : Turtle := standard { stepLength := 3e38, strength := 0 / 0 }

/-- It goes straight on to infinity. -/
theorem walk_absent_of_overflow :
    (∀ p ∈ striding.straightPoses Trig.turning (Host.plain .unlimited Surface.absent) ()
      Pose.origin "F[+F]FF".toList, p.up.isFinite) ∧
    (striding.walk Trig.turning ((Host.plain .unlimited Surface.absent).beside Surface.absent) ()
        Pose.origin "F[+F]FF".toList).withoutQueries =
      striding.walkStraight Trig.turning (Host.plain .unlimited Surface.absent) () Pose.origin
        "F[+F]FF".toList ∧
    (striding.walkStraight Trig.turning (Host.plain .unlimited Surface.absent) () Pose.origin
        "F[+F]FF".toList).branches.map (fun b => b.stop.isFinite) = [true, false, false, false] := by
  have hup : ∀ p ∈ striding.straightPoses Trig.turning (Host.plain .unlimited Surface.absent) ()
      Pose.origin "F[+F]FF".toList, p.up.isFinite := by
    decide +kernel
  exact ⟨hup, walk_absent_eq_walkStraight _ _ _ _ _ _ hup, by decide +kernel⟩

/-- **At strength zero walks are straight.**  Let the strength be zero, of either sign, and let the
cosine between growth and surface be finite at every pose to which the straight walk draws.  Then a
walk beside the surface is, up to the calls on the surface, the straight walk.  So surfaces of which
this is true cannot be told apart by anything but these calls. -/
theorem walk_eq_walkStraight_of_strength_zero (hzero : t.settings.strength == 0)
    (surface : Surface)
    (hcosine : ∀ p ∈ t.straightPoses trig host h pose w,
      ((p.toward (surface p.position)).dot p.up).isFinite) :
    (t.walk trig (host.beside surface) h pose w).withoutQueries =
        t.walkStraight trig host h pose w ∧
      ∀ surface' : Surface, (∀ p ∈ t.straightPoses trig host h pose w,
          ((p.toward (surface' p.position)).dot p.up).isFinite) →
        (t.walk trig (host.beside surface') h pose w).withoutQueries =
          (t.walk trig (host.beside surface) h pose w).withoutQueries := by
  have hstraight (surface : Surface) (hcosine : ∀ p ∈ t.straightPoses trig host h pose w,
      ((p.toward (surface p.position)).dot p.up).isFinite) :
      (t.walk trig (host.beside surface) h pose w).withoutQueries =
        t.walkStraight trig host h pose w :=
    t.walk_eq_walkStraight trig host h pose w fun p hp =>
      p.steer_of_strength_zero trig hzero (hcosine p hp)
  refine ⟨hstraight surface hcosine, ?_⟩
  intro surface' hcosine'
  rw [hstraight surface hcosine, hstraight surface' hcosine']

/-- A turtle of strength `-0`. -/
def unbending : Turtle := standard { strength := -0.0 }

/-- It does not see whether it walks beside a ball or beside a surface whose points are at infinity,
also where its pacer stops it. -/
theorem walk_straight_beside_unit :
    unbending.settings.strength == 0 ∧
    (∀ p ∈ unbending.straightPoses Trig.turning (Host.plain (.upTo 2) Surface.absent) ()
      Pose.origin "F[+F]-F".toList, ((p.toward (Sphere.unit.nearest p.position)).dot p.up).isFinite) ∧
    (unbending.walk Trig.turning
        ((Host.plain (.upTo 2) Surface.absent).beside fun q => ⟨q.x, 1 / 0, q.z⟩) () Pose.origin
        "F[+F]-F".toList).withoutQueries =
      (unbending.walk Trig.turning
        ((Host.plain (.upTo 2) Surface.absent).beside Sphere.unit.nearest) () Pose.origin
        "F[+F]-F".toList).withoutQueries := by
  have hzero : unbending.settings.strength == 0 := by decide +kernel
  have hcosine : ∀ p ∈ unbending.straightPoses Trig.turning
      (Host.plain (.upTo 2) Surface.absent) () Pose.origin "F[+F]-F".toList,
      ((p.toward (Sphere.unit.nearest p.position)).dot p.up).isFinite := by
    decide +kernel
  have hstraight := walk_eq_walkStraight_of_strength_zero Trig.turning unbending
    (Host.plain (.upTo 2) Surface.absent) () Pose.origin "F[+F]-F".toList hzero
    Sphere.unit.nearest hcosine
  exact ⟨hzero, hcosine, hstraight.2 _ (by decide +kernel)⟩

end Turtle

end Arbor
