import Arbor.Proofs.Turtle.Nesting
import Arbor.Proofs.Turtle.Outcome

/-!
# Walks as evaluations of forests

A walk keeps its saved poses on a stack and reads symbol by symbol; `Forest.walk` has no stack and
recurses into groups.  This file settles that they agree: an unpaced walk comes through exactly when
its symbols all have operations and these are the flattening of a forest that is no higher than the
limit allows, and then it draws what the evaluation of that forest draws and ends where that ends.

The simulation is `follow_flatten`.  It is stated from any state, because inside a group there are
saved poses already, and says that a forest leaves these poses alone (`State.Covers`).
-/

namespace Arbor

variable {σ : Type}

/-! ## Walking a flattened forest -/

/-- `s'` is the state after a walk from `s` over a forest of height `height`, when `r` is the
evaluation of the forest from there. -/
structure State.Covers (r : Forest.Stretch σ) (height : ℕ) (s s' : State σ) : Prop where
  pose : s'.pose = r.pose
  saved : s'.saved = s.saved
  branches : s'.branches = s.branches ++ r.branches
  host : s'.host = r.host
  deepest : s'.deepest = max s.deepest (s.saved.length + height)

namespace Forest

variable (trig : Trig) (settings : Settings) (host : Host σ)

/-- **The walk of a flattened forest is the evaluation of the forest.**  It gets through when the
limit leaves room for the height of the forest on top of the poses that are saved already. -/
lemma follow_flatten (f : Forest) {s : State σ}
    (hroom : s.saved.length + f.height ≤ settings.maxDepth.toNat)
    (hdeep : s.saved.length ≤ s.deepest) :
    ∃ s', s.follow trig settings (State.draw trig settings host.unpaced) (fun _ op => .ok op)
        f.flatten = .ready s' ∧
      s.Covers (f.walk trig settings host s.pose s.host) f.height s' := by
  induction f generalizing s with
  | nil =>
      refine ⟨s, rfl, rfl, rfl, ?_, rfl, ?_⟩
      · simp [walk]
      · simp only [height]
        omega
  | leaf op rest ih =>
      rw [flatten, State.follow_cons_of_ok rfl]
      cases op with
      | draw =>
          have hstep : s.perform trig settings (State.draw trig settings host.unpaced) .draw = _ :=
            State.draw_of_go rfl
          obtain ⟨s', hfollow, hcovers⟩ := ih
            (s := (s.resume host.unpaced).grow trig settings host.unpaced) hroom hdeep
          rw [Leaf.op, hstep]
          refine ⟨s', hfollow, hcovers.pose, hcovers.saved, ?_, hcovers.host, hcovers.deepest⟩
          rw [hcovers.branches, State.branches_grow, State.branches_resume, List.append_assoc]
          rfl
      | turn sign =>
          obtain ⟨s', hfollow, hcovers⟩ := ih
            (s := s.pass (s.pose.turnZ trig (settings.turnAngle * sign)) s.saved) hroom hdeep
          exact ⟨s', hfollow, hcovers.pose, hcovers.saved, hcovers.branches, hcovers.host,
            hcovers.deepest⟩
      | ignore =>
          obtain ⟨s', hfollow, hcovers⟩ := ih (s := s.pass s.pose s.saved) hroom hdeep
          exact ⟨s', hfollow, hcovers.pose, hcovers.saved, hcovers.branches, hcovers.host,
            hcovers.deepest⟩
  | group inner rest ihInner ihRest =>
      simp only [height] at hroom
      -- The opening bracket saves the pose, and the group is walked on top of it.
      have hopen : s.perform trig settings (State.draw trig settings host.unpaced) .push =
          .ready s.save := State.push_of_lt (by omega)
      obtain ⟨closing, hinner, hin⟩ := ihInner (s := s.save)
        (by simp only [State.save_saved, List.length_cons]; omega) (by simp)
      -- The closing bracket takes the same pose back, wherever the group has led.
      have hclose : closing.perform trig settings (State.draw trig settings host.unpaced) .pop =
          .ready (closing.pass s.pose s.saved) := State.pop_of_cons hin.saved
      have hdeepest : closing.deepest = max s.deepest (s.saved.length + inner.height + 1) := by
        rw [hin.deepest]
        simp only [State.save_saved, State.save_deepest, List.length_cons]
        omega
      obtain ⟨s', hrest, hout⟩ := ihRest (s := closing.pass s.pose s.saved)
        (by simp only [State.pass_saved]; omega)
        (by simp only [State.pass_saved, State.pass_deepest, hdeepest]; omega)
      refine ⟨s', ?_, ?_⟩
      · rw [flatten, State.follow_cons_of_ok rfl, hopen]
        show s.save.follow _ _ _ _ _ = _
        rw [State.follow_append, hinner]
        show closing.follow _ _ _ _ _ = _
        rw [State.follow_cons_of_ok rfl, hclose]
        exact hrest
      · have hhost : closing.host = (inner.walk trig settings host s.pose s.host).host := hin.host
        have hbranches : closing.branches =
            s.branches ++ (inner.walk trig settings host s.pose s.host).branches := hin.branches
        constructor
        case pose => rw [hout.pose, State.pass_pose, State.pass_host, hhost, walk]
        case saved => exact hout.saved
        case branches =>
          rw [hout.branches, State.branches_pass, State.pass_pose, State.pass_host, hhost,
            hbranches, List.append_assoc, walk]
        case host => rw [hout.host, State.pass_pose, State.pass_host, hhost, walk]
        case deepest =>
          rw [hout.deepest, State.pass_saved, State.pass_deepest, hdeepest, height]
          omega

end Forest

/-! ## Unpaced walks -/

namespace Turtle

variable (trig : Trig) (t : Turtle) (host : Host σ) (h : σ) (pose : Pose) {w : Word}

/-- A word whose operations are those of a forest within the limit is walked to its end. -/
lemma walkUnpaced_of_flatten (hmapped : ∀ c ∈ w, t.alphabet.contains c) {f : Forest}
    (hflatten : f.flatten = t.alphabet.ops w) (hheight : f.height ≤ t.settings.maxDepth.toNat) :
    ∃ r, (t.walkUnpaced trig host h pose w).outcome = .ok r ∧
      (t.walkUnpaced trig host h pose w).branches =
        (f.walk trig t.settings host pose h).branches ∧
      (t.walkUnpaced trig host h pose w).host = (f.walk trig t.settings host pose h).host ∧
      r.finalPose = (f.walk trig t.settings host pose h).pose ∧ r.deepest = f.height := by
  obtain ⟨s, hfollow, hcovers⟩ := f.follow_flatten trig t.settings host (s := State.start pose h)
    (by simpa [State.start] using hheight) (Nat.zero_le _)
  rw [hflatten, ← follow_eq_follow_ops _ _ _ hmapped] at hfollow
  have hsaved : s.saved = [] := hcovers.saved
  have hrun : t.walk trig host.unpaced h pose w = s.finish (.ok (s.report true)) := by
    rw [walk, hfollow, Progress.run, hsaved]
    rfl
  refine ⟨s.report true, ?_, ?_, ?_, hcovers.pose, ?_⟩
  · rw [walkUnpaced, hrun]
    rfl
  · rw [walkUnpaced, hrun, Run.branches_withoutPaces]
    exact hcovers.branches
  · rw [walkUnpaced, hrun]
    exact hcovers.host
  · have hdeepest : s.deepest = max 0 (0 + f.height) := hcovers.deepest
    show s.deepest = f.height
    omega

/-- A word that is walked to its end has no fault and leaves no pose. -/
lemma no_fault_of_outcome_ok {r : Report}
    (hok : (t.walkUnpaced trig host h pose w).outcome = .ok r) :
    (∀ i, t.faultAt? w i = none) ∧ depth (t.alphabet.ops w) ≤ 0 := by
  have hgo : ∀ h n, (host.unpaced.pace h n).1 = .go := fun _ _ => rfl
  rw [walkUnpaced, Run.outcome_withoutPaces] at hok
  rcases t.first_fault_or_none w with ⟨i, e, hfault, hfirst⟩ | hclear
  · rw [(walk_of_fault trig hgo h pose hfault hfirst).1] at hok
    cases hok
  · refine ⟨hclear, ?_⟩
    by_contra hopen
    rw [(walk_of_unclosed trig hgo h pose hclear (Int.not_le.1 hopen)).1] at hok
    cases hok

/-- A report of an unpaced walk counts the whole word. -/
lemma counts_of_outcome_ok {r : Report}
    (hok : (t.walkUnpaced trig host h pose w).outcome = .ok r) :
    r.counts = (w.length, draws (t.alphabet.ops w), (peak (t.alphabet.ops w)).toNat, true) ∧
      (t.walkUnpaced trig host h pose w).branches.length = draws (t.alphabet.ops w) := by
  obtain ⟨hclear, hclosed⟩ := no_fault_of_outcome_ok trig t host h pose hok
  have hgo : ∀ h n, (host.unpaced.pace h n).1 = .go := fun _ _ => rfl
  obtain ⟨r', hout, hcounts, hbranches⟩ := walk_of_closed trig hgo h pose hclear hclosed
  rw [walkUnpaced, Run.outcome_withoutPaces, hout] at hok
  cases hok
  rw [walkUnpaced, Run.branches_withoutPaces]
  exact ⟨hcounts, hbranches⟩

/-- A word without a fault that leaves no pose has the operations of a forest within the limit. -/
lemma exists_flatten_of_no_fault (hclear : ∀ i, t.faultAt? w i = none)
    (hclosed : depth (t.alphabet.ops w) ≤ 0) :
    ∃ f : Forest, f.flatten = t.alphabet.ops w ∧ f.height ≤ t.settings.maxDepth.toNat := by
  have hend := (depthAt_mem_of_no_fault hclear (Nat.le_refl w.length)).1
  rw [depthAt_length] at hend
  have hbalanced : Balanced (t.alphabet.ops w) := by
    constructor
    · intro front hfront
      obtain ⟨v, hv, rfl⟩ := List.prefix_filterMap_iff.1 hfront
      rw [List.prefix_iff_eq_take.1 hv]
      exact (depthAt_mem_of_no_fault hclear hv.length_le).1
    · omega
  obtain ⟨f, hflatten⟩ := Forest.exists_flatten_eq hbalanced
  refine ⟨f, hflatten, ?_⟩
  obtain ⟨i, hi, hpeak⟩ := t.exists_depthAt_eq_peak w
  have hbound := (depthAt_mem_of_no_fault hclear hi).2
  rw [hpeak, ← hflatten, Forest.peak_flatten] at hbound
  omega

/-- **A walk is the evaluation of a forest.**  An unpaced walk comes through exactly when all
symbols have operations and these are the flattening of a forest no higher than the limit; there is
no second such forest; and the walk then draws, in order and bit for bit, what the evaluation of the
forest draws, ends at its pose and reports its height. -/
theorem walkUnpaced_ok_iff_forest (w : Word) :
    ((∃ r, (t.walkUnpaced trig host h pose w).outcome = .ok r) ↔
      (∀ c ∈ w, t.alphabet.contains c) ∧
        ∃ f : Forest, f.flatten = t.alphabet.ops w ∧ f.height ≤ t.settings.maxDepth.toNat) ∧
    (∀ f g : Forest, f.flatten = g.flatten → f = g) ∧
    ∀ f : Forest, (∀ c ∈ w, t.alphabet.contains c) → f.flatten = t.alphabet.ops w →
      f.height ≤ t.settings.maxDepth.toNat →
      ∃ r, (t.walkUnpaced trig host h pose w).outcome = .ok r ∧
        (t.walkUnpaced trig host h pose w).branches =
          (f.walk trig t.settings host pose h).branches ∧
        (t.walkUnpaced trig host h pose w).host = (f.walk trig t.settings host pose h).host ∧
        r.finalPose = (f.walk trig t.settings host pose h).pose ∧ r.deepest = f.height := by
  refine ⟨⟨?_, ?_⟩, fun f g => Forest.flatten_injective, ?_⟩
  · rintro ⟨r, hok⟩
    obtain ⟨hclear, hclosed⟩ := no_fault_of_outcome_ok trig t host h pose hok
    exact ⟨contains_of_no_fault hclear, exists_flatten_of_no_fault t hclear hclosed⟩
  · rintro ⟨hmapped, f, hflatten, hheight⟩
    obtain ⟨r, hok, -⟩ := walkUnpaced_of_flatten trig t host h pose hmapped hflatten hheight
    exact ⟨r, hok⟩
  · intro f hmapped hflatten hheight
    exact walkUnpaced_of_flatten trig t host h pose hmapped hflatten hheight

/-- A word of two nested groups with draws around them. -/
def twoGroups : Word := ['F', '[', '+', 'F', '[', '-', 'F', ']', ']', 'F']

/-- The forest of `twoGroups` in the standard alphabet. -/
def twoGroupsForest : Forest :=
  .leaf .draw (.group (.leaf (.turn (-1)) (.leaf .draw
    (.group (.leaf (.turn 1) (.leaf .draw .nil)) .nil))) (.leaf .draw .nil))

/-- Two saved poses are enough for two nested groups. -/
theorem walkUnpaced_twoGroups :
    (∀ c ∈ twoGroups, Alphabet.standard.contains c) ∧
    twoGroupsForest.flatten = Alphabet.standard.ops twoGroups ∧
    twoGroupsForest.height ≤ (2 : UInt64).toNat ∧
    ∃ r, ((standard { maxDepth := 2 }).walkUnpaced Trig.native
          (Host.plain .unlimited Sphere.unit.nearest) () Pose.origin twoGroups).outcome = .ok r ∧
      ((standard { maxDepth := 2 }).walkUnpaced Trig.native
          (Host.plain .unlimited Sphere.unit.nearest) () Pose.origin twoGroups).branches =
        (twoGroupsForest.walk Trig.native { maxDepth := 2 }
          (Host.plain .unlimited Sphere.unit.nearest) Pose.origin ()).branches ∧
      r.deepest = 2 := by
  have hmapped : ∀ c ∈ twoGroups, Alphabet.standard.contains c := List.all_eq_true.1 rfl
  have hflatten : twoGroupsForest.flatten = Alphabet.standard.ops twoGroups := rfl
  have hheight : twoGroupsForest.height ≤ (2 : UInt64).toNat := by decide
  obtain ⟨r, hok, hbranches, -, -, hdeepest⟩ :=
    (walkUnpaced_ok_iff_forest Trig.native (standard { maxDepth := 2 })
      (Host.plain .unlimited Sphere.unit.nearest) () Pose.origin twoGroups).2.2
      twoGroupsForest hmapped hflatten hheight
  exact ⟨hmapped, hflatten, hheight, r, hok, hbranches, hdeepest⟩

end Turtle

end Arbor
