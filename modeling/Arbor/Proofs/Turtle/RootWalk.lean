import Arbor.Proofs.Turtle.ClosedPairs
import Arbor.Proofs.Turtle.Runs

/-!
# Branches grow from their root paths

A walk goes back and forth between its saved poses, but each branch that it draws is the last one of
a walk without brackets: of the draws and turns that lead from the root to it.  So nothing that was
drawn aside, in a bracket pair that is closed, shows in it, and every branch starts where the last
draw on its root path ended.

The invariant is about all poses that a state holds (`State.Rooted`): the current one is that of the
root path, and the one that `k` closing brackets would bring back is that of the path that reading
backward finds with `k` brackets still to be matched.  It is kept by every operation that a walk
performs, whatever pacer and emitter do and however the walk ends later.
-/

namespace Arbor

variable {σ : Type}

/-! ## Poses along a path -/

namespace Pose

section Along

variable (trig : Trig) (settings : Settings) (surface : Surface)

/-- The pose after a draw, where the surface always answers alike. -/
def drawn (pose : Pose) : Pose :=
  let there := pose.advance settings.stepLength
  (there.steer trig (surface there.position) settings.strength).1

/-- The pose after an operation that leads. -/
def lead (pose : Pose) : Op → Pose
  | .draw => pose.drawn trig settings surface
  | .turn sign => pose.turnZ trig (settings.turnAngle * sign)
  | _ => pose

/-- The pose at the end of a path. -/
def along (root : Pose) (path : List Op) : Pose := path.foldl (lead trig settings surface) root

/-- The branch that a draw from a pose leaves behind. -/
def branch (pose : Pose) : Branch := ⟨pose.position, (pose.drawn trig settings surface).position⟩

@[simp] lemma branch_start (pose : Pose) :
    (pose.branch trig settings surface).start = pose.position := rfl

@[simp] lemma branch_stop (pose : Pose) :
    (pose.branch trig settings surface).stop = (pose.drawn trig settings surface).position := rfl

variable (root : Pose)

lemma along_append (front back : List Op) :
    root.along trig settings surface (front ++ back) =
      (root.along trig settings surface front).along trig settings surface back :=
  List.foldl_append

lemma along_snoc (path : List Op) (op : Op) :
    root.along trig settings surface (path ++ [op]) =
      (root.along trig settings surface path).lead trig settings surface op := by
  rw [along_append]
  rfl

/-- Turns stay on the spot. -/
lemma position_along_of_turns {path : List Op} (hturns : ∀ op ∈ path, ∃ sign, op = .turn sign) :
    (root.along trig settings surface path).position = root.position := by
  induction path using List.reverseRecOn with
  | nil => rfl
  | append_singleton path op ih =>
      obtain ⟨sign, rfl⟩ := hturns op (List.mem_append_right _ List.mem_cons_self)
      rw [along_snoc, lead, position_turnZ]
      exact ih fun op hop => hturns op (List.mem_append_left _ hop)

end Along

end Pose

/-! ## The poses of a state -/

namespace State

variable {trig : Trig} {settings : Settings} {host : Host σ} {surface : Surface} {root : Pose}
  {ops : List Op} {op : Op} {s s' : State σ}

/-- The pose of a state and its saved ones, the one saved last first, are those of the paths that
hold behind `ops` when 0, 1, … brackets are closed. -/
def Rooted (trig : Trig) (settings : Settings) (surface : Surface) (root : Pose) (ops : List Op)
    (s : State σ) : Prop :=
  ∀ k pose, (s.pose :: s.saved)[k]? = some pose →
    pose = root.along trig settings surface (pathBehind k ops)

lemma rooted_start (h : σ) : (start root h).Rooted trig settings surface root [] := by
  intro k pose hpose
  rw [pathBehind_nil]
  cases k with
  | zero => exact (Option.some.inj hpose).symm
  | succ k => simp [start] at hpose

namespace Rooted

lemma pose_eq (hs : s.Rooted trig settings surface root ops) :
    s.pose = root.along trig settings surface (rootPath ops) :=
  hs 0 s.pose rfl

/-- An operation that leads moves the current pose and no saved one. -/
lemma lead (hs : s.Rooted trig settings surface root ops) (hleads : op.leads = true)
    (hpose : s'.pose = s.pose.lead trig settings surface op) (hsaved : s'.saved = s.saved) :
    s'.Rooted trig settings surface root (ops ++ [op]) := by
  intro k pose hk
  have hpending : op.pending k = k := by
    cases op <;> simp [Op.leads, Op.pending] at hleads ⊢
  rw [pathBehind_snoc, hpending]
  cases k with
  | zero =>
      rw [if_pos ⟨hleads, rfl⟩, Pose.along_snoc, ← hs 0 s.pose rfl, ← hpose]
      exact (Option.some.inj hk).symm
  | succ k =>
      rw [if_neg (fun h => Nat.succ_ne_zero k h.2), List.append_nil]
      rw [List.getElem?_cons_succ, hsaved] at hk
      exact hs (k + 1) pose hk

end Rooted

/-- Growth on a surface that always answers alike. -/
lemma pose_grow (hpure : ∀ h query, (host.nearest h query).1 = surface query) (s : State σ) :
    (s.grow trig settings host).pose = s.pose.drawn trig settings surface := by
  simp only [grow, ask, reach, pass, Pose.drawn, hpure]

lemma branches_grow_of_pure (hpure : ∀ h query, (host.nearest h query).1 = surface query)
    (s : State σ) :
    (s.grow trig settings host).branches =
      s.branches ++ [s.pose.branch trig settings surface] := by
  rw [branches_grow]
  simp only [Forest.drawFrom, Pose.branch, Pose.drawn, hpure]

/-- **One operation keeps the paths of all poses.** -/
lemma Step.rooted (hpure : ∀ h query, (host.nearest h query).1 = surface query)
    (h : s.Step trig settings host op (.ready s'))
    (hs : s.Rooted trig settings surface root ops) :
    s'.Rooted trig settings surface root (ops ++ [op]) := by
  cases h with
  | draw => exact hs.lead rfl (pose_grow hpure _) rfl
  | turn sign => exact hs.lead rfl rfl rfl
  | ignore =>
      intro k pose hk
      rw [pathBehind_snoc, if_neg (by simp [Op.leads]), List.append_nil]
      exact hs k pose hk
  | push =>
      intro k pose hk
      rw [pathBehind_snoc, if_neg (by simp [Op.leads]), List.append_nil]
      cases k with
      | zero => exact hs 0 pose hk
      | succ k => exact hs k pose hk
  | pop hsaved =>
      intro k pose hk
      rw [pathBehind_snoc, if_neg (by simp [Op.leads]), List.append_nil]
      refine hs (k + 1) pose ?_
      rw [List.getElem?_cons_succ, hsaved]
      exact hk

/-- A path is walked to its end without a pacer. -/
lemma follow_path (trig : Trig) (settings : Settings) (surface : Surface) {path : List Op}
    (hpath : ∀ op ∈ path, op.leads = true) (s : State Unit) :
    ∃ s', s.follow trig settings (draw trig settings (Host.plain .unlimited surface).unpaced)
        (fun _ op => .ok op) path = .ready s' ∧
      s'.pose = s.pose.along trig settings surface path := by
  induction path generalizing s with
  | nil => exact ⟨s, rfl, rfl⟩
  | cons op path ih =>
      have hrest := fun s => ih (fun op hop => hpath op (List.mem_cons_of_mem _ hop)) s
      have hop := hpath op List.mem_cons_self
      rw [follow_cons_of_ok rfl]
      cases op with
      | draw =>
          have hdraw : s.perform trig settings
              (draw trig settings (Host.plain .unlimited surface).unpaced) .draw = _ :=
            draw_of_go rfl
          rw [hdraw]
          exact hrest _
      | turn sign => exact hrest (s.pass (s.pose.turnZ trig (settings.turnAngle * sign)) s.saved)
      | push => cases hop
      | pop => cases hop
      | ignore => cases hop

end State

/-! ## Words whose symbols all have operations -/

namespace Alphabet

variable {alphabet : Alphabet} {w : Word}

/-- The operations of such a word stand where its symbols stand. -/
lemma getElem?_ops (hmapped : ∀ c ∈ w, alphabet.contains c) (i : ℕ) :
    (alphabet.ops w)[i]? = w[i]?.bind alphabet.get? := by
  induction w generalizing i with
  | nil => rfl
  | cons c w ih =>
      obtain ⟨op, hop⟩ := Option.isSome_iff_exists.1 (hmapped c List.mem_cons_self)
      rw [ops_cons_of_get? hop]
      cases i with
      | zero => simp [hop]
      | succ i => exact ih (fun d hd => hmapped d (List.mem_cons_of_mem _ hd)) i

lemma length_ops (hmapped : ∀ c ∈ w, alphabet.contains c) : (alphabet.ops w).length = w.length :=
  List.filterMap_length_eq_length.2 hmapped

lemma take_ops (hmapped : ∀ c ∈ w, alphabet.contains c) (i : ℕ) :
    (alphabet.ops w).take i = alphabet.ops (w.take i) := by
  refine List.ext_getElem? fun j => ?_
  rw [getElem?_ops fun c hc => hmapped c (List.mem_of_mem_take hc), List.getElem?_take,
    List.getElem?_take]
  split
  · exact getElem?_ops hmapped j
  · rfl

/-- The symbols that lead somewhere stand for the root path. -/
lemma ops_rootWord (hmapped : ∀ c ∈ w, alphabet.contains c)
    (hnonneg : ∀ n ≤ (alphabet.ops w).length, 0 ≤ level (alphabet.ops w) n) :
    alphabet.ops (alphabet.rootWord w) = rootPath (alphabet.ops w) := by
  rw [ops, rootWord, List.filterMap_filterMap, ← filterMap_rootPositions hnonneg]
  exact List.filterMap_congr fun j _ => (getElem?_ops hmapped j).symm

lemma contains_of_mem_rootWord (hmapped : ∀ c ∈ w, alphabet.contains c) {c : Symbol}
    (hc : c ∈ alphabet.rootWord w) : alphabet.contains c := by
  obtain ⟨j, -, hj⟩ := List.mem_filterMap.1 hc
  exact hmapped c (List.mem_of_getElem? hj)

/-- Each draw of a word is at some position, with the earlier ones in front of it. -/
lemma exists_draw_of_lt_draws {k : ℕ} (hk : k < draws (alphabet.ops w)) :
    ∃ i c, w[i]? = some c ∧ alphabet.get? c = some .draw ∧
      draws (alphabet.ops (w.take i)) = k := by
  induction w using List.reverseRecOn with
  | nil => exact absurd hk (Nat.not_lt_zero k)
  | append_singleton w c ih =>
      by_cases hfront : k < draws (alphabet.ops w)
      · obtain ⟨i, d, hd, hdraw, hcount⟩ := ih hfront
        have hi : i < w.length := (List.getElem?_eq_some_iff.1 hd).1
        refine ⟨i, d, ?_, hdraw, ?_⟩
        · rw [List.getElem?_append_left hi, hd]
        · rw [List.take_append_of_le_length hi.le, hcount]
      · rw [ops_append, draws_append] at hk
        have hlast : draws (alphabet.ops [c]) ≠ 0 := by omega
        cases hop : alphabet.get? c with
        | none => simp [ops, hop, draws] at hlast
        | some op =>
            cases op with
            | draw =>
                have hone : draws (alphabet.ops [c]) = 1 := by
                  simp [ops, hop, draws, Op.isDraw]
                refine ⟨w.length, c, by simp, hop, ?_⟩
                rw [List.take_left]
                omega
            | _ => simp [ops, hop, draws, Op.isDraw] at hlast

end Alphabet

/-! ## Where the last draw of a root path ends -/

/-- What stands on a root path without being a draw is a turn. -/
lemma turn_of_mem_filterMap {ops : List Op} {positions : List ℕ}
    (hroot : ∀ j ∈ positions, j ∈ rootPositions ops)
    (hdraw : ∀ j ∈ positions, ops[j]? ≠ some .draw) :
    ∀ op ∈ positions.filterMap fun j => ops[j]?, ∃ sign, op = .turn sign := by
  intro op hop
  obtain ⟨j, hj, hop⟩ := List.mem_filterMap.1 hop
  have hleads := (List.mem_filter.1 (hroot j hj)).2
  cases op with
  | draw => exact absurd hop (hdraw j hj)
  | turn sign => exact ⟨sign, rfl⟩
  | _ => simp [hop, Op.leads] at hleads

/-- A root path comes from the position where its last draw ended, or from that of the root. -/
lemma Pose.position_along_rootPath (trig : Trig) (settings : Settings) (surface : Surface)
    (root : Pose) {ops : List Op} (hnonneg : ∀ n ≤ ops.length, 0 ≤ level ops n) :
    (root.along trig settings surface (rootPath ops)).position =
      match lastRootDraw? ops with
      | none => root.position
      | some j => ((root.along trig settings surface (rootPath (ops.take j))).drawn trig settings
          surface).position := by
  rw [← filterMap_rootPositions hnonneg]
  cases hlast : lastRootDraw? ops with
  | none =>
      have hnone := List.find?_eq_none.1 hlast
      refine position_along_of_turns trig settings surface root
        (turn_of_mem_filterMap (fun j hj => hj) fun j hj => ?_)
      simpa using hnone j (List.mem_reverse.2 hj)
  | some j =>
      obtain ⟨hdraw, later, earlier, hsplit, hlater⟩ := List.find?_eq_some_iff_append.1 hlast
      have hdraw : ops[j]? = some .draw := by simpa using hdraw
      have hpositions : rootPositions ops = earlier.reverse ++ j :: later.reverse := by
        rw [← List.reverse_reverse (rootPositions ops), hsplit]
        simp
      have hfront : ∀ n ≤ (ops.take j).length, 0 ≤ level (ops.take j) n := by
        intro n hn
        have hnj : n ≤ j := hn.trans (List.length_take_le j ops)
        rw [level, List.take_take, Nat.min_eq_left hnj]
        exact hnonneg n (hn.trans (List.length_take_le' j ops))
      have hearlier : (earlier.reverse.filterMap fun i => ops[i]?) = rootPath (ops.take j) := by
        rw [← filterMap_rootPositions hfront, rootPositions_take hpositions]
        refine List.filterMap_congr fun i hi => ?_
        have hij : i < j := by
          rw [← rootPositions_take hpositions] at hi
          have hi := List.mem_range.1 (List.mem_filter.1 hi).1
          exact hi.trans_le (List.length_take_le j ops)
        rw [List.getElem?_take, if_pos hij]
      rw [hpositions, List.filterMap_append, List.filterMap_cons_some hdraw, List.append_cons,
        along_append, along_snoc, hearlier]
      refine position_along_of_turns trig settings surface _
        (turn_of_mem_filterMap (fun i hi => ?_) fun i hi => ?_)
      · rw [hpositions]
        exact List.mem_append_right _ (List.mem_cons_of_mem j hi)
      · simpa using hlater i (List.mem_reverse.1 hi)

/-! ## Branches of a run -/

/-- What stands in the front of a list stands there in the list. -/
lemma getElem?_of_front {α : Type} {front list : List α} (h : front <+: list) {k : ℕ} {x : α}
    (hx : front[k]? = some x) : list[k]? = some x := by
  obtain ⟨hk, rfl⟩ := List.getElem?_eq_some_iff.1 hx
  exact List.prefix_iff_getElem?.1 h k hk

namespace Turtle

variable {trig : Trig} {t : Turtle} {host : Host σ} {surface : Surface} {h : σ} {pose : Pose}
  {s s' : State σ} {c : Symbol} {w : Word} {i : ℕ}

namespace Reaches

/-- Wherever a walk has got, no front of what it has passed closes more brackets than it opens. -/
lemma level_nonneg (hs : t.Reaches trig host h pose w s) (n : ℕ) :
    0 ≤ level (t.alphabet.ops w) n := by
  obtain ⟨v, hv, hops⟩ := List.prefix_filterMap_iff.1 (List.take_prefix n (t.alphabet.ops w))
  obtain ⟨u, hu, -⟩ := hs.of_front hv
  rw [level, hops, ← Alphabet.ops, ← hu.tallies.depth]
  exact Int.natCast_nonneg _

section Pure

variable (hpure : ∀ h query, (host.nearest h query).1 = surface query)

include hpure

/-- Wherever a walk has got, its pose is that of the root path of what it has passed. -/
lemma pose_eq (hs : t.Reaches trig host h pose w s) :
    s.pose = pose.along trig t.settings surface (rootPath (t.alphabet.ops w)) := by
  have hrooted : s.Rooted trig t.settings surface pose (t.alphabet.ops w) :=
    follow_induction (I := State.Rooted trig t.settings surface pose)
      (fun hu hstep => hstep.rooted hpure hu) (State.rooted_start h) hs
  exact hrooted.pose_eq

variable (hc : w[i]? = some c) (hdraw : t.alphabet.get? c = some .draw)

include hc hdraw

/-- A draw that was passed has left the branch of its root path, after those that there were. -/
lemma branches_of_draw (hs' : t.Reaches trig host h pose (w.take (i + 1)) s') :
    ∃ s, t.Reaches trig host h pose (w.take i) s ∧ s'.branches = s.branches ++
      [(pose.along trig t.settings surface (rootPath (t.alphabet.ops (w.take i)))).branch trig
        t.settings surface] := by
  rw [Reaches, List.take_add_one, hc, State.follow_append, Progress.andThen_eq_ready_iff] at hs'
  obtain ⟨s, hs, hlast⟩ := hs'
  obtain ⟨op, u, hop, hstep, hend⟩ := follow_cons_eq_ready_iff.1 hlast
  cases hend
  obtain rfl : Op.draw = op := Option.some.inj (hdraw.symm.trans hop)
  have hpose := pose_eq hpure hs
  refine ⟨s, hs, ?_⟩
  cases hstep with
  | draw =>
      rw [State.branches_grow_of_pure hpure, State.branches_resume, ← hpose]
      rfl

/-- The branch of a draw that was passed has the number of draws in front of it. -/
lemma getElem?_branches_of_draw (hs' : t.Reaches trig host h pose (w.take (i + 1)) s') :
    s'.branches[draws (t.alphabet.ops (w.take i))]? =
      some ((pose.along trig t.settings surface (rootPath (t.alphabet.ops (w.take i)))).branch trig
        t.settings surface) := by
  obtain ⟨s, hs, hbranches⟩ := branches_of_draw hpure hc hdraw hs'
  rw [hbranches, ← hs.tallies.branches, List.getElem?_concat_length]

omit hc hdraw in
/-- A root path with a draw comes from where the branch of its last draw stops, which was handed
over before. -/
lemma exists_branch_of_lastRootDraw? (hs : t.Reaches trig host h pose (w.take i) s) {j : ℕ}
    (hlast : lastRootDraw? (t.alphabet.ops (w.take i)) = some j) :
    draws (t.alphabet.ops (w.take j)) < draws (t.alphabet.ops (w.take i)) ∧
      ∃ b, s.branches[draws (t.alphabet.ops (w.take j))]? = some b ∧
        (pose.along trig t.settings surface (rootPath (t.alphabet.ops (w.take i)))).position =
          b.stop := by
  have hdraw : (t.alphabet.ops (w.take i))[j]? = some .draw := by
    simpa using List.find?_some hlast
  rw [Alphabet.getElem?_ops hs.mapped, Option.bind_eq_some_iff] at hdraw
  obtain ⟨d, hd, hdraw⟩ := hdraw
  obtain ⟨hji, hd⟩ : j < i ∧ w[j]? = some d := by
    rw [List.getElem?_take] at hd
    exact Option.ite_none_right_eq_some.1 hd
  have hfront : w.take (j + 1) <+: w.take i := List.take_prefix_take_left hji
  obtain ⟨u, hu, hkept⟩ := hs.of_front hfront
  have hbranch := getElem?_of_front hkept (getElem?_branches_of_draw hpure hd hdraw hu)
  refine ⟨?_, _, hbranch, ?_⟩
  · rw [← hs.tallies.branches]
    exact (List.getElem?_eq_some_iff.1 hbranch).1
  · have hstart := pose.position_along_rootPath trig t.settings surface fun n _ => hs.level_nonneg n
    simp only [hlast] at hstart
    rw [hstart, Alphabet.take_ops hs.mapped, List.take_take, Nat.min_eq_left hji.le,
      Pose.branch_stop]

end Pure

end Reaches

/-- A draw that has left a branch was passed. -/
lemma reaches_of_getElem?_branches {b : Branch}
    (hb : (t.walk trig host h pose w).branches[draws (t.alphabet.ops (w.take i))]? = some b) :
    ∃ s', t.Reaches trig host h pose (w.take (i + 1)) s' ∧
      s'.branches <+: (t.walk trig host h pose w).branches := by
  obtain ⟨front, s, hfront, hs, hbranches⟩ := exists_front_reaches trig t host h pose w
  rw [hbranches] at hb ⊢
  have hmore := (List.getElem?_eq_some_iff.1 hb).1
  rw [hs.tallies.branches] at hmore
  -- A front that ends by position `i` has no draws but those in front of it.
  have hlong : i < front.length := by
    by_contra hshort
    obtain ⟨rest, hrest⟩ : front <+: w.take i :=
      List.prefix_take_iff.2 ⟨hfront, Nat.le_of_not_lt hshort⟩
    rw [← hrest, Alphabet.ops_append, draws_append] at hmore
    omega
  have htake : w.take (i + 1) <+: front := by
    rw [List.prefix_iff_eq_take.1 hfront, List.prefix_take_iff]
    exact ⟨List.take_prefix _ _, (List.length_take_le _ _).trans hlong⟩
  exact hs.of_front htake

/-- Every branch of a run is that of a draw of its word. -/
lemma exists_draw_of_lt_branches {k : ℕ} (hk : k < (t.walk trig host h pose w).branches.length) :
    ∃ i c, w[i]? = some c ∧ t.alphabet.get? c = some .draw ∧
      draws (t.alphabet.ops (w.take i)) = k := by
  obtain ⟨front, s, ⟨rest, rfl⟩, hs, hbranches⟩ := exists_front_reaches trig t host h pose w
  rw [hbranches, hs.tallies.branches] at hk
  obtain ⟨i, c, hc, hdraw, hcount⟩ := Alphabet.exists_draw_of_lt_draws hk
  have hi : i < front.length := (List.getElem?_eq_some_iff.1 hc).1
  refine ⟨i, c, ?_, hdraw, ?_⟩
  · rw [List.getElem?_append_left hi, hc]
  · rw [List.take_append_of_le_length hi.le, hcount]

/-- The walk of a word without brackets ends with the branch of its last draw. -/
lemma getLast?_branches_of_path (trig : Trig) (t : Turtle) (surface : Surface) (pose : Pose)
    (hmapped : ∀ c ∈ w, t.alphabet.contains c)
    (hpath : ∀ op ∈ t.alphabet.ops w, op.leads = true) (hdraw : t.alphabet.get? c = some .draw) :
    (t.walkUnpaced trig (Host.plain .unlimited surface) () pose (w ++ [c])).branches.getLast? =
      some ((pose.along trig t.settings surface (t.alphabet.ops w)).branch trig t.settings
        surface) := by
  obtain ⟨s, hfollow, hpose⟩ := State.follow_path trig t.settings surface hpath
    (State.start pose ())
  have hlast : s.draw trig t.settings (Host.plain .unlimited surface).unpaced = _ :=
    State.draw_of_go rfl
  rw [walkUnpaced, Run.branches_withoutPaces, walk, Progress.branches_run, State.follow_append,
    follow_eq_follow_ops _ _ _ hmapped, hfollow, Progress.andThen,
    State.follow_cons_of_ok (read_of_get? hdraw _), State.perform, hlast]
  simp only [Progress.andThen, State.follow_nil, Progress.state]
  have hpure : ∀ h query, ((Host.plain .unlimited surface).unpaced.nearest h query).1 =
      surface query := fun _ _ => rfl
  rw [State.branches_grow_of_pure hpure, List.getLast?_concat]
  show some (s.pose.branch trig t.settings surface) = _
  rw [hpose]
  rfl

/-- **Every branch grows from its root path.**  On a surface that always answers alike, the branches
of a run, however it ends, are those of draws of its word, in their order.  The branch of a draw is
the last one of the walk, without a pacer, of the symbols that lead to the draw and the draw itself.
It starts where the branch of the last draw among them stops, which is an earlier branch of the run,
or at the root when there is none, so the branches are a tree. -/
theorem branch_eq_last_of_rootWord (trig : Trig) (t : Turtle) (host : Host σ) (surface : Surface)
    (hpure : ∀ h query, (host.nearest h query).1 = surface query) (h : σ) (pose : Pose) (w : Word) :
    (∀ k < (t.walk trig host h pose w).branches.length,
      ∃ i c, w[i]? = some c ∧ t.alphabet.get? c = some .draw ∧
        draws (t.alphabet.ops (w.take i)) = k) ∧
    ∀ i c b, w[i]? = some c → t.alphabet.get? c = some .draw →
      (t.walk trig host h pose w).branches[draws (t.alphabet.ops (w.take i))]? = some b →
      (t.alphabet.ops (w.take i)).length = i ∧
      (t.walk trig host h pose (w.take (i + 1))).branches =
        (t.walk trig host h pose (w.take i)).branches ++ [b] ∧
      (t.walkUnpaced trig (Host.plain .unlimited surface) () pose
        (t.alphabet.rootWord (w.take i) ++ [c])).branches.getLast? = some b ∧
      match lastRootDraw? (t.alphabet.ops (w.take i)) with
      | none => b.start = pose.position
      | some j => draws (t.alphabet.ops (w.take j)) < draws (t.alphabet.ops (w.take i)) ∧
          ∃ b', (t.walk trig host h pose w).branches[draws (t.alphabet.ops (w.take j))]? = some b' ∧
            b.start = b'.stop := by
  refine ⟨fun k hk => exists_draw_of_lt_branches hk, ?_⟩
  intro i c b hc hdraw hb
  have hi : i < w.length := (List.getElem?_eq_some_iff.1 hc).1
  obtain ⟨s', hs', hkept⟩ := reaches_of_getElem?_branches hb
  obtain ⟨s, hs, hbranches⟩ := hs'.branches_of_draw hpure hc hdraw
  obtain rfl : (pose.along trig t.settings surface (rootPath (t.alphabet.ops (w.take i)))).branch
      trig t.settings surface = b := by
    have hbranch := getElem?_of_front hkept (hs'.getElem?_branches_of_draw hpure hc hdraw)
    exact Option.some.inj (hbranch.symm.trans hb)
  refine ⟨?_, ?_, ?_, ?_⟩
  · rw [Alphabet.length_ops hs.mapped, List.length_take, Nat.min_eq_left hi.le]
  · rw [hs'.branches_walk, hs.branches_walk, hbranches]
  · have hroot := Alphabet.ops_rootWord hs.mapped fun n _ => hs.level_nonneg n
    rw [← hroot]
    refine getLast?_branches_of_path trig t surface pose
      (fun d hd => Alphabet.contains_of_mem_rootWord hs.mapped hd) (fun op hop => ?_) hdraw
    rw [hroot, rootPath, List.mem_reverse] at hop
    rcases drift_of_mem_visible hop with rfl | ⟨sign, rfl⟩ <;> rfl
  · cases hlast : lastRootDraw? (t.alphabet.ops (w.take i)) with
    | none =>
        have hstart := pose.position_along_rootPath trig t.settings surface
          fun n _ => hs.level_nonneg n
        simp only [hlast] at hstart
        rw [Pose.branch_start, hstart]
    | some j =>
        obtain ⟨hearlier, b', hb', hstop⟩ := hs.exists_branch_of_lastRootDraw? hpure hlast
        have hall : s.branches <+: (t.walk trig host h pose w).branches := by
          rw [hbranches] at hkept
          exact (List.prefix_append _ _).trans hkept
        refine ⟨hearlier, b', getElem?_of_front hall hb', ?_⟩
        rw [Pose.branch_start, hstop]

/-- A side branch that is closed, and one that stays open. -/
def sideBranches : Word := ['F', '[', '+', 'F', ']', '-', '[', '+', 'F', 'F']

/-- In a walk that is stopped within the open side branch, the first draw of that one grows from the
stem, whatever the closed one has drawn. -/
theorem branch_of_sideBranches :
    (∀ (h : Unit) query, ((Host.plain (.upTo 3) Sphere.unit.nearest).nearest h query).1 =
      Sphere.unit.nearest query) ∧
    sideBranches[8]? = some 'F' ∧ Alphabet.standard.get? 'F' = some .draw ∧
    ∃ b, ((standard {}).walk Trig.native (Host.plain (.upTo 3) Sphere.unit.nearest) ()
        Pose.origin sideBranches).branches[2]? = some b ∧
      ((standard {}).walkUnpaced Trig.native (Host.plain .unlimited Sphere.unit.nearest) ()
        Pose.origin ['F', '-', '+', 'F']).branches.getLast? = some b ∧
      ∃ b', ((standard {}).walk Trig.native (Host.plain (.upTo 3) Sphere.unit.nearest) ()
          Pose.origin sideBranches).branches[0]? = some b' ∧ b.start = b'.stop := by
  have hpure : ∀ (h : Unit) query, ((Host.plain (.upTo 3) Sphere.unit.nearest).nearest h query).1 =
      Sphere.unit.nearest query := fun _ _ => rfl
  have hc : sideBranches[8]? = some 'F' := rfl
  have hdraw : Alphabet.standard.get? 'F' = some .draw := rfl
  have hroot : (standard {}).alphabet.rootWord (sideBranches.take 8) = ['F', '-', '+'] := by
    decide
  have hstem : lastRootDraw? ((standard {}).alphabet.ops (sideBranches.take 8)) = some 0 := by
    decide
  obtain ⟨b, hb⟩ : ∃ b, ((standard {}).walk Trig.native
      (Host.plain (.upTo 3) Sphere.unit.nearest) () Pose.origin sideBranches).branches[2]? =
        some b := ⟨_, rfl⟩
  obtain ⟨-, -, hlast, htree⟩ := (branch_eq_last_of_rootWord Trig.native (standard {})
    (Host.plain (.upTo 3) Sphere.unit.nearest) Sphere.unit.nearest hpure () Pose.origin
    sideBranches).2 8 'F' b hc hdraw hb
  rw [hroot] at hlast
  simp only [hstem] at htree
  exact ⟨hpure, hc, hdraw, b, hb, hlast, htree.2⟩

end Turtle

end Arbor
