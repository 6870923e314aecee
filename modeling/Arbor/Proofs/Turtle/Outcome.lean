import Arbor.Proofs.Turtle.Steps

/-!
# How a walk ends

With a pacer that always lets the turtle go on, the end of a walk depends on the operations of the
word and on the limit on saved poses, and on nothing else: not on poses, lengths, angles or what the
surface answers.  The first position with a fault (`Turtle.faultAt?`) is where the walk fails, with
that fault; without one, the walk fails at the end when poses are left over, and comes through
otherwise.

The invariant is `State.Tallies ops s`: the counters of the state and the number of its saved poses
are what `depth`, `peak` and `draws` say of the operations done so far.  One operation keeps it or
fails with the fault that `Op.fault?` names (`Tallies.perform`), so a word without a fault in front
of a position leads there (`follow_take`), and the state is a tally of it.
-/

namespace Arbor

/-! ## Counting draws -/

/-- Whether an operation draws. -/
def Op.isDraw : Op → Bool
  | .draw => true
  | _ => false

/-- How many operations of a list draw. -/
def draws (ops : List Op) : ℕ := ops.countP Op.isDraw

@[simp] lemma draws_append (front back : List Op) :
    draws (front ++ back) = draws front + draws back := List.countP_append

/-! ## Faults -/

/-- What is wrong with an operation at a position where the depth is `before`. -/
def Op.fault? (limit position : ℕ) (before : ℤ) : Op → Option WalkError
  | .pop => if before = 0 then some (.unbalancedPop position) else none
  | .push => if limit ≤ before then some (.tooDeep position limit) else none
  | _ => none

namespace Turtle

variable (t : Turtle) {w : Word} {i : ℕ} {c : Symbol}

lemma faultAt?_of_get? (hc : w[i]? = some c) {op : Op} (hop : t.alphabet.get? c = some op) :
    t.faultAt? w i =
      op.fault? t.settings.maxDepth.toNat i (depth (t.alphabet.ops (w.take i))) := by
  cases op <;> simp [faultAt?, hc, hop, Op.fault?]

lemma faultAt?_of_get?_none (hc : w[i]? = some c) (hop : t.alphabet.get? c = none) :
    t.faultAt? w i = some (.unknownSymbol i c) := by
  simp [faultAt?, hc, hop]

/-- Behind its end a word has no fault. -/
lemma lt_length_of_faultAt? {e : WalkError} (h : t.faultAt? w i = some e) : i < w.length := by
  by_contra hi
  have hnone : w[i]? = none := List.getElem?_eq_none (Nat.le_of_not_lt hi)
  simp [faultAt?, hnone] at h

/-- A word has a first fault, or it has none. -/
lemma first_fault_or_none (w : Word) :
    (∃ i e, t.faultAt? w i = some e ∧ ∀ j < i, t.faultAt? w j = none) ∨
      ∀ i, t.faultAt? w i = none := by
  by_cases hfault : ∃ i, t.faultAt? w i ≠ none
  · left
    classical
    obtain ⟨e, he⟩ := Option.ne_none_iff_exists'.1 (Nat.find_spec hfault)
    exact ⟨_, e, he, fun j hj => not_not.1 (Nat.find_min hfault hj)⟩
  · right
    intro i
    by_contra hi
    exact hfault ⟨i, hi⟩

end Turtle

/-! ## The tally of a walk -/

namespace State

variable {σ : Type}

/-- The counters of a state are those of the operations `ops`, and so is the number of its saved
poses. -/
structure Tallies (ops : List Op) (s : State σ) : Prop where
  passed : s.passed = ops.length
  depth : (s.saved.length : ℤ) = depth ops
  drawn : s.drawn = draws ops
  deepest : (s.deepest : ℤ) = peak ops
  branches : s.branches.length = draws ops

lemma tallies_start (pose : Pose) (h : σ) : (start pose h).Tallies [] where
  passed := rfl
  depth := rfl
  drawn := rfl
  deepest := rfl
  branches := rfl

/-- The peak moves with the last operation only where that one saves a pose. -/
lemma peak_snoc (ops : List Op) (op : Op) :
    peak (ops ++ [op]) = max (peak ops) (Arbor.depth ops + max 0 op.drift) := by
  rw [peak_append]
  simp [peak]

namespace Tallies

variable {host : Host σ} {ops : List Op} {s : State σ}

/-- An operation without brackets keeps the tally if it passes one symbol, leaves the saved poses
alone and counts what it draws. -/
lemma snoc (h : s.Tallies ops) {op : Op} {s' : State σ} (hflat : op.drift = 0)
    (hpassed : s'.passed = s.passed + 1) (hsaved : s'.saved = s.saved)
    (hdrawn : s'.drawn = s.drawn + draws [op]) (hdeepest : s'.deepest = s.deepest)
    (hbranches : s'.branches.length = s.branches.length + draws [op]) :
    s'.Tallies (ops ++ [op]) where
  passed := by simp [hpassed, h.passed]
  depth := by simp [hsaved, h.depth, hflat]
  drawn := by rw [hdrawn, h.drawn, draws_append]
  deepest := by
    have hle : Arbor.depth ops ≤ peak ops := depth_le_peak (List.prefix_refl ops)
    rw [hdeepest, h.deepest, peak_snoc, hflat]
    omega
  branches := by rw [hbranches, h.branches, draws_append]

/-- Saving a pose keeps the tally. -/
lemma push (h : s.Tallies ops) : s.save.Tallies (ops ++ [.push]) where
  passed := by simp [h.passed]
  depth := by simp [h.depth, Op.drift]
  drawn := by
    rw [draws_append]
    exact h.drawn
  deepest := by
    rw [peak_snoc]
    simp [h.deepest, h.depth, Op.drift]
  branches := by
    rw [draws_append]
    exact h.branches

/-- Restoring the pose saved last keeps the tally. -/
lemma pop (h : s.Tallies ops) {pose : Pose} {saved : List Pose} (hsaved : s.saved = pose :: saved) :
    (s.pass pose saved).Tallies (ops ++ [.pop]) where
  passed := by simp [h.passed]
  depth := by
    have hdepth := h.depth
    rw [hsaved] at hdepth
    simp [Op.drift, ← hdepth]
  drawn := by
    rw [draws_append]
    exact h.drawn
  deepest := by
    have hle : Arbor.depth ops ≤ peak ops := depth_le_peak (List.prefix_refl ops)
    rw [peak_snoc]
    simp [h.deepest, Op.drift, hle]
  branches := by
    rw [draws_append]
    exact h.branches

/-- **One operation keeps the tally or fails.**  It fails with the fault that the depth in front of
it entails, and the state is left as it was. -/
lemma perform (h : s.Tallies ops) (trig : Trig) (settings : Settings)
    (hgo : ∀ h n, (host.pace h n).1 = .go) (op : Op) :
    match op.fault? settings.maxDepth.toNat s.passed (Arbor.depth ops) with
    | some e => s.perform trig settings (draw trig settings host) op = .failed s e
    | none => ∃ s', s.perform trig settings (draw trig settings host) op = .ready s' ∧
        s'.Tallies (ops ++ [op]) := by
  have hdepth := h.depth
  cases op with
  | draw =>
      refine ⟨_, draw_of_go (hgo _ _), h.snoc rfl rfl rfl rfl rfl ?_⟩
      simp [Forest.drawFrom, draws, Op.isDraw]
  | turn sign => exact ⟨_, rfl, h.snoc rfl rfl rfl rfl rfl rfl⟩
  | ignore => exact ⟨_, rfl, h.snoc rfl rfl rfl rfl rfl rfl⟩
  | push =>
      unfold Op.fault?
      by_cases hfull : (settings.maxDepth.toNat : ℤ) ≤ Arbor.depth ops
      · rw [if_pos hfull]
        exact push_of_le (by omega)
      · rw [if_neg hfull]
        exact ⟨_, push_of_lt (by omega), h.push⟩
  | pop =>
      unfold Op.fault?
      by_cases hempty : Arbor.depth ops = 0
      · rw [if_pos hempty]
        exact pop_of_nil (List.length_eq_zero_iff.1 (by omega))
      · rw [if_neg hempty]
        obtain ⟨pose, saved, hsaved⟩ := List.exists_cons_of_length_pos (l := s.saved) (by omega)
        exact ⟨_, pop_of_cons hsaved, h.pop hsaved⟩

end Tallies

end State

/-! ## Walks with and without a fault -/

namespace Turtle

variable {σ : Type} {t : Turtle} {w : Word}

lemma ops_take_succ {i : ℕ} {c : Symbol} (hc : w[i]? = some c) {op : Op}
    (hop : t.alphabet.get? c = some op) :
    t.alphabet.ops (w.take (i + 1)) = t.alphabet.ops (w.take i) ++ [op] := by
  rw [List.take_add_one, hc, Alphabet.ops_append]
  simp [Alphabet.ops, hop]

variable {host : Host σ} (trig : Trig) (hgo : ∀ h n, (host.pace h n).1 = .go) (h : σ) (pose : Pose)

include hgo

/-- As long as there is no fault, the walk goes on and keeps a tally of what it has done. -/
lemma follow_take {k : ℕ} (hk : k ≤ w.length) (hclear : ∀ i < k, t.faultAt? w i = none) :
    ∃ s, (State.start pose h).follow trig t.settings (State.draw trig t.settings host) t.read
        (w.take k) = .ready s ∧ s.Tallies (t.alphabet.ops (w.take k)) ∧ s.passed = k := by
  induction k with
  | zero => exact ⟨_, rfl, State.tallies_start pose h, rfl⟩
  | succ k ih =>
      obtain ⟨s, hfollow, htally, hpassed⟩ := ih (by omega) fun i hi => hclear i (by omega)
      have hc : w[k]? = some w[k] := List.getElem?_eq_getElem (by omega)
      have hnone := hclear k (by omega)
      cases hop : t.alphabet.get? w[k] with
      | none => simp [t.faultAt?_of_get?_none hc hop] at hnone
      | some op =>
          rw [t.faultAt?_of_get? hc hop] at hnone
          have hstep := htally.perform trig t.settings hgo op
          rw [hpassed, hnone] at hstep
          obtain ⟨s', hperform, htally'⟩ := hstep
          refine ⟨s', ?_, ?_, ?_⟩
          · rw [List.take_add_one, hc, State.follow_append, hfollow]
            show s.follow trig _ _ _ [w[k]] = _
            rw [State.follow_cons_of_ok (read_of_get? hop _), hperform]
            rfl
          · rw [ops_take_succ hc hop]
            exact htally'
          · rw [htally'.passed, List.length_append, ← htally.passed, hpassed, List.length_singleton]

/-- A word without a fault is followed to its end. -/
lemma follow_of_no_fault (hclear : ∀ i, t.faultAt? w i = none) :
    ∃ s, (State.start pose h).follow trig t.settings (State.draw trig t.settings host) t.read w =
        .ready s ∧ s.Tallies (t.alphabet.ops w) ∧ s.passed = w.length := by
  have hrun := follow_take trig hgo h pose (Nat.le_refl w.length) fun i _ => hclear i
  rwa [List.take_length] at hrun

/-- The walk fails at the first fault, and with that fault. -/
lemma follow_of_fault {i : ℕ} {e : WalkError} (hfault : t.faultAt? w i = some e)
    (hfirst : ∀ j < i, t.faultAt? w j = none) :
    ∃ s, (State.start pose h).follow trig t.settings (State.draw trig t.settings host) t.read w =
        .failed s e ∧ s.Tallies (t.alphabet.ops (w.take i)) := by
  have hi := t.lt_length_of_faultAt? hfault
  obtain ⟨s, hfollow, htally, hpassed⟩ := follow_take trig hgo h pose hi.le hfirst
  refine ⟨s, ?_, htally⟩
  have hc : w[i]? = some w[i] := List.getElem?_eq_getElem hi
  have hsplit : w = w.take i ++ w[i] :: w.drop (i + 1) := by
    rw [List.getElem_cons_drop, List.take_append_drop]
  rw [hsplit, State.follow_append, hfollow]
  show s.follow trig _ _ _ (w[i] :: w.drop (i + 1)) = _
  cases hop : t.alphabet.get? w[i] with
  | none =>
      rw [t.faultAt?_of_get?_none hc hop, Option.some.injEq] at hfault
      rw [State.follow_cons_of_error (read_of_get?_none hop _), hpassed, hfault]
  | some op =>
      rw [t.faultAt?_of_get? hc hop] at hfault
      have hstep := htally.perform trig t.settings hgo op
      rw [hpassed, hfault] at hstep
      rw [State.follow_cons_of_ok (read_of_get? hop _), hstep]
      rfl

end Turtle

/-! ## The outcome -/

/-- What a report says besides the pose. -/
def Report.counts (r : Report) : ℕ × ℕ × ℕ × Bool :=
  (r.symbols, r.branches, r.deepest, r.completed)

namespace Turtle

variable {σ : Type} {t : Turtle} {host : Host σ} {w : Word}

section Walk

variable (trig : Trig) (hgo : ∀ h n, (host.pace h n).1 = .go) (h : σ) (pose : Pose)

include hgo

lemma walk_of_fault {i : ℕ} {e : WalkError} (hfault : t.faultAt? w i = some e)
    (hfirst : ∀ j < i, t.faultAt? w j = none) :
    (t.walk trig host h pose w).outcome = .error e ∧
      (t.walk trig host h pose w).branches.length = draws (t.alphabet.ops (w.take i)) := by
  obtain ⟨s, hfollow, htally⟩ := follow_of_fault trig hgo h pose hfault hfirst
  rw [walk, hfollow]
  exact ⟨rfl, htally.branches⟩

/-- Without a fault, the walk fails in the end when poses are left over. -/
lemma walk_of_unclosed (hclear : ∀ i, t.faultAt? w i = none)
    (hopen : 0 < depth (t.alphabet.ops w)) :
    (t.walk trig host h pose w).outcome =
        .error (.unclosed (depth (t.alphabet.ops w)).toNat) ∧
      (t.walk trig host h pose w).branches.length = draws (t.alphabet.ops w) := by
  obtain ⟨s, hfollow, htally, -⟩ := follow_of_no_fault trig hgo h pose hclear
  have hdepth := htally.depth
  have hleft : s.saved.isEmpty = false := by
    rw [List.isEmpty_eq_false_iff_exists_mem]
    exact List.exists_mem_of_length_pos (by omega)
  have hcount : s.saved.length = (depth (t.alphabet.ops w)).toNat := by omega
  rw [walk, hfollow]
  refine ⟨?_, htally.branches⟩
  simp [Progress.run, State.finish, hleft, hcount]

/-- Without a fault, the walk comes through when no pose is left over. -/
lemma walk_of_closed (hclear : ∀ i, t.faultAt? w i = none)
    (hclosed : depth (t.alphabet.ops w) ≤ 0) :
    ∃ r, (t.walk trig host h pose w).outcome = .ok r ∧
      r.counts = (w.length, draws (t.alphabet.ops w), (peak (t.alphabet.ops w)).toNat, true) ∧
      (t.walk trig host h pose w).branches.length = draws (t.alphabet.ops w) := by
  obtain ⟨s, hfollow, htally, hpassed⟩ := follow_of_no_fault trig hgo h pose hclear
  have hdepth := htally.depth
  have hpeak := htally.deepest
  have hnone : s.saved = [] := List.length_eq_zero_iff.1 (by omega)
  have hdeepest : s.deepest = (peak (t.alphabet.ops w)).toNat := by omega
  rw [walk, hfollow]
  refine ⟨s.report true, ?_, ?_, htally.branches⟩
  · simp [Progress.run, State.finish, hnone]
  · simp [Report.counts, State.report, hpassed, htally.drawn, hdeepest]

end Walk

/-! ## Depths along a word -/

/-- The depth in front of a position of a word. -/
def depthAt (t : Turtle) (w : Word) (i : ℕ) : ℤ := depth (t.alphabet.ops (w.take i))

lemma depthAt_length (t : Turtle) (w : Word) :
    t.depthAt w w.length = depth (t.alphabet.ops w) := by
  rw [depthAt, List.take_length]

lemma depthAt_le_peak (t : Turtle) (w : Word) (i : ℕ) :
    t.depthAt w i ≤ peak (t.alphabet.ops w) := by
  refine depth_le_peak ⟨t.alphabet.ops (w.drop i), ?_⟩
  rw [← Alphabet.ops_append, List.take_append_drop]

/-- The peak is the depth in front of some position, or that in the end. -/
lemma exists_depthAt_eq_peak (t : Turtle) (w : Word) :
    ∃ i ≤ w.length, t.depthAt w i = peak (t.alphabet.ops w) := by
  induction w with
  | nil => exact ⟨0, Nat.le_refl 0, rfl⟩
  | cons c w ih =>
      obtain ⟨i, hi, hdepth⟩ := ih
      cases hop : t.alphabet.get? c with
      | none =>
          refine ⟨i + 1, by simpa using hi, ?_⟩
          simpa [depthAt, Alphabet.ops, hop] using hdepth
      | some op =>
          have hpeak : peak (t.alphabet.ops (c :: w)) =
              max 0 (op.drift + peak (t.alphabet.ops w)) := by
            simp [Alphabet.ops, hop, peak]
          rcases Int.le_total (op.drift + peak (t.alphabet.ops w)) 0 with hlow | hhigh
          · refine ⟨0, Nat.zero_le _, ?_⟩
            rw [hpeak, Int.max_eq_left hlow]
            rfl
          · refine ⟨i + 1, by simpa using hi, ?_⟩
            rw [hpeak, Int.max_eq_right hhigh, ← hdepth]
            simp [depthAt, Alphabet.ops, hop]

lemma isGreatest_peak (t : Turtle) (w : Word) :
    IsGreatest {d | ∃ i ≤ w.length, d = t.depthAt w i} (peak (t.alphabet.ops w)) := by
  constructor
  · obtain ⟨i, hi, hdepth⟩ := t.exists_depthAt_eq_peak w
    exact ⟨i, hi, hdepth.symm⟩
  · rintro d ⟨i, -, rfl⟩
    exact t.depthAt_le_peak w i

lemma depthAt_succ {i : ℕ} {c : Symbol} (hc : w[i]? = some c) {op : Op}
    (hop : t.alphabet.get? c = some op) : t.depthAt w (i + 1) = t.depthAt w i + op.drift := by
  rw [depthAt, ops_take_succ hc hop]
  simp [depthAt]

/-- Without a fault every symbol has an operation. -/
lemma contains_of_no_fault (hclear : ∀ i, t.faultAt? w i = none) :
    ∀ c ∈ w, t.alphabet.contains c := by
  intro c hc
  obtain ⟨i, hi⟩ := List.mem_iff_getElem?.1 hc
  have hnone := hclear i
  cases hop : t.alphabet.get? c with
  | none => simp [t.faultAt?_of_get?_none hi hop] at hnone
  | some op => simp [SymbolMap.contains, hop]

/-- Without a fault the depth stays between 0 and the limit. -/
lemma depthAt_mem_of_no_fault (hclear : ∀ i, t.faultAt? w i = none) {i : ℕ} (hi : i ≤ w.length) :
    0 ≤ t.depthAt w i ∧ t.depthAt w i ≤ t.settings.maxDepth.toNat := by
  induction i with
  | zero => exact ⟨Int.le_refl 0, Int.natCast_nonneg _⟩
  | succ i ih =>
      obtain ⟨hlow, hhigh⟩ := ih (by omega)
      have hc : w[i]? = some w[i] := List.getElem?_eq_getElem (by omega)
      have hnone := hclear i
      cases hop : t.alphabet.get? w[i] with
      | none => simp [t.faultAt?_of_get?_none hc hop] at hnone
      | some op =>
          rw [t.faultAt?_of_get? hc hop] at hnone
          change op.fault? _ _ (t.depthAt w i) = none at hnone
          rw [depthAt_succ hc hop]
          cases op <;> simp [Op.fault?, Op.drift] at hnone ⊢ <;> omega

/-! ## The outcome is decided by brackets and alphabet -/

/-- Faults do not depend on how the turtle moves. -/
lemma faultAt?_congr {t' : Turtle} (halphabet : t'.alphabet = t.alphabet)
    (hlimit : t'.settings.maxDepth = t.settings.maxDepth) (w : Word) (i : ℕ) :
    t'.faultAt? w i = t.faultAt? w i := by
  simp [faultAt?, halphabet, hlimit]

/-- Neither does the end of a walk, apart from the pose in its report. -/
lemma walk_counts_congr {τ : Type} (trig trig' : Trig) {t' : Turtle} {host' : Host τ}
    (hgo : ∀ h n, (host.pace h n).1 = .go) (hgo' : ∀ h n, (host'.pace h n).1 = .go)
    (halphabet : t'.alphabet = t.alphabet)
    (hlimit : t'.settings.maxDepth = t.settings.maxDepth) (h : σ) (h' : τ) (pose pose' : Pose)
    (w : Word) :
    (t'.walk trig' host' h' pose' w).outcome.map Report.counts =
        (t.walk trig host h pose w).outcome.map Report.counts ∧
      (t'.walk trig' host' h' pose' w).branches.length =
        (t.walk trig host h pose w).branches.length := by
  have hfaults := faultAt?_congr halphabet hlimit w
  rcases t.first_fault_or_none w with ⟨i, e, hfault, hfirst⟩ | hclear
  · have hleft := walk_of_fault trig hgo h pose hfault hfirst
    have hright := walk_of_fault trig' (t := t') (w := w) hgo' h' pose'
      ((hfaults i).trans hfault) fun j hj => (hfaults j).trans (hfirst j hj)
    rw [hleft.1, hright.1, hleft.2, hright.2, halphabet]
    exact ⟨rfl, rfl⟩
  · have hclear' : ∀ i, t'.faultAt? w i = none := fun i => (hfaults i).trans (hclear i)
    by_cases hopen : 0 < depth (t.alphabet.ops w)
    · have hleft := walk_of_unclosed trig hgo h pose hclear hopen
      have hright := walk_of_unclosed trig' hgo' h' pose' hclear'
        (by rwa [halphabet])
      rw [hleft.1, hright.1, hleft.2, hright.2, halphabet]
      exact ⟨rfl, rfl⟩
    · have hclosed := Int.not_lt.1 hopen
      obtain ⟨r, hout, hcounts, hbranches⟩ :=
        walk_of_closed trig hgo h pose hclear hclosed
      obtain ⟨r', hout', hcounts', hbranches'⟩ :=
        walk_of_closed trig' hgo' h' pose' hclear' (by rwa [halphabet])
      rw [hout, hout', hbranches, hbranches', halphabet]
      refine ⟨?_, rfl⟩
      rw [Except.map, Except.map, hcounts, hcounts', halphabet]

/-- **Brackets and alphabet decide how a walk ends.**  With a pacer that never stops it, a walk
fails at the first fault of its word, with that fault and with one branch for every draw in front of
it; a word without a fault fails for the poses that are left over, and comes through when none are,
with a report that counts its symbols and draws and holds the greatest depth.  A turtle with the
same alphabet and the same limit ends alike, whatever its other settings, its surroundings and its
first pose. -/
theorem outcome_walk_of_pace_go (trig : Trig) (t : Turtle) (host : Host σ) (h : σ) (pose : Pose)
    (w : Word) (hgo : ∀ h n, (host.pace h n).1 = .go) :
    (∀ i e, t.faultAt? w i = some e → (∀ j < i, t.faultAt? w j = none) →
      (t.walk trig host h pose w).outcome = .error e ∧
      (t.walk trig host h pose w).branches.length = draws (t.alphabet.ops (w.take i))) ∧
    ((∀ i, t.faultAt? w i = none) → 0 < t.depthAt w w.length →
      (t.walk trig host h pose w).outcome = .error (.unclosed (t.depthAt w w.length).toNat) ∧
      (t.walk trig host h pose w).branches.length = draws (t.alphabet.ops w)) ∧
    ((∀ i, t.faultAt? w i = none) → t.depthAt w w.length ≤ 0 →
      ∃ r, (t.walk trig host h pose w).outcome = .ok r ∧ r.completed = true ∧
        r.symbols = w.length ∧ r.branches = draws (t.alphabet.ops w) ∧
        IsGreatest {d | ∃ i ≤ w.length, d = t.depthAt w i} (r.deepest : ℤ) ∧
        (t.walk trig host h pose w).branches.length = r.branches) ∧
    (∀ {τ : Type} (trig' : Trig) (t' : Turtle) (host' : Host τ) (h' : τ) (pose' : Pose),
      (∀ h n, (host'.pace h n).1 = .go) → t'.alphabet = t.alphabet →
      t'.settings.maxDepth = t.settings.maxDepth →
      (t'.walk trig' host' h' pose' w).outcome.map Report.counts =
          (t.walk trig host h pose w).outcome.map Report.counts ∧
        (t'.walk trig' host' h' pose' w).branches.length =
          (t.walk trig host h pose w).branches.length) := by
  rw [depthAt_length]
  refine ⟨fun i e => walk_of_fault trig hgo h pose, walk_of_unclosed trig hgo h pose, ?_, ?_⟩
  · intro hclear hclosed
    obtain ⟨r, hout, hcounts, hbranches⟩ := walk_of_closed trig hgo h pose hclear hclosed
    simp only [Report.counts, Prod.mk.injEq] at hcounts
    obtain ⟨hsymbols, hdraws, hdeepest, hcompleted⟩ := hcounts
    have hpeak : (r.deepest : ℤ) = peak (t.alphabet.ops w) := by
      rw [hdeepest, Int.toNat_of_nonneg (peak_nonneg _)]
    refine ⟨r, hout, hcompleted, hsymbols, hdraws, ?_, by rw [hbranches, hdraws]⟩
    rw [hpeak]
    exact t.isGreatest_peak w
  · intro τ trig' t' host' h' pose' hgo' halphabet hlimit
    exact walk_counts_congr trig trig' hgo hgo' halphabet hlimit h h' pose pose' w

/-- A bracket too many stops the walk where it stands, after the two draws in front of it. -/
theorem outcome_walk_of_second_pop :
    (∀ h n, ((Host.plain Pacer.unlimited Surface.absent).pace h n).1 = .go) ∧
    ((Turtle.standard {}).walk Trig.native (Host.plain Pacer.unlimited Surface.absent)
      () Pose.origin ['F', '[', '+', 'F', ']', ']', 'F']).outcome = .error (.unbalancedPop 5) ∧
    ((Turtle.standard {}).walk Trig.native (Host.plain Pacer.unlimited Surface.absent)
      () Pose.origin ['F', '[', '+', 'F', ']', ']', 'F']).branches.length = 2 :=
  ⟨fun _ _ => rfl,
    (outcome_walk_of_pace_go _ _ _ _ _ _ fun _ _ => rfl).1 5 _ (by decide) (by decide)⟩

end Turtle

end Arbor
