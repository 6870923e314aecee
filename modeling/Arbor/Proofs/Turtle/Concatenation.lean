import Arbor.Proofs.Turtle.ForestWalk
import Arbor.Proofs.Turtle.Runs

/-!
# Walks of words in a row

An unpaced walk that comes through has no pose saved in the end, so the symbols behind its word find
the turtle as they would find one that sets out there, but for what has been counted and journalled
so far.  `State.onto base u` is the turtle `u` with the past of `base` put in front of its own, and
an operation does not see the difference (`perform_onto`): what it does to `base.onto u` is what it
does to `u`, put onto `base`.  Positions in errors count from the beginning of the whole word and move
on by what `base` has passed (`WalkError.shift`).

So the walk of two words in a row is the walk of the first one followed by the walk of the second
one from where the first one ends (`Turtle.walkUnpaced_append`).
-/

namespace Arbor

/-! ## What depends on the past -/

/-- The error as it is found `n` symbols further on. -/
def WalkError.shift (n : ℕ) : WalkError → WalkError
  | unknownSymbol position symbol => .unknownSymbol (n + position) symbol
  | unknownId position id => .unknownId (n + position) id
  | unbalancedPop position => .unbalancedPop (n + position)
  | unclosed depth => .unclosed depth
  | tooDeep position limit => .tooDeep (n + position) limit

lemma WalkError.position?_shift (n : ℕ) (e : WalkError) :
    (e.shift n).position? = e.position?.map (n + ·) := by
  cases e <;> rfl

/-- The call as it is made after `k` further draws. -/
def Call.later (k : ℕ) : Call → Call
  | pace drawn word => .pace (k + drawn) word
  | query q answer => .query q answer
  | emit branch => .emit branch

/-- Only calls on the pacer show how much has been drawn. -/
lemma Call.filter_map_later (k : ℕ) (calls : List Call) :
    (calls.map (Call.later k)).filter (fun c => !c.isPace) = calls.filter fun c => !c.isPace := by
  induction calls with
  | nil => rfl
  | cons c calls ih =>
      rw [List.map_cons]
      cases c with
      | pace drawn word => exact ih
      | query q answer => exact congrArg (Call.query q answer :: ·) ih
      | emit branch => exact congrArg (Call.emit branch :: ·) ih

variable {σ : Type}

namespace State

/-- The turtle `u` with the past of `base` in front of its own. -/
def onto (base u : State σ) : State σ where
  pose := u.pose
  saved := u.saved
  passed := base.passed + u.passed
  drawn := base.drawn + u.drawn
  deepest := max base.deepest u.deepest
  journal := u.journal.map (Call.later base.drawn) ++ base.journal
  host := u.host

/-- A turtle without saved poses is one that sets out where it stands, put onto its own past. -/
lemma onto_start {s : State σ} (hsaved : s.saved = []) : s.onto (start s.pose s.host) = s := by
  cases s
  cases hsaved
  simp [onto, start]

end State

/-- Where `p` leads a turtle that has the past of `base`. -/
def Progress.onto (base : State σ) : Progress σ → Progress σ
  | ready u => .ready (base.onto u)
  | stopped u => .stopped (base.onto u)
  | failed u e => .failed (base.onto u) (e.shift base.passed)

/-- Going on and putting onto a past can be done in either order. -/
lemma Progress.onto_andThen (base : State σ) (p : Progress σ) {next next' : State σ → Progress σ}
    (hnext : ∀ u, next (base.onto u) = (next' u).onto base) :
    (p.onto base).andThen next = (p.andThen next').onto base := by
  cases p with
  | ready u => exact hnext u
  | stopped u => rfl
  | failed u e => rfl

/-! ## Operations and words -/

namespace State

variable (trig : Trig) (settings : Settings) (host : Host σ) (base u : State σ)

/-- **One operation** does not see what past it is put onto. -/
lemma perform_onto (op : Op) :
    (base.onto u).perform trig settings (draw trig settings host.unpaced) op =
      (u.perform trig settings (draw trig settings host.unpaced) op).onto base := by
  cases op with
  | draw => rfl
  | turn sign => rfl
  | ignore => rfl
  | push =>
      show (base.onto u).push settings = (u.push settings).onto base
      by_cases hfree : u.saved.length < settings.maxDepth.toNat
      · rw [push_of_lt hfree, push_of_lt (s := base.onto u) hfree]
        simp only [Progress.onto, save, onto, pass, max_assoc, Nat.add_assoc]
      · have hfull := Nat.not_lt.1 hfree
        rw [push_of_le hfull, push_of_le (s := base.onto u) hfull]
        rfl
  | pop =>
      show (base.onto u).pop = u.pop.onto base
      cases hsaved : u.saved with
      | nil =>
          rw [pop_of_nil hsaved, pop_of_nil (s := base.onto u) hsaved]
          rfl
      | cons pose saved =>
          rw [pop_of_cons hsaved, pop_of_cons (s := base.onto u) hsaved]
          rfl

end State

namespace Turtle

/-- **A whole word** does not see it either. -/
lemma follow_onto (trig : Trig) (t : Turtle) (host : Host σ) (base u : State σ) (w : Word) :
    (base.onto u).follow trig t.settings (State.draw trig t.settings host.unpaced) t.read w =
      (u.follow trig t.settings (State.draw trig t.settings host.unpaced) t.read w).onto base := by
  induction w generalizing u with
  | nil => rfl
  | cons c w ih =>
      cases hop : t.alphabet.get? c with
      | none =>
          rw [State.follow_cons_of_error (read_of_get?_none hop _),
            State.follow_cons_of_error (read_of_get?_none hop _)]
          rfl
      | some op =>
          rw [State.follow_cons_of_ok (read_of_get? hop _),
            State.follow_cons_of_ok (read_of_get? hop _), State.perform_onto]
          exact Progress.onto_andThen base _ ih

end Turtle

/-! ## Runs -/

/-- The report of a turtle that has the past of `base`. -/
def Report.after (base : State σ) (r : Report) : Report where
  symbols := base.passed + r.symbols
  branches := base.drawn + r.branches
  deepest := max base.deepest r.deepest
  completed := r.completed
  finalPose := r.finalPose

namespace Progress

/-- A run ends as it would without its past, with counts and positions moved on. -/
lemma outcome_run_onto (base : State σ) (p : Progress σ) :
    (p.onto base).run.outcome =
      (p.run.outcome.map (Report.after base)).mapError (WalkError.shift base.passed) := by
  cases p with
  | ready u =>
      cases hsaved : u.saved with
      | nil => simp [onto, run, State.onto, State.finish, hsaved, Except.map, Except.mapError,
          State.report, Report.after]
      | cons pose saved => simp [onto, run, State.onto, State.finish, hsaved, Except.map,
          Except.mapError, WalkError.shift]
  | stopped u => rfl
  | failed u e => rfl

/-- The calls of the past come first. -/
lemma calls_run_onto (base : State σ) (p : Progress σ) (outcome : Except WalkError Report) :
    (p.onto base).run.withoutPaces.calls =
      (base.finish outcome).withoutPaces.calls ++ p.run.withoutPaces.calls := by
  have hfinish (u : State σ) (o o' : Except WalkError Report) :
      ((base.onto u).finish o).withoutPaces.calls =
        (base.finish outcome).withoutPaces.calls ++ (u.finish o').withoutPaces.calls := by
    simp only [Run.withoutPaces, State.finish, State.onto, List.reverse_append, List.filter_append]
    rw [← List.map_reverse, Call.filter_map_later]
  cases p with
  | ready u => exact hfinish u _ _
  | stopped u => exact hfinish u _ _
  | failed u e => exact hfinish u _ _

lemma host_run_onto (base : State σ) (p : Progress σ) : (p.onto base).run.host = p.run.host := by
  cases p <;> rfl

end Progress

namespace Turtle

variable (trig : Trig) (t : Turtle) (host : Host σ) (h : σ) (pose : Pose)

/-- A walk that comes through leaves a turtle without saved poses, which its report describes. -/
lemma exists_ready_of_outcome_ok {v : Word} {r : Report}
    (hok : (t.walkUnpaced trig host h pose v).outcome = .ok r) :
    ∃ s, (State.start pose h).follow trig t.settings (State.draw trig t.settings host.unpaced)
        t.read v = .ready s ∧ s.saved = [] ∧ s.passed = v.length ∧ r = s.report true := by
  obtain ⟨hclear, hclosed⟩ := no_fault_of_outcome_ok trig t host h pose hok
  have hgo : ∀ h n, (host.unpaced.pace h n).1 = .go := fun _ _ => rfl
  obtain ⟨s, hfollow, htally, hpassed⟩ := follow_of_no_fault trig hgo h pose hclear
  have hdepth := htally.depth
  have hsaved : s.saved = [] := List.length_eq_zero_iff.1 (by omega)
  refine ⟨s, hfollow, hsaved, hpassed, ?_⟩
  rw [walkUnpaced, walk, hfollow, Progress.run, hsaved] at hok
  exact (Except.ok.inj hok).symm

/-- A walk that fails before its end fails there whatever comes behind. -/
lemma walkUnpaced_append_of_error {v : Word} {e : WalkError}
    (herror : (t.walkUnpaced trig host h pose v).outcome = .error e) (hend : ∀ d, e ≠ .unclosed d)
    (w : Word) : t.walkUnpaced trig host h pose (v ++ w) = t.walkUnpaced trig host h pose v := by
  rw [walkUnpaced, Run.outcome_withoutPaces, walk] at herror
  rw [walkUnpaced, walkUnpaced, walk, walk, State.follow_append]
  generalize (State.start pose h).follow trig t.settings (State.draw trig t.settings host.unpaced)
    t.read v = p at herror ⊢
  cases p with
  | ready s =>
      rcases Progress.outcome_run_ready s with hok | ⟨d, hopen⟩
      · rw [hok] at herror
        cases herror
      · rw [hopen, Except.error.injEq] at herror
        exact absurd herror.symm (hend d)
  | stopped s => cases herror
  | failed s e' => rfl

/-- **Words in a row are walked in a row.**  When the walk of a word comes through, the walk of that
word with another one behind it makes the calls of the two walks, the second one from where the first
one ends.  If the second one comes through, counts are added and the greater depth is reported; if it
fails, so does the whole, with a position that counts the symbols of the first word as well.  When the
walk of the first word fails otherwise than for poses left over, the second word changes nothing. -/
theorem walkUnpaced_append (v w : Word) :
    (∀ r, (t.walkUnpaced trig host h pose v).outcome = .ok r →
      let first := t.walkUnpaced trig host h pose v
      let second := t.walkUnpaced trig host first.host r.finalPose w
      let whole := t.walkUnpaced trig host h pose (v ++ w)
      whole.branches = first.branches ++ second.branches ∧
      whole.calls = first.calls ++ second.calls ∧ whole.host = second.host ∧
      (∀ r', second.outcome = .ok r' → whole.outcome = .ok {
        symbols := r.symbols + r'.symbols
        branches := r.branches + r'.branches
        deepest := max r.deepest r'.deepest
        completed := r'.completed
        finalPose := r'.finalPose }) ∧
      (∀ e, second.outcome = .error e → whole.outcome = .error (e.shift v.length) ∧
        (e.shift v.length).position? = e.position?.map (v.length + ·))) ∧
    (∀ e, (t.walkUnpaced trig host h pose v).outcome = .error e → (∀ d, e ≠ .unclosed d) →
      (t.walkUnpaced trig host h pose (v ++ w)).outcome = .error e ∧
      t.walkUnpaced trig host h pose (v ++ w) = t.walkUnpaced trig host h pose v) := by
  constructor
  · intro r hok first second whole
    obtain ⟨s, hfollow, hsaved, hpassed, rfl⟩ := exists_ready_of_outcome_ok trig t host h pose hok
    -- The second walk, and the whole as the second walk put onto the first.
    let p := (State.start s.pose s.host).follow trig t.settings
      (State.draw trig t.settings host.unpaced) t.read w
    have hfirst : first = (s.finish (.ok (s.report true))).withoutPaces := by
      show (t.walk trig host.unpaced h pose v).withoutPaces = _
      rw [walk, hfollow, Progress.run, hsaved]
      rfl
    have hhost : first.host = s.host := by rw [hfirst]; rfl
    have hsecond : second = p.run.withoutPaces := by
      show (t.walk trig host.unpaced first.host s.pose w).withoutPaces = _
      rw [hhost]
      rfl
    have hwhole : whole = (p.onto s).run.withoutPaces := by
      have hstart := follow_onto trig t host s (State.start s.pose s.host) w
      rw [State.onto_start hsaved] at hstart
      show (t.walk trig host.unpaced h pose (v ++ w)).withoutPaces = _
      rw [walk, State.follow_append, hfollow]
      exact congrArg (fun q => q.run.withoutPaces) hstart
    have hcalls : whole.calls = first.calls ++ second.calls := by
      rw [hwhole, hfirst, hsecond]
      exact Progress.calls_run_onto s p _
    have houtcome : whole.outcome =
        (second.outcome.map (Report.after s)).mapError (WalkError.shift v.length) := by
      rw [hwhole, hsecond, ← hpassed]
      exact Progress.outcome_run_onto s p
    refine ⟨?_, hcalls, ?_, ?_, ?_⟩
    · simp only [Run.branches, hcalls, List.filterMap_append]
    · rw [hwhole, hsecond]
      exact Progress.host_run_onto s p
    · intro r' hr'
      rw [houtcome, hr']
      rfl
    · intro e he
      rw [houtcome, he]
      exact ⟨rfl, WalkError.position?_shift _ _⟩
  · intro e herror hend
    have hwhole := walkUnpaced_append_of_error trig t host h pose herror hend w
    exact ⟨hwhole ▸ herror, hwhole⟩

/-- A word of five symbols with another one behind it: a word that comes through, one with a bracket
too many, which is found five symbols further on, and one behind a word that fails by itself. -/
theorem walkUnpaced_five_append :
    let walk := (standard {}).walkUnpaced Trig.native (Host.plain .unlimited Sphere.unit.nearest) ()
    ∃ r r', (walk Pose.origin ['F', '[', '+', 'F', ']']).outcome = .ok r ∧
      (walk r.finalPose ['F', '[', ']']).outcome = .ok r' ∧
      (walk Pose.origin ['F', '[', '+', 'F', ']', 'F', '[', ']']).outcome =
        .ok ⟨5 + 3, 2 + 1, max 1 1, true, r'.finalPose⟩ ∧
      (walk r.finalPose ['F', ']', 'F']).outcome = .error (.unbalancedPop 1) ∧
      (walk Pose.origin ['F', '[', '+', 'F', ']', 'F', ']', 'F']).outcome =
        .error (.unbalancedPop (5 + 1)) ∧
      (walk Pose.origin ['F', ']']).outcome = .error (.unbalancedPop 1) ∧
      (walk Pose.origin ['F', ']', 'F']).outcome = .error (.unbalancedPop 1) := by
  have happend := walkUnpaced_append Trig.native (standard {})
    (Host.plain .unlimited Sphere.unit.nearest) () Pose.origin
  have hfirst := (happend ['F', '[', '+', 'F', ']'] ['F', '[', ']']).1 _ rfl
  have hsecond := (happend ['F', '[', '+', 'F', ']'] ['F', ']', 'F']).1 _ rfl
  have hfailed := (happend ['F', ']'] ['F']).2 _ rfl (by simp)
  exact ⟨_, _, rfl, rfl, hfirst.2.2.2.1 _ rfl, rfl, (hsecond.2.2.2.2 _ rfl).1, rfl, hfailed.1⟩

end Turtle

end Arbor
