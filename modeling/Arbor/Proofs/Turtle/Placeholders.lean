import Arbor.Proofs.Turtle.Runs

/-!
# Walks without placeholders

A symbol whose operation is to ignore it shows in nothing but the count of symbols passed.  So some
of these symbols can be left out of a word, wherever they stand, and the walk does the same with its
surroundings and ends in the same way; only the positions in its errors and the number of symbols in
its report are smaller, each by the number of symbols left out in front (`place`).

The walk of the shorter word stands where the other one stands, with its symbols counted anew
(`State.recount`).  An operation does not look at that count, so whatever it does to a turtle it
does to one that counts otherwise (`Step.recount`), and a symbol that is left out moves the count of
the long walk to one that is the same for the short walk (`place_succ_of_removed`).
-/

namespace Arbor

/-! ## Words with symbols left out -/

section Removed

variable (removed : ℕ → Prop) [DecidablePred removed]

/-- The items of a list but for those at removed positions; the first item has position `i`. -/
def without {α : Type} (items : List α) (i : ℕ) : List α :=
  ((items.zipIdx i).filter fun e => ¬ removed e.2).map Prod.fst

/-- The position that comes of a position when the removed ones in front of it are gone. -/
def place (i : ℕ) : ℕ := i - Nat.count removed i

variable {removed} {α : Type} {item : α} {i : ℕ}

lemma without_cons_of_removed (hi : removed i) (items : List α) :
    without removed (item :: items) i = without removed items (i + 1) := by
  simp [without, List.zipIdx_cons, hi]

lemma without_cons_of_kept (hi : ¬ removed i) (items : List α) :
    without removed (item :: items) i = item :: without removed items (i + 1) := by
  simp [without, List.zipIdx_cons, hi]

lemma place_succ_of_removed (hi : removed i) : place removed (i + 1) = place removed i := by
  rw [place, place, Nat.count_succ, if_pos hi]
  omega

lemma place_succ_of_kept (hi : ¬ removed i) : place removed (i + 1) = place removed i + 1 := by
  have hle : Nat.count removed i ≤ i := Nat.count_le removed
  rw [place, place, Nat.count_succ, if_neg hi]
  omega

end Removed

/-! ## Counting symbols anew -/

/-- The error as it is found when positions are counted by `count`. -/
def WalkError.recount (count : ℕ → ℕ) : WalkError → WalkError
  | unknownSymbol position symbol => .unknownSymbol (count position) symbol
  | unknownId position id => .unknownId (count position) id
  | unbalancedPop position => .unbalancedPop (count position)
  | unclosed depth => .unclosed depth
  | tooDeep position limit => .tooDeep (count position) limit

lemma WalkError.position?_recount (count : ℕ → ℕ) (e : WalkError) :
    (e.recount count).position? = e.position?.map count := by
  cases e <;> rfl

def Report.recount (count : ℕ → ℕ) (r : Report) : Report := { r with symbols := count r.symbols }

variable {σ : Type}

/-- The turtle with the symbols it has passed counted by `count`. -/
def State.recount (count : ℕ → ℕ) (s : State σ) : State σ := { s with passed := count s.passed }

namespace Progress

def recount (count : ℕ → ℕ) : Progress σ → Progress σ
  | ready s => .ready (s.recount count)
  | stopped s => .stopped (s.recount count)
  | failed s e => .failed (s.recount count) (e.recount count)

/-- A run with its symbols counted anew makes the same calls. -/
lemma run_recount (count : ℕ → ℕ) (p : Progress σ) :
    (p.recount count).run =
      { p.run with
        outcome := (p.run.outcome.map (Report.recount count)).mapError (WalkError.recount count) } := by
  cases p with
  | ready s =>
      cases hsaved : s.saved <;>
        simp [recount, run, State.recount, State.finish, State.report, hsaved, Except.map,
          Except.mapError, Report.recount, WalkError.recount]
  | stopped s => rfl
  | failed s e => rfl

end Progress

namespace State

variable {trig : Trig} {settings : Settings} {host : Host σ} {s : State σ} {count : ℕ → ℕ}

/-- **One operation** does not see how symbols are counted, if the next one counts as one. -/
lemma Step.recount (hnext : count (s.passed + 1) = count s.passed + 1) {op : Op} {p : Progress σ}
    (h : s.Step trig settings host op p) :
    (s.recount count).Step trig settings host op (p.recount count) := by
  have hpass (pose : Pose) (saved : List Pose) :
      (s.pass pose saved).recount count = (s.recount count).pass pose saved := by
    simp only [State.recount, pass, hnext]
  cases h with
  | draw hgo =>
      have hgrow : ((s.resume host).grow trig settings host).recount count =
          ((s.recount count).resume host).grow trig settings host := by
        simp only [State.recount, grow, reach, ask, pass, resume, hnext]
      rw [Progress.recount, hgrow]
      exact .draw hgo
  | refused hstop => exact .refused hstop
  | turn sign =>
      rw [Progress.recount, hpass]
      exact .turn sign
  | ignore =>
      rw [Progress.recount, hpass]
      exact .ignore
  | push hfree =>
      have hsave : s.save.recount count = (s.recount count).save := by
        simp only [State.recount, save, pass, hnext]
      rw [Progress.recount, hsave]
      exact .push hfree
  | tooDeep hfull => exact .tooDeep hfull
  | pop hsaved =>
      rw [Progress.recount, hpass]
      exact .pop hsaved
  | unbalanced hsaved => exact .unbalanced hsaved

end State

/-! ## Walks -/

namespace Turtle

/-- **A whole word.**  A turtle that passes the same word without some of its placeholders gets to
where it would get with them. -/
lemma follow_without (trig : Trig) (t : Turtle) (host : Host σ) (s : State σ) (w : Word)
    (removed : ℕ → Prop) [DecidablePred removed]
    (hremoved : ∀ j c, w[j]? = some c → removed (s.passed + j) →
      t.alphabet.get? c = some .ignore) :
    (s.recount (place removed)).follow trig t.settings (State.draw trig t.settings host) t.read
        (without removed w s.passed) =
      (s.follow trig t.settings (State.draw trig t.settings host) t.read w).recount
        (place removed) := by
  induction w generalizing s with
  | nil => rfl
  | cons c w ih =>
      have hrest (u : State σ) (hpassed : u.passed = s.passed + 1) (j : ℕ) (d : Symbol)
          (hd : w[j]? = some d) (hj : removed (u.passed + j)) :
          t.alphabet.get? d = some .ignore := by
        refine hremoved (j + 1) d hd ?_
        rwa [hpassed, Nat.add_right_comm] at hj
      by_cases hc : removed s.passed
      · have hignore : t.alphabet.get? c = some .ignore := hremoved 0 c rfl hc
        have hstay : s.recount (place removed) = (s.pass s.pose s.saved).recount (place removed) := by
          simp only [State.recount, State.pass, place_succ_of_removed hc]
        rw [without_cons_of_removed hc, State.follow_cons_of_ok (read_of_get? hignore _), hstay]
        exact ih _ (hrest _ rfl)
      · rw [without_cons_of_kept hc]
        cases hop : t.alphabet.get? c with
        | none =>
            rw [State.follow_cons_of_error (read_of_get?_none hop _),
              State.follow_cons_of_error (read_of_get?_none hop _)]
            rfl
        | some op =>
            have hstep := s.step_perform trig t.settings host op
            rw [State.follow_cons_of_ok (read_of_get? hop _),
              State.follow_cons_of_ok (read_of_get? hop _),
              State.step_iff.1 (hstep.recount (place_succ_of_kept hc))]
            cases hperform : s.perform trig t.settings (State.draw trig t.settings host) op with
            | ready u =>
                rw [hperform] at hstep
                have hgoes := ih u (hrest u hstep.passed)
                rwa [hstep.passed] at hgoes
            | stopped u => rfl
            | failed u e => rfl

/-- **Placeholders are invisible to the turtle.**  Remove from a word symbols that are to be
ignored, at any positions.  The walk of what is left makes the same calls on pacer, surface and
emitter and leaves them in the same state.  Where the walk of the whole word ends with a report, it
ends with that report, less the symbols that were removed among those it passed; and where that one
fails, it fails in the same way, at a position that is smaller by the symbols removed in front of
it. -/
theorem walk_without_placeholders (trig : Trig) (t : Turtle) (host : Host σ) (h : σ) (pose : Pose)
    (w : Word) (removed : ℕ → Prop) [DecidablePred removed]
    (hremoved : ∀ i c, w[i]? = some c → removed i → t.alphabet.get? c = some .ignore) :
    let whole := t.walk trig host h pose w
    let rest := t.walk trig host h pose (without removed w 0)
    rest.calls = whole.calls ∧ rest.host = whole.host ∧ rest.branches = whole.branches ∧
    (∀ r, whole.outcome = .ok r → rest.outcome = .ok {
      symbols := r.symbols - Nat.count removed r.symbols
      branches := r.branches
      deepest := r.deepest
      completed := r.completed
      finalPose := r.finalPose }) ∧
    ∀ e, whole.outcome = .error e →
      rest.outcome = .error (e.recount fun i => i - Nat.count removed i) ∧
      (e.recount fun i => i - Nat.count removed i).position? =
        e.position?.map fun i => i - Nat.count removed i := by
  intro whole rest
  have hwalk : rest = { whole with
      outcome := (whole.outcome.map (Report.recount (place removed))).mapError
        (WalkError.recount (place removed)) } := by
    have hfollow := follow_without trig t host (State.start pose h) w removed
      (by simpa [State.start] using hremoved)
    have hrun := Progress.run_recount (place removed) ((State.start pose h).follow trig t.settings
      (State.draw trig t.settings host) t.read w)
    rwa [← hfollow] at hrun
  refine ⟨by rw [hwalk], by rw [hwalk], by rw [hwalk]; rfl, ?_, ?_⟩
  · intro r hr
    rw [hwalk, hr]
    rfl
  · intro e he
    rw [hwalk, he]
    exact ⟨rfl, WalkError.position?_recount _ e⟩

/-- A word with five buds and a bracket too many behind them. -/
def budded : Word := "XFX[FX]X]FX".toList

/-- Without three of its buds, the bracket is found three symbols earlier; and a pacer that allows
one draw stops the walk one symbol earlier, for only one of the buds removed stands in front. -/
theorem walk_budded_without :
    (∀ i c, budded[i]? = some c → i ∈ [0, 5, 7] →
      (standard {}).alphabet.get? c = some .ignore) ∧
    without (· ∈ [0, 5, 7]) budded 0 = "FX[F]]FX".toList ∧
    ((standard {}).walk Trig.native (Host.plain .unlimited Sphere.unit.nearest) () Pose.origin
      budded).outcome = .error (.unbalancedPop 8) ∧
    ((standard {}).walk Trig.native (Host.plain .unlimited Sphere.unit.nearest) () Pose.origin
      "FX[F]]FX".toList).outcome = .error (.unbalancedPop 5) ∧
    ∃ p, ((standard {}).walk Trig.native (Host.plain (.upTo 1) Sphere.unit.nearest) ()
        Pose.origin budded).outcome = .ok ⟨4, 1, 1, false, p⟩ ∧
      ((standard {}).walk Trig.native (Host.plain (.upTo 1) Sphere.unit.nearest) ()
        Pose.origin "FX[F]]FX".toList).outcome = .ok ⟨3, 1, 1, false, p⟩ := by
  have hremoved : ∀ i c, budded[i]? = some c → i ∈ [0, 5, 7] →
      (standard {}).alphabet.get? c = some .ignore := by
    intro i c hc hi
    simp only [List.mem_cons, List.not_mem_nil, or_false] at hi
    rcases hi with rfl | rfl | rfl <;> (cases hc; decide)
  have hword : without (· ∈ [0, 5, 7]) budded 0 = "FX[F]]FX".toList := by decide
  have hwalk (pacer : Pacer) := walk_without_placeholders Trig.native (standard {})
    (Host.plain pacer Sphere.unit.nearest) () Pose.origin budded (· ∈ [0, 5, 7]) hremoved
  simp only [hword] at hwalk
  have hfault := ((hwalk .unlimited).2.2.2.2 _ rfl).1
  obtain ⟨p, hcut⟩ : ∃ p, ((standard {}).walk Trig.native
      (Host.plain (.upTo 1) Sphere.unit.nearest) () Pose.origin budded).outcome =
        .ok ⟨4, 1, 1, false, p⟩ := ⟨_, rfl⟩
  exact ⟨hremoved, hword, rfl, hfault, p, hcut, (hwalk (.upTo 1)).2.2.2.1 _ hcut⟩

end Turtle

end Arbor
