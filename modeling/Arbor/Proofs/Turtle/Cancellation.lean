import Arbor.Proofs.Turtle.Runs

/-!
# Walks that their pacer cuts short

A pacer is asked before every draw, with the number of draws so far, so all that a walk sees of it is
the number at which it first says stop (`firstStop`), even when it remembers what it was asked.  A
walk that draws no more than that is the walk without a pacer.  Any other is that walk cut off in
front of the first draw that is not allowed: it has the branches drawn up to there and reports the
state in which the unpaced walk stands there, whatever comes behind.

The two walks go abreast (`State.Abreast`) until the pacer says stop, and
`follow_abreast_or_stopped` says that this is the only way for them to part.
-/

namespace Arbor

variable {σ : Type}

/-! ## The first stop of a pacer -/

section Pacing

variable (pace : σ → ℕ → Pace × σ) (h : σ)

/-- What a pacer remembers after it was asked with 0, 1, …, `k - 1`. -/
def pacerAfter : ℕ → σ
  | 0 => h
  | k + 1 => (pace (pacerAfter k) k).2

/-- The word of a pacer that is asked with `k` after 0, 1, …, `k - 1`. -/
def paceAt (k : ℕ) : Pace := (pace (pacerAfter pace h k) k).1

/-- The number at which a pacer first says stop; infinite for one that never does. -/
noncomputable def firstStop : ℕ∞ := ⨅ k, ⨅ _ : paceAt pace h k = .stop, (k : ℕ∞)

variable {pace h}

lemma paceAt_eq_go_iff {k : ℕ} : paceAt pace h k = .go ↔ paceAt pace h k ≠ .stop := by
  cases paceAt pace h k <;> simp

lemma coe_le_firstStop_iff {n : ℕ} :
    (n : ℕ∞) ≤ firstStop pace h ↔ ∀ k < n, paceAt pace h k = .go := by
  simp only [firstStop, le_iInf_iff, Nat.cast_le, paceAt_eq_go_iff]
  constructor
  · intro hle k hk hstop
    exact Nat.not_le.2 hk (hle k hstop)
  · intro hgo k hstop
    by_contra hk
    exact hgo k (Nat.not_le.1 hk) hstop

lemma firstStop_le_coe {k : ℕ} (hstop : paceAt pace h k = .stop) : firstStop pace h ≤ k :=
  iInf₂_le k hstop

lemma firstStop_eq_coe {b : ℕ} (hgo : ∀ k < b, paceAt pace h k = .go)
    (hstop : paceAt pace h b = .stop) : firstStop pace h = b :=
  (firstStop_le_coe hstop).antisymm (coe_le_firstStop_iff.2 hgo)

/-- A pacer with a limit first says stop at its limit. -/
lemma firstStop_upTo (limit : ℕ) :
    firstStop (fun (_ : Unit) drawn => (Pacer.upTo limit drawn, ())) () = limit := by
  apply firstStop_eq_coe
  · intro k hk
    simp [paceAt, Pacer.upTo, hk]
  · simp [paceAt, Pacer.upTo]

end Pacing

/-! ## Walking abreast -/

namespace State

variable {pace : σ → ℕ → Pace × σ} {h : σ} {s u : State σ}

/-- A paced turtle and an unpaced one that have done the same; the pacer has let the first one do
all of its draws. -/
structure Abreast (pace : σ → ℕ → Pace × σ) (h : σ) (s u : State σ) : Prop where
  pose : s.pose = u.pose
  saved : s.saved = u.saved
  passed : s.passed = u.passed
  drawn : s.drawn = u.drawn
  deepest : s.deepest = u.deepest
  branches : s.branches = u.branches
  counted : u.branches.length = u.drawn
  host : s.host = pacerAfter pace h s.drawn
  allowed : ∀ k < s.drawn, paceAt pace h k = .go

lemma abreast_start (pace : σ → ℕ → Pace × σ) (h : σ) (pose : Pose) :
    (start pose h).Abreast pace h (start pose h) where
  pose := rfl
  saved := rfl
  passed := rfl
  drawn := rfl
  deepest := rfl
  branches := rfl
  counted := rfl
  host := rfl
  allowed _ hk := absurd hk (Nat.not_lt_zero _)

namespace Abreast

lemma pace_eq (hs : s.Abreast pace h u) : (pace s.host s.drawn).1 = paceAt pace h s.drawn := by
  rw [hs.host, paceAt]

/-- What changes neither the draws nor the pacer keeps two turtles abreast. -/
lemma congr (hs : s.Abreast pace h u) {s' u' : State σ} (hpose : s'.pose = u'.pose)
    (hsaved : s'.saved = u'.saved) (hpassed : s'.passed = u'.passed)
    (hdeepest : s'.deepest = u'.deepest) (hdrawn : s'.drawn = s.drawn) (hdrawn' : u'.drawn = u.drawn)
    (hbranches : s'.branches = s.branches) (hbranches' : u'.branches = u.branches)
    (hhost : s'.host = s.host) : s'.Abreast pace h u' where
  pose := hpose
  saved := hsaved
  passed := hpassed
  drawn := by rw [hdrawn, hdrawn', hs.drawn]
  deepest := hdeepest
  branches := by rw [hbranches, hbranches', hs.branches]
  counted := by rw [hbranches', hdrawn', hs.counted]
  host := by rw [hhost, hdrawn, hs.host]
  allowed := by
    rw [hdrawn]
    exact hs.allowed

/-- A draw that the pacer allows keeps two turtles abreast. -/
lemma grow (hs : s.Abreast pace h u) (trig : Trig) (settings : Settings) (surface : Surface)
    (hgo : paceAt pace h s.drawn = .go) :
    ((s.resume (Host.paced pace surface)).grow trig settings (Host.paced pace surface)).Abreast
      pace h ((u.resume (Host.paced pace surface).unpaced).grow trig settings
        (Host.paced pace surface).unpaced) where
  pose := by
    simp only [State.grow, reach, ask, pass, resume, Host.paced, Host.unpaced, hs.pose]
  saved := hs.saved
  passed := congrArg (· + 1) hs.passed
  drawn := congrArg (· + 1) hs.drawn
  deepest := hs.deepest
  branches := by
    rw [branches_grow, branches_grow, branches_resume, branches_resume, hs.branches]
    simp only [Forest.drawFrom, resume, Host.paced, Host.unpaced, hs.pose]
  counted := by
    rw [branches_grow, branches_resume, List.length_append, hs.counted]
    rfl
  host := by
    show (pace s.host s.drawn).2 = pacerAfter pace h (s.drawn + 1)
    rw [pacerAfter, hs.host]
  allowed := by
    intro k hk
    rcases Nat.lt_succ_iff_lt_or_eq.1 hk with hk | rfl
    · exact hs.allowed k hk
    · exact hgo

/-- **One operation.**  Turtles abreast stay so, or fail alike, unless the operation is a draw that the
pacer does not allow. -/
lemma perform (hs : s.Abreast pace h u) (trig : Trig) (settings : Settings) (surface : Surface)
    (op : Op) (hgo : op = .draw → paceAt pace h s.drawn = .go) :
    Progress.Rel (Abreast pace h) Eq
      (s.perform trig settings (draw trig settings (Host.paced pace surface)) op)
      (u.perform trig settings (draw trig settings (Host.paced pace surface).unpaced) op) := by
  cases op with
  | draw =>
      have hword : ((Host.paced pace surface).pace s.host s.drawn).1 = .go :=
        hs.pace_eq.trans (hgo rfl)
      have hpaced : s.draw trig settings (Host.paced pace surface) = _ := draw_of_go hword
      have hfree : u.draw trig settings (Host.paced pace surface).unpaced = _ := draw_of_go rfl
      rw [State.perform, State.perform, hpaced, hfree]
      exact .ready (hs.grow trig settings surface (hgo rfl))
  | turn sign =>
      refine .ready (hs.congr ?_ hs.saved ?_ hs.deepest rfl rfl rfl rfl rfl)
      · rw [pass_pose, pass_pose, hs.pose]
      · rw [pass_passed, pass_passed, hs.passed]
  | ignore =>
      refine .ready (hs.congr hs.pose hs.saved ?_ hs.deepest rfl rfl rfl rfl rfl)
      rw [pass_passed, pass_passed, hs.passed]
  | push =>
      rw [State.perform, State.perform]
      by_cases hfree : s.saved.length < settings.maxDepth.toNat
      · rw [push_of_lt hfree, push_of_lt (hs.saved ▸ hfree)]
        refine .ready (hs.congr hs.pose ?_ ?_ ?_ rfl rfl rfl rfl rfl)
        · rw [save_saved, save_saved, hs.pose, hs.saved]
        · rw [save_passed, save_passed, hs.passed]
        · rw [save_deepest, save_deepest, hs.deepest, hs.saved]
      · have hfull := Nat.not_lt.1 hfree
        rw [push_of_le hfull, push_of_le (hs.saved ▸ hfull), hs.passed]
        exact .failed hs rfl
  | pop =>
      rw [State.perform, State.perform]
      cases hsaved : u.saved with
      | nil =>
          rw [pop_of_nil (hs.saved.trans hsaved), pop_of_nil hsaved, hs.passed]
          exact .failed hs rfl
      | cons pose saved =>
          rw [pop_of_cons (hs.saved.trans hsaved), pop_of_cons hsaved]
          refine .ready (hs.congr rfl rfl ?_ hs.deepest rfl rfl rfl rfl rfl)
          rw [pass_passed, pass_passed, hs.passed]

end Abreast

end State

namespace Turtle

variable {pace : σ → ℕ → Pace × σ} {h : σ} {s u : State σ}

/-- **A whole word.**  Turtles that set out abreast go abreast to wherever they get, or the pacer stops
the first one in front of a draw up to which they went abreast. -/
lemma follow_abreast_or_stopped (trig : Trig) (t : Turtle) (surface : Surface)
    (hs : s.Abreast pace h u) (w : Word) :
    Progress.Rel (State.Abreast pace h) Eq
      (s.follow trig t.settings (State.draw trig t.settings (Host.paced pace surface)) t.read w)
      (u.follow trig t.settings (State.draw trig t.settings (Host.paced pace surface).unpaced)
        t.read w) ∨
    ∃ (front : Word) (c : Symbol) (rest : Word) (s' u' : State σ), w = front ++ c :: rest ∧
      t.alphabet.get? c = some .draw ∧
      s'.Abreast pace h u' ∧ paceAt pace h s'.drawn = .stop ∧
      u.follow trig t.settings (State.draw trig t.settings (Host.paced pace surface).unpaced)
        t.read front = .ready u' ∧
      s.follow trig t.settings (State.draw trig t.settings (Host.paced pace surface)) t.read w =
        .stopped (s'.refuse (Host.paced pace surface)) := by
  induction w generalizing s u with
  | nil => exact .inl (.ready hs)
  | cons c w ih =>
      cases hop : t.alphabet.get? c with
      | none =>
          left
          rw [State.follow_cons_of_error (read_of_get?_none hop _),
            State.follow_cons_of_error (read_of_get?_none hop _), hs.passed]
          exact .failed hs rfl
      | some op =>
          by_cases hstop : op = .draw ∧ paceAt pace h s.drawn = .stop
          · right
            obtain ⟨rfl, hstop⟩ := hstop
            have hrefused : s.draw trig t.settings (Host.paced pace surface) = _ :=
              State.draw_of_stop (hs.pace_eq.trans hstop)
            refine ⟨[], c, w, s, u, rfl, hop, hs, hstop, rfl, ?_⟩
            rw [State.follow_cons_of_ok (read_of_get? hop _), State.perform, hrefused]
            rfl
          · have hgo : op = .draw → paceAt pace h s.drawn = .go := by
              intro hdraw
              exact paceAt_eq_go_iff.2 fun hword => hstop ⟨hdraw, hword⟩
            have hone := hs.perform trig t.settings surface op hgo
            have hstep := u.step_perform trig t.settings (Host.paced pace surface).unpaced op
            rw [State.follow_cons_of_ok (read_of_get? hop _),
              State.follow_cons_of_ok (read_of_get? hop _)]
            generalize s.perform trig t.settings
              (State.draw trig t.settings (Host.paced pace surface)) op = p at hone ⊢
            generalize u.perform trig t.settings
              (State.draw trig t.settings (Host.paced pace surface).unpaced) op = q
              at hone hstep ⊢
            cases hone with
            | ready hs' =>
                refine (ih hs').imp_right ?_
                rintro ⟨front, d, rest, s', u', rfl, hd, habreast, hstop', hfront, hcut⟩
                exact ⟨c :: front, d, rest, s', u', rfl, hd, habreast, hstop',
                  follow_cons_eq_ready_iff.2 ⟨op, _, hop, hstep, hfront⟩, hcut⟩
            | stopped hs' => exact .inl (.stopped hs')
            | failed hs' he => exact .inl (.failed hs' he)

/-! ## Paced walks and unpaced ones -/

/-- The run of two walks that went abreast to their ends. -/
lemma run_of_abreast {p q : Progress σ} (hrel : Progress.Rel (State.Abreast pace h) Eq p q) :
    p.run.outcome = q.run.outcome ∧ p.run.branches = q.run.branches := by
  rw [Progress.branches_run, Progress.branches_run]
  refine ⟨?_, hrel.state.branches⟩
  cases hrel with
  | ready hs =>
      simp only [Progress.run, State.finish, State.report, hs.pose, hs.saved, hs.passed, hs.drawn,
        hs.deepest]
  | stopped hs =>
      simp only [Progress.run, State.finish, State.report, hs.pose, hs.passed, hs.drawn, hs.deepest]
  | failed hs he => rw [Progress.run, Progress.run, he]; rfl

/-- An unpaced walk that stands in front of a draw goes on to draw more than it has so far, and keeps
what it has drawn. -/
lemma branches_of_draw_ahead (trig : Trig) (t : Turtle) (host : Host σ) (u : State σ) {c : Symbol}
    (hc : t.alphabet.get? c = some .draw) (rest : Word) :
    u.branches <+: (u.follow trig t.settings (State.draw trig t.settings host.unpaced) t.read
      (c :: rest)).state.branches ∧
    u.branches.length < (u.follow trig t.settings (State.draw trig t.settings host.unpaced) t.read
      (c :: rest)).state.branches.length := by
  refine ⟨branches_follow trig t host.unpaced u (c :: rest), ?_⟩
  have hdraw : u.draw trig t.settings host.unpaced = _ := State.draw_of_go rfl
  have hlater := (branches_follow trig t host.unpaced
    ((u.resume host.unpaced).grow trig t.settings host.unpaced) rest).length_le
  rw [State.branches_grow, State.branches_resume, List.length_append] at hlater
  rw [State.follow_cons_of_ok (read_of_get? hc _), State.perform, hdraw]
  exact Nat.lt_of_succ_le hlater

/-- **A pacer cuts a walk short and changes nothing else.**  If the unpaced walk draws no more branches
than the pacer allows, the paced walk ends alike with the same branches.  Otherwise, where `b` is the
number at which the pacer first says stop, the walk ends in front of the draw that would have been
branch `b` with a report of what the unpaced walk has passed, drawn and reached there, and its
branches are the first `b` of the unpaced walk.  A pacer with a limit first says stop there. -/
theorem walk_paced_cut (trig : Trig) (t : Turtle) (pace : σ → ℕ → Pace × σ) (surface : Surface)
    (h : σ) (pose : Pose) (w : Word) :
    (((t.walkUnpaced trig (Host.paced pace surface) h pose w).branches.length : ℕ∞) ≤
        firstStop pace h →
      (t.walk trig (Host.paced pace surface) h pose w).outcome =
        (t.walkUnpaced trig (Host.paced pace surface) h pose w).outcome ∧
      (t.walk trig (Host.paced pace surface) h pose w).branches =
        (t.walkUnpaced trig (Host.paced pace surface) h pose w).branches) ∧
    (∀ b : ℕ, firstStop pace h = b →
      b < (t.walkUnpaced trig (Host.paced pace surface) h pose w).branches.length →
      ∃ i c s, w[i]? = some c ∧ t.alphabet.get? c = some .draw ∧
        draws (t.alphabet.ops (w.take i)) = b ∧
        (State.start pose h).follow trig t.settings
          (State.draw trig t.settings (Host.paced pace surface).unpaced) t.read (w.take i) =
            .ready s ∧
        (t.walk trig (Host.paced pace surface) h pose w).outcome =
          .ok ⟨i, b, s.deepest, false, s.pose⟩ ∧
        (t.walk trig (Host.paced pace surface) h pose w).branches =
          (t.walkUnpaced trig (Host.paced pace surface) h pose w).branches.take b) ∧
    ∀ limit : ℕ, firstStop (fun (_ : Unit) drawn => (Pacer.upTo limit drawn, ())) () = limit := by
  rw [walkUnpaced, Run.outcome_withoutPaces, Run.branches_withoutPaces, walk, walk]
  rcases follow_abreast_or_stopped trig t surface (State.abreast_start pace h pose) w with
    hrel | ⟨front, c, rest, s, u, rfl, hc, hs, hstop, hfront, hcut⟩
  · have hsame := run_of_abreast hrel
    refine ⟨fun _ => hsame, ?_, firstStop_upTo⟩
    intro b hb hmore
    -- All that was drawn was allowed, so the first stop lies behind it.
    have hallowed : ((_ : ℕ) : ℕ∞) ≤ firstStop pace h := coe_le_firstStop_iff.2 hrel.state.allowed
    rw [hb, Nat.cast_le] at hallowed
    rw [Progress.branches_run, hrel.state.counted, ← hrel.state.drawn] at hmore
    omega
  · have hb : firstStop pace h = s.drawn := firstStop_eq_coe hs.allowed hstop
    obtain ⟨hkept, hmore⟩ := branches_of_draw_ahead trig t (Host.paced pace surface) u hc rest
    have hfree : (State.start pose h).follow trig t.settings
        (State.draw trig t.settings (Host.paced pace surface).unpaced) t.read (front ++ c :: rest) =
          u.follow trig t.settings (State.draw trig t.settings (Host.paced pace surface).unpaced)
            t.read (c :: rest) := by
      rw [State.follow_append, hfront]
      rfl
    rw [hfree, hcut, Progress.branches_run, Progress.branches_run, hb]
    rw [hs.counted, ← hs.drawn] at hmore
    refine ⟨fun hfew => absurd (Nat.cast_le.1 hfew) (Nat.not_le.2 hmore), ?_, firstStop_upTo⟩
    intro b hdrawn _
    obtain rfl : s.drawn = b := Nat.cast_inj.1 hdrawn
    have hreached : t.Reaches trig (Host.paced pace surface).unpaced h pose front u := hfront
    refine ⟨front.length, c, u, by simp, hc, ?_, ?_, ?_, ?_⟩
    · rw [List.take_left, ← hreached.tallies.drawn, hs.drawn]
    · rw [List.take_left, hfront]
    · show Except.ok (s.report false) = _
      rw [State.report, hs.pose, hs.passed, hs.deepest, hreached.passed]
    · show (s.refuse _).branches = _
      rw [State.branches_refuse, hs.branches, hs.drawn, ← hs.counted]
      exact List.prefix_iff_eq_take.1 hkept

/-- A pacer that allows as many draws as it remembers. -/
def budgetPace (budget _drawn : ℕ) : Pace × ℕ :=
  if budget = 0 then (.stop, 0) else (.go, budget - 1)

/-- Two draws of a word with brackets left open and a symbol without an operation behind. -/
theorem walk_of_budget :
    firstStop budgetPace 2 = (2 : ℕ) ∧
    2 < ((standard {}).walkUnpaced Trig.native (Host.paced budgetPace Sphere.unit.nearest) 2
      Pose.origin ['F', '[', '+', 'F', '[', 'F', '?', 'F']).branches.length ∧
    ∃ r, ((standard {}).walk Trig.native (Host.paced budgetPace Sphere.unit.nearest) 2
        Pose.origin ['F', '[', '+', 'F', '[', 'F', '?', 'F']).outcome = .ok r ∧
      r.completed = false ∧ r.branches = 2 ∧
      ((standard {}).walk Trig.native (Host.paced budgetPace Sphere.unit.nearest) 2
          Pose.origin ['F', '[', '+', 'F', '[', 'F', '?', 'F']).branches =
        ((standard {}).walkUnpaced Trig.native (Host.paced budgetPace Sphere.unit.nearest) 2
          Pose.origin ['F', '[', '+', 'F', '[', 'F', '?', 'F']).branches.take 2 := by
  have hstop : firstStop budgetPace 2 = (2 : ℕ) := firstStop_eq_coe (by decide) rfl
  have hmore : 2 < ((standard {}).walkUnpaced Trig.native
      (Host.paced budgetPace Sphere.unit.nearest) 2 Pose.origin
      ['F', '[', '+', 'F', '[', 'F', '?', 'F']).branches.length := by
    show 2 < 3
    decide
  obtain ⟨i, c, s, -, -, -, -, hout, hbranches⟩ := (walk_paced_cut Trig.native (standard {})
    budgetPace Sphere.unit.nearest 2 Pose.origin ['F', '[', '+', 'F', '[', 'F', '?', 'F']).2.1
    2 hstop hmore
  exact ⟨hstop, hmore, _, hout, rfl, rfl, hbranches⟩

end Turtle

end Arbor
