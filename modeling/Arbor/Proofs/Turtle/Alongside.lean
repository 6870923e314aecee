import Arbor.Proofs.Turtle.Runs

/-!
# Walks alongside each other

Two turtles walk the same word, each with its own settings, surroundings and signs of turns.  If
their moves carry related poses to related ones (`MovesAlike`), and if their surroundings say the
same about going on and give related answers to related queries (`Host.ServesAlike`), then the walks
end alike, at related poses and with related calls (`Turtle.walk_alongside`).  What the relations are
is left open: one walk may be the mirror image of the other, or the same walk with a pacer that
takes its time.

Mostly the states of the surroundings are related whatever was asked of them before
(`Host.Corresponds`).  The branches then have related ends (`Turtle.walk_corresponds`), because
surroundings that serve alike in any sense are handed related branches as well
(`Host.ServesAlike.emittedAlike`).
-/

namespace Arbor

variable {σ τ : Type}

/-- The operation with the sign of a turn changed by `g`. -/
def Op.mapTurn (g : Float32 → Float32) : Op → Op
  | .turn sign => .turn (g sign)
  | op => op

lemma Op.mapTurn_id (op : Op) : op.mapTurn id = op := by
  cases op <;> rfl

/-! ## What is carried along -/

/-- The moves of two turtles carry poses that `P` relates to such poses, where answers of their
surfaces are related by `Q`.  Where the first one turns by a sign, the second turns by `g` of it. -/
structure MovesAlike (P : Pose → Pose → Prop) (Q : Vec3 → Vec3 → Prop) (g : Float32 → Float32)
    (trig trig' : Trig) (settings settings' : Settings) : Prop where
  position : ∀ {p p'}, P p p' → Q p.position p'.position
  advance : ∀ {p p'}, P p p' → P (p.advance settings.stepLength) (p'.advance settings'.stepLength)
  turn : ∀ {p p'}, P p p' → ∀ sign, P (p.turnZ trig (settings.turnAngle * sign))
    (p'.turnZ trig' (settings'.turnAngle * g sign))
  steer : ∀ {p p'}, P p p' → ∀ {q q'}, Q q q' → P (p.steer trig q settings.strength).1
    (p'.steer trig' q' settings'.strength).1
  limit : settings.maxDepth = settings'.maxDepth

/-- Two surroundings say the same about going on and answer queries that `Q` relates by such points,
as long as `K` relates the calls made so far and the states in which they are; and every call keeps
it so. -/
structure Host.ServesAlike (Q : Vec3 → Vec3 → Prop) (K : List Call → σ → List Call → τ → Prop)
    (host : Host σ) (host' : Host τ) : Prop where
  word : ∀ {j h j' h'}, K j h j' h' → ∀ n, (host.pace h n).1 = (host'.pace h' n).1
  paced : ∀ {j h j' h'}, K j h j' h' → ∀ n word,
    K (.pace n word :: j) (host.pace h n).2 (.pace n word :: j') (host'.pace h' n).2
  answer : ∀ {j h j' h'}, K j h j' h' → ∀ {q q'}, Q q q' →
    Q (host.nearest h q).1 (host'.nearest h' q').1
  asked : ∀ {j h j' h'}, K j h j' h' → ∀ {q q'}, Q q q' →
    K (.query q (host.nearest h q).1 :: j) (host.nearest h q).2
      (.query q' (host'.nearest h' q').1 :: j') (host'.nearest h' q').2
  emitted : ∀ {j h j' h'}, K j h j' h' → ∀ {b b' : Branch}, Q b.start b'.start →
    Q b.stop b'.stop → K (.emit b :: j) (host.emit h b) (.emit b' :: j') (host'.emit h' b')

namespace State

/-- Two turtles that have done the same, in poses that `P` relates. -/
structure Alongside (P : Pose → Pose → Prop) (K : List Call → σ → List Call → τ → Prop)
    (s : State σ) (u : State τ) : Prop where
  pose : P s.pose u.pose
  saved : List.Forall₂ P s.saved u.saved
  passed : s.passed = u.passed
  drawn : s.drawn = u.drawn
  deepest : s.deepest = u.deepest
  around : K s.journal s.host u.journal u.host

namespace Alongside

variable {P : Pose → Pose → Prop} {Q : Vec3 → Vec3 → Prop}
  {K : List Call → σ → List Call → τ → Prop} {g : Float32 → Float32} {trig trig' : Trig}
  {settings settings' : Settings} {host : Host σ} {host' : Host τ} {s : State σ} {u : State τ}

/-- Passing a symbol without a call keeps two turtles alongside. -/
lemma pass (hs : s.Alongside P K u) {p p' : Pose} (hpose : P p p') {v v' : List Pose}
    (hsaved : List.Forall₂ P v v') : (s.pass p v).Alongside P K (u.pass p' v') where
  pose := hpose
  saved := hsaved
  passed := congrArg (· + 1) hs.passed
  drawn := hs.drawn
  deepest := hs.deepest
  around := hs.around

lemma save (hs : s.Alongside P K u) : s.save.Alongside P K u.save where
  pose := hs.pose
  saved := .cons hs.pose hs.saved
  passed := congrArg (· + 1) hs.passed
  drawn := hs.drawn
  deepest := by rw [save_deepest, save_deepest, hs.deepest, hs.saved.length_eq]
  around := hs.around

section Draw

variable (hhost : host.ServesAlike Q K host')

include hhost

/-- Whatever the pacers have said, turtles that have heard it are alongside. -/
lemma heard (hs : s.Alongside P K u) (word : Pace) :
    Alongside P K
      { s with
        journal := .pace s.drawn word :: s.journal
        host := (host.pace s.host s.drawn).2 }
      { u with
        journal := .pace u.drawn word :: u.journal
        host := (host'.pace u.host u.drawn).2 } where
  pose := hs.pose
  saved := hs.saved
  passed := hs.passed
  drawn := hs.drawn
  deepest := hs.deepest
  around := by
    rw [← hs.drawn]
    exact hhost.paced hs.around s.drawn word

variable (hmoves : MovesAlike P Q g trig trig' settings settings')

include hmoves

/-- Turtles that step forward ask from related places, so they are bent alike and hand over related
branches. -/
lemma grow (hs : s.Alongside P K u) :
    (s.grow trig settings host).Alongside P K (u.grow trig' settings' host') := by
  have hthere := hmoves.advance hs.pose
  have hquery := hmoves.position hthere
  have hend := hmoves.steer hthere (hhost.answer hs.around hquery)
  have hasked := hhost.asked hs.around hquery
  exact {
    pose := hend
    saved := hs.saved
    passed := congrArg (· + 1) hs.passed
    drawn := congrArg (· + 1) hs.drawn
    deepest := hs.deepest
    around := hhost.emitted hasked (hmoves.position hs.pose) (hmoves.position hend) }

/-- **One operation.**  Turtles alongside stay so, are stopped together or fail alike. -/
lemma perform (hs : s.Alongside P K u) (op : Op) :
    Progress.Rel (Alongside P K) Eq (s.perform trig settings (draw trig settings host) op)
      (u.perform trig' settings' (draw trig' settings' host') (op.mapTurn g)) := by
  cases op with
  | draw =>
      show Progress.Rel _ _ (s.draw trig settings host) (u.draw trig' settings' host')
      have hword := hhost.word hs.around s.drawn
      cases hpace : (host.pace s.host s.drawn).1 with
      | go =>
          rw [hpace, hs.drawn] at hword
          rw [draw_of_go hpace, draw_of_go hword.symm]
          exact .ready ((hs.heard hhost .go).grow hhost hmoves)
      | stop =>
          rw [hpace, hs.drawn] at hword
          rw [draw_of_stop hpace, draw_of_stop hword.symm]
          exact .stopped (hs.heard hhost .stop)
  | turn sign => exact .ready (hs.pass (hmoves.turn hs.pose sign) hs.saved)
  | ignore => exact .ready (hs.pass hs.pose hs.saved)
  | push =>
      show Progress.Rel _ _ (s.push settings) (u.push settings')
      by_cases hfree : s.saved.length < settings.maxDepth.toNat
      · rw [push_of_lt hfree, push_of_lt (by rwa [← hmoves.limit, ← hs.saved.length_eq])]
        exact .ready hs.save
      · have hfull := Nat.not_lt.1 hfree
        rw [push_of_le hfull, push_of_le (by rwa [← hmoves.limit, ← hs.saved.length_eq]), hs.passed,
          hmoves.limit]
        exact .failed hs rfl
  | pop =>
      show Progress.Rel _ _ s.pop u.pop
      have hsaved := hs.saved
      generalize hv : s.saved = v at hsaved
      generalize hv' : u.saved = v' at hsaved
      cases hsaved with
      | nil =>
          rw [pop_of_nil hv, pop_of_nil hv', hs.passed]
          exact .failed hs rfl
      | cons hpose hsaved =>
          rw [pop_of_cons hv, pop_of_cons hv']
          exact .ready (hs.pass hpose hsaved)

end Draw

end Alongside

end State

/-! ## Words -/

/-- Two runs end with the same error, or with reports that count alike and end at poses that `P`
relates. -/
def Run.EndsAlike (P : Pose → Pose → Prop) (r : Run σ) (r' : Run τ) : Prop :=
  (∃ e, r.outcome = .error e ∧ r'.outcome = .error e) ∨
    ∃ ρ ρ', r.outcome = .ok ρ ∧ r'.outcome = .ok ρ' ∧ ρ.counts = ρ'.counts ∧
      P ρ.finalPose ρ'.finalPose

/-- Two walks that end alike, at poses that `P` relates and with calls that `K` relates. -/
structure Run.Alongside (P : Pose → Pose → Prop) (K : List Call → σ → List Call → τ → Prop)
    (r : Run σ) (r' : Run τ) : Prop where
  outcome : r.EndsAlike P r'
  around : K r.calls.reverse r.host r'.calls.reverse r'.host

namespace Turtle

variable {P : Pose → Pose → Prop} {Q : Vec3 → Vec3 → Prop}
  {K : List Call → σ → List Call → τ → Prop} {g : Float32 → Float32} {trig trig' : Trig}
  {t t' : Turtle} {host : Host σ} {host' : Host τ} {s : State σ} {u : State τ}

/-- Turtles that end alongside have runs alongside. -/
lemma run_alongside {p : Progress σ} {q : Progress τ}
    (hrel : Progress.Rel (State.Alongside P K) Eq p q) : p.run.Alongside P K q.run := by
  have hreport {s : State σ} {u : State τ} (hs : s.Alongside P K u) (completed : Bool) :
      (s.report completed).counts = (u.report completed).counts ∧
        P (s.report completed).finalPose (u.report completed).finalPose := by
    simp only [State.report, Report.counts, hs.passed, hs.drawn, hs.deepest]
    exact ⟨trivial, hs.pose⟩
  have haround {s : State σ} {u : State τ} (hs : s.Alongside P K u) :
      K s.journal.reverse.reverse s.host u.journal.reverse.reverse u.host := by
    rw [List.reverse_reverse, List.reverse_reverse]
    exact hs.around
  cases hrel with
  | @ready s u hs =>
      refine ⟨?_, haround hs⟩
      have hsaved := hs.saved
      generalize hv : s.saved = v at hsaved
      generalize hv' : u.saved = v' at hsaved
      simp only [Progress.run, State.finish, hv, hv', hsaved.length_eq]
      cases hsaved with
      | nil => exact .inr ⟨_, _, rfl, rfl, hreport hs true⟩
      | cons => exact .inl ⟨_, rfl, rfl⟩
  | @stopped s u hs => exact ⟨.inr ⟨_, _, rfl, rfl, hreport hs false⟩, haround hs⟩
  | failed hs he => exact ⟨.inl ⟨_, rfl, congrArg _ he.symm⟩, haround hs⟩

/-- **A whole word.**  Turtles that set out alongside stay so, and end together and alike. -/
lemma follow_alongside (hmoves : MovesAlike P Q g trig trig' t.settings t'.settings)
    (hhost : host.ServesAlike Q K host')
    (halphabet : ∀ c, t'.alphabet.get? c = (t.alphabet.get? c).map (Op.mapTurn g))
    (hs : s.Alongside P K u) (w : Word) :
    Progress.Rel (State.Alongside P K) Eq
      (s.follow trig t.settings (State.draw trig t.settings host) t.read w)
      (u.follow trig' t'.settings (State.draw trig' t'.settings host') t'.read w) := by
  refine State.follow_rel (Q := Eq) ?_ hs (List.forall₂_same.2 fun _ _ => rfl)
  rintro s u c _ hs rfl
  cases hop : t.alphabet.get? c with
  | none =>
      have hop' : t'.alphabet.get? c = none := by rw [halphabet, hop, Option.map_none]
      rw [State.follow_cons_of_error (read_of_get?_none hop _),
        State.follow_cons_of_error (read_of_get?_none hop' _), hs.passed]
      exact .failed hs rfl
  | some op =>
      have hop' : t'.alphabet.get? c = some (op.mapTurn g) := by
        rw [halphabet, hop, Option.map_some]
      rw [State.follow_cons_of_ok (read_of_get? hop _),
        State.follow_cons_of_ok (read_of_get? hop' _)]
      exact (hs.perform hhost hmoves op).andThen .ready

/-- **Walks alongside each other.**  Walks from related poses, amid surroundings that stand in the
relation of their calls, end alike. -/
lemma walk_alongside (hmoves : MovesAlike P Q g trig trig' t.settings t'.settings)
    (hhost : host.ServesAlike Q K host')
    (halphabet : ∀ c, t'.alphabet.get? c = (t.alphabet.get? c).map (Op.mapTurn g)) {h : σ} {h' : τ}
    (haround : K [] h [] h') {pose pose' : Pose} (hpose : P pose pose') (w : Word) :
    (t.walk trig host h pose w).Alongside P K (t'.walk trig' host' h' pose' w) := by
  have hstart : (State.start pose h).Alongside P K (State.start pose' h') :=
    ⟨hpose, .nil, rfl, rfl, rfl, haround⟩
  exact run_alongside (follow_alongside hmoves hhost halphabet hstart w)

end Turtle

/-! ## Surroundings that correspond -/

/-- Two surroundings serve alike whatever calls were made before, as long as `R` relates their
states. -/
def Host.Corresponds (Q : Vec3 → Vec3 → Prop) (R : σ → τ → Prop) (host : Host σ)
    (host' : Host τ) : Prop :=
  host.ServesAlike Q (fun _ h _ h' => R h h') host'

/-- The branches handed over in two journals have ends that `Q` relates. -/
def Call.EmittedAlike (Q : Vec3 → Vec3 → Prop) (j j' : List Call) : Prop :=
  List.Forall₂ (fun b b' => Q b.start b'.start ∧ Q b.stop b'.stop) (j.filterMap branch?)
    (j'.filterMap branch?)

/-- Two runs that end alike, at poses that `P` relates, and whose branches have ends that `Q`
relates. -/
structure Run.Corresponds (P : Pose → Pose → Prop) (Q : Vec3 → Vec3 → Prop) (r : Run σ)
    (r' : Run τ) : Prop where
  outcome : r.EndsAlike P r'
  branches : List.Forall₂ (fun b b' => Q b.start b'.start ∧ Q b.stop b'.stop) r.branches r'.branches

section Corresponds

variable {P : Pose → Pose → Prop} {Q : Vec3 → Vec3 → Prop} {R : σ → τ → Prop}
  {K : List Call → σ → List Call → τ → Prop} {g : Float32 → Float32} {trig trig' : Trig}
  {t t' : Turtle} {host : Host σ} {host' : Host τ}

/-- Whatever else relates the calls on surroundings that serve alike, the branches handed over have
related ends. -/
lemma Host.ServesAlike.emittedAlike (hhost : host.ServesAlike Q K host') :
    host.ServesAlike Q (fun j h j' h' => Call.EmittedAlike Q j j' ∧ K j h j' h') host' where
  word hK n := hhost.word hK.2 n
  paced hK n word := ⟨hK.1, hhost.paced hK.2 n word⟩
  answer hK _ _ hq := hhost.answer hK.2 hq
  asked hK _ _ hq := ⟨hK.1, hhost.asked hK.2 hq⟩
  emitted hK _ _ hstart hstop := ⟨.cons ⟨hstart, hstop⟩ hK.1, hhost.emitted hK.2 hstart hstop⟩

/-- Walks from related poses correspond when their surroundings do. -/
lemma Turtle.walk_corresponds (hmoves : MovesAlike P Q g trig trig' t.settings t'.settings)
    (hhost : host.Corresponds Q R host')
    (halphabet : ∀ c, t'.alphabet.get? c = (t.alphabet.get? c).map (Op.mapTurn g)) {h : σ} {h' : τ}
    (hR : R h h') {pose pose' : Pose} (hpose : P pose pose') (w : Word) :
    (t.walk trig host h pose w).Corresponds P Q (t'.walk trig' host' h' pose' w) := by
  have hwalk : (t.walk trig host h pose w).Alongside P _ _ :=
    walk_alongside hmoves hhost.emittedAlike halphabet ⟨.nil, hR⟩ hpose w
  refine ⟨hwalk.outcome, ?_⟩
  have hbranches := hwalk.around.1
  rwa [Call.EmittedAlike, List.filterMap_reverse, List.filterMap_reverse,
    List.forall₂_reverse_iff] at hbranches

end Corresponds

end Arbor
