import Arbor.Proofs.Plant.Validity
import Arbor.Proofs.Turtle.Alongside
import Arbor.Proofs.Turtle.ForestWalk
import Arbor.Proofs.Turtle.Rounds

/-!
# Growth from check to report

Growth checks a plant, derives its word and walks the word by the settings of the plant.  A plant that
does not pass leaves its surroundings untouched.  One that passes is walked like any word, and since
its word has the projected length and every symbol of it is passed, a report counts just that many
symbols and one branch for each draw of the word (`Plant.counts_of_growWith_ok`).

The delay of a plant is waited for before each draw.  Growth has no pacer, because waiting changes
nothing but the time: `Host.waiting` is a pacer with a clock, and a walk in its company goes alongside
the walk without a pacer and has in the end waited once for each branch (`Turtle.walk_waiting`).
-/

namespace Arbor

variable {σ : Type}

/-! ## Waiting -/

/-- The length of a span of time in nanoseconds. -/
def Duration.toNanos (d : Duration) : ℕ := d.seconds.toNat * 1000000000 + d.nanos

/-- The same surface and emitter, with a pacer that waits before each draw and never stops a walk.
The second component of the state is the time it has waited. -/
def Host.waiting (delay : Duration) (host : Host σ) : Host (σ × ℕ) where
  pace h _ := (.go, (h.1, h.2 + delay.toNanos))
  nearest h query := ((host.nearest h.1 query).1, ((host.nearest h.1 query).2, h.2))
  emit h branch := (host.emit h.1 branch, h.2)

/-- Whoever waits is alongside whoever does not, and the clock counts the calls on the pacer. -/
lemma Host.servesAlike_waiting (delay : Duration) (host : Host σ) :
    host.unpaced.ServesAlike Eq
      (fun j h j' h' => j' = j ∧ h' = (h, delay.toNanos * j.countP Call.isPace))
      (host.waiting delay) where
  word _ _ := rfl
  paced := by
    rintro j h _ _ ⟨rfl, rfl⟩ n word
    refine ⟨rfl, ?_⟩
    show (h, _) = (h, _)
    rw [List.countP_cons_of_pos rfl, Nat.mul_add, Nat.mul_one]
  answer := by
    rintro j h _ _ ⟨rfl, rfl⟩ q _ rfl
    rfl
  asked := by
    rintro j h _ _ ⟨rfl, rfl⟩ q _ rfl
    exact ⟨rfl, rfl⟩
  emitted := by
    rintro j h _ _ ⟨rfl, rfl⟩ ⟨start, stop⟩ ⟨_, _⟩ rfl rfl
    exact ⟨rfl, rfl⟩

/-- A turtle moves like itself. -/
lemma movesAlike_refl (trig : Trig) (settings : Settings) :
    MovesAlike Eq Eq id trig trig settings settings where
  position := congrArg _
  advance h := congrArg (Pose.advance · _) h
  turn h sign := congrArg (Pose.turnZ trig · _) h
  steer := by
    rintro p _ rfl q _ rfl
    rfl
  limit := rfl

/-- A report consists of what it counts and the last pose. -/
lemma Report.eq_of_counts {r r' : Report} (hcounts : r.counts = r'.counts)
    (hpose : r.finalPose = r'.finalPose) : r = r' := by
  cases r
  cases r'
  simp only [Report.counts, Prod.mk.injEq] at hcounts hpose
  obtain ⟨rfl, rfl, rfl, rfl⟩ := hcounts
  rw [hpose]

namespace Turtle

variable (trig : Trig) (t : Turtle) (host : Host σ) (h : σ) (pose : Pose) (w : Word)

/-- Each branch of an unpaced walk had the pacer's word before it, and no other word was given. -/
lemma countP_isPace_walk :
    (t.walk trig host.unpaced h pose w).calls.countP Call.isPace =
      (t.walk trig host.unpaced h pose w).branches.length := by
  obtain ⟨rounds, hrounds⟩ :=
    t.looksUp_read.exists_inRounds_run trig t.settings host.unpaced h pose w
  change (t.walk trig host.unpaced h pose w).InRounds host.unpaced h _ w rounds at hrounds
  -- A round is a word to go on and a branch; the one other call would be a stop.
  have hthrough : (t.walk trig host.unpaced h pose w).cancelled = false := by
    cases hout : (t.walk trig host.unpaced h pose w).outcome with
    | error e => simp only [Run.cancelled, hout]
    | ok r =>
        have hcounts := (counts_of_outcome_ok trig t host h pose hout).1
        simp only [Report.counts, Prod.mk.injEq] at hcounts
        simp only [Run.cancelled, hout, hcounts, Bool.not_true]
  have hcalls := hrounds.calls
  rw [hthrough] at hcalls
  change _ = Round.allCalls rounds ++ [] at hcalls
  rw [Run.branches, hcalls, List.append_nil, Round.countP_isPace_allCalls, Round.branches_allCalls,
    List.length_map]

/-- **Waiting changes nothing but the time.**  A walk whose pacer waits before each draw is the walk
without a pacer, and in the end it has waited once for each branch. -/
lemma walk_waiting (delay : Duration) :
    t.walk trig (host.waiting delay) (h, 0) pose w =
      { outcome := (t.walk trig host.unpaced h pose w).outcome
        calls := (t.walk trig host.unpaced h pose w).calls
        host := ((t.walk trig host.unpaced h pose w).host,
          delay.toNanos * (t.walk trig host.unpaced h pose w).branches.length) } := by
  have hid (c : Symbol) : t.alphabet.get? c = (t.alphabet.get? c).map (Op.mapTurn id) := by
    rw [funext Op.mapTurn_id, Option.map_id']
  have hwalk : (t.walk trig host.unpaced h pose w).Alongside Eq _
      (t.walk trig (host.waiting delay) (h, 0) pose w) :=
    walk_alongside (movesAlike_refl trig t.settings) (host.servesAlike_waiting delay) hid
      ⟨rfl, rfl⟩ rfl w
  obtain ⟨hcalls, hhost⟩ := hwalk.around
  rw [List.countP_reverse, countP_isPace_walk] at hhost
  have hout : (t.walk trig (host.waiting delay) (h, 0) pose w).outcome =
      (t.walk trig host.unpaced h pose w).outcome := by
    rcases hwalk.outcome with ⟨e, he, he'⟩ | ⟨r, r', hr, hr', hcounts, hpose⟩
    · rw [he, he']
    · rw [hr, hr', Report.eq_of_counts hcounts hpose]
  rw [← hout, ← hhost, ← List.reverse_injective hcalls]

end Turtle

/-! ## Growth -/

/-- The draws of a word are its symbols that draw. -/
lemma draws_ops (alphabet : Alphabet) (w : Word) :
    draws (alphabet.ops w) = w.countP fun c => alphabet.get? c = some .draw := by
  rw [draws, Alphabet.ops, List.countP_filterMap]
  congr 1
  funext c
  cases alphabet.get? c with
  | none => rfl
  | some op => cases op <;> rfl

namespace Plant

/-- Growth in time: each draw waits for the delay of the plant.  The second component of the state is
the time that has gone by. -/
def growTimed (trig : Trig) (t : Turtle) (p : Plant) (host : Host σ) (h : σ) : Growth (σ × ℕ) :=
  match p.check t.alphabet with
  | .error e => ⟨.error (.config e), [], (h, 0)⟩
  | .ok () =>
    let run := (Turtle.walk trig { t with settings := p.settings } (host.waiting p.delay) (h, 0)
      p.pose p.word).withoutPaces
    ⟨run.outcome.mapError .walk, run.calls, run.host⟩

variable (trig : Trig) (t : Turtle) (p : Plant) (host : Host σ) (h : σ)

/-- Growth in time is growth, with one delay for each branch. -/
lemma growTimed_eq :
    p.growTimed trig t host h =
      ⟨(p.growWith trig t host h).outcome, (p.growWith trig t host h).calls,
        ((p.growWith trig t host h).host,
          p.delay.toNanos * (p.growWith trig t host h).branches.length)⟩ := by
  cases hcheck : p.check t.alphabet with
  | error e =>
      rw [growTimed, growWith, hcheck]
      rfl
  | ok =>
      have hbranches := Run.branches_withoutPaces
        (Turtle.walk trig { t with settings := p.settings } host.unpaced h p.pose p.word)
      rw [growTimed, growWith, hcheck]
      dsimp only
      rw [Turtle.walk_waiting, ← hbranches]
      rfl

/-- Neither the settings of the turtle nor the delay of the plant matter. -/
lemma growWith_congr {t' : Turtle} (halphabet : t'.alphabet = t.alphabet) (delay : Duration) :
    ({ p with delay } : Plant).growWith trig t' host h = p.growWith trig t host h := by
  have hcheck : ({ p with delay } : Plant).check t'.alphabet = p.check t.alphabet := by
    rw [halphabet]
    rfl
  rw [growWith, growWith, hcheck, halphabet]
  rfl

/-- A report of a growth counts the whole word and all of its draws. -/
lemma counts_of_growWith_ok {r : Report} (hok : (p.growWith trig t host h).outcome = .ok r) :
    r.completed = true ∧ r.symbols = p.productions.projectedLength p.start p.rounds.toNat ∧
      r.branches = p.word.countP (fun c => t.alphabet.get? c = some .draw) ∧
      (p.growWith trig t host h).branches.length = r.branches := by
  cases hcheck : p.check t.alphabet with
  | error e =>
      rw [growWith, hcheck] at hok
      cases hok
  | ok =>
      rw [outcome_growWith_eq hcheck] at hok
      cases hout : (Turtle.walkUnpaced trig { t with settings := p.settings } host h p.pose
          p.word).outcome with
      | error e =>
          rw [hout] at hok
          cases hok
      | ok r' =>
          rw [hout] at hok
          cases hok
          obtain ⟨hcounts, hbranches⟩ := Turtle.counts_of_outcome_ok trig _ host h p.pose hout
          simp only [Report.counts, Prod.mk.injEq] at hcounts
          obtain ⟨hsymbols, hdraws, -, hcompleted⟩ := hcounts
          refine ⟨hcompleted, ?_, ?_, ?_⟩
          · rw [hsymbols, projectedLength_of_check hcheck]
          · rw [hdraws, draws_ops]
          · rw [growWith, hcheck, hdraws, ← hbranches]
            rfl

/-- **Growth from check to report.**  A plant that does not pass its check ends with the defect, and
nothing is asked of its surroundings or handed over to them.  One that passes is walked without a
pacer by its own settings, with the alphabet of the turtle, from its own pose over the word that its
rounds derive, so a report is that of a walk that was completed, counts as many symbols as were
projected for the plant and as many branches as its word has draws, and just that many branches were
handed over.  The settings of the turtle make no difference, and neither does the delay of the plant:
growth in time does the same, and waits once for each branch. -/
theorem growWith_end_to_end :
    (∀ e, p.check t.alphabet = .error e →
      p.growWith trig t host h = ⟨.error (.config e), [], h⟩) ∧
    (p.check t.alphabet = .ok () →
      let run := Turtle.walkUnpaced trig ⟨t.alphabet, p.settings⟩ host h p.pose
        (p.productions.expand p.start p.rounds.toNat)
      p.growWith trig t host h = ⟨run.outcome.mapError .walk, run.calls, run.host⟩) ∧
    (∀ r, (p.growWith trig t host h).outcome = .ok r →
      r.completed = true ∧ r.symbols = p.productions.projectedLength p.start p.rounds.toNat ∧
      r.branches = p.word.countP (fun c => t.alphabet.get? c = some .draw) ∧
      (p.growWith trig t host h).branches.length = r.branches) ∧
    ∀ (t' : Turtle) (delay : Duration), t'.alphabet = t.alphabet →
      ({ p with delay } : Plant).growWith trig t' host h = p.growWith trig t host h ∧
      ({ p with delay } : Plant).growTimed trig t' host h =
        ⟨(p.growWith trig t host h).outcome, (p.growWith trig t host h).calls,
          ((p.growWith trig t host h).host,
            delay.toNanos * (p.growWith trig t host h).branches.length)⟩ := by
  refine ⟨?_, ?_, fun r => p.counts_of_growWith_ok trig t host h, ?_⟩
  · intro e hcheck
    rw [growWith, hcheck]
  · intro hcheck
    rw [growWith, hcheck]
    rfl
  · intro t' delay halphabet
    have hsame := p.growWith_congr trig t host h halphabet delay
    refine ⟨hsame, ?_⟩
    rw [growTimed_eq, hsame]

/-- A plant of one round that takes half a second for each draw. -/
def sapling : Plant := { ofPreset .climbing with rounds := 1, delay := .ofMillis 500 }

/-- It grows by its own limit on saved poses, whatever that of the turtle, and not at all when three
symbols are too many. -/
theorem growWith_sapling :
    sapling.check Alphabet.standard = .ok () ∧
    (∃ r, (sapling.growWith Trig.native (Turtle.standard { maxDepth := 0 })
        (Host.plain .unlimited Sphere.unit.nearest) ()).outcome = .ok r ∧
      r.completed = true ∧ r.symbols = 20 ∧ r.branches = 3) ∧
    (sapling.growTimed Trig.native (Turtle.standard { maxDepth := 0 })
        (Host.plain .unlimited Sphere.unit.nearest) ()).host.2 = 1500000000 ∧
    ({ sapling with maxSymbols := 3 } : Plant).growWith Trig.native (Turtle.standard {})
        (Host.plain .unlimited Sphere.unit.nearest) () =
      ⟨.error (.config (.tooLong 20 3)), [], ()⟩ := by
  have hcheck : sapling.check Alphabet.standard = .ok () := by decide +kernel
  have htooLong : ({ sapling with maxSymbols := 3 } : Plant).check Alphabet.standard =
      .error (.tooLong 20 3) := by decide +kernel
  have hbroken := (growWith_end_to_end Trig.native (Turtle.standard {})
    { sapling with maxSymbols := 3 } (Host.plain .unlimited Sphere.unit.nearest) ()).1 _ htooLong
  obtain ⟨-, -, hreport, htimed⟩ := growWith_end_to_end Trig.native
    (Turtle.standard { maxDepth := 0 }) sapling (Host.plain .unlimited Sphere.unit.nearest) ()
  have hok : ∃ r, (sapling.growWith Trig.native (Turtle.standard { maxDepth := 0 })
      (Host.plain .unlimited Sphere.unit.nearest) ()).outcome = .ok r := ⟨_, rfl⟩
  obtain ⟨r, hr⟩ := hok
  obtain ⟨hcompleted, hsymbols, hdraws, hbranches⟩ := hreport r hr
  have hprojected : sapling.productions.projectedLength sapling.start sapling.rounds.toNat = 20 := by
    decide +kernel
  have hcount : sapling.word.countP (fun c => Alphabet.standard.get? c = some .draw) = 3 := by
    decide +kernel
  have hthree : r.branches = 3 := hdraws.trans hcount
  have htime := congrArg (fun g => g.host.2)
    (htimed (Turtle.standard { maxDepth := 0 }) sapling.delay rfl).2
  refine ⟨hcheck, ⟨r, hr, hcompleted, hsymbols.trans hprojected, hthree⟩, ?_, hbroken⟩
  exact htime.trans (by rw [hbranches, hthree]; rfl)

end Plant

end Arbor
