import Arbor.Proofs.Turtle.Numbering

/-!
# What a walk asks of its surroundings

Pacer, surface and emitter are called in rounds.  In round `k` the pacer is asked with `k` and lets
the turtle go on, the surface is asked for its point nearest to where the turtle then stands, and
the emitter is handed the branch that ends there, for steering turns on the spot.  A walk that its
pacer stops has one more call, in which the pacer says so; no other call is ever made.

`Run.InRounds` says this of a run, together with the number of its rounds.  The calls of a run are a
record, so it also says that the record is true: the surroundings give the answers that it holds
when they are called in its order, and are left in the state to which these calls bring them
(`Host.Serves`).

The invariant is `State.InRounds`.  It speaks of the items that the walk has passed, which may be
symbols or numbers: all that it needs of them is that they are looked up.
-/

namespace Arbor

variable {σ α : Type}

/-! ## Rounds -/

/-- One draw as the surroundings see it. -/
structure Round where
  branch : Branch
  /-- What the surface gave as its point nearest to the end of the branch. -/
  answer : Vec3

namespace Round

/-- The calls of round `k`. -/
def calls (k : ℕ) (r : Round) : List Call :=
  [.pace k .go, .query r.branch.stop r.answer, .emit r.branch]

/-- The calls of rounds in a row, numbered from 0. -/
def allCalls (rounds : List Round) : List Call := rounds.zipIdx.flatMap fun e => e.1.calls e.2

lemma allCalls_snoc (rounds : List Round) (r : Round) :
    allCalls (rounds ++ [r]) = allCalls rounds ++ r.calls rounds.length := by
  simp [allCalls, List.zipIdx_append]

/-- Each round has one call on the pacer. -/
lemma countP_isPace_allCalls (rounds : List Round) :
    (allCalls rounds).countP Call.isPace = rounds.length := by
  induction rounds using List.reverseRecOn with
  | nil => rfl
  | append_singleton rounds r ih =>
      rw [allCalls_snoc, List.countP_append, ih, List.length_append]
      rfl

/-- Each round hands over one branch. -/
lemma branches_allCalls (rounds : List Round) :
    (allCalls rounds).filterMap Call.branch? = rounds.map Round.branch := by
  induction rounds using List.reverseRecOn with
  | nil => rfl
  | append_singleton rounds r ih =>
      rw [allCalls_snoc, List.filterMap_append, ih, List.map_append]
      rfl

end Round

/-- Called in this order from the state `h`, the surroundings give the answers that the calls hold
and come to the state `h'`. -/
def Host.Serves (host : Host σ) : σ → List Call → σ → Prop
  | h, [], h' => h = h'
  | h, .pace drawn word :: calls, h' =>
    (host.pace h drawn).1 = word ∧ host.Serves (host.pace h drawn).2 calls h'
  | h, .query query answer :: calls, h' =>
    (host.nearest h query).1 = answer ∧ host.Serves (host.nearest h query).2 calls h'
  | h, .emit branch :: calls, h' => host.Serves (host.emit h branch) calls h'

lemma Host.Serves.append {host : Host σ} {h h' h'' : σ} {first then' : List Call}
    (hfirst : host.Serves h first h') (hthen : host.Serves h' then' h'') :
    host.Serves h (first ++ then') h'' := by
  induction first generalizing h with
  | nil =>
      cases hfirst
      exact hthen
  | cons call first ih =>
      cases call with
      | pace => exact ⟨hfirst.1, ih hfirst.2⟩
      | query => exact ⟨hfirst.1, ih hfirst.2⟩
      | emit => exact ih hfirst

/-! ## The rounds of a walk -/

/-- Whether a walk was stopped by its pacer. -/
def Run.cancelled (run : Run σ) : Bool :=
  match run.outcome with
  | .ok r => !r.completed
  | .error _ => false

/-- The calls of a run over a list of items are those of `rounds`, and one more if the pacer stopped
it; they are what was done with the surroundings.  There is a round for every draw that the run
reports, and for every draw in front of the item at which it failed. -/
structure Run.InRounds (host : Host σ) (h : σ) (draws : α → Bool) (items : List α)
    (rounds : List Round) (run : Run σ) : Prop where
  calls : run.calls =
    Round.allCalls rounds ++ if run.cancelled then [.pace rounds.length .stop] else []
  served : host.Serves h run.calls run.host
  reported : ∀ r, run.outcome = .ok r → rounds.length = r.branches
  failed : ∀ e i, run.outcome = .error e → e.position? = some i →
    i < items.length ∧ rounds.length = (items.take i).countP draws
  unclosed : ∀ e, run.outcome = .error e → e.position? = none →
    rounds.length = items.countP draws

namespace State

variable {trig : Trig} {settings : Settings} {host : Host σ} {h : σ} {s s' : State σ}
  {op? : α → Option Op} {front : List α} {rounds : List Round} {item : α} {op : Op}

/-- All that a state has asked of its surroundings are `rounds`, one for every draw among the items
it has passed. -/
structure InRounds (host : Host σ) (h : σ) (op? : α → Option Op) (front : List α)
    (rounds : List Round) (s : State σ) : Prop where
  calls : s.journal.reverse = Round.allCalls rounds
  served : host.Serves h (Round.allCalls rounds) s.host
  passed : s.passed = front.length
  drawn : s.drawn = rounds.length
  counted : rounds.length = front.countP fun item => op? item = some .draw

lemma inRounds_start (host : Host σ) (h : σ) (op? : α → Option Op) (pose : Pose) :
    (start pose h).InRounds host h op? [] [] where
  calls := rfl
  served := rfl
  passed := rfl
  drawn := rfl
  counted := rfl

namespace InRounds

/-- An operation that draws nothing asks nothing. -/
lemma pass (hs : s.InRounds host h op? front rounds) (hop : op? item ≠ some .draw)
    (hjournal : s'.journal = s.journal) (hhost : s'.host = s.host)
    (hpassed : s'.passed = s.passed + 1) (hdrawn : s'.drawn = s.drawn) :
    s'.InRounds host h op? (front ++ [item]) rounds where
  calls := by rw [hjournal, hs.calls]
  served := by
    rw [hhost]
    exact hs.served
  passed := by rw [hpassed, hs.passed, List.length_append, List.length_singleton]
  drawn := by rw [hdrawn, hs.drawn]
  counted := by simp [List.countP_append, hop, hs.counted]

end InRounds

/-- The round of a draw. -/
def round (settings : Settings) (host : Host σ) (s : State σ) : Round :=
  let there := (s.pose.advance settings.stepLength).position
  ⟨⟨s.pose.position, there⟩, (host.nearest (s.resume host).host there).1⟩

/-- A draw makes the calls of one round.  Its branch ends where the surface was asked, since
steering leaves the turtle there. -/
lemma journal_grow_resume (trig : Trig) (settings : Settings) (host : Host σ) (s : State σ) :
    ((s.resume host).grow trig settings host).journal.reverse =
      s.journal.reverse ++ (s.round settings host).calls s.drawn := by
  simp [grow, reach, ask, pass, resume, round, Round.calls]

/-- They are what the draw does with its surroundings. -/
lemma serves_grow_resume (trig : Trig) (settings : Settings)
    (hgo : (host.pace s.host s.drawn).1 = .go) :
    host.Serves s.host ((s.round settings host).calls s.drawn)
      ((s.resume host).grow trig settings host).host := by
  refine ⟨hgo, rfl, ?_⟩
  simp only [Host.Serves, grow, reach, ask, pass, resume, round, Pose.position_steer]

namespace InRounds

/-- A draw adds a round. -/
lemma draw (hs : s.InRounds host h op? front rounds) (trig : Trig) (settings : Settings)
    (hop : op? item = some .draw) (hgo : (host.pace s.host s.drawn).1 = .go) :
    ((s.resume host).grow trig settings host).InRounds host h op? (front ++ [item])
      (rounds ++ [s.round settings host]) where
  calls := by rw [journal_grow_resume, hs.calls, Round.allCalls_snoc, hs.drawn]
  served := by
    rw [Round.allCalls_snoc, ← hs.drawn]
    exact hs.served.append (serves_grow_resume trig settings hgo)
  passed := by
    rw [List.length_append, List.length_singleton, ← hs.passed]
    rfl
  drawn := by
    rw [List.length_append, List.length_singleton, ← hs.drawn]
    rfl
  counted := by simp [List.countP_append, hop, hs.counted]

/-- **One operation.**  All that it asks of the surroundings makes up one round, if it draws, and
nothing otherwise. -/
lemma step (hs : s.InRounds host h op? front rounds) (hop : op? item = some op)
    (hstep : s.Step trig settings host op (.ready s')) :
    ∃ rounds', s'.InRounds host h op? (front ++ [item]) rounds' := by
  cases hstep with
  | draw hgo => exact ⟨_, hs.draw trig settings hop hgo⟩
  | turn => exact ⟨rounds, hs.pass (by simp [hop]) rfl rfl rfl rfl⟩
  | ignore => exact ⟨rounds, hs.pass (by simp [hop]) rfl rfl rfl rfl⟩
  | push => exact ⟨rounds, hs.pass (by simp [hop]) rfl rfl rfl rfl⟩
  | pop => exact ⟨rounds, hs.pass (by simp [hop]) rfl rfl rfl rfl⟩

end InRounds

/-- **A whole list.**  Wherever a walk gets, its calls are rounds. -/
lemma LooksUp.exists_inRounds {read : ℕ → α → Except WalkError Op} (hread : LooksUp read op?)
    {pose : Pose} (hfollow : (start pose h).follow trig settings (State.draw trig settings host)
      read front = .ready s) :
    ∃ rounds, s.InRounds host h op? front rounds :=
  follow_induction hread (I := fun front s => ∃ rounds, s.InRounds host h op? front rounds)
    (fun ⟨_, hs⟩ hop hstep => hs.step hop hstep) (v := []) ⟨[], inRounds_start host h op? pose⟩
    hfollow

/-! ## How the calls end -/

section Run

variable {items : List α} (hs : s.InRounds host h op? front rounds)

include hs

/-- A walk that its pacer stops asks nothing after that. -/
lemma InRounds.run_refuse (hstop : (host.pace s.host s.drawn).1 = .stop) :
    (Progress.stopped (s.refuse host)).run.InRounds host h
      (fun item => op? item = some .draw) items rounds where
  calls := by
    show (s.refuse host).journal.reverse = _
    simp [refuse, hs.calls, hs.drawn, Run.cancelled, Progress.run, finish, report]
  served := by
    show host.Serves h (s.refuse host).journal.reverse (s.refuse host).host
    simp only [refuse, List.reverse_cons, hs.calls]
    exact hs.served.append ⟨hstop, rfl⟩
  reported := by
    intro r hr
    cases hr
    exact hs.drawn.symm
  failed := nofun
  unclosed := nofun

/-- A walk that fails at an item asks nothing for it. -/
lemma InRounds.run_failed {e : WalkError} (hfront : front <+: items)
    (hshort : front.length < items.length) (hposition : e.position? = some s.passed) :
    (Progress.failed s e).run.InRounds host h (fun item => op? item = some .draw) items
      rounds where
  calls := by
    show s.journal.reverse = _
    rw [hs.calls]
    exact (List.append_nil _).symm
  served := by
    show host.Serves h s.journal.reverse s.host
    rw [hs.calls]
    exact hs.served
  reported := nofun
  failed := by
    intro e' i he hi
    cases he
    obtain rfl : s.passed = i := Option.some.inj (hposition.symm.trans hi)
    rw [hs.passed, ← List.prefix_iff_eq_take.1 hfront]
    exact ⟨hshort, hs.counted⟩
  unclosed := by
    intro e' he hnone
    cases he
    rw [hposition] at hnone
    cases hnone

end Run

/-- A walk that comes to the end of its list asks nothing there. -/
lemma InRounds.run_ready {items : List α} (hs : s.InRounds host h op? items rounds) :
    (Progress.ready s).run.InRounds host h (fun item => op? item = some .draw) items rounds where
  calls := by
    have hrest : (Progress.ready s).run.cancelled = false := by
      rcases Progress.outcome_run_ready s with hout | ⟨d, hout⟩ <;> simp [Run.cancelled, hout, report]
    show s.journal.reverse = _
    rw [hs.calls, hrest]
    exact (List.append_nil _).symm
  served := by
    show host.Serves h s.journal.reverse s.host
    rw [hs.calls]
    exact hs.served
  reported := by
    intro r hr
    rcases Progress.outcome_run_ready s with hout | ⟨d, hout⟩
    · cases hout.symm.trans hr
      exact hs.drawn.symm
    · cases hout.symm.trans hr
  failed := by
    intro e i he hi
    rcases Progress.outcome_run_ready s with hout | ⟨d, hout⟩
    · cases hout.symm.trans he
    · cases hout.symm.trans he
      cases hi
  unclosed := fun _ _ _ => hs.counted

/-- The run of a walk over items that are looked up is in rounds, however it ends. -/
lemma LooksUp.exists_inRounds_run {read : ℕ → α → Except WalkError Op} (hread : LooksUp read op?)
    (trig : Trig) (settings : Settings) (host : Host σ) (h : σ) (pose : Pose) (items : List α) :
    ∃ rounds, ((start pose h).follow trig settings (State.draw trig settings host) read
      items).run.InRounds host h (fun item => op? item = some .draw) items rounds := by
  obtain ⟨front, s, hfront, hfollow, hends⟩ :=
    exists_front_ends hread trig settings host (start pose h) items
  obtain ⟨rounds, hs⟩ := hread.exists_inRounds hfollow
  refine ⟨rounds, ?_⟩
  generalize (start pose h).follow trig settings (State.draw trig settings host) read items = p
    at hends ⊢
  cases hends with
  | ready hall => exact (hall ▸ hs).run_ready
  | stopped hstop => exact hs.run_refuse hstop
  | failed hshort hposition => exact hs.run_failed hfront hshort hposition

end State

/-! ## Words and tokenised words -/

namespace Turtle

/-- Whether a number is that of a symbol that draws. -/
def drawsAt (t : Turtle) (table : SymbolTable) (id : SymbolId) : Bool :=
  t.alphabet.entries.any fun e => e.2 = .draw ∧ table.idOf? [e.1] = some id

/-- The row of operations holds a draw at these numbers and at no others. -/
lemma op?_opTable_eq_draw_iff (t : Turtle) (table : SymbolTable) (id : SymbolId) :
    (table.opTable t.alphabet.entries).op? id = some .draw ↔ t.drawsAt table id := by
  simp only [drawsAt, List.any_eq_true, decide_eq_true_eq]
  constructor
  · intro hop
    by_cases hnamed : ∃ c, table.idOf? [c] = some id
    · obtain ⟨c, hid⟩ := hnamed
      rw [Alphabet.op?_opTable (.refl _) hid] at hop
      exact ⟨(c, .draw), SymbolMap.mem_entries_of_get? hop, rfl, hid⟩
    · rw [Alphabet.op?_opTable_of_ne fun c hid => hnamed ⟨c, hid⟩] at hop
      cases hop
  · rintro ⟨⟨c, op⟩, hmem, rfl, hid⟩
    exact SymbolTable.op?_foldl_of_mem _ t.alphabet.nodup_keys hmem hid

/-- **Pacer, surface and emitter are called in rounds.**  Every walk of a word or of a tokenised word,
however it ends, calls them for `k = 0, 1, …` in this order: the pacer with `k`, which lets the
turtle go on, the surface for its point nearest to the end of a branch, and the emitter with that
branch.  When the pacer stops the walk, and only then, one more call follows, in which it is asked
with the number of rounds and says stop.  Nothing else is called.  There are as many rounds as the
report has branches, or as there are draws in front of the position at which the walk failed, or in
the whole word when it failed for the poses left over. -/
theorem exists_rounds_of_walk (trig : Trig) (t : Turtle) (host : Host σ) (h : σ) (pose : Pose) :
    (∀ w, ∃ rounds, (t.walk trig host h pose w).InRounds host h
      (fun c => t.alphabet.get? c = some .draw) w rounds) ∧
    ∀ table ids, ∃ rounds, (t.walkIds trig table host h pose ids).InRounds host h
      (t.drawsAt table) ids rounds := by
  constructor
  · intro w
    exact t.looksUp_read.exists_inRounds_run trig t.settings host h pose w
  · intro table ids
    have hrun := (looksUp_opTable (table.opTable t.alphabet.entries)).exists_inRounds_run trig
      t.settings host h pose ids
    simp only [op?_opTable_eq_draw_iff, Bool.decide_eq_true] at hrun
    exact hrun

end Turtle

end Arbor
