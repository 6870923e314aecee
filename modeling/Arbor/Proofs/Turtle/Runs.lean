import Arbor.Proofs.Turtle.Outcome

/-!
# Walks seen through the fronts of their words

Where a walk has got to depends on the front of the word that it has read, and most of what is said
about walks is said of such fronts.  This file has what they share, for items of any kind whose
operations are looked up (`State.LooksUp`) and then for words.  An invariant that every operation
keeps holds wherever a walk gets (`follow_induction`).  A walk comes to the end of some front and
either goes no further for want of items, or is stopped or fails there (`exists_front_ends`), so
what it has drawn in the end was drawn on that front, and nothing that it has drawn is ever taken
back (`branches_follow`).  `Reaches` is the case of a walk from its start, with the tally that comes
with it.  Two walks that keep a relation from item to item keep it throughout, also where they halt
(`follow_rel`); those whose items have the same operations stay together until the word ends or an
item without operation is reached (`LooksUp.follow_rel`), and end alike but for what they say of that
item (`Progress.Rel.run_eq`).
-/

namespace Arbor

variable {σ τ : Type}

/-! ## Where a walk is -/

namespace Progress

/-- The state in which a walk goes on or has halted. -/
def state : Progress σ → State σ
  | ready s => s
  | stopped s => s
  | failed s _ => s

@[simp] lemma branches_run (p : Progress σ) : p.run.branches = p.state.branches := by
  cases p <;> rfl

/-- At the end of its word a walk has come through, or poses are left over. -/
lemma outcome_run_ready (s : State σ) :
    (ready s).run.outcome = .ok (s.report true) ∨
      ∃ d, (ready s).run.outcome = .error (.unclosed d) := by
  by_cases hsaved : s.saved.isEmpty
  · left
    simp only [run, State.finish, if_pos hsaved]
  · right
    simp only [run, State.finish, if_neg hsaved]
    exact ⟨_, rfl⟩

lemma andThen_eq_ready_iff {p : Progress σ} {next : State σ → Progress σ} {s : State σ} :
    p.andThen next = .ready s ↔ ∃ u, p = .ready u ∧ next u = .ready s := by
  cases p <;> simp [andThen]

/-- Two walks stand in related states, and either both go on, or both were stopped, or both failed
with related errors. -/
inductive Rel (R : State σ → State τ → Prop) (E : WalkError → WalkError → Prop) :
    Progress σ → Progress τ → Prop
  | ready {s : State σ} {u : State τ} (h : R s u) : Rel R E (.ready s) (.ready u)
  | stopped {s : State σ} {u : State τ} (h : R s u) : Rel R E (.stopped s) (.stopped u)
  | failed {s : State σ} {u : State τ} {e e' : WalkError} (h : R s u) (he : E e e') :
      Rel R E (.failed s e) (.failed u e')

variable {R : State σ → State τ → Prop} {E : WalkError → WalkError → Prop}

lemma Rel.state {p : Progress σ} {q : Progress τ} (h : Rel R E p q) : R p.state q.state := by
  cases h <;> assumption

lemma Rel.andThen {p : Progress σ} {q : Progress τ} (h : Rel R E p q)
    {next : State σ → Progress σ} {next' : State τ → Progress τ}
    (hnext : ∀ {s u}, R s u → Rel R E (next s) (next' u)) :
    Rel R E (p.andThen next) (q.andThen next') := by
  cases h with
  | ready h => exact hnext h
  | stopped h => exact .stopped h
  | failed h he => exact .failed h he

/-- Walks in the same states, with errors that go over into one another by `g`, end alike up to
`g`. -/
lemma Rel.run_eq {g : WalkError → WalkError} (hunclosed : ∀ d, g (.unclosed d) = .unclosed d)
    {p q : Progress σ} (h : Rel Eq (fun e e' => e' = g e) p q) :
    q.run = { p.run with outcome := p.run.outcome.mapError g } := by
  cases h with
  | @ready s u hs =>
      subst hs
      by_cases hsaved : s.saved.isEmpty
      · simp only [run, State.finish, if_pos hsaved, Except.mapError]
      · simp only [run, State.finish, if_neg hsaved, Except.mapError, hunclosed]
  | stopped hs =>
      subst hs
      rfl
  | failed hs he =>
      subst hs he
      rfl

end Progress

/-! ## One operation -/

namespace State

section Step

variable {trig : Trig} {settings : Settings} {host : Host σ} {s : State σ} {op : Op}

/-- Each operation does only one thing. -/
lemma step_iff {p : Progress σ} :
    s.Step trig settings host op p ↔
      s.perform trig settings (draw trig settings host) op = p := by
  constructor
  · rintro (hgo | hstop | sign | _ | hfree | hfull | hsaved | hsaved)
    · exact draw_of_go hgo
    · exact draw_of_stop hstop
    · rfl
    · rfl
    · exact push_of_lt hfree
    · exact push_of_le hfull
    · exact pop_of_cons hsaved
    · exact pop_of_nil hsaved
  · rintro rfl
    exact step_perform trig settings host s op

lemma Step.passed {s' : State σ} (h : s.Step trig settings host op (.ready s')) :
    s'.passed = s.passed + 1 := by
  cases h <;> rfl

/-- An operation fails for the brackets. -/
lemma Step.isStructural {s' : State σ} {e : WalkError}
    (h : s.Step trig settings host op (.failed s' e)) : e.isStructural := by
  cases h <;> rfl

/-- What has been drawn stays. -/
lemma Step.branches {p : Progress σ} (h : s.Step trig settings host op p) :
    s.branches <+: p.state.branches := by
  cases h with
  | draw =>
      rw [Progress.state, branches_grow, branches_resume]
      exact List.prefix_append _ _
  | refused => exact (branches_refuse host s).symm ▸ List.prefix_rfl
  | _ => exact List.prefix_rfl

/-- Whatever the pacer does, an operation that is performed keeps the tally. -/
lemma Step.tallies {ops : List Op} {s' : State σ} (h : s.Step trig settings host op (.ready s'))
    (htally : s.Tallies ops) : s'.Tallies (ops ++ [op]) := by
  cases h with
  | draw =>
      refine htally.snoc rfl rfl rfl rfl rfl ?_
      simp [Forest.drawFrom, draws, Op.isDraw]
  | turn => exact htally.snoc rfl rfl rfl rfl rfl rfl
  | ignore => exact htally.snoc rfl rfl rfl rfl rfl rfl
  | push => exact htally.push
  | pop hsaved => exact htally.pop hsaved

end Step

/-! ## Two walks in step -/

section Rel

variable {α β : Type} {trig trig' : Trig} {settings settings' : Settings}
  {draw : State σ → Progress σ} {draw' : State τ → Progress τ}
  {read : ℕ → α → Except WalkError Op} {read' : ℕ → β → Except WalkError Op}
  {R : State σ → State τ → Prop} {E : WalkError → WalkError → Prop} {Q : α → β → Prop}

/-- Walks that keep a relation over one item keep it over lists. -/
lemma follow_rel
    (hone : ∀ {s u a b}, R s u → Q a b →
      Progress.Rel R E (s.follow trig settings draw read [a])
        (u.follow trig' settings' draw' read' [b]))
    {s : State σ} {u : State τ} (hs : R s u) {v : List α} {w : List β} (hw : List.Forall₂ Q v w) :
    Progress.Rel R E (s.follow trig settings draw read v)
      (u.follow trig' settings' draw' read' w) := by
  induction hw generalizing s u with
  | nil => exact .ready hs
  | @cons a b v w hab _ ih =>
      rw [← List.singleton_append, ← List.singleton_append (l := w), follow_append, follow_append]
      exact (hone hs hab).andThen ih

end Rel

/-- A list is followed alike whether its items are changed beforehand or as they are read. -/
lemma follow_map {α β : Type} (trig : Trig) (settings : Settings) (draw : State σ → Progress σ)
    (read : ℕ → α → Except WalkError Op) (f : β → α) (s : State σ) (items : List β) :
    s.follow trig settings draw read (items.map f) =
      s.follow trig settings draw (fun position item => read position (f item)) items := by
  induction items generalizing s with
  | nil => rfl
  | cons item items ih =>
      rw [List.map_cons, follow_cons, follow_cons]
      simp only [ih]

/-! ## Items that are looked up -/

/-- The operation of an item is looked up, and an item without one is an error at its position. -/
structure LooksUp {α : Type} (read : ℕ → α → Except WalkError Op) (op? : α → Option Op) :
    Prop where
  found : ∀ {item op}, op? item = some op → ∀ position, read position item = .ok op
  missing : ∀ {item}, op? item = none → ∀ position,
    ∃ e, read position item = .error e ∧ e.position? = some position

section LooksUp

variable {α : Type} {trig : Trig} {settings : Settings} {host : Host σ} {s s' : State σ}
  {read : ℕ → α → Except WalkError Op} {op? : α → Option Op} {item : α} {items : List α}

/-- How a walk ends that has come to the state `s` on a front: there is nothing behind the front, or
the next item is a draw that the pacer objects to, or it cannot be read or performed. -/
inductive Ends (host : Host σ) (items front : List α) (s : State σ) : Progress σ → Prop
  | ready (hall : front = items) : Ends host items front s (.ready s)
  | stopped (hstop : (host.pace s.host s.drawn).1 = .stop) :
      Ends host items front s (.stopped (s.refuse host))
  | failed {e : WalkError} (hshort : front.length < items.length)
      (hposition : e.position? = some s.passed) : Ends host items front s (.failed s e)

lemma Ends.cons {front : List α} {p : Progress σ} (h : Ends host items front s p) (item : α) :
    Ends host (item :: items) (item :: front) s p := by
  cases h with
  | ready hall => exact .ready (congrArg _ hall)
  | stopped hstop => exact .stopped hstop
  | failed hshort hposition => exact .failed (Nat.succ_lt_succ hshort) hposition

/-- What has been drawn in the end was drawn on the front. -/
lemma Ends.branches {front : List α} {p : Progress σ} (h : Ends host items front s p) :
    p.state.branches = s.branches := by
  cases h with
  | stopped => exact branches_refuse host s
  | _ => rfl

variable (hread : LooksUp read op?)

include hread

/-- A walk passes an item by performing its operation. -/
lemma follow_cons_eq_ready_iff :
    s.follow trig settings (draw trig settings host) read (item :: items) = .ready s' ↔
      ∃ op u, op? item = some op ∧ s.Step trig settings host op (.ready u) ∧
        u.follow trig settings (draw trig settings host) read items = .ready s' := by
  constructor
  · intro hfollow
    cases hop : op? item with
    | none =>
        obtain ⟨e, herror, -⟩ := hread.missing hop s.passed
        rw [follow_cons_of_error herror] at hfollow
        cases hfollow
    | some op =>
        rw [follow_cons_of_ok (hread.found hop _), Progress.andThen_eq_ready_iff] at hfollow
        obtain ⟨u, hperform, hrest⟩ := hfollow
        exact ⟨op, u, rfl, step_iff.2 hperform, hrest⟩
  · rintro ⟨op, u, hop, hstep, hrest⟩
    rw [follow_cons_of_ok (hread.found hop _), step_iff.1 hstep]
    exact hrest

/-- An invariant of the items passed so far that every further one keeps holds wherever a walk
gets. -/
lemma follow_induction {I : List α → State σ → Prop}
    (hstep : ∀ {front s item op s'}, I front s → op? item = some op →
      s.Step trig settings host op (.ready s') → I (front ++ [item]) s')
    {v : List α} (hs : I v s)
    (hfollow : s.follow trig settings (draw trig settings host) read items = .ready s') :
    I (v ++ items) s' := by
  induction items generalizing v s with
  | nil =>
      cases hfollow
      rwa [List.append_nil]
  | cons item items ih =>
      obtain ⟨op, u, hop, hfirst, hrest⟩ := (follow_cons_eq_ready_iff hread).1 hfollow
      rw [List.append_cons]
      exact ih (hstep hs hop hfirst) hrest

/-- A walk comes to the end of some front, and ends there. -/
lemma exists_front_ends (trig : Trig) (settings : Settings) (host : Host σ) (s : State σ)
    (items : List α) :
    ∃ front s', front <+: items ∧
      s.follow trig settings (draw trig settings host) read front = .ready s' ∧
      Ends host items front s' (s.follow trig settings (draw trig settings host) read items) := by
  induction items generalizing s with
  | nil => exact ⟨[], s, List.prefix_rfl, rfl, .ready rfl⟩
  | cons item items ih =>
      cases hop : op? item with
      | none =>
          obtain ⟨e, herror, hposition⟩ := hread.missing hop s.passed
          refine ⟨[], s, List.nil_prefix, rfl, ?_⟩
          rw [follow_cons_of_error herror]
          exact .failed (Nat.succ_pos _) hposition
      | some op =>
          have hstep := s.step_perform trig settings host op
          rw [follow_cons_of_ok (hread.found hop _)]
          cases hperform : s.perform trig settings (draw trig settings host) op with
          | ready u =>
              rw [hperform] at hstep
              obtain ⟨front, s', hfront, hfollow, hends⟩ := ih u
              refine ⟨item :: front, s', List.cons_prefix_cons.2 ⟨rfl, hfront⟩, ?_, hends.cons item⟩
              exact (follow_cons_eq_ready_iff hread).2 ⟨op, u, hop, hstep, hfollow⟩
          | stopped u =>
              rw [hperform] at hstep
              refine ⟨[], s, List.nil_prefix, rfl, ?_⟩
              cases hstep with
              | refused hstop => exact .stopped hstop
          | failed u e =>
              rw [hperform] at hstep
              refine ⟨[], s, List.nil_prefix, rfl, ?_⟩
              cases hstep with
              | tooDeep => exact .failed (Nat.succ_pos _) rfl
              | unbalanced => exact .failed (Nat.succ_pos _) rfl

end LooksUp

/-- Lists of two kinds of items are followed alike where items at the same place have the same
operation, up to the errors for those that have none. -/
lemma LooksUp.follow_rel {α β : Type} {read : ℕ → α → Except WalkError Op} {op? : α → Option Op}
    {read' : ℕ → β → Except WalkError Op} {op?' : β → Option Op} {Q : α → β → Prop}
    {E : WalkError → WalkError → Prop} (hread : LooksUp read op?) (hread' : LooksUp read' op?')
    (hop : ∀ {a b}, Q a b → op?' b = op? a)
    (hmissing : ∀ {a b position e e'}, Q a b → read position a = .error e →
      read' position b = .error e' → E e e')
    (hstructural : ∀ {e : WalkError}, e.isStructural → E e e) (trig : Trig) (settings : Settings)
    (host : Host σ) (s : State σ) {v : List α} {w : List β} (hw : List.Forall₂ Q v w) :
    Progress.Rel Eq E (s.follow trig settings (draw trig settings host) read v)
      (s.follow trig settings (draw trig settings host) read' w) := by
  refine State.follow_rel ?_ rfl hw
  rintro s _ a b rfl hab
  cases hget : op? a with
  | none =>
      obtain ⟨e, herror, -⟩ := hread.missing hget s.passed
      obtain ⟨e', herror', -⟩ := hread'.missing ((hop hab).trans hget) s.passed
      rw [follow_cons_of_error herror, follow_cons_of_error herror']
      exact .failed rfl (hmissing hab herror herror')
  | some op =>
      rw [follow_cons_of_ok (hread.found hget _),
        follow_cons_of_ok (hread'.found ((hop hab).trans hget) _)]
      have hstep := s.step_perform trig settings host op
      cases hperform : s.perform trig settings (draw trig settings host) op with
      | ready u => exact .ready rfl
      | stopped u => exact .stopped rfl
      | failed u e => exact .failed rfl (hstructural (hperform ▸ hstep).isStructural)

end State

/-! ## Fronts of a word -/

namespace Turtle

variable {trig : Trig} {t : Turtle} {host : Host σ} {s s' : State σ} {c : Symbol} {w : Word}

/-- A turtle looks its symbols up in its alphabet. -/
lemma looksUp_read (t : Turtle) : State.LooksUp t.read t.alphabet.get? where
  found hop := read_of_get? hop
  missing hop position := ⟨_, read_of_get?_none hop position, rfl⟩

lemma eq_of_read_eq_error {position : ℕ} {e : WalkError} (h : t.read position c = .error e) :
    e = .unknownSymbol position c := by
  unfold read at h
  split at h <;> cases h
  rfl

/-- A walk passes a symbol by performing its operation. -/
lemma follow_cons_eq_ready_iff :
    s.follow trig t.settings (State.draw trig t.settings host) t.read (c :: w) = .ready s' ↔
      ∃ op u, t.alphabet.get? c = some op ∧ s.Step trig t.settings host op (.ready u) ∧
        u.follow trig t.settings (State.draw trig t.settings host) t.read w = .ready s' :=
  State.follow_cons_eq_ready_iff t.looksUp_read

/-- An invariant of the operations done so far that every further one keeps holds wherever a walk
gets. -/
lemma follow_induction {I : List Op → State σ → Prop}
    (hstep : ∀ {ops s s' op}, I ops s → s.Step trig t.settings host op (.ready s') →
      I (ops ++ [op]) s')
    {ops : List Op} (hs : I ops s)
    (hfollow : s.follow trig t.settings (State.draw trig t.settings host) t.read w = .ready s') :
    I (ops ++ t.alphabet.ops w) s' := by
  refine State.follow_induction t.looksUp_read (I := fun front s => I (ops ++ t.alphabet.ops front) s)
    ?_ (v := []) (by simpa [Alphabet.ops] using hs) hfollow
  intro front s c op s' hfront hop hfirst
  rw [Alphabet.ops_append, Alphabet.ops_cons_of_get? hop, ← List.append_assoc]
  exact hstep hfront hfirst

/-- A walk has passed as many symbols as it has read, and all of them have operations. -/
lemma passed_of_follow
    (hfollow : s.follow trig t.settings (State.draw trig t.settings host) t.read w = .ready s') :
    s'.passed = s.passed + w.length ∧ ∀ c ∈ w, t.alphabet.contains c := by
  induction w generalizing s with
  | nil =>
      cases hfollow
      simp
  | cons c w ih =>
      obtain ⟨op, u, hop, hfirst, hrest⟩ := follow_cons_eq_ready_iff.1 hfollow
      obtain ⟨hpassed, hmapped⟩ := ih hrest
      refine ⟨?_, ?_⟩
      · rw [hpassed, hfirst.passed, List.length_cons]
        omega
      · intro d hd
        rcases List.mem_cons.1 hd with rfl | hd
        · simp [SymbolMap.contains, hop]
        · exact hmapped d hd

/-- What has been drawn stays, wherever a walk goes from there. -/
lemma branches_follow (trig : Trig) (t : Turtle) (host : Host σ) (s : State σ) (w : Word) :
    s.branches <+:
      (s.follow trig t.settings (State.draw trig t.settings host) t.read w).state.branches := by
  induction w generalizing s with
  | nil => exact List.prefix_rfl
  | cons c w ih =>
      cases hop : t.alphabet.get? c with
      | none =>
          rw [State.follow_cons_of_error (read_of_get?_none hop _)]
          exact List.prefix_rfl
      | some op =>
          have hstep := s.step_perform trig t.settings host op
          rw [State.follow_cons_of_ok (read_of_get? hop _)]
          cases hperform : s.perform trig t.settings (State.draw trig t.settings host) op with
          | ready u => exact (hperform ▸ hstep).branches.trans (ih u)
          | stopped u => exact (hperform ▸ hstep).branches
          | failed u e => exact (hperform ▸ hstep).branches

/-- A walk halts where it has drawn what it had drawn on some front that it passed. -/
lemma exists_ready_front (trig : Trig) (t : Turtle) (host : Host σ) (s : State σ) (w : Word) :
    ∃ front s', front <+: w ∧
      s.follow trig t.settings (State.draw trig t.settings host) t.read front = .ready s' ∧
      (s.follow trig t.settings (State.draw trig t.settings host) t.read w).state.branches =
        s'.branches := by
  obtain ⟨front, s', hfront, hfollow, hends⟩ :=
    State.exists_front_ends t.looksUp_read trig t.settings host s w
  exact ⟨front, s', hfront, hfollow, hends.branches⟩

/-- A walk that fails before its end fails at one of its symbols. -/
lemma position_of_follow {e : WalkError}
    (hfollow : s.follow trig t.settings (State.draw trig t.settings host) t.read w =
      .failed s' e) : ∃ j < w.length, e.position? = some (s.passed + j) := by
  obtain ⟨front, u, -, hfront, hends⟩ :=
    State.exists_front_ends t.looksUp_read trig t.settings host s w
  rw [hfollow] at hends
  cases hends with
  | failed hshort hposition =>
      refine ⟨front.length, hshort, ?_⟩
      rw [hposition, (passed_of_follow hfront).1]

/-! ## What a walk reaches -/

/-- From its start, the walk of a word comes to its end in the state `s`. -/
def Reaches (trig : Trig) (t : Turtle) (host : Host σ) (h : σ) (pose : Pose) (w : Word)
    (s : State σ) : Prop :=
  (State.start pose h).follow trig t.settings (State.draw trig t.settings host) t.read w = .ready s

namespace Reaches

variable {h : σ} {pose : Pose} {v : Word} (hs : t.Reaches trig host h pose w s)

include hs

lemma passed : s.passed = w.length := by
  rw [(passed_of_follow hs).1, State.start, Nat.zero_add]

lemma mapped : ∀ c ∈ w, t.alphabet.contains c := (passed_of_follow hs).2

/-- A walk keeps a tally of what it has passed. -/
lemma tallies : s.Tallies (t.alphabet.ops w) :=
  follow_induction (fun htally hstep => hstep.tallies htally) (State.tallies_start pose h) hs

/-- A walk that gets somewhere gets to the end of every front, with no more branches. -/
lemma of_front (hfront : v <+: w) :
    ∃ u, t.Reaches trig host h pose v u ∧ u.branches <+: s.branches := by
  obtain ⟨rest, rfl⟩ := hfront
  rw [Reaches, State.follow_append, Progress.andThen_eq_ready_iff] at hs
  obtain ⟨u, hv, hrest⟩ := hs
  have hkept := branches_follow trig t host u rest
  rw [hrest] at hkept
  exact ⟨u, hv, hkept⟩

lemma branches_walk : (t.walk trig host h pose w).branches = s.branches := by
  rw [walk, hs, Progress.branches_run, Progress.state]

end Reaches

/-- However a walk ends, its branches are those that it had at the end of some front. -/
lemma exists_front_reaches (trig : Trig) (t : Turtle) (host : Host σ) (h : σ) (pose : Pose)
    (w : Word) :
    ∃ front s, front <+: w ∧ t.Reaches trig host h pose front s ∧
      (t.walk trig host h pose w).branches = s.branches := by
  rw [walk, Progress.branches_run]
  exact exists_ready_front trig t host (State.start pose h) w

end Turtle

end Arbor
