import Arbor.Proofs.Tables
import Arbor.Proofs.Turtle.Runs
import Arbor.Turtle.Tokens

/-!
# Tokenised words and words of names

A tokenised word is walked through a row of operations that is filled beforehand, one symbol of the
alphabet after the other.  No two names have the same number, so the row holds at each number what
the alphabet holds for the symbol with that name, in whatever order it was filled
(`op?_opTable`), and nothing at any other number.

From there the walk of a tokenised word is the walk of the names of its numbers.  The two go in step
as long as every number is that of a symbol (`follow_numbered`); at the first one that is not, the
walk of the tokenised word fails, if it gets there.
-/

namespace Arbor

/-! ## Numbers that stand for no symbol -/

namespace SymbolTable

/-- The number stands for no symbol: the table does not know it, or its name is not one letter. -/
def Unnamed (table : SymbolTable) (id : SymbolId) : Prop :=
  (∀ name, table.idOf? name ≠ some id) ∨ ∃ name, table.idOf? name = some id ∧ name.length ≠ 1

lemma Unnamed.idOf?_ne {table : SymbolTable} {id : SymbolId} (h : table.Unnamed id) (c : Symbol) :
    table.idOf? [c] ≠ some id := by
  intro hid
  rcases h with hunknown | ⟨name, hname, hlength⟩
  · exact hunknown [c] hid
  · rw [table.injective hname hid] at hlength
    exact hlength rfl

/-! ## The row of operations -/

variable {table : SymbolTable} {entries : List (Symbol × Op)} {id : SymbolId} {c : Symbol} {op : Op}

lemma op?_store_self (ops : OpTable) (h : table.idOf? [c] = some id) :
    (table.store ops (c, op)).op? id = some op := by
  simp only [store, h]
  rw [OpTable.op?_put, if_pos rfl]

/-- Storing a symbol changes nothing at a number that is not its own. -/
lemma op?_store_of_ne (ops : OpTable) (h : table.idOf? [c] ≠ some id) :
    (table.store ops (c, op)).op? id = ops.op? id := by
  unfold store
  split
  · rename_i i hi
    have hne : ¬ id = i := by
      rintro rfl
      exact h hi
    rw [OpTable.op?_put, if_neg hne]
  · rfl

lemma op?_foldl_of_forall_ne (ops : OpTable)
    (h : ∀ e ∈ entries, table.idOf? [e.1] ≠ some id) :
    (entries.foldl table.store ops).op? id = ops.op? id := by
  induction entries generalizing ops with
  | nil => rfl
  | cons e entries ih =>
      rw [List.foldl_cons, ih _ fun e he => h e (List.mem_cons_of_mem _ he)]
      exact op?_store_of_ne ops (h e List.mem_cons_self)

/-- The operation of a symbol is found at its number. -/
lemma op?_foldl_of_mem (ops : OpTable) (hkeys : (entries.map Prod.fst).Nodup)
    (hmem : (c, op) ∈ entries) (hid : table.idOf? [c] = some id) :
    (entries.foldl table.store ops).op? id = some op := by
  induction entries generalizing ops with
  | nil => cases hmem
  | cons e entries ih =>
      obtain ⟨hfresh, hkeys⟩ := List.nodup_cons.1 hkeys
      rw [List.foldl_cons]
      rcases List.mem_cons.1 hmem with rfl | hmem
      · -- No later symbol has the same number, so what is stored here stays.
        have hlater : ∀ e ∈ entries, table.idOf? [e.1] ≠ some id := by
          intro e he hsame
          have hname : c = e.1 := List.cons.inj (table.injective hid hsame) |>.1
          have hkey : e.1 ∈ entries.map Prod.fst := List.mem_map_of_mem he
          exact hfresh (hname ▸ hkey)
        rw [op?_foldl_of_forall_ne _ hlater, op?_store_self ops hid]
      · exact ih _ hkeys hmem

end SymbolTable

namespace Alphabet

variable {alphabet : Alphabet} {table : SymbolTable} {order : List (Symbol × Op)}

section Order

variable (horder : order.Perm alphabet.entries)

include horder

/-- **The row composes table and alphabet.**  At the number of a symbol it holds the operation of the
symbol, or nothing if that has none. -/
lemma op?_opTable {c : Symbol} {id : SymbolId} (hid : table.idOf? [c] = some id) :
    (table.opTable order).op? id = alphabet.get? c := by
  cases hget : alphabet.get? c with
  | none =>
      have hother : ∀ e ∈ order, table.idOf? [e.1] ≠ some id := by
        intro e he hsame
        have hname : c = e.1 := List.cons.inj (table.injective hid hsame) |>.1
        have hne := List.lookup_eq_none_iff.1 hget e (horder.subset he)
        simp [hname] at hne
      exact SymbolTable.op?_foldl_of_forall_ne _ hother
  | some op =>
      have hmem : (c, op) ∈ alphabet.entries := SymbolMap.mem_entries_of_get? hget
      exact SymbolTable.op?_foldl_of_mem _ ((horder.map _).nodup_iff.2 alphabet.nodup_keys)
        (horder.symm.subset hmem) hid

omit horder in
lemma op?_opTable_of_ne {id : SymbolId} (h : ∀ c, table.idOf? [c] ≠ some id) :
    (table.opTable order).op? id = none :=
  SymbolTable.op?_foldl_of_forall_ne _ fun e _ => h e.1

/-- It makes no difference in which order the row is filled. -/
lemma read_opTable_perm :
    (table.opTable order).read = (table.opTable alphabet.entries).read := by
  funext position id
  have hsame : (table.opTable order).op? id = (table.opTable alphabet.entries).op? id := by
    by_cases hnamed : ∃ c, table.idOf? [c] = some id
    · obtain ⟨c, hid⟩ := hnamed
      rw [op?_opTable horder hid, op?_opTable (.refl _) hid]
    · have hne : ∀ c, table.idOf? [c] ≠ some id := fun c hc => hnamed ⟨c, hc⟩
      rw [op?_opTable_of_ne hne, op?_opTable_of_ne hne]
  simp only [OpTable.read, hsame]

end Order

end Alphabet

/-! ## Walking in step -/

/-- A walk fails at one of the first `n` symbols, or its pacer stops it. -/
def Run.HaltsWithin {σ : Type} (run : Run σ) (n : ℕ) : Prop :=
  (∃ e j, run.outcome = .error e ∧ e.position? = some j ∧ j < n) ∨
    ∃ r, run.outcome = .ok r ∧ r.completed = false

/-- The error of a tokenised word where its names make for `e`: a symbol that has no operation shows
as its number. -/
def WalkError.numbered (table : SymbolTable) : WalkError → WalkError
  | unknownSymbol position c =>
    match table.idOf? [c] with
    | some id => unknownId position id
    | none => unknownSymbol position c
  | e => e

namespace Turtle

variable {σ : Type} {table : SymbolTable} {w : Word} {ids : List SymbolId}

/-- The names of a tokenised word, when all its numbers are those of symbols. -/
def Names (table : SymbolTable) (w : Word) (ids : List SymbolId) : Prop :=
  List.Forall₂ (fun c id => table.idOf? [c] = some id) w ids

lemma looksUp_opTable (ops : OpTable) : State.LooksUp ops.read ops.op? where
  found hop position := by simp only [OpTable.read, hop]
  missing {id} hop position :=
    ⟨.unknownId position id, by simp only [OpTable.read, hop], rfl⟩

/-- A tokenised word and its names are followed alike, up to the error. -/
lemma follow_numbered (trig : Trig) (t : Turtle) (host : Host σ) (hnames : Names table w ids)
    (s : State σ) :
    Progress.Rel Eq (fun e e' => e' = e.numbered table)
      (s.follow trig t.settings (State.draw trig t.settings host) t.read w)
      (s.follow trig t.settings (State.draw trig t.settings host)
        (table.opTable t.alphabet.entries).read ids) := by
  refine t.looksUp_read.follow_rel (looksUp_opTable _) (Alphabet.op?_opTable (.refl _)) ?_ ?_ trig
    t.settings host s hnames
  · intro c id position e e' hid herror herror'
    rw [eq_of_read_eq_error herror, WalkError.numbered, hid]
    unfold OpTable.read at herror'
    split at herror' <;> cases herror'
    rfl
  · -- An error for the brackets shows no name.
    intro e hstructural
    cases e with
    | unknownSymbol => cases hstructural
    | _ => rfl

/-- What a tokenised word does when all its numbers are those of symbols. -/
lemma walkIds_of_names (trig : Trig) (t : Turtle) (host : Host σ) (h : σ) (pose : Pose)
    (hnames : Names table w ids) :
    (t.walkIds trig table host h pose ids).calls = (t.walk trig host h pose w).calls ∧
    (t.walkIds trig table host h pose ids).host = (t.walk trig host h pose w).host ∧
    (t.walkIds trig table host h pose ids).outcome =
      (t.walk trig host h pose w).outcome.mapError (WalkError.numbered table) := by
  have hwalk : t.walkIds trig table host h pose ids =
      { t.walk trig host h pose w with
        outcome := (t.walk trig host h pose w).outcome.mapError (WalkError.numbered table) } :=
    (follow_numbered trig t host hnames (State.start pose h)).run_eq fun _ => rfl
  rw [hwalk]
  exact ⟨rfl, rfl, rfl⟩

/-- A walk that comes to the end of its word halts at none of its symbols. -/
lemma not_haltsWithin_ready (s : State σ) (n : ℕ) : ¬ (Progress.ready s).run.HaltsWithin n := by
  rcases Progress.outcome_run_ready s with hout | ⟨d, hout⟩
  · rintro (⟨e, j, he, -⟩ | ⟨r, hr, hcompleted⟩)
    · cases hout.symm.trans he
    · cases hout.symm.trans hr
      cases hcompleted
  · rintro (⟨e, j, he, hposition, -⟩ | ⟨r, hr, -⟩)
    · cases hout.symm.trans he
      cases hposition
    · cases hout.symm.trans hr

/-- What a tokenised word does when `id` is its first number that is no symbol's. -/
lemma walkIds_of_unnamed (trig : Trig) (t : Turtle) (host : Host σ) (h : σ) (pose : Pose)
    (hnames : Names table w ids) {id : SymbolId} (hunnamed : table.Unnamed id)
    (rest : List SymbolId) :
    (t.walkIds trig table host h pose (ids ++ id :: rest)).calls =
        (t.walk trig host h pose w).calls ∧
    (t.walkIds trig table host h pose (ids ++ id :: rest)).host =
        (t.walk trig host h pose w).host ∧
    ((t.walk trig host h pose w).HaltsWithin w.length →
      (t.walkIds trig table host h pose (ids ++ id :: rest)).outcome =
        (t.walk trig host h pose w).outcome.mapError (WalkError.numbered table)) ∧
    (¬ (t.walk trig host h pose w).HaltsWithin w.length →
      (t.walkIds trig table host h pose (ids ++ id :: rest)).outcome =
        .error (.unknownId w.length id)) := by
  have hrel := follow_numbered trig t host hnames (State.start pose h)
  rw [walkIds, walkIdsBy, walk, State.follow_append]
  generalize State.follow trig t.settings (State.draw trig t.settings host)
    (table.opTable t.alphabet.entries).read (State.start pose h) ids = q at hrel ⊢
  cases hwalk : (State.start pose h).follow trig t.settings (State.draw trig t.settings host)
      t.read w with
  | ready s =>
      rw [hwalk] at hrel
      have hreached : t.Reaches trig host h pose w s := hwalk
      have hgap : (table.opTable t.alphabet.entries).op? id = none :=
        Alphabet.op?_opTable_of_ne hunnamed.idOf?_ne
      have hfail : s.follow trig t.settings (State.draw trig t.settings host)
          (table.opTable t.alphabet.entries).read (id :: rest) =
            .failed s (.unknownId w.length id) :=
        State.follow_cons_of_error (by simp only [OpTable.read, hgap, hreached.passed]) rest
      cases hrel with
      | ready hs =>
          cases hs
          rw [Progress.andThen, hfail]
          refine ⟨rfl, rfl, ?_, fun _ => rfl⟩
          intro hhalts
          exact absurd hhalts (not_haltsWithin_ready s _)
  | stopped s =>
      rw [hwalk] at hrel
      cases hrel with
      | stopped hs =>
          cases hs
          refine ⟨rfl, rfl, fun _ => rfl, ?_⟩
          intro hends
          exact absurd (.inr ⟨_, rfl, rfl⟩) hends
  | failed s e =>
      rw [hwalk] at hrel
      cases hrel with
      | failed hs he =>
          cases hs
          cases he
          refine ⟨rfl, rfl, fun _ => rfl, ?_⟩
          intro hends
          obtain ⟨j, hj, hposition⟩ := position_of_follow hwalk
          have hposition : e.position? = some j := by simpa [State.start] using hposition
          exact absurd (.inl ⟨e, j, rfl, hposition, hj⟩) hends

/-- **A tokenised word is walked as its names are.**  If all its numbers are those of symbols, it
makes the same calls as the word of their names and has the same report or error, but that a symbol
without an operation shows as its number.  In general, let `id` be the first number that the table
does not know or whose name is not one letter, and take the walk of the names in front of it: the
calls are those of this walk, and so is the end, if it fails at one of these names or is stopped;
otherwise the tokenised word fails at `id`.  The order in which the operations are stored by number
makes no difference. -/
theorem walkIds_eq_walk_names (trig : Trig) (t : Turtle) (table : SymbolTable) (host : Host σ)
    (h : σ) (pose : Pose) :
    (∀ w ids, Names table w ids →
      (t.walkIds trig table host h pose ids).calls = (t.walk trig host h pose w).calls ∧
      (t.walkIds trig table host h pose ids).host = (t.walk trig host h pose w).host ∧
      (t.walkIds trig table host h pose ids).outcome =
        (t.walk trig host h pose w).outcome.mapError (WalkError.numbered table)) ∧
    (∀ w ids id rest, Names table w ids → table.Unnamed id →
      (t.walkIds trig table host h pose (ids ++ id :: rest)).calls =
          (t.walk trig host h pose w).calls ∧
      (t.walkIds trig table host h pose (ids ++ id :: rest)).host =
          (t.walk trig host h pose w).host ∧
      ((t.walk trig host h pose w).HaltsWithin w.length →
        (t.walkIds trig table host h pose (ids ++ id :: rest)).outcome =
          (t.walk trig host h pose w).outcome.mapError (WalkError.numbered table)) ∧
      (¬ (t.walk trig host h pose w).HaltsWithin w.length →
        (t.walkIds trig table host h pose (ids ++ id :: rest)).outcome =
          .error (.unknownId w.length id))) ∧
    (∀ order : List (Symbol × Op), order.Perm t.alphabet.entries → ∀ ids,
      t.walkIdsBy trig (table.opTable order) host h pose ids =
        t.walkIds trig table host h pose ids) := by
  refine ⟨?_, ?_, ?_⟩
  · intro w ids hnames
    exact walkIds_of_names trig t host h pose hnames
  · intro w ids id rest hnames hunnamed
    exact walkIds_of_unnamed trig t host h pose hnames hunnamed rest
  · intro order horder ids
    rw [walkIds, walkIdsBy, walkIdsBy, Alphabet.read_opTable_perm horder]

/-- A table of two symbols and a longer name between them. -/
def budTable : SymbolTable := .ofNames ["F".toList, "Bud".toList, "+".toList]

/-- The number of the longer name stops the walk, behind the draws of the names in front of it. -/
theorem walkIds_of_bud :
    Names budTable ['F', '+', 'F'] [0, 2, 0] ∧ budTable.Unnamed 1 ∧
    ((standard {}).walkIds Trig.native budTable (Host.plain .unlimited Sphere.unit.nearest) ()
      Pose.origin [0, 2, 0, 1, 0]).outcome = .error (.unknownId 3 1) := by
  have hnames : Names budTable ['F', '+', 'F'] [0, 2, 0] :=
    .cons rfl (.cons rfl (.cons rfl .nil))
  have hunnamed : budTable.Unnamed 1 := .inr ⟨"Bud".toList, rfl, by decide⟩
  have hends : ¬ ((standard {}).walk Trig.native (Host.plain .unlimited Sphere.unit.nearest) ()
      Pose.origin ['F', '+', 'F']).HaltsWithin 3 := not_haltsWithin_ready _ 3
  obtain ⟨-, -, -, hgap⟩ := (walkIds_eq_walk_names Trig.native (standard {}) budTable
    (Host.plain .unlimited Sphere.unit.nearest) () Pose.origin).2.1 _ _ 1 [0] hnames hunnamed
  exact ⟨hnames, hunnamed, hgap hends⟩

end Turtle

end Arbor
