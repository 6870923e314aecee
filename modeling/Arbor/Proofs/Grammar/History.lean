import Mathlib
import Arbor.Grammar.Census
import Arbor.Grammar.Preset
import Arbor.Proofs.Tables

/-!
# The history of a set of productions

Productions are given one by one, and a symbol can be given a new replacement at any time.  An
`Edit` is one such change.  Of a whole history of them only the last one that settles a symbol can be
seen afterwards (`Productions.lastWrite`), and whoever exchanges a replacement is handed the one that
was to be found just before.

Entries stand in the order of their symbols and never twice, whatever the order of the edits.
Therefore a set of productions is no more than what it answers to look-ups (`eq_iff_get?`), and two
histories that end in the same last writes end in the same set (`last_write_counts`).
-/

namespace Arbor

namespace Productions

/-! ## Edits -/

/-- A change of a set of productions. -/
inductive Edit where
  /-- Give a symbol a replacement, and hand back the one it had. -/
  | exchange (c : Symbol) (w : Word)
  /-- Give a symbol a replacement. -/
  | insert (c : Symbol) (w : Word)
  /-- Start over with the productions of a list. -/
  | restart (pairs : List (Symbol × Word))
  deriving DecidableEq, Repr

/-- What an edit hands back, and the productions after it. -/
def perform (p : Productions) : Edit → Option Word × Productions
  | .exchange c w => p.exchange c w
  | .insert c w => (none, p.insert c w)
  | .restart pairs => (none, ofList pairs)

/-- The productions after a history of edits. -/
def after (p : Productions) (history : List Edit) : Productions :=
  history.foldl (fun p e => (p.perform e).2) p

/-- What the edits of a history hand back, in order. -/
def answers : Productions → List Edit → List (Option Word)
  | _, [] => []
  | p, e :: rest => (p.perform e).1 :: answers (p.perform e).2 rest

/-- What an edit settles about a symbol, which may be that it has no replacement.  Who starts over
settles every symbol, by the last pair for it. -/
def Edit.settles? (c : Symbol) : Edit → Option (Option Word)
  | .exchange d w => if c = d then some (some w) else none
  | .insert d w => if c = d then some (some w) else none
  | .restart pairs => some (pairs.reverse.lookup c)

/-- The replacement of a symbol by the last edit that settles it, or from before all edits. -/
def lastWrite (p : Productions) (history : List Edit) (c : Symbol) : Option Word :=
  (history.filterMap (Edit.settles? c)).getLast?.getD (p.get? c)

/-! ## What an edit does -/

variable {p q : Productions}

lemma perform_exchange (p : Productions) (c : Symbol) (w : Word) :
    p.perform (.exchange c w) = (p.get? c, p.insert c w) := by
  rw [perform, exchange, SymbolMap.exchange_eq]
  rfl

lemma get?_insert (p : Productions) (d : Symbol) (w : Word) (c : Symbol) :
    (p.insert d w).get? c = if c = d then some w else p.get? c :=
  p.rules.get?_insert d w c

lemma get?_ofList (pairs : List (Symbol × Word)) (c : Symbol) :
    (ofList pairs).get? c = pairs.reverse.lookup c := by
  rw [get?, ofList, SymbolMap.ofList, SymbolMap.get?_insertAll_reverse, SymbolMap.get?_empty,
    Option.or_none]

/-- An edit changes what it settles and nothing else. -/
lemma get?_perform (p : Productions) (e : Edit) (c : Symbol) :
    (p.perform e).2.get? c = (e.settles? c).getD (p.get? c) := by
  cases e with
  | exchange d w =>
      rw [perform_exchange, get?_insert, Edit.settles?]
      split <;> rfl
  | insert d w =>
      rw [perform, get?_insert, Edit.settles?]
      split <;> rfl
  | restart pairs =>
      rw [perform, get?_ofList, Edit.settles?, Option.getD_some]

/-! ## What a history does -/

lemma get?_after (p : Productions) (history : List Edit) (c : Symbol) :
    (p.after history).get? c = p.lastWrite history c := by
  induction history generalizing p with
  | nil => rfl
  | cons e rest ih =>
      have hrest : (p.after (e :: rest)).get? c = (p.perform e).2.lastWrite rest c := ih _
      rw [hrest, lastWrite, lastWrite, get?_perform]
      cases hsettled : e.settles? c with
      | none => rw [List.filterMap_cons_none hsettled, Option.getD_none]
      | some w =>
          rw [List.filterMap_cons_some hsettled, List.getLast?_cons, Option.getD_some,
            Option.getD_some]

/-- Every edit hands back what it hands back after the edits before it. -/
lemma getElem?_answers (p : Productions) (history : List Edit) (i : ℕ) :
    (p.answers history)[i]? =
      history[i]?.map fun e => ((p.after (history.take i)).perform e).1 := by
  induction history generalizing p i with
  | nil => rfl
  | cons e rest ih =>
      cases i with
      | zero => rfl
      | succ i => exact ih _ i

/-! ## What can be seen of a set of productions -/

/-- A set of productions is determined by its look-ups. -/
lemma eq_iff_get? : p = q ↔ ∀ c, p.get? c = q.get? c := by
  refine ⟨fun h c => h ▸ rfl, fun h => ?_⟩
  cases p
  cases q
  exact congrArg _ (SymbolMap.ext_get? h)

/-- Sets of productions compare as what they answer to look-ups. -/
lemma beq_iff_get? : (p == q) = true ↔ ∀ c, p.get? c = q.get? c := by
  have hentries : (p == q) = (p.rules.entries == q.rules.entries) := rfl
  rw [hentries, beq_iff_eq, ← eq_iff_get?]
  refine ⟨fun h => ?_, fun h => h ▸ rfl⟩
  cases p
  cases q
  exact congrArg _ (SymbolMap.ext_entries h)

/-- **The last write counts.**  After any history of edits a symbol has the replacement that the last
edit about it gave it, or the one from before when no edit was about it; an exchange hands back what
a look-up would have found just before it.  The productions are listed in ascending order of their
symbols, each with what a look-up finds, and there are as many as symbols with a replacement.  Sets
are equal, and compare equal, when their look-ups agree, so histories with the same last writes come
to the same set, which derives the same words and counts them alike. -/
theorem last_write_counts (p : Productions) (history : List Edit) :
    (∀ c, (p.after history).get? c = p.lastWrite history c) ∧
    (∀ i c w, history[i]? = some (.exchange c w) →
      (p.answers history)[i]? = some ((p.after (history.take i)).get? c)) ∧
    (((p.after history).toList.map Prod.fst).Pairwise (· < ·) ∧
      ∀ c w, (c, w) ∈ (p.after history).toList ↔ p.lastWrite history c = some w) ∧
    (p.after history).size = {c | p.lastWrite history c ≠ none}.ncard ∧
    ((p.after history).isEmpty ↔ ∀ c, p.lastWrite history c = none) ∧
    (∀ q : Productions, (p.after history = q ↔ ∀ c, (p.after history).get? c = q.get? c) ∧
      ((p.after history == q) = true ↔ ∀ c, (p.after history).get? c = q.get? c)) ∧
    ∀ (q : Productions) (other : List Edit),
      (∀ c, q.lastWrite other c = p.lastWrite history c) →
      q.after other = p.after history ∧
      (∀ w, (q.after other).substitute w = (p.after history).substitute w) ∧
      ∀ start n, (q.after other).expand start n = (p.after history).expand start n ∧
        (q.after other).projectedLength start n = (p.after history).projectedLength start n := by
  have hget := p.get?_after history
  refine ⟨hget, ?_, ⟨?_, ?_⟩, ?_, ?_, fun q => ⟨eq_iff_get?, beq_iff_get?⟩, ?_⟩
  · intro i c w hi
    rw [getElem?_answers, hi, Option.map_some, perform_exchange]
  · exact List.pairwise_map.2 (p.after history).rules.ascending
  · intro c w
    rw [← hget]
    exact SymbolMap.get?_eq_some_iff.symm
  · simp only [← hget]
    exact SymbolMap.size_eq_ncard _
  · simp only [← hget]
    exact SymbolMap.isEmpty_iff_get?
  · intro q other hsame
    have heq : q.after other = p.after history :=
      eq_iff_get?.2 fun c => by rw [hget, get?_after, hsame]
    rw [heq]
    exact ⟨rfl, fun _ => rfl, fun _ _ => ⟨rfl, rfl⟩⟩

/-- A fresh start with two productions for `X`, and more edits, one of them an exchange. -/
def revision : List Edit :=
  [.restart [('X', "F".toList), ('F', "FF".toList), ('X', "FX".toList)], .insert 'F' "F".toList,
    .insert 'A' [], .exchange 'F' "FF".toList]

/-- The last writes of `revision`, in another order. -/
def redraft : List Edit := [.insert 'X' "FX".toList, .insert 'A' [], .insert 'F' "FF".toList]

/-- The exchange hands back what was written before it, and nothing else can be told apart. -/
theorem last_write_counts_revision :
    revision[3]? = some (.exchange 'F' "FF".toList) ∧
    (Preset.dense.productions.answers revision)[3]? = some (some "F".toList) ∧
    (∀ c, empty.lastWrite redraft c = Preset.dense.productions.lastWrite revision c) ∧
    (Preset.dense.productions.after revision).expand 'X' 2 = "FFFX".toList := by
  have hfourth : revision[3]? = some (.exchange 'F' "FF".toList) := by decide
  have hbefore : (Preset.dense.productions.after (revision.take 3)).get? 'F' = some "F".toList := by
    decide +kernel
  have hsame (c : Symbol) :
      empty.lastWrite redraft c = Preset.dense.productions.lastWrite revision c := by
    have hsets : empty.after redraft = Preset.dense.productions.after revision := by decide +kernel
    rw [← get?_after, ← get?_after, hsets]
  have hword : (empty.after redraft).expand 'X' 2 = "FFFX".toList := by decide +kernel
  obtain ⟨-, hanswers, -, -, -, -, hother⟩ :=
    last_write_counts Preset.dense.productions revision
  refine ⟨hfourth, (hanswers 3 'F' _ hfourth).trans (congrArg some hbefore), hsame, ?_⟩
  rw [← ((hother empty redraft hsame).2.2 'X' 2).1, hword]

end Productions

end Arbor
