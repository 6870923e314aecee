import Mathlib
import Arbor.Grammar.Productions

/-!
# Terminal symbols

A symbol without a production is terminal: a round leaves it in its place.  What a round does to the
other symbols can put more terminal symbols between those that are there, but takes none away and
changes no order.  So the terminal symbols of a word (`Productions.terminals`) stand in the same
order among the terminal symbols of the word of the next round, and of every later one
(`terminals_expand_sublist`).

The induction over a word needs a single fact about a round, that a symbol's own terminal symbols are
among those of its image (`terminals_singleton_sublist`).  Over the rounds it is transitivity.
-/

namespace Arbor

namespace Productions

variable (p : Productions)

/-- The symbols of a word that have no production, in order. -/
def terminals (w : Word) : Word := w.filter fun c => (p.get? c).isNone

@[simp] lemma terminals_append (v w : Word) :
    p.terminals (v ++ w) = p.terminals v ++ p.terminals w :=
  List.filter_append v w

/-- A terminal symbol is one of the terminal symbols of a word as often as it occurs there. -/
lemma count_terminals {c : Symbol} (hc : p.get? c = none) (w : Word) :
    (p.terminals w).count c = w.count c := by
  rw [terminals, List.count_filter]
  exact Option.isNone_iff_eq_none.2 hc

/-! ## One round -/

lemma terminals_singleton_sublist (c : Symbol) :
    (p.terminals [c]).Sublist (p.terminals (p.image c)) := by
  cases hget : p.get? c with
  | none =>
      have himage : p.image c = [c] := by rw [image, hget, Option.getD_none]
      rw [himage]
  | some w =>
      have hnone : p.terminals [c] = [] := by simp [terminals, hget]
      rw [hnone]
      exact List.nil_sublist _

/-- A round keeps the terminal symbols of a word, in order. -/
lemma terminals_sublist_substitute (w : Word) :
    (p.terminals w).Sublist (p.terminals (p.substitute w)) := by
  induction w with
  | nil => exact List.nil_sublist _
  | cons c w ih =>
      rw [substitute_cons, terminals_append, ← List.singleton_append, terminals_append]
      exact (p.terminals_singleton_sublist c).append ih

/-! ## Rounds -/

lemma terminals_expand_sublist (start : Symbol) {m n : ℕ} (hmn : m ≤ n) :
    (p.terminals (p.expand start m)).Sublist (p.terminals (p.expand start n)) := by
  induction n, hmn using Nat.le_induction with
  | base => exact List.Sublist.refl _
  | succ n _ ih =>
      rw [expand_succ]
      exact ih.trans (p.terminals_sublist_substitute _)

/-- **Terminal symbols are neither lost nor reordered.**  The symbols without a production stand in
the same order among those of the word that a round makes of theirs.  So those of an earlier round
are found again among those of every later one, and none of them ever gets rarer. -/
theorem terminals_kept (p : Productions) :
    (∀ w, (p.terminals w).Sublist (p.terminals (p.substitute w))) ∧
    (∀ start m n, m ≤ n →
      (p.terminals (p.expand start m)).Sublist (p.terminals (p.expand start n))) ∧
    ∀ c, p.get? c = none →
      (∀ w, w.count c ≤ (p.substitute w).count c) ∧
      ∀ start n, (p.expand start n).count c ≤ (p.expand start (n + 1)).count c := by
  refine ⟨p.terminals_sublist_substitute, fun start m n => p.terminals_expand_sublist start, ?_⟩
  intro c hc
  have hround (w : Word) : w.count c ≤ (p.substitute w).count c := by
    rw [← p.count_terminals hc w, ← p.count_terminals hc (p.substitute w)]
    exact (p.terminals_sublist_substitute w).count_le c
  refine ⟨hround, fun start n => ?_⟩
  rw [expand_succ]
  exact hround _

/-- A bud puts another one into brackets, and whatever is drawn vanishes a round later. -/
def fading : Productions := .ofList [('X', "[+Y]F".toList), ('Y', "-X-".toList), ('F', [])]

/-- Brackets and turns stay in order around others that come between them, while the symbols with
productions come and go. -/
theorem terminals_kept_fading :
    fading.terminals (fading.expand 'X' 1) = "[+]".toList ∧
    fading.terminals (fading.expand 'X' 3) = "[+-[+]-]".toList ∧
    ("[+]".toList).Sublist "[+-[+]-]".toList ∧
    fading.get? '-' = none ∧ (fading.expand 'X' 1).count '-' ≤ (fading.expand 'X' 2).count '-' ∧
    (fading.expand 'X' 1).count 'F' = 1 ∧ (fading.expand 'X' 2).count 'F' = 0 := by
  have hfirst : fading.terminals (fading.expand 'X' 1) = "[+]".toList := by decide +kernel
  have hthird : fading.terminals (fading.expand 'X' 3) = "[+-[+]-]".toList := by decide +kernel
  have hminus : fading.get? '-' = none := by decide +kernel
  obtain ⟨-, hrounds, hcount⟩ := terminals_kept fading
  have hkept := hrounds 'X' 1 3 (by decide)
  rw [hfirst, hthird] at hkept
  exact ⟨hfirst, hthird, hkept, hminus, (hcount '-' hminus).2 'X' 1, by decide +kernel,
    by decide +kernel⟩

end Productions

end Arbor
