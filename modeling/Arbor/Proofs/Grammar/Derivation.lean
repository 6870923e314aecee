import Mathlib
import Arbor.Grammar.Productions

/-!
# Words derived in stages

A round replaces every symbol by its image and looks at no other symbol for it, so rounds can be
run on the symbols of a word one by one: what a word becomes in `n` rounds is what its symbols
become in `n` rounds, side by side (`repeat_substitute`).  Applied to a word that was itself derived,
this says that `m + n` rounds are `m` rounds followed by `n` rounds from each symbol that has turned
up (`expand_add`).

`expand` runs no round where there are no productions.  Neither law has to tell this case apart,
because `expand_succ` holds there as well.
-/

namespace Arbor

namespace Productions

/-- Words that were derived side by side go through a further round side by side. -/
lemma substitute_flatMap_expand (p : Productions) (w : Word) (n : ℕ) :
    p.substitute (w.flatMap fun c => p.expand c n) = w.flatMap fun c => p.expand c (n + 1) := by
  simp only [expand_succ]
  exact List.flatMap_assoc

/-- The rounds of a word are those of its symbols. -/
lemma repeat_substitute (p : Productions) (w : Word) (n : ℕ) :
    Nat.repeat p.substitute n w = w.flatMap fun c => p.expand c n := by
  induction n with
  | zero =>
      simp only [expand_zero, List.flatMap_singleton']
      rfl
  | succ n ih =>
      rw [Nat.repeat, ih, substitute_flatMap_expand]

/-- Rounds can be run in two stages, the second one from each symbol of the first. -/
lemma expand_add (p : Productions) (start : Symbol) (m n : ℕ) :
    p.expand start (m + n) = (p.expand start m).flatMap fun c => p.expand c n := by
  induction n with
  | zero =>
      simp only [expand_zero, List.flatMap_singleton']
      rfl
  | succ n ih =>
      rw [← Nat.add_assoc, expand_succ, ih, substitute_flatMap_expand]

/-- **Derivation is iterated substitution.**  A round takes words in a row to what they become in a
row.  So `m + n` rounds give the words that the symbols of the `m`-th round become in `n` rounds, in
order, and the word that `n` rounds make of any word is put together from its symbols in the same
way.  For a single symbol that is `expand`, which skips the rounds where there are no productions. -/
theorem expand_eq_flatMap_expand (p : Productions) (start : Symbol) (m n : ℕ) :
    p.expand start (m + n) = ((p.expand start m).flatMap fun c => p.expand c n) ∧
    (∀ v w, p.substitute (v ++ w) = p.substitute v ++ p.substitute w) ∧
    (∀ w, Nat.repeat p.substitute n w = w.flatMap fun c => p.expand c n) ∧
    Nat.repeat p.substitute n [start] = p.expand start n := by
  refine ⟨p.expand_add start m n, p.substitute_append, fun w => p.repeat_substitute w n, ?_⟩
  rw [repeat_substitute, List.flatMap_singleton]

end Productions

end Arbor
