import Arbor.Proofs.Plant.Validity

/-!
# The ceiling and the words on the way

The check of a plant holds the length of the word that its last round derives against the ceiling,
and growing the plant builds the words of all the rounds before.  A round shortens a word only by
the symbols that it erases, those with an empty replacement, so a word on the way rises above the
ceiling by no more than what the rounds behind it erase (`length_expand_le_of_check`).  Plants that
erase nothing never do.  Others can: a plant that sheds all it has grown in its last round passes
under any ceiling (`not_length_expand_le_maxSymbols`).
-/

namespace Arbor

namespace Productions

variable (p : Productions)

/-- How many symbols of a word a round erases. -/
def erased (w : Word) : ℕ := w.countP fun c => p.get? c = some []

variable {p}

lemma one_le_length_image {c : Symbol} (hkept : p.get? c ≠ some []) : 1 ≤ (p.image c).length := by
  unfold image
  cases hget : p.get? c with
  | none => exact Nat.le_refl 1
  | some w =>
      rw [hget, Ne, Option.some.injEq] at hkept
      exact List.length_pos_iff.2 hkept

variable (p)

/-- A round shortens a word by what it erases, or less. -/
lemma length_le_length_substitute_add (w : Word) :
    w.length ≤ (p.substitute w).length + p.erased w := by
  induction w with
  | nil => exact Nat.zero_le _
  | cons c w ih =>
      have hsplit : p.erased (c :: w) = p.erased w + if p.get? c = some [] then 1 else 0 := by
        simp [erased, List.countP_cons]
      rw [List.length_cons, substitute_cons, List.length_append, hsplit]
      split
      · omega
      · rename_i hkept
        have := one_le_length_image hkept
        omega

/-- Rounds in a row shorten a word by what they erase together, or less. -/
lemma length_expand_le_add_sum (start : Symbol) {k n : ℕ} (hkn : k ≤ n) :
    (p.expand start k).length ≤
      (p.expand start n).length + ∑ j ∈ Finset.Ico k n, p.erased (p.expand start j) := by
  induction n, hkn using Nat.le_induction with
  | base => simp
  | succ n hkn ih =>
      have hround := p.length_le_length_substitute_add (p.expand start n)
      rw [Finset.sum_Ico_succ_top hkn, expand_succ]
      omega

end Productions

namespace Plant

/-- **A word on the way is no longer than the ceiling and what is erased later.**  If a plant passes
its check, then after any of its rounds the word has at most as many symbols as the ceiling allows
and the later rounds erase.  When they erase none, and at the end in any case, it stays under the
ceiling itself. -/
theorem length_expand_le_of_check {alphabet : Alphabet} {p : Plant}
    (hok : p.check alphabet = .ok ()) {k : ℕ} (hk : k ≤ p.rounds.toNat) :
    (p.productions.expand p.start k).length ≤ p.maxSymbols.toNat +
        ∑ j ∈ Finset.Ico k p.rounds.toNat, p.productions.erased (p.productions.expand p.start j) ∧
    ((∀ j, k ≤ j → j < p.rounds.toNat → ∀ c ∈ p.productions.expand p.start j,
        p.productions.get? c ≠ some []) →
      (p.productions.expand p.start k).length ≤ p.maxSymbols.toNat) ∧
    p.word.length ≤ p.maxSymbols.toNat := by
  have hend := length_word_le_of_check hok
  have hway := p.productions.length_expand_le_add_sum p.start hk
  change _ ≤ p.word.length + _ at hway
  refine ⟨by omega, ?_, hend⟩
  intro hkept
  have hnone : ∀ j ∈ Finset.Ico k p.rounds.toNat,
      p.productions.erased (p.productions.expand p.start j) = 0 := by
    intro j hj
    obtain ⟨hkj, hjn⟩ := Finset.mem_Ico.1 hj
    rw [Productions.erased, List.countP_eq_zero]
    intro c hc
    rw [decide_eq_true_eq]
    exact hkept j hkj hjn c hc
  rw [Finset.sum_eq_zero hnone] at hway
  omega

/-- A plant that grows four symbols and sheds them again. -/
def wilting : Plant :=
  { ofPreset .climbing with
    start := 'X'
    productions := .ofList [('X', "FFFF".toList), ('F', [])]
    rounds := 2
    maxSymbols := 1 }

lemma check_wilting : wilting.check Alphabet.standard = .ok () := by
  decide +kernel

/-- After its first round it has no more symbols than the one that the ceiling allows and those that
the second round sheds. -/
theorem length_expand_le_wilting :
    wilting.check Alphabet.standard = .ok () ∧ 1 ≤ wilting.rounds.toNat ∧
    (wilting.productions.expand wilting.start 1).length ≤ 1 +
      ∑ j ∈ Finset.Ico 1 2, wilting.productions.erased (wilting.productions.expand 'X' j) := by
  have hk : 1 ≤ wilting.rounds.toNat := by decide
  exact ⟨check_wilting, hk, (length_expand_le_of_check check_wilting hk).1⟩

/-- A check that is passed does not keep the words of all rounds under the ceiling. -/
theorem not_length_expand_le_maxSymbols :
    ¬ ∀ (alphabet : Alphabet) (p : Plant), 1 ≤ p.maxSymbols.toNat → p.check alphabet = .ok () →
      ∀ k, 1 ≤ k → k ≤ p.rounds.toNat →
        (p.productions.expand p.start k).length ≤ p.maxSymbols.toNat := by
  intro hall
  have hlong : (wilting.productions.expand wilting.start 1).length = 4 := by decide
  have hbound := hall Alphabet.standard wilting (by decide) check_wilting 1 (Nat.le_refl 1)
    (by decide)
  rw [hlong] at hbound
  exact absurd hbound (by decide)

end Plant

end Arbor
