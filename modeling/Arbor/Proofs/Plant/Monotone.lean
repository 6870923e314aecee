import Arbor.Proofs.Plant.Ceiling

/-!
# Plants that erase nothing

Where no replacement is empty, each round turns every symbol into one symbol or more, so words only
grow from round to round, although single symbols may get rarer or disappear.  The count of a word
follows its length up to the cap, hence counts grow as well, also where they are cut off.  A plant
of this kind that passes its check for some number of rounds under some ceiling therefore passes it
for fewer rounds and under a higher ceiling (`Plant.check_of_le`).
-/

namespace Arbor

lemma cap_le_cap {a b : ℕ} (h : a ≤ b) : cap a ≤ cap b := by
  unfold cap
  omega

namespace Productions

variable {p : Productions} (hkept : ∀ c w, p.get? c = some w → w ≠ [])

include hkept

/-- No round erases anything. -/
lemma erased_eq_zero (w : Word) : p.erased w = 0 := by
  rw [erased, List.countP_eq_zero]
  intro c _
  rw [decide_eq_true_eq]
  intro hget
  exact hkept c [] hget rfl

lemma length_expand_le_of_le (start : Symbol) {m n : ℕ} (hmn : m ≤ n) :
    (p.expand start m).length ≤ (p.expand start n).length := by
  have hrounds := p.length_expand_le_add_sum start hmn
  rwa [Finset.sum_eq_zero fun j _ => erased_eq_zero hkept _, Nat.add_zero] at hrounds

lemma projectedLength_le_of_le (start : Symbol) {m n : ℕ} (hmn : m ≤ n) :
    p.projectedLength start m ≤ p.projectedLength start n := by
  rw [projectedLength_eq_cap, projectedLength_eq_cap]
  exact cap_le_cap (length_expand_le_of_le hkept start hmn)

end Productions

namespace Plant

/-- Such a plant passes with fewer rounds and a higher ceiling, whatever the alphabet. -/
lemma check_of_le {alphabet : Alphabet} {p : Plant}
    (hkept : ∀ c w, p.productions.get? c = some w → w ≠ []) (hok : p.check alphabet = .ok ())
    {rounds maxSymbols : UInt64} (hrounds : rounds ≤ p.rounds)
    (hceiling : p.maxSymbols ≤ maxSymbols) :
    ({ p with rounds, maxSymbols } : Plant).check alphabet = .ok () := by
  obtain ⟨hstep, hturn, hstrength, hstart, hmissing, hlength⟩ := check_eq_ok_iff.1 hok
  refine check_eq_ok_iff.2 ⟨hstep, hturn, hstrength, hstart, hmissing, ?_⟩
  calc p.productions.projectedLength p.start rounds.toNat
      ≤ p.productions.projectedLength p.start p.rounds.toNat :=
        Productions.projectedLength_le_of_le hkept p.start (UInt64.le_iff_toNat_le.1 hrounds)
    _ ≤ p.maxSymbols.toNat := hlength
    _ ≤ maxSymbols.toNat := UInt64.le_iff_toNat_le.1 hceiling

/-- **Productions that erase nothing only make words longer.**  If no replacement is empty, the word
of fewer rounds has no more symbols than the word of more rounds, and is counted no higher, cut off
or not, in whatever orders.  So a plant with these productions that passes its check passes it with
fewer rounds and a higher ceiling as well. -/
theorem expand_mono_of_nonempty (p : Productions) (hkept : ∀ c w, p.get? c = some w → w ≠ []) :
    (∀ (start : Symbol) (m n : ℕ), m ≤ n →
      (p.expand start m).length ≤ (p.expand start n).length ∧
      p.projectedLength start m ≤ p.projectedLength start n ∧
      ∀ j k, p.Projects start m j → p.Projects start n k → j ≤ k) ∧
    ∀ (alphabet : Alphabet) (plant : Plant), plant.productions = p →
      plant.check alphabet = .ok () → ∀ rounds maxSymbols : UInt64, rounds ≤ plant.rounds →
        plant.maxSymbols ≤ maxSymbols →
        ({ plant with rounds, maxSymbols } : Plant).check alphabet = .ok () := by
  constructor
  · intro start m n hmn
    have hcount := Productions.projectedLength_le_of_le hkept start hmn
    refine ⟨Productions.length_expand_le_of_le hkept start hmn, hcount, ?_⟩
    intro j k hj hk
    rw [Productions.projects_iff_eq_projectedLength] at hj hk
    rwa [hj, hk]
  · rintro alphabet plant rfl hok rounds maxSymbols hrounds hceiling
    exact check_of_le hkept hok hrounds hceiling

/-- A plant that has `Z` after every other round only. -/
def shrub : Plant :=
  { ofPreset .climbing with
    productions := .ofList [('X', "FZZ".toList), ('Z', "FX".toList)]
    rounds := 4
    maxSymbols := 13 }

/-- Its words grow although their `Z` vanish, to beyond what can be counted, and it passes for fewer
rounds and under a higher ceiling. -/
theorem expand_mono_shrub :
    (∀ c w, shrub.productions.get? c = some w → w ≠ []) ∧
    ((shrub.productions.expand 'X' 1).count 'Z' = 2 ∧
      (shrub.productions.expand 'X' 2).count 'Z' = 0 ∧
      (shrub.productions.expand 'X' 1).length ≤ (shrub.productions.expand 'X' 2).length) ∧
    (shrub.productions.projectedLength 'X' 400 = countCap ∧
      shrub.productions.projectedLength 'X' 200 ≤ shrub.productions.projectedLength 'X' 400) ∧
    shrub.check Alphabet.standard = .ok () ∧
    ({ shrub with rounds := 2, maxSymbols := 20 } : Plant).check Alphabet.standard = .ok () := by
  have hrules : ∀ rule ∈ shrub.productions.toList, rule.2 ≠ [] := by decide +kernel
  have hkept : ∀ c w, shrub.productions.get? c = some w → w ≠ [] :=
    fun c w hget => hrules (c, w) (SymbolMap.mem_entries_of_get? hget)
  have hcut : shrub.productions.projectedLength 'X' 400 = countCap := by decide +kernel
  have hok : shrub.check Alphabet.standard = .ok () := by decide +kernel
  obtain ⟨hgrow, hpass⟩ := expand_mono_of_nonempty shrub.productions hkept
  have hfirst := hgrow 'X' 1 2 (by decide)
  have hlate := hgrow 'X' 200 400 (by decide)
  exact ⟨hkept, ⟨by decide, by decide, hfirst.1⟩, ⟨hcut, hlate.2.1⟩, hok,
    hpass Alphabet.standard shrub rfl hok 2 20 (by decide) (by decide)⟩

end Plant

end Arbor
