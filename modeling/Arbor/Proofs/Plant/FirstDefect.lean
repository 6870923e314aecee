import Arbor.Proofs.Plant.Validity
import Arbor.Proofs.Tables

/-!
# The defect that a check reports

The check of a plant goes through six questions and stops at the first one that the plant fails.
`Plant.Defect` lists what can be wrong, with the rank of the question that finds it, and says it in
terms of the derived word and of look-ups in the productions: nothing in it speaks of the order in
which the productions are stored, of the count that stands for the word, or of the other questions.
A plant passes exactly when it has no defect, and otherwise the check reports the one of least rank
(`Plant.check_reports_first_defect`).

Two of the questions are searches.  The productions are gone through by ascending key, so the one that
is reported has the least key of those with a symbol without operation; and each production is read
from its key to the end of its replacement.
-/

namespace Arbor

namespace Plant

/-! ## What can be wrong -/

/-- All symbols of a production have an operation. -/
def Mapped (alphabet : Alphabet) (key : Symbol) (w : Word) : Prop :=
  alphabet.contains key ∧ ∀ c ∈ w, alphabet.contains c

/-- The symbol for which a production is reported: the key if it has no operation, or else the
leftmost symbol of the replacement that has none. -/
inductive Missing (alphabet : Alphabet) (key : Symbol) (w : Word) : Symbol → Prop
  | key (hkey : ¬ alphabet.contains key) : Missing alphabet key w key
  | replacement {front back : Word} {c : Symbol} (hkey : alphabet.contains key)
      (hw : w = front ++ c :: back) (hfront : ∀ d ∈ front, alphabet.contains d)
      (hc : ¬ alphabet.contains c) : Missing alphabet key w c

/-- The defects of a plant under an alphabet, each with the rank of the question that finds it. -/
inductive Defect (alphabet : Alphabet) (p : Plant) : ℕ → ConfigError → Prop
  | stepLength (h : ¬ (p.settings.stepLength.isFinite ∧ 0 < p.settings.stepLength)) :
      Defect alphabet p 0 (.stepLength p.settings.stepLength)
  | turnAngle (h : ¬ (p.settings.turnAngle.isFinite ∧ 0 < p.settings.turnAngle)) :
      Defect alphabet p 1 (.turnAngle p.settings.turnAngle)
  | strength (h : ¬ p.settings.strength.isFinite) :
      Defect alphabet p 2 (.strength p.settings.strength)
  | start (h : ¬ alphabet.contains p.start) : Defect alphabet p 3 (.unmapped p.start .start)
  /-- The least key whose production has a symbol without operation. -/
  | rule {key : Symbol} {w : Word} {c : Symbol} (hrule : p.productions.get? key = some w)
      (hmissing : Missing alphabet key w c)
      (hleast : ∀ key' w', p.productions.get? key' = some w' → key' < key →
        Mapped alphabet key' w') : Defect alphabet p 4 (.unmapped c (.rule key))
  /-- The derived word is too long; its length is given as far as a count can go. -/
  | tooLong (h : p.maxSymbols.toNat < p.word.length) :
      Defect alphabet p 5 (.tooLong (min p.word.length (2 ^ 128 - 1)) p.maxSymbols.toNat)

/-! ## The two searches -/

variable {alphabet : Alphabet} {p : Plant} {e : ConfigError}

lemma missing?_eq_some_iff {key : Symbol} {w : Word} {c : Symbol} :
    missing? alphabet (key, w) = some c ↔ Missing alphabet key w c := by
  rw [missing?, List.find?_cons]
  cases hkey : alphabet.contains key with
  | false =>
      simp only [Bool.not_false, Option.some.injEq]
      constructor
      · rintro rfl
        exact .key (by simp [hkey])
      · intro hmissing
        cases hmissing with
        | key => rfl
        | replacement hmapped => simp [hkey] at hmapped
  | true =>
      simp only [Bool.not_true, List.find?_eq_some_iff_append]
      constructor
      · rintro ⟨hc, front, back, rfl, hfront⟩
        exact .replacement hkey rfl (by simpa using hfront) (by simpa using hc)
      · intro hmissing
        cases hmissing with
        | key hunmapped => exact absurd hkey hunmapped
        | replacement _ hw hfront hc =>
            exact ⟨by simpa using hc, _, _, hw, by simpa using hfront⟩

lemma missing?_eq_none_iff {key : Symbol} {w : Word} :
    missing? alphabet (key, w) = none ↔ Mapped alphabet key w := by
  rw [missing?, List.find?_eq_none]
  simp [Mapped]

/-- The production that is reported has the least key. -/
lemma missingRule?_eq_some_iff :
    missingRule? alphabet p.productions = some e ↔ p.Defect alphabet 4 e := by
  have hascending := p.productions.rules.ascending
  rw [missingRule?, List.findSome?_eq_some_iff]
  constructor
  · rintro ⟨front, ⟨key, w⟩, back, hentries, hfound, hfront⟩
    obtain ⟨c, hc, rfl⟩ := Option.map_eq_some_iff.1 hfound
    change p.productions.rules.entries = _ at hentries
    rw [hentries, List.pairwise_append, List.pairwise_cons] at hascending
    obtain ⟨-, ⟨hback, -⟩, -⟩ := hascending
    have hrule : (key, w) ∈ p.productions.rules.entries := by
      rw [hentries]
      exact List.mem_append_right _ List.mem_cons_self
    refine .rule (SymbolMap.get?_eq_some_iff.2 hrule) (missing?_eq_some_iff.1 hc) ?_
    intro key' w' hget hlt
    have hmem := SymbolMap.mem_entries_of_get? hget
    rw [hentries, List.mem_append, List.mem_cons] at hmem
    -- A smaller key stands in front.
    rcases hmem with hmem | heq | hmem
    · exact missing?_eq_none_iff.1 (Option.map_eq_none_iff.1 (hfront _ hmem))
    · cases heq
      exact absurd hlt (Char.lt_irrefl _)
    · exact absurd (Char.lt_trans hlt (hback _ hmem)) (Char.lt_irrefl _)
  · intro hdefect
    cases hdefect with
    | @rule key w c hrule hmissing hleast =>
        obtain ⟨front, back, hentries⟩ :=
          List.append_of_mem (SymbolMap.mem_entries_of_get? hrule)
        rw [hentries, List.pairwise_append] at hascending
        obtain ⟨-, -, hbelow⟩ := hascending
        refine ⟨front, (key, w), back, hentries, ?_, ?_⟩
        · rw [missing?_eq_some_iff.2 hmissing, Option.map_some]
        · intro rule hrule'
          have hmem : rule ∈ p.productions.rules.entries := by
            rw [hentries]
            exact List.mem_append_left _ hrule'
          have hmapped := hleast rule.1 rule.2 (SymbolMap.get?_eq_some_iff.2 hmem)
            (hbelow rule hrule' (key, w) List.mem_cons_self)
          rw [missing?_eq_none_iff.2 hmapped, Option.map_none]

/-! ## Answers and defects -/

/-- A search through the first numbers finds something at the least of them that has it. -/
lemma findSome?_range_eq_some_iff {α : Type} {f : ℕ → Option α} {n : ℕ} {a : α} :
    (List.range n).findSome? f = some a ↔ ∃ i < n, f i = some a ∧ ∀ j < i, f j = none := by
  induction n with
  | zero => simp
  | succ n ih =>
      have hnone : (List.range n).findSome? f = none ↔ ∀ j < n, f j = none := by
        simp [List.findSome?_eq_none_iff]
      rw [List.range_succ, List.findSome?_append, Option.or_eq_some_iff, ih, hnone]
      constructor
      · rintro (⟨i, hi, hfirst⟩ | ⟨hbefore, hlast⟩)
        · exact ⟨i, by omega, hfirst⟩
        · exact ⟨n, by omega, by simpa using hlast, hbefore⟩
      · rintro ⟨i, hi, hfound, hbefore⟩
        rcases Nat.lt_succ_iff_lt_or_eq.1 hi with hlt | rfl
        · exact .inl ⟨i, hlt, hfound, hbefore⟩
        · exact .inr ⟨hbefore, by simpa using hfound⟩

lemma usable_iff {x : Float32} : usable x ↔ x.isFinite ∧ 0 < x := by
  rw [usable, Bool.and_eq_true, decide_eq_true_iff]

/-- The count of a derived word is its length as far as a count can go. -/
lemma projectedLength_eq (p : Plant) :
    p.productions.projectedLength p.start p.rounds.toNat = min p.word.length (2 ^ 128 - 1) :=
  Productions.projectedLength_eq_cap p.productions p.start p.rounds.toNat

/-- No ceiling is so high that a count cannot go beyond it. -/
lemma maxSymbols_lt_projectedLength_iff (p : Plant) :
    p.maxSymbols.toNat < p.productions.projectedLength p.start p.rounds.toNat ↔
      p.maxSymbols.toNat < p.word.length := by
  have hcap := p.maxSymbols_lt_countCap
  change _ < 2 ^ 128 - 1 at hcap
  rw [projectedLength_eq]
  omega

/-- Each question finds the defects of its rank. -/
lemma defect?_eq_some_iff {rank : ℕ} :
    p.defect? alphabet rank = some e ↔ p.Defect alphabet rank e := by
  rcases rank with _ | _ | _ | _ | _ | _ | rank
  · rw [defect?, Option.ite_none_left_eq_some, usable_iff]
    constructor
    · rintro ⟨hunusable, ⟨⟩⟩
      exact .stepLength hunusable
    · intro hdefect
      cases hdefect with
      | stepLength hunusable => exact ⟨hunusable, rfl⟩
  · rw [defect?, Option.ite_none_left_eq_some, usable_iff]
    constructor
    · rintro ⟨hunusable, ⟨⟩⟩
      exact .turnAngle hunusable
    · intro hdefect
      cases hdefect with
      | turnAngle hunusable => exact ⟨hunusable, rfl⟩
  · rw [defect?, Option.ite_none_left_eq_some]
    constructor
    · rintro ⟨hinfinite, ⟨⟩⟩
      exact .strength hinfinite
    · intro hdefect
      cases hdefect with
      | strength hinfinite => exact ⟨hinfinite, rfl⟩
  · rw [defect?, Option.ite_none_left_eq_some]
    constructor
    · rintro ⟨hunmapped, ⟨⟩⟩
      exact .start hunmapped
    · intro hdefect
      cases hdefect with
      | start hunmapped => exact ⟨hunmapped, rfl⟩
  · exact missingRule?_eq_some_iff
  · rw [defect?, Option.ite_none_right_eq_some, maxSymbols_lt_projectedLength_iff,
      projectedLength_eq]
    constructor
    · rintro ⟨hlong, ⟨⟩⟩
      exact .tooLong hlong
    · intro hdefect
      cases hdefect with
      | tooLong hlong => exact ⟨hlong, rfl⟩
  · constructor <;> rintro ⟨⟩

lemma Defect.rank_lt {rank : ℕ} (h : p.Defect alphabet rank e) : rank < 6 := by
  cases h <;> decide

/-- The check ends with what the first question finds that finds anything. -/
lemma check_eq_error_iff_defect? :
    p.check alphabet = .error e ↔
      ∃ rank < 6, p.defect? alphabet rank = some e ∧ ∀ r < rank, p.defect? alphabet r = none := by
  rw [← findSome?_range_eq_some_iff, check_eq]
  cases (List.range 6).findSome? (p.defect? alphabet) <;> simp

/-- The check ends with the defect of least rank. -/
lemma check_eq_error_iff :
    p.check alphabet = .error e ↔
      ∃ rank, p.Defect alphabet rank e ∧ ∀ r < rank, ∀ e', ¬ p.Defect alphabet r e' := by
  have hnone (r : ℕ) : p.defect? alphabet r = none ↔ ∀ e', ¬ p.Defect alphabet r e' := by
    simp only [Option.eq_none_iff_forall_ne_some, Ne, defect?_eq_some_iff]
  rw [check_eq_error_iff_defect?]
  simp only [defect?_eq_some_iff, hnone]
  constructor
  · rintro ⟨rank, -, hfirst⟩
    exact ⟨rank, hfirst⟩
  · rintro ⟨rank, hdefect, hfirst⟩
    exact ⟨rank, hdefect.rank_lt, hdefect, hfirst⟩

lemma missingRule?_eq_none_iff_mapped :
    missingRule? alphabet p.productions = none ↔
      ∀ key w, p.productions.get? key = some w → Mapped alphabet key w := by
  rw [missingRule?_eq_none_iff]
  constructor
  · intro hall key w hget
    obtain ⟨hkey, hw⟩ := List.forall_mem_cons.1 (hall _ (SymbolMap.mem_entries_of_get? hget))
    exact ⟨hkey, hw⟩
  · rintro hall ⟨key, w⟩ hrule
    obtain ⟨hkey, hw⟩ := hall key w (SymbolMap.get?_eq_some_iff.2 hrule)
    exact List.forall_mem_cons.2 ⟨hkey, hw⟩

/-- **The check reports the first defect.**  A plant passes exactly when its step and its turning
angle are finite and positive, its strength is finite, its start symbol and all symbols of its
productions have operations, and the derived word is no longer than allowed.  Otherwise the check ends
with the defect of least rank, in the order of these conditions: of the productions with a symbol
without operation it reports the one with the least key, and in it the key or else the leftmost such
symbol, and of a word that is too long the length as far as a count can go.  The order in which the
productions were given makes no difference. -/
theorem check_reports_first_defect (alphabet : Alphabet) (p : Plant) :
    (p.check alphabet = .ok () ↔
      (p.settings.stepLength.isFinite ∧ 0 < p.settings.stepLength) ∧
      (p.settings.turnAngle.isFinite ∧ 0 < p.settings.turnAngle) ∧
      p.settings.strength.isFinite ∧ alphabet.contains p.start ∧
      (∀ key w, p.productions.get? key = some w → Mapped alphabet key w) ∧
      p.word.length ≤ p.maxSymbols.toNat) ∧
    (∀ e, p.check alphabet = .error e ↔
      ∃ rank, p.Defect alphabet rank e ∧ ∀ r < rank, ∀ e', ¬ p.Defect alphabet r e') ∧
    ∀ pairs pairs' : List (Symbol × Word), pairs.Perm pairs' → (pairs.map Prod.fst).Nodup →
      ({ p with productions := .ofList pairs' } : Plant).check alphabet =
        ({ p with productions := .ofList pairs } : Plant).check alphabet := by
  refine ⟨?_, fun e => check_eq_error_iff, ?_⟩
  · rw [check_eq_ok_iff, usable_iff, usable_iff, missingRule?_eq_none_iff_mapped, ← Nat.not_lt,
      maxSymbols_lt_projectedLength_iff, Nat.not_lt]
  · intro pairs pairs' hperm hkeys
    rw [Productions.ofList, Productions.ofList, SymbolMap.ofList_perm hperm hkeys]

/-- A plant that grows from `F` and may have one symbol. -/
def ailing (pairs : List (Symbol × Word)) : Plant :=
  { ofPreset .climbing with start := 'F', productions := .ofList pairs, maxSymbols := 1 }

/-- Both productions have unmapped symbols, and the word is too long.  Given in either order, the one
with the smaller key is reported, for the leftmost of its two unmapped symbols. -/
theorem check_ailing :
    [('b', "F".toList), ('F', "Fyx".toList)].Perm [('F', "Fyx".toList), ('b', "F".toList)] ∧
    ([('b', "F".toList), ('F', "Fyx".toList)].map Prod.fst).Nodup ∧
    (ailing [('b', "F".toList), ('F', "Fyx".toList)]).check Alphabet.standard =
      .error (.unmapped 'y' (.rule 'F')) ∧
    (ailing [('F', "Fyx".toList), ('b', "F".toList)]).check Alphabet.standard =
      .error (.unmapped 'y' (.rule 'F')) := by
  have hperm : [('b', "F".toList), ('F', "Fyx".toList)].Perm
      [('F', "Fyx".toList), ('b', "F".toList)] := .swap ..
  have hkeys : ([('b', "F".toList), ('F', "Fyx".toList)].map Prod.fst).Nodup := by decide
  have hcheck : (ailing [('b', "F".toList), ('F', "Fyx".toList)]).check Alphabet.standard =
      .error (.unmapped 'y' (.rule 'F')) := by decide +kernel
  have horder := (check_reports_first_defect Alphabet.standard (ailing [])).2.2 _ _ hperm hkeys
  exact ⟨hperm, hkeys, hcheck, horder.trans hcheck⟩

end Plant

end Arbor
