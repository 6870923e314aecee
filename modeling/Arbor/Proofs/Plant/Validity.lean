import Arbor.Plant.Grow
import Arbor.Proofs.Grammar.Counting
import Arbor.Proofs.Turtle.Outcome

/-!
# What a checked plant can still run into

The check of a plant looks at its parameters, at the start symbol, at the text of its productions
and at a length that is computed without the word.  The walk sees none of these but the word,
derived in any number of rounds.  This file settles what the one says about the other: every symbol
of the word has an operation, the word is no longer than allowed, and a plant that passed its check
fails for its brackets if at all (`Plant.outcome_growWith_of_check`).

Symbols are followed through the rounds by a property that the start symbol has and that every
production hands on (`Productions.forall_mem_expand`).  The length goes through the count of
`Counting`, whose cap lies above every ceiling that a plant can have.
-/

namespace Arbor

/-! ## Properties that productions hand on -/

namespace Productions

variable {p : Productions} {start : Symbol}

variable {P : Symbol → Prop} (hrules : ∀ rule ∈ p.toList, ∀ c ∈ rule.2, P c)

include hrules

lemma forall_mem_image {c : Symbol} (hc : P c) : ∀ d ∈ p.image c, P d := by
  intro d hd
  unfold image at hd
  cases hget : p.get? c with
  | none =>
      rw [hget, Option.getD_none, List.mem_singleton] at hd
      rwa [hd]
  | some w =>
      rw [hget, Option.getD_some] at hd
      exact hrules (c, w) (SymbolMap.mem_entries_of_get? hget) d hd

lemma forall_mem_substitute {w : Word} (hw : ∀ c ∈ w, P c) : ∀ d ∈ p.substitute w, P d := by
  intro d hd
  obtain ⟨c, hc, hdc⟩ := List.mem_flatMap.1 hd
  exact forall_mem_image hrules (hw c hc) d hdc

/-- What holds of the start symbol and of every symbol of a replacement holds of every symbol that
turns up in any number of rounds. -/
lemma forall_mem_expand (hstart : P start) (n : ℕ) : ∀ c ∈ p.expand start n, P c := by
  induction n with
  | zero =>
      intro c hc
      rw [expand_zero, List.mem_singleton] at hc
      rwa [hc]
  | succ n ih =>
      rw [expand_succ]
      exact forall_mem_substitute hrules ih

end Productions

/-! ## Words over the alphabet -/

namespace Turtle

variable {σ : Type} {t : Turtle} {w : Word}

/-- Where every symbol has an operation, only a bracket can be at fault. -/
lemma eq_of_faultAt?_of_contains (hmapped : ∀ c ∈ w, t.alphabet.contains c) {i : ℕ}
    {e : WalkError} (hfault : t.faultAt? w i = some e) :
    e = .unbalancedPop i ∨ e = .tooDeep i t.settings.maxDepth.toNat := by
  have hi := t.lt_length_of_faultAt? hfault
  have hc : w[i]? = some w[i] := List.getElem?_eq_getElem hi
  obtain ⟨op, hop⟩ := Option.isSome_iff_exists.1 (hmapped w[i] (List.getElem_mem hi))
  rw [t.faultAt?_of_get? hc hop] at hfault
  cases op with
  | push =>
      obtain ⟨-, he⟩ := Option.ite_none_right_eq_some.1 hfault
      exact .inr (Option.some.inj he).symm
  | pop =>
      obtain ⟨-, he⟩ := Option.ite_none_right_eq_some.1 hfault
      exact .inl (Option.some.inj he).symm
  | draw => cases hfault
  | turn sign => cases hfault
  | ignore => cases hfault

/-- An unpaced walk over such a word comes through or fails for the brackets. -/
lemma outcome_walkUnpaced_of_contains (trig : Trig) (host : Host σ) (h : σ) (pose : Pose)
    (hmapped : ∀ c ∈ w, t.alphabet.contains c) :
    (∃ r, (t.walkUnpaced trig host h pose w).outcome = .ok r) ∨
    (∃ i < w.length, (t.walkUnpaced trig host h pose w).outcome = .error (.unbalancedPop i)) ∨
    (∃ d, 0 < d ∧ (t.walkUnpaced trig host h pose w).outcome = .error (.unclosed d)) ∨
    (∃ i < w.length, (t.walkUnpaced trig host h pose w).outcome =
      .error (.tooDeep i t.settings.maxDepth.toNat)) := by
  have hgo : ∀ h n, (host.unpaced.pace h n).1 = .go := fun _ _ => rfl
  rw [walkUnpaced, Run.outcome_withoutPaces]
  rcases t.first_fault_or_none w with ⟨i, e, hfault, hfirst⟩ | hclear
  · have hi := t.lt_length_of_faultAt? hfault
    have hout := (walk_of_fault trig hgo h pose hfault hfirst).1
    rcases eq_of_faultAt?_of_contains hmapped hfault with rfl | rfl
    · exact .inr (.inl ⟨i, hi, hout⟩)
    · exact .inr (.inr (.inr ⟨i, hi, hout⟩))
  · by_cases hopen : 0 < depth (t.alphabet.ops w)
    · have hout := (walk_of_unclosed trig hgo h pose hclear hopen).1
      exact .inr (.inr (.inl ⟨_, by omega, hout⟩))
    · obtain ⟨r, hout, -⟩ := walk_of_closed trig hgo h pose hclear (Int.not_lt.1 hopen)
      exact .inl ⟨r, hout⟩

end Turtle

namespace Plant

/-! ## What the check says -/

lemma missingRule?_eq_none_iff {alphabet : Alphabet} {productions : Productions} :
    missingRule? alphabet productions = none ↔
      ∀ rule ∈ productions.toList, ∀ c ∈ rule.1 :: rule.2, alphabet.contains c := by
  unfold missingRule?
  rw [List.findSome?_eq_none_iff]
  apply forall₂_congr
  intro rule _
  rw [Option.map_eq_none_iff, missing?, List.find?_eq_none]
  simp

/-- The answer to the question of a rank: the defect that it finds. -/
def defect? (alphabet : Alphabet) (p : Plant) : ℕ → Option ConfigError
  | 0 => if usable p.settings.stepLength then none else some (.stepLength p.settings.stepLength)
  | 1 => if usable p.settings.turnAngle then none else some (.turnAngle p.settings.turnAngle)
  | 2 => if p.settings.strength.isFinite then none else some (.strength p.settings.strength)
  | 3 => if alphabet.contains p.start then none else some (.unmapped p.start .start)
  | 4 => missingRule? alphabet p.productions
  | 5 =>
    let projected := p.productions.projectedLength p.start p.rounds.toNat
    if p.maxSymbols.toNat < projected then some (.tooLong projected p.maxSymbols.toNat) else none
  | _ => none

/-- The check stops at the first question that finds a defect. -/
lemma check_eq (alphabet : Alphabet) (p : Plant) :
    p.check alphabet = ((List.range 6).findSome? (p.defect? alphabet)).elim (.ok ()) .error := by
  have hsix : List.range 6 = [0, 1, 2, 3, 4, 5] := rfl
  simp only [hsix, List.findSome?_cons, List.findSome?_nil, defect?]
  unfold check
  simp only [bind, Except.bind, pure, Except.pure, throw, throwThe, MonadExceptOf.throw]
  by_cases hstep : usable p.settings.stepLength
  case neg => simp [hstep]
  by_cases hturn : usable p.settings.turnAngle
  case neg => simp [hstep, hturn]
  by_cases hstrength : p.settings.strength.isFinite
  case neg => simp [hstep, hturn, hstrength]
  by_cases hstart : alphabet.contains p.start
  case neg => simp [hstep, hturn, hstrength, hstart]
  cases missingRule? alphabet p.productions with
  | some defect => simp [hstep, hturn, hstrength, hstart]
  | none =>
      by_cases hlong : p.maxSymbols.toNat < p.productions.projectedLength p.start p.rounds.toNat
      · simp [hstep, hturn, hstrength, hstart, hlong]
      · simp [hstep, hturn, hstrength, hstart, hlong]

/-- A plant passes when no question finds a defect. -/
lemma check_eq_ok_iff_defect? {alphabet : Alphabet} {p : Plant} :
    p.check alphabet = .ok () ↔ ∀ rank < 6, p.defect? alphabet rank = none := by
  have hnone : p.check alphabet = .ok () ↔ (List.range 6).findSome? (p.defect? alphabet) = none := by
    rw [check_eq]
    cases (List.range 6).findSome? (p.defect? alphabet) <;> simp
  rw [hnone, List.findSome?_eq_none_iff]
  simp only [List.mem_range]

/-- A plant passes exactly when all is well that the check looks at. -/
lemma check_eq_ok_iff {alphabet : Alphabet} {p : Plant} :
    p.check alphabet = .ok () ↔
      usable p.settings.stepLength ∧ usable p.settings.turnAngle ∧ p.settings.strength.isFinite ∧
      alphabet.contains p.start ∧ missingRule? alphabet p.productions = none ∧
      p.productions.projectedLength p.start p.rounds.toNat ≤ p.maxSymbols.toNat := by
  have hsix : List.range 6 = [0, 1, 2, 3, 4, 5] := rfl
  simp only [check_eq_ok_iff_defect?, ← List.mem_range, hsix]
  simp [defect?]

variable {p : Plant} {alphabet : Alphabet}

/-- The word of a plant that passes has operations for all its symbols. -/
lemma contains_of_check (hok : p.check alphabet = .ok ()) : ∀ c ∈ p.word, alphabet.contains c := by
  obtain ⟨-, -, -, hstart, hmissing, -⟩ := check_eq_ok_iff.1 hok
  have hrules := missingRule?_eq_none_iff.1 hmissing
  have hreplaced : ∀ rule ∈ p.productions.toList, ∀ c ∈ rule.2, alphabet.contains c :=
    fun rule hrule c hc => hrules rule hrule c (List.mem_cons_of_mem _ hc)
  exact Productions.forall_mem_expand hreplaced hstart p.rounds.toNat

/-- No ceiling of a plant reaches the cap of the count. -/
lemma maxSymbols_lt_countCap (p : Plant) : p.maxSymbols.toNat < countCap := by
  have hsize : UInt64.size ≤ countCap := by decide
  exact Nat.lt_of_lt_of_le p.maxSymbols.toNat_lt hsize

/-- The length projected for a plant that passes is the length of its word. -/
lemma projectedLength_of_check (hok : p.check alphabet = .ok ()) :
    p.productions.projectedLength p.start p.rounds.toNat = p.word.length := by
  obtain ⟨-, -, -, -, -, hprojected⟩ := check_eq_ok_iff.1 hok
  have hcap := p.maxSymbols_lt_countCap
  rw [Productions.projectedLength_eq_cap, cap] at hprojected ⊢
  unfold word
  omega

lemma length_word_le_of_check (hok : p.check alphabet = .ok ()) :
    p.word.length ≤ p.maxSymbols.toNat := by
  obtain ⟨-, -, -, -, -, hprojected⟩ := check_eq_ok_iff.1 hok
  rwa [projectedLength_of_check hok] at hprojected

/-! ## Growth -/

variable {σ : Type}

/-- A plant that passes is walked, by its own settings. -/
lemma outcome_growWith_eq {t : Turtle} (hok : p.check t.alphabet = .ok ()) (trig : Trig)
    (host : Host σ) (h : σ) :
    (p.growWith trig t host h).outcome =
      (Turtle.walkUnpaced trig { t with settings := p.settings } host h p.pose
        p.word).outcome.mapError .walk := by
  rw [growWith, hok]

/-- **A plant that passes fails for its brackets or not at all.**  All symbols of its word have an
operation, the word is no longer than allowed, and whatever the surroundings do, growth ends with a
report, at a bracket that closes nothing, with brackets left open, or at one that nests deeper than
the plant allows. -/
theorem outcome_growWith_of_check (trig : Trig) (t : Turtle) (p : Plant) (host : Host σ) (h : σ)
    (hok : p.check t.alphabet = .ok ()) :
    (∀ c ∈ p.word, t.alphabet.contains c) ∧ p.word.length ≤ p.maxSymbols.toNat ∧
    ((∃ r, (p.growWith trig t host h).outcome = .ok r) ∨
      (∃ i < p.word.length,
        (p.growWith trig t host h).outcome = .error (.walk (.unbalancedPop i))) ∨
      (∃ d, 0 < d ∧ (p.growWith trig t host h).outcome = .error (.walk (.unclosed d))) ∨
      (∃ i < p.word.length, (p.growWith trig t host h).outcome =
        .error (.walk (.tooDeep i p.settings.maxDepth.toNat)))) := by
  have hmapped := contains_of_check hok
  refine ⟨hmapped, length_word_le_of_check hok, ?_⟩
  have hwalk := Turtle.outcome_walkUnpaced_of_contains (t := { t with settings := p.settings })
    trig host h p.pose hmapped
  rw [outcome_growWith_eq hok]
  rcases hwalk with ⟨r, hout⟩ | ⟨i, hi, hout⟩ | ⟨d, hd, hout⟩ | ⟨i, hi, hout⟩
  · left
    rw [hout]
    exact ⟨r, rfl⟩
  · right; left
    rw [hout]
    exact ⟨i, hi, rfl⟩
  · right; right; left
    rw [hout]
    exact ⟨d, hd, rfl⟩
  · right; right; right
    rw [hout]
    exact ⟨i, hi, rfl⟩

/-- The climbing plant passes and grows: none of the three errors stands in its way. -/
theorem outcome_growWith_climbing :
    (ofPreset .climbing).check (Turtle.standard {}).alphabet = .ok () ∧
    (∀ c ∈ (ofPreset .climbing).word, (Turtle.standard {}).alphabet.contains c) ∧
    (ofPreset .climbing).word.length ≤ 4000000 ∧
    ∃ r, ((ofPreset .climbing).growWith Trig.native (Turtle.standard {})
      (Host.plain .unlimited Surface.absent) ()).outcome = .ok r := by
  have hok : (ofPreset .climbing).check (Turtle.standard {}).alphabet = .ok () := by
    decide +kernel
  obtain ⟨hmapped, hlength, hends⟩ := outcome_growWith_of_check Trig.native (Turtle.standard {})
    (ofPreset .climbing) (Host.plain .unlimited Surface.absent) () hok
  have hgrows : ((ofPreset .climbing).growWith Trig.native (Turtle.standard {})
      (Host.plain .unlimited Surface.absent) ()).outcome.isOk = true := by
    decide +kernel
  refine ⟨hok, hmapped, hlength, ?_⟩
  rcases hends with hreport | ⟨_, _, herror⟩ | ⟨_, _, herror⟩ | ⟨_, _, herror⟩
  · exact hreport
  all_goals
    rw [herror] at hgrows
    cases hgrows

end Plant

end Arbor
