import Arbor.Proofs.Plant.Validity

/-!
# Plants with balanced productions

Brackets come into a word through its productions only, when neither the start symbol nor the key of
a production is one.  If every replacement is balanced, then so is every derived word: a round puts
balanced words where symbols without brackets stood, so it changes no depth outside of them, and
inside of them the depth grows by no more than the deepest replacement (`peak_substitute_le`).  Such
a plant grows unless it nests deeper than its limit (`Plant.outcome_growWith_of_balanced`).

The rounds are an induction, and a single round is one over the symbols of the word.  What has to be
said there of a word is weaker than being balanced, because the tail of a balanced word is not: all
its fronts stay at or above some depth (`le_depth_substitute`).
-/

namespace Arbor

/-! ## Fronts -/

/-- A front of two lists in a row lies in the first, or is all of it and a front of the second. -/
lemma prefix_or_of_prefix_append {front v w : List Op} (h : front <+: v ++ w) :
    front <+: v ∨ ∃ q, q <+: w ∧ front = v ++ q := by
  rcases List.prefix_or_prefix_of_prefix h (List.prefix_append v w) with hfront | ⟨q, rfl⟩
  · exact .inl hfront
  · exact .inr ⟨q, (List.prefix_append_right_inj v).1 h, rfl⟩

/-- An operation that is no bracket is balanced on its own. -/
lemma balanced_singleton {op : Op} (hflat : op.drift = 0) : Balanced [op] := by
  have hdepth : depth [op] = 0 := by simp [hflat]
  refine ⟨fun front hfront => ?_, hdepth⟩
  rcases List.prefix_cons_iff.1 hfront with rfl | ⟨rest, rfl, hrest⟩
  · exact Int.le_refl 0
  · rw [List.prefix_nil.1 hrest]
    exact hdepth.ge

/-! ## Brackets of an alphabet -/

namespace Alphabet

variable (alphabet : Alphabet)

/-- Whether a symbol saves or restores a pose. -/
def IsBracket (c : Symbol) : Prop := alphabet.get? c = some .push ∨ alphabet.get? c = some .pop

instance (c : Symbol) : Decidable (alphabet.IsBracket c) :=
  inferInstanceAs (Decidable (_ ∨ _))

lemma ops_cons (c : Symbol) (w : Word) :
    alphabet.ops (c :: w) = alphabet.ops [c] ++ alphabet.ops w :=
  alphabet.ops_append [c] w

variable {alphabet} in
/-- A symbol that is no bracket is balanced on its own, with or without an operation. -/
lemma balanced_ops_singleton {c : Symbol} (hc : ¬ alphabet.IsBracket c) :
    Balanced (alphabet.ops [c]) := by
  cases hop : alphabet.get? c with
  | none =>
      have hops : alphabet.ops [c] = [] := by simp [ops, hop]
      rw [hops]
      exact balanced_nil
  | some op =>
      rw [ops_cons_of_get? hop]
      apply balanced_singleton
      cases op with
      | push => exact absurd (.inl hop) hc
      | pop => exact absurd (.inr hop) hc
      | draw => rfl
      | turn sign => rfl
      | ignore => rfl

end Alphabet

/-! ## Balanced productions -/

namespace Productions

/-- The greatest depth that a replacement reaches. -/
def nesting (alphabet : Alphabet) (p : Productions) : ℕ :=
  (p.toList.map fun rule => (peak (alphabet.ops rule.2)).toNat).foldr max 0

/-- No production replaces a bracket, and each has a balanced replacement. -/
structure BalancedOver (alphabet : Alphabet) (p : Productions) : Prop where
  keys : ∀ rule ∈ p.toList, ¬ alphabet.IsBracket rule.1
  replacements : ∀ rule ∈ p.toList, Balanced (alphabet.ops rule.2)

variable {alphabet : Alphabet} {p : Productions}

lemma peak_le_nesting {rule : Symbol × Word} (hrule : rule ∈ p.toList) :
    peak (alphabet.ops rule.2) ≤ p.nesting alphabet := by
  have hle : (peak (alphabet.ops rule.2)).toNat ≤ p.nesting alphabet :=
    List.le_max_of_le' 0 (List.mem_map_of_mem hrule) (Nat.le_refl _)
  omega

section Balanced

variable (hp : p.BalancedOver alphabet)

include hp

/-- A symbol with a production is balanced on its own, and what it becomes is balanced; a symbol
without one stays. -/
lemma balanced_image_or (c : Symbol) :
    (Balanced (alphabet.ops [c]) ∧ Balanced (alphabet.ops (p.image c)) ∧
      peak (alphabet.ops (p.image c)) ≤ p.nesting alphabet) ∨ p.image c = [c] := by
  unfold image
  cases hget : p.get? c with
  | none => exact .inr rfl
  | some w =>
      have hrule := SymbolMap.mem_entries_of_get? hget
      exact .inl ⟨Alphabet.balanced_ops_singleton (hp.keys _ hrule), hp.replacements _ hrule,
        peak_le_nesting hrule⟩

/-- What a symbol becomes ends at the depth at which the symbol ends. -/
lemma depth_image (c : Symbol) : depth (alphabet.ops (p.image c)) = depth (alphabet.ops [c]) := by
  rcases balanced_image_or hp c with ⟨hkey, himage, -⟩ | hsame
  · rw [hkey.closed, himage.closed]
  · rw [hsame]

lemma depth_substitute (w : Word) :
    depth (alphabet.ops (p.substitute w)) = depth (alphabet.ops w) := by
  induction w with
  | nil => rfl
  | cons c w ih =>
      rw [substitute_cons, Alphabet.ops_append, Alphabet.ops_cons, depth_append, depth_append, ih,
        depth_image hp]

/-- A round takes no front of a word below the depth that all fronts kept before. -/
lemma le_depth_substitute {w : Word} {k : ℤ}
    (hfront : ∀ front, front <+: alphabet.ops w → k ≤ depth front) :
    ∀ front, front <+: alphabet.ops (p.substitute w) → k ≤ depth front := by
  induction w generalizing k with
  | nil => exact hfront
  | cons c w ih =>
      intro front hpre
      rw [Alphabet.ops_cons] at hfront
      rw [substitute_cons, Alphabet.ops_append] at hpre
      rcases prefix_or_of_prefix_append hpre with hinside | ⟨behind, hbehind, rfl⟩
      · rcases balanced_image_or hp c with ⟨-, himage, -⟩ | hsame
        · have hbelow : k ≤ 0 := hfront [] List.nil_prefix
          exact hbelow.trans (himage.nonneg front hinside)
        · rw [hsame] at hinside
          exact hfront front (hinside.trans (List.prefix_append _ _))
      · have htail : ∀ q, q <+: alphabet.ops w → k - depth (alphabet.ops [c]) ≤ depth q := by
          intro q hq
          have hwhole := hfront _ ((List.prefix_append_right_inj (alphabet.ops [c])).2 hq)
          rw [depth_append] at hwhole
          omega
        have hrest := ih htail behind hbehind
        rw [depth_append, depth_image hp]
        omega

lemma balanced_substitute {w : Word} (hw : Balanced (alphabet.ops w)) :
    Balanced (alphabet.ops (p.substitute w)) where
  nonneg := le_depth_substitute hp hw.nonneg
  closed := (depth_substitute hp w).trans hw.closed

/-- A round nests a word deeper by no more than the deepest replacement. -/
lemma peak_substitute_le (w : Word) :
    peak (alphabet.ops (p.substitute w)) ≤ peak (alphabet.ops w) + p.nesting alphabet := by
  induction w with
  | nil =>
      rw [substitute_nil]
      omega
  | cons c w ih =>
      have hpeak := peak_nonneg (alphabet.ops [c])
      have himage : peak (alphabet.ops (p.image c)) ≤
          peak (alphabet.ops [c]) + p.nesting alphabet := by
        rcases balanced_image_or hp c with ⟨-, -, hle⟩ | hsame
        · omega
        · rw [hsame]
          omega
      rw [substitute_cons, Alphabet.ops_append, Alphabet.ops_cons, peak_append, peak_append,
        depth_image hp]
      omega

variable {start : Symbol} (hstart : ¬ alphabet.IsBracket start)

include hstart

lemma balanced_expand (n : ℕ) : Balanced (alphabet.ops (p.expand start n)) := by
  induction n with
  | zero =>
      rw [expand_zero]
      exact Alphabet.balanced_ops_singleton hstart
  | succ n ih =>
      rw [expand_succ]
      exact balanced_substitute hp ih

/-- Every round adds the depth of one replacement at most. -/
lemma peak_expand_le (n : ℕ) :
    peak (alphabet.ops (p.expand start n)) ≤ (n * p.nesting alphabet : ℕ) := by
  induction n with
  | zero =>
      have hflat := (Alphabet.balanced_ops_singleton hstart).closed
      have hpeak : peak (alphabet.ops [start]) = max 0 (depth (alphabet.ops [start])) := by
        cases hop : alphabet.get? start <;> simp [Alphabet.ops, hop, peak]
      rw [expand_zero, hpeak, hflat]
      simp
  | succ n ih =>
      have hround := peak_substitute_le hp (p.expand start n)
      rw [expand_succ, Nat.succ_mul]
      omega

end Balanced

end Productions

/-! ## Walking balanced words -/

namespace Turtle

variable {σ : Type} {t : Turtle} {w : Word}

/-- In a balanced word nothing can be at fault with a bracket but that it nests too deep, and then
the whole word does. -/
lemma eq_tooDeep_of_faultAt? (hmapped : ∀ c ∈ w, t.alphabet.contains c)
    (hbalanced : Balanced (t.alphabet.ops w)) {i : ℕ} {e : WalkError}
    (hfault : t.faultAt? w i = some e) :
    e = .tooDeep i t.settings.maxDepth.toNat ∧
      (t.settings.maxDepth.toNat : ℤ) < peak (t.alphabet.ops w) := by
  have hi := t.lt_length_of_faultAt? hfault
  have hc : w[i]? = some w[i] := List.getElem?_eq_getElem hi
  obtain ⟨op, hop⟩ := Option.isSome_iff_exists.1 (hmapped w[i] (List.getElem_mem hi))
  have hnext := depthAt_succ hc hop
  rw [t.faultAt?_of_get? hc hop] at hfault
  change op.fault? _ _ (t.depthAt w i) = some e at hfault
  cases op with
  | push =>
      obtain ⟨hfull, he⟩ := Option.ite_none_right_eq_some.1 hfault
      have hpeak := t.depthAt_le_peak w (i + 1)
      refine ⟨(Option.some.inj he).symm, ?_⟩
      rw [hnext, Op.drift] at hpeak
      omega
  | pop =>
      obtain ⟨hempty, -⟩ := Option.ite_none_right_eq_some.1 hfault
      have hfront : t.alphabet.ops (w.take (i + 1)) <+: t.alphabet.ops w :=
        ⟨t.alphabet.ops (w.drop (i + 1)), by rw [← Alphabet.ops_append, List.take_append_drop]⟩
      have hnonneg := hbalanced.nonneg _ hfront
      change 0 ≤ t.depthAt w (i + 1) at hnonneg
      rw [hnext, hempty, Op.drift] at hnonneg
      omega
  | draw => cases hfault
  | turn sign => cases hfault
  | ignore => cases hfault

/-- A balanced word is walked to its end unless it nests too deep. -/
lemma outcome_walkUnpaced_of_balanced (trig : Trig) (host : Host σ) (h : σ) (pose : Pose)
    (hmapped : ∀ c ∈ w, t.alphabet.contains c) (hbalanced : Balanced (t.alphabet.ops w)) :
    (∃ r, (t.walkUnpaced trig host h pose w).outcome = .ok r ∧ r.completed = true ∧
      (r.deepest : ℤ) = peak (t.alphabet.ops w)) ∨
    ((t.settings.maxDepth.toNat : ℤ) < peak (t.alphabet.ops w) ∧
      ∃ i < w.length, (t.walkUnpaced trig host h pose w).outcome =
        .error (.tooDeep i t.settings.maxDepth.toNat)) := by
  have hgo : ∀ h n, (host.unpaced.pace h n).1 = .go := fun _ _ => rfl
  rw [walkUnpaced, Run.outcome_withoutPaces]
  rcases t.first_fault_or_none w with ⟨i, e, hfault, hfirst⟩ | hclear
  · right
    obtain ⟨rfl, hdeep⟩ := eq_tooDeep_of_faultAt? hmapped hbalanced hfault
    exact ⟨hdeep, i, t.lt_length_of_faultAt? hfault, (walk_of_fault trig hgo h pose hfault hfirst).1⟩
  · left
    obtain ⟨r, hout, hcounts, -⟩ := walk_of_closed trig hgo h pose hclear hbalanced.closed.le
    simp only [Report.counts, Prod.mk.injEq] at hcounts
    obtain ⟨-, -, hdeepest, hcompleted⟩ := hcounts
    refine ⟨r, hout, hcompleted, ?_⟩
    rw [hdeepest, Int.toNat_of_nonneg (peak_nonneg _)]

end Turtle

/-! ## Growth -/

namespace Plant

variable {σ : Type}

/-- **Balanced productions break no walk.**  When neither the start symbol nor a key is a bracket and
every replacement is balanced, the words of all rounds are balanced and nest no deeper than the
rounds times the deepest replacement.  A plant of such productions that passes its check either
comes through or nests deeper than its limit, and it comes through whenever its rounds leave room for
the deepest replacement each. -/
theorem outcome_growWith_of_balanced (trig : Trig) (t : Turtle) (p : Plant) (host : Host σ) (h : σ)
    (hok : p.check t.alphabet = .ok ()) (hstart : ¬ t.alphabet.IsBracket p.start)
    (hkeys : ∀ rule ∈ p.productions.toList, ¬ t.alphabet.IsBracket rule.1)
    (hrules : ∀ rule ∈ p.productions.toList, Balanced (t.alphabet.ops rule.2)) :
    (∀ n, Balanced (t.alphabet.ops (p.productions.expand p.start n)) ∧
      peak (t.alphabet.ops (p.productions.expand p.start n)) ≤
        (n * p.productions.nesting t.alphabet : ℕ)) ∧
    ((∃ r, (p.growWith trig t host h).outcome = .ok r ∧ r.completed = true ∧
        r.deepest ≤ p.rounds.toNat * p.productions.nesting t.alphabet) ∨
      (∃ i < p.word.length, (p.growWith trig t host h).outcome =
        .error (.walk (.tooDeep i p.settings.maxDepth.toNat)))) ∧
    (p.rounds.toNat * p.productions.nesting t.alphabet ≤ p.settings.maxDepth.toNat →
      ∃ r, (p.growWith trig t host h).outcome = .ok r ∧ r.completed = true ∧
        r.deepest ≤ p.rounds.toNat * p.productions.nesting t.alphabet) := by
  have hp : p.productions.BalancedOver t.alphabet := ⟨hkeys, hrules⟩
  have hbalanced := Productions.balanced_expand hp hstart
  have hpeak := Productions.peak_expand_le hp hstart
  have hwalk := Turtle.outcome_walkUnpaced_of_balanced (t := { t with settings := p.settings })
    trig host h p.pose (contains_of_check hok) (hbalanced p.rounds.toNat)
  have hbound : peak (t.alphabet.ops p.word) ≤ (p.rounds.toNat * _ : ℕ) := hpeak p.rounds.toNat
  rw [outcome_growWith_eq hok]
  refine ⟨fun n => ⟨hbalanced n, hpeak n⟩, ?_, ?_⟩
  · rcases hwalk with ⟨r, hout, hcompleted, hdeepest⟩ | ⟨-, i, hi, hout⟩
    · left
      change (r.deepest : ℤ) = peak (t.alphabet.ops p.word) at hdeepest
      rw [hout]
      exact ⟨r, rfl, hcompleted, by omega⟩
    · right
      rw [hout]
      exact ⟨i, hi, rfl⟩
  · intro hroom
    rcases hwalk with ⟨r, hout, hcompleted, hdeepest⟩ | ⟨hdeep, -⟩
    · change (r.deepest : ℤ) = peak (t.alphabet.ops p.word) at hdeepest
      rw [hout]
      exact ⟨r, rfl, hcompleted, by omega⟩
    · change (p.settings.maxDepth.toNat : ℤ) < peak (t.alphabet.ops p.word) at hdeep
      omega

/-- The bushy shape nests two deeper in each of its four rounds. -/
theorem outcome_growWith_bushy :
    (ofPreset .bushy).rounds.toNat = 4 ∧
    (ofPreset .bushy).productions.nesting Alphabet.standard = 2 ∧
    ∃ r, ((ofPreset .bushy).growWith Trig.native (Turtle.standard {})
        (Host.plain .unlimited Sphere.unit.nearest) ()).outcome = .ok r ∧
      r.completed = true ∧ r.deepest ≤ 4 * 2 := by
  have hok : (ofPreset .bushy).check Alphabet.standard = .ok () := by
    decide +kernel
  have hstart : ¬ Alphabet.standard.IsBracket (ofPreset .bushy).start := by
    decide +kernel
  have hkeys : ∀ rule ∈ (ofPreset .bushy).productions.toList,
      ¬ Alphabet.standard.IsBracket rule.1 := by
    decide +kernel
  have hrules : ∀ rule ∈ (ofPreset .bushy).productions.toList,
      Balanced (Alphabet.standard.ops rule.2) := by
    decide +kernel
  have hrounds : (ofPreset .bushy).rounds.toNat = 4 := by
    decide +kernel
  have hnesting : (ofPreset .bushy).productions.nesting Alphabet.standard = 2 := by
    decide +kernel
  obtain ⟨-, -, hroom⟩ := outcome_growWith_of_balanced Trig.native (Turtle.standard {})
    (ofPreset .bushy) (Host.plain .unlimited Sphere.unit.nearest) () hok hstart hkeys hrules
  simp only [Turtle.standard, hrounds, hnesting] at hroom
  exact ⟨hrounds, hnesting, hroom (by decide)⟩

end Plant

end Arbor
