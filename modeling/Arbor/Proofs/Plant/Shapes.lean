import Arbor.Proofs.Grammar.Derivation
import Arbor.Proofs.Plant.Balance
import Arbor.Proofs.Plant.Growth
import Arbor.Proofs.Turtle.ForestWalk

/-!
# How deep the built-in shapes nest

The productions of a built-in shape are balanced, so every round nests a word deeper by no more than
the deepest replacement.  That much is also reached, round after round: in each shape the replacement
of the start symbol holds that symbol again at the greatest depth of all replacements, and it goes on
nesting from there (`Productions.le_peak_expand`).  So the depth after `n` rounds is known exactly,
and with it the limit at which a turtle runs out of room (`Preset.outcome_walkUnpaced_expand`).
-/

namespace Arbor

/-! ## Depth that comes back -/

namespace Productions

variable {alphabet : Alphabet} {p : Productions} (hp : p.BalancedOver alphabet)

include hp

lemma depth_repeat_substitute (w : Word) (n : ℕ) :
    depth (alphabet.ops (Nat.repeat p.substitute n w)) = depth (alphabet.ops w) := by
  induction n with
  | zero => rfl
  | succ n ih => rw [Nat.repeat, depth_substitute hp, ih]

/-- A symbol that comes back in its own image nests deeper in every round by the depth at which it
does. -/
lemma le_peak_expand {c : Symbol} {front back : Word} (himage : p.image c = front ++ c :: back)
    (n : ℕ) : n * depth (alphabet.ops front) ≤ peak (alphabet.ops (p.expand c n)) := by
  induction n with
  | zero =>
      rw [Nat.cast_zero, Int.zero_mul]
      exact peak_nonneg _
  | succ n ih =>
      have hone : p.expand c 1 = front ++ c :: back := by
        rw [expand_succ, expand_zero, substitute_cons, substitute_nil, List.append_nil, himage]
      have hfront : depth (alphabet.ops (front.flatMap fun d => p.expand d n)) =
          depth (alphabet.ops front) := by
        rw [← repeat_substitute, depth_repeat_substitute hp]
      have hsplit : p.expand c (n + 1) = (front.flatMap fun d => p.expand d n) ++
          (p.expand c n ++ back.flatMap fun d => p.expand d n) := by
        rw [Nat.add_comm, expand_add, hone, List.flatMap_append, List.flatMap_cons]
      rw [hsplit, Alphabet.ops_append, Alphabet.ops_append, peak_append, peak_append, hfront]
      push_cast
      rw [Int.add_mul, Int.one_mul]
      omega

end Productions

/-! ## Room for a balanced word -/

namespace Turtle

variable {σ : Type} {t : Turtle} {w : Word}

/-- A balanced word is walked to its end exactly when the limit leaves room for its peak. -/
lemma outcome_walkUnpaced_of_peak (trig : Trig) (host : Host σ) (h : σ) (pose : Pose)
    (hmapped : ∀ c ∈ w, t.alphabet.contains c) (hbalanced : Balanced (t.alphabet.ops w)) :
    (peak (t.alphabet.ops w) ≤ t.settings.maxDepth.toNat →
      ∃ r, (t.walkUnpaced trig host h pose w).outcome = .ok r ∧ r.completed = true ∧
        (r.deepest : ℤ) = peak (t.alphabet.ops w)) ∧
    ((t.settings.maxDepth.toNat : ℤ) < peak (t.alphabet.ops w) →
      ∃ i < w.length, (t.walkUnpaced trig host h pose w).outcome =
        .error (.tooDeep i t.settings.maxDepth.toNat)) := by
  rcases outcome_walkUnpaced_of_balanced trig host h pose hmapped hbalanced with
    ⟨r, hok, hcompleted, hdeepest⟩ | ⟨hdeep, hfail⟩
  · refine ⟨fun _ => ⟨r, hok, hcompleted, hdeepest⟩, fun hdeep => ?_⟩
    obtain ⟨hclear, hclosed⟩ := no_fault_of_outcome_ok trig t host h pose hok
    obtain ⟨f, hflatten, hheight⟩ := exists_flatten_of_no_fault t hclear hclosed
    rw [← hflatten, Forest.peak_flatten] at hdeep
    omega
  · exact ⟨fun hroom => absurd hdeep (Int.not_lt.2 hroom), fun _ => hfail⟩

end Turtle

/-! ## The built-in shapes -/

namespace Preset

/-- By how much a shape nests deeper in a round. -/
def depthPerRound : Preset → ℕ
  | climbing => 3
  | bushy => 2
  | dense => 2

variable (shape : Preset)

lemma balancedOver : shape.productions.BalancedOver Alphabet.standard where
  keys := by
    cases shape <;> decide +kernel
  replacements := by
    cases shape <;> decide +kernel

lemma nesting_productions :
    shape.productions.nesting Alphabet.standard = shape.depthPerRound := by
  cases shape <;> decide +kernel

/-- The start symbol comes back at the greatest depth of all replacements. -/
lemma exists_image_start :
    ∃ front back, shape.productions.image start = front ++ start :: back ∧
      depth (Alphabet.standard.ops front) = shape.depthPerRound := by
  cases shape with
  | climbing => exact ⟨"[F-[[".toList, "]+X]+F[+FX]-X]".toList, by decide +kernel, by decide +kernel⟩
  | bushy =>
      exact ⟨"F+[-F-XF-X][+FF][--XF[+".toList, "]][++F-X]".toList, by decide +kernel,
        by decide +kernel⟩
  | dense =>
      exact ⟨"FF[+XZ++X-F[+Z".toList, "]][-X++F-X]".toList, by decide +kernel, by decide +kernel⟩

variable (n : ℕ)

lemma balanced_expand :
    Balanced (Alphabet.standard.ops (shape.productions.expand start n)) :=
  Productions.balanced_expand shape.balancedOver (by decide +kernel) n

/-- The depth of a shape after `n` rounds. -/
lemma peak_expand :
    peak (Alphabet.standard.ops (shape.productions.expand start n)) =
      (shape.depthPerRound * n : ℕ) := by
  obtain ⟨front, back, himage, hdepth⟩ := shape.exists_image_start
  have hstart : ¬ Alphabet.standard.IsBracket start := by decide +kernel
  have hle := Productions.peak_expand_le shape.balancedOver hstart n
  have hge := Productions.le_peak_expand shape.balancedOver himage n
  rw [nesting_productions, Nat.mul_comm] at hle
  rw [hdepth, Int.mul_comm] at hge
  exact le_antisymm hle (by exact_mod_cast hge)

lemma contains_of_mem_expand :
    ∀ c ∈ shape.productions.expand start n, Alphabet.standard.contains c := by
  have hmissing : Plant.missingRule? Alphabet.standard shape.productions = none := by
    cases shape <;> decide +kernel
  refine Productions.forall_mem_expand (P := fun c => Alphabet.standard.contains c) ?_
    (by decide +kernel) n
  intro rule hrule c hc
  exact Plant.missingRule?_eq_none_iff.1 hmissing rule hrule c (List.mem_cons_of_mem _ hc)

/-- Among the standard symbols only `F` draws. -/
lemma draws_ops_standard (w : Word) : draws (Alphabet.standard.ops w) = w.count 'F' := by
  have hdraw : ∀ e ∈ Alphabet.standard.entries, e.2 = .draw → e.1 = 'F' := by
    decide +kernel
  rw [draws_ops, List.count]
  congr 1
  funext c
  rw [Bool.eq_iff_iff, decide_eq_true_iff, beq_iff_eq]
  constructor
  · intro hget
    exact hdraw _ (SymbolMap.mem_entries_of_get? hget) rfl
  · rintro rfl
    decide +kernel

/-- **The built-in shapes nest by a fixed depth in every round.**  After `n` rounds a shape is walked to
its end whenever the limit on saved poses is at least `n` times that depth, and then the report
counts one branch for each `F` and has just that depth; with a lower limit the walk runs out of
room, whatever the settings, the first pose and the surface are. -/
theorem outcome_walkUnpaced_expand {σ : Type} (trig : Trig) (settings : Settings) (host : Host σ)
    (h : σ) (pose : Pose) :
    let w := shape.productions.expand start n
    let run := (Turtle.standard settings).walkUnpaced trig host h pose w
    (shape.depthPerRound * n ≤ settings.maxDepth.toNat →
      ∃ r, run.outcome = .ok r ∧ r.completed = true ∧ r.deepest = shape.depthPerRound * n ∧
        r.branches = w.count 'F' ∧ run.branches.length = w.count 'F') ∧
    (settings.maxDepth.toNat < shape.depthPerRound * n →
      ∃ i < w.length, run.outcome = .error (.tooDeep i settings.maxDepth.toNat)) := by
  intro w run
  have hpeak : peak (Alphabet.standard.ops w) = (shape.depthPerRound * n : ℕ) := shape.peak_expand n
  obtain ⟨hroom, hfull⟩ := Turtle.outcome_walkUnpaced_of_peak (t := Turtle.standard settings) trig
    host h pose (shape.contains_of_mem_expand n) (shape.balanced_expand n)
  change peak (Alphabet.standard.ops w) ≤ _ → _ at hroom
  change _ < peak (Alphabet.standard.ops w) → _ at hfull
  rw [hpeak] at hroom hfull
  refine ⟨fun hle => ?_, fun hlt => hfull (by exact_mod_cast hlt)⟩
  obtain ⟨r, hok, hcompleted, hdeepest⟩ := hroom (by exact_mod_cast hle)
  obtain ⟨hcounts, hbranches⟩ := Turtle.counts_of_outcome_ok trig (Turtle.standard settings) host h
    pose hok
  simp only [Report.counts, Prod.mk.injEq] at hcounts
  change run.branches.length = draws (Alphabet.standard.ops w) at hbranches
  refine ⟨r, hok, hcompleted, ?_, ?_, ?_⟩
  · exact_mod_cast hdeepest.trans hpeak
  · rw [hcounts.2.1, ← draws_ops_standard]
    rfl
  · rw [hbranches, draws_ops_standard]

/-- Two rounds of the dense shape take four saved poses, and three are not enough. -/
theorem outcome_walkUnpaced_dense :
    dense.depthPerRound * 2 ≤ (4 : UInt64).toNat ∧
    (∃ r, ((Turtle.standard { maxDepth := 4 }).walkUnpaced Trig.native
        (Host.plain .unlimited Sphere.unit.nearest) () Pose.origin
        (dense.productions.expand start 2)).outcome = .ok r ∧ r.deepest = 4) ∧
    (3 : UInt64).toNat < dense.depthPerRound * 2 ∧
    ∃ i, ((Turtle.standard { maxDepth := 3 }).walkUnpaced Trig.native
        (Host.plain .unlimited Sphere.unit.nearest) () Pose.origin
        (dense.productions.expand start 2)).outcome = .error (.tooDeep i 3) := by
  have hroom : dense.depthPerRound * 2 ≤ (4 : UInt64).toNat := by decide
  have hfull : (3 : UInt64).toNat < dense.depthPerRound * 2 := by decide
  obtain ⟨r, hok, -, hdeepest, -⟩ := (outcome_walkUnpaced_expand dense 2 Trig.native
    { maxDepth := 4 } (Host.plain .unlimited Sphere.unit.nearest) () Pose.origin).1 hroom
  obtain ⟨i, -, hfail⟩ := (outcome_walkUnpaced_expand dense 2 Trig.native
    { maxDepth := 3 } (Host.plain .unlimited Sphere.unit.nearest) () Pose.origin).2 hfull
  exact ⟨hroom, ⟨r, hok, hdeepest⟩, hfull, i, hfail⟩

end Preset

end Arbor
