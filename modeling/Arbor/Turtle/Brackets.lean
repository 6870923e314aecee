import Arbor.Turtle.Walk

/-!
# Bracket depth

Whether a walk succeeds depends on brackets alone.  `depth` counts the poses saved and not yet
restored after a list of operations, `peak` the most that are saved along the way, and `Balanced`
says that every pose restored was saved before and none is left.  `Turtle.faultAt?` is what is wrong
with one position of a word, judged by the depth in front of it and by nothing that a walk does.
-/

namespace Arbor

/-- How many more poses are saved after an operation than before it. -/
def Op.drift : Op → Int
  | .push => 1
  | .pop => -1
  | .draw => 0
  | .turn _ => 0
  | .ignore => 0

/-- Poses saved less poses restored. -/
def depth : List Op → Int
  | [] => 0
  | op :: rest => op.drift + depth rest

/-- The greatest depth at the front of a list, or 0 for one that goes nowhere but down. -/
def peak : List Op → Int
  | [] => 0
  | op :: rest => max 0 (op.drift + peak rest)

/-- Every pose that is restored was saved before, and in the end all of them are restored. -/
structure Balanced (ops : List Op) : Prop where
  nonneg : ∀ front, front <+: ops → 0 ≤ depth front
  closed : depth ops = 0

@[simp] theorem depth_nil : depth [] = 0 := rfl

@[simp] theorem depth_cons (op : Op) (ops : List Op) : depth (op :: ops) = op.drift + depth ops := rfl

@[simp] theorem depth_append (front back : List Op) :
    depth (front ++ back) = depth front + depth back := by
  induction front with
  | nil => simp
  | cons op front ih => simp [ih, Int.add_assoc]

theorem peak_nonneg (ops : List Op) : 0 ≤ peak ops := by
  cases ops with
  | nil => exact Int.le_refl 0
  | cons op ops => exact Int.le_max_left _ _

/-- The peak of two lists in a row is the first one's, or the second one's above where the first
one ends. -/
theorem peak_append (front back : List Op) :
    peak (front ++ back) = max (peak front) (depth front + peak back) := by
  induction front with
  | nil =>
    have := peak_nonneg back
    simp only [List.nil_append, peak, depth_nil]
    omega
  | cons op front ih =>
    simp only [List.cons_append, peak, ih, depth_cons]
    omega

/-- Every front of a list stays at or below its peak. -/
theorem depth_le_peak {front ops : List Op} (h : front <+: ops) : depth front ≤ peak ops := by
  obtain ⟨back, rfl⟩ := h
  have := peak_append front back
  have := peak_nonneg back
  omega

theorem balanced_nil : Balanced [] where
  nonneg front h := by simp [List.prefix_nil.1 h]
  closed := rfl

theorem balanced_iff_take (ops : List Op) :
    Balanced ops ↔ (∀ i < ops.length + 1, 0 ≤ depth (ops.take i)) ∧ depth ops = 0 := by
  constructor
  · intro h
    exact ⟨fun i _ => h.nonneg _ (List.take_prefix i ops), h.closed⟩
  · rintro ⟨hnonneg, hclosed⟩
    refine ⟨fun front hfront => ?_, hclosed⟩
    rw [List.prefix_iff_eq_take.1 hfront]
    exact hnonneg _ (Nat.lt_succ_of_le hfront.length_le)

instance (ops : List Op) : Decidable (Balanced ops) :=
  decidable_of_iff _ (balanced_iff_take ops).symm

/-- The operations of the symbols of a word; those outside the alphabet have none. -/
def Alphabet.ops (alphabet : Alphabet) (w : Word) : List Op := w.filterMap alphabet.get?

theorem Alphabet.ops_append (alphabet : Alphabet) (v w : Word) :
    alphabet.ops (v ++ w) = alphabet.ops v ++ alphabet.ops w :=
  List.filterMap_append

theorem Alphabet.ops_cons_of_get? {alphabet : Alphabet} {c : Symbol} {op : Op}
    (h : alphabet.get? c = some op) (w : Word) : alphabet.ops (c :: w) = op :: alphabet.ops w :=
  List.filterMap_cons_some h

/-- What is wrong with the symbol at a position of a word: it is outside the alphabet, or restores a
pose where none is saved, or saves one where the limit is reached. -/
def Turtle.faultAt? (t : Turtle) (w : Word) (i : Nat) : Option WalkError :=
  let before := depth (t.alphabet.ops (w.take i))
  w[i]?.bind fun c =>
    match t.alphabet.get? c with
    | none => some (.unknownSymbol i c)
    | some .pop => if before = 0 then some (.unbalancedPop i) else none
    | some .push =>
      if t.settings.maxDepth.toNat ≤ before then some (.tooDeep i t.settings.maxDepth.toNat)
      else none
    | some _ => none

end Arbor
