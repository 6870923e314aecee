import Arbor.Turtle.Brackets

/-!
# Root paths

The root path of a position consists of the draws and turns in front of it whose effect still holds
there: those that stand in no bracket pair that is closed by then (`rootPositions`).  It is found by
reading backward, since a closing bracket hides everything back to the opening one that it matches
(`rootPath`).
-/

namespace Arbor

/-! ## Closed pairs -/

/-- The bracket at `a` is closed by the one at `b`. -/
structure Closes (ops : List Op) (a b : Nat) : Prop where
  lt : a < b
  opening : ops[a]? = some .push
  closing : ops[b]? = some .pop
  between : Balanced ((ops.take b).drop (a + 1))

instance (ops : List Op) (a b : Nat) : Decidable (Closes ops a b) :=
  decidable_of_iff (a < b ∧ ops[a]? = some .push ∧ ops[b]? = some .pop ∧
      Balanced ((ops.take b).drop (a + 1)))
    ⟨fun h => ⟨h.1, h.2.1, h.2.2.1, h.2.2.2⟩, fun h => ⟨h.lt, h.opening, h.closing, h.between⟩⟩

/-- The position `j` stands in a bracket pair that is closed within the list. -/
def Enclosed (ops : List Op) (j : Nat) : Prop := ∃ a < j, ∃ b < ops.length, j < b ∧ Closes ops a b

instance (ops : List Op) (j : Nat) : Decidable (Enclosed ops j) :=
  inferInstanceAs (Decidable (∃ a < j, ∃ b < ops.length, j < b ∧ Closes ops a b))

/-- Whether an operation moves or turns the turtle by itself. -/
def Op.leads : Op → Bool
  | .draw => true
  | .turn _ => true
  | _ => false

/-- The positions of the draws and turns of a list that stand in no closed bracket pair. -/
def rootPositions (ops : List Op) : List Nat :=
  (List.range ops.length).filter fun j => ops[j]?.any Op.leads && !decide (Enclosed ops j)

/-- The last draw among them. -/
def lastRootDraw? (ops : List Op) : Option Nat :=
  (rootPositions ops).reverse.find? fun j => ops[j]? = some .draw

/-- The symbols that lead from the root to the end of a word. -/
def Alphabet.rootWord (alphabet : Alphabet) (w : Word) : Word :=
  (rootPositions (alphabet.ops w)).filterMap fun j => w[j]?

/-! ## Reading backward -/

/-- The draws and turns of a list, last one first, that are not hidden by closed brackets, when
`closed` brackets are still to be matched. -/
def visible : Nat → List Op → List Op
  | _, [] => []
  | closed, .pop :: rest => visible (closed + 1) rest
  | closed, .push :: rest => visible (closed - 1) rest
  | closed, .ignore :: rest => visible closed rest
  | 0, op :: rest => op :: visible 0 rest
  | closed + 1, _ :: rest => visible (closed + 1) rest

/-- The draws and turns that lead from the root to the end of a list. -/
def rootPath (ops : List Op) : List Op := (visible 0 ops.reverse).reverse

/-- A path has no brackets. -/
theorem drift_of_mem_visible {closed : Nat} {ops : List Op} {op : Op}
    (h : op ∈ visible closed ops) : op = .draw ∨ ∃ sign, op = .turn sign := by
  fun_induction visible closed ops with
  | case1 => simp at h
  | case2 _ _ ih => exact ih h
  | case3 _ _ ih => exact ih h
  | case4 _ _ ih => exact ih h
  | case5 rest first _ _ _ ih =>
    rcases List.mem_cons.1 h with rfl | h
    · cases op <;> simp_all
    · exact ih h
  | case6 _ _ _ _ _ _ ih => exact ih h

end Arbor
