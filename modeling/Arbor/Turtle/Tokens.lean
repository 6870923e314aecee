import Arbor.Turtle.Walk

/-!
# Walking a tokenised word

A tokenised word gives each symbol as a number, handed out by a `SymbolTable`.  The turtle reads a
number as the symbol whose one-letter name has it.  It does not look names up while it walks: it
stores the operations of its alphabet in a row, each at the place of its number
(`SymbolTable.opTable`), and a number at which the row has a gap, or that lies behind its end, stops
the walk, whether the table knows it or not.
-/

namespace Arbor

/-- Numbers for names; no number stands for two of them. -/
structure SymbolTable where
  idOf? : Word → Option SymbolId
  injective : ∀ {a b : Word} {i : SymbolId}, idOf? a = some i → idOf? b = some i → a = b

/-- Names numbered from 0 in order of their first appearance. -/
def SymbolTable.ofNames (names : List Word) : SymbolTable where
  idOf? name := names.eraseDups.idxOf? name
  injective {a b i} ha hb := by
    rw [List.idxOf?_eq_some_iff] at ha hb
    obtain ⟨_, ha, _⟩ := ha
    obtain ⟨_, hb, _⟩ := hb
    simp_all

/-- Operations in a row, each at the place of a number, with gaps between them. -/
structure OpTable where
  slots : Array (Option Op)

namespace OpTable

def empty : OpTable := ⟨#[]⟩

/-- The operation of a number. -/
def op? (ops : OpTable) (id : SymbolId) : Option Op := ops.slots[id]?.join

/-- The row continued with gaps until it has `size` places, if it has fewer. -/
def extend (ops : OpTable) (size : Nat) : OpTable :=
  if size ≤ ops.slots.size then ops
  else ⟨ops.slots ++ Array.replicate (size - ops.slots.size) none⟩

/-- Store an operation at a number, over the one it had. -/
def put (ops : OpTable) (id : SymbolId) (op : Op) : OpTable :=
  ⟨(ops.extend (id + 1)).slots.setIfInBounds id (some op)⟩

/-- Gaps behind the end change nothing. -/
@[simp] theorem op?_extend (ops : OpTable) (size : Nat) (id : SymbolId) :
    (ops.extend size).op? id = ops.op? id := by
  unfold extend
  split
  · rfl
  · simp only [op?, Array.getElem?_append, Array.getElem?_replicate]
    by_cases hinside : id < ops.slots.size
    · rw [if_pos hinside]
    · rw [if_neg hinside, Array.getElem?_eq_none (Nat.le_of_not_lt hinside)]
      split <;> rfl

theorem le_size_extend (ops : OpTable) (size : Nat) : size ≤ (ops.extend size).slots.size := by
  unfold extend
  split
  · assumption
  · simp only [Array.size_append, Array.size_replicate]
    omega

/-- A stored operation is found at its number, and at no other one does the row change. -/
theorem op?_put (ops : OpTable) (id : SymbolId) (op : Op) (i : SymbolId) :
    (ops.put id op).op? i = if i = id then some op else ops.op? i := by
  rw [← ops.op?_extend (id + 1) i]
  simp only [put, op?, Array.getElem?_setIfInBounds]
  by_cases h : i = id
  · rw [if_pos h.symm, if_pos (Nat.lt_of_succ_le (ops.le_size_extend (id + 1))), if_pos h]
    rfl
  · rw [if_neg (Ne.symm h), if_neg h]

/-- The operation of the number at a position. -/
def read (ops : OpTable) (position : Nat) (id : SymbolId) : Except WalkError Op :=
  match ops.op? id with
  | some op => .ok op
  | none => .error (.unknownId position id)

end OpTable

/-- Store the operation of a symbol at the number of its one-letter name, if that has one. -/
def SymbolTable.store (table : SymbolTable) (ops : OpTable) (e : Symbol × Op) : OpTable :=
  match table.idOf? [e.1] with
  | some id => ops.put id e.2
  | none => ops

/-- The operations of a list of symbols at the numbers of their names, stored in the order of the
list. -/
def SymbolTable.opTable (table : SymbolTable) (entries : List (Symbol × Op)) : OpTable :=
  entries.foldl table.store .empty

namespace Turtle

variable {σ : Type}

/-- Walk a tokenised word from a pose, with the operations of a row. -/
def walkIdsBy (trig : Trig) (t : Turtle) (ops : OpTable) (host : Host σ) (h : σ) (pose : Pose)
    (ids : List SymbolId) : Run σ :=
  ((State.start pose h).follow trig t.settings (State.draw trig t.settings host) ops.read ids).run

/-- Walk a tokenised word from a pose. -/
def walkIds (trig : Trig) (t : Turtle) (table : SymbolTable) (host : Host σ) (h : σ) (pose : Pose)
    (ids : List SymbolId) : Run σ :=
  t.walkIdsBy trig (table.opTable t.alphabet.entries) host h pose ids

end Turtle

end Arbor
