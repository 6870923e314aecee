import Arbor.SymbolMap

/-!
# Productions and derived words

A set of productions gives at most one replacement word per symbol; a symbol without one is
terminal and stands for itself.  Read as a substitution, the set sends a symbol to its
image (`Productions.image`) and a word, in one round, to the images of its symbols side by side
(`substitute`).  `expand` runs a number of rounds from a single start symbol.
-/

namespace Arbor

/-- At most one replacement word for each symbol. -/
structure Productions where
  /-- The replacements, by ascending symbol. -/
  rules : SymbolMap Word
  deriving BEq, DecidableEq, Inhabited

namespace Productions

/-- No production at all: every symbol is terminal. -/
def empty : Productions := ⟨SymbolMap.empty⟩

def get? (p : Productions) (c : Symbol) : Option Word := p.rules.get? c

/-- Give `c` the replacement `w`, over the one it had. -/
def insert (p : Productions) (c : Symbol) (w : Word) : Productions := ⟨p.rules.insert c w⟩

/-- Give `c` the replacement `w`; the one it had comes first. -/
def exchange (p : Productions) (c : Symbol) (w : Word) : Option Word × Productions :=
  (p.rules.exchange c w).map id fun rules => ⟨rules⟩

/-- The productions of a list of pairs; the last one for a symbol stays. -/
def ofList (pairs : List (Symbol × Word)) : Productions := ⟨SymbolMap.ofList pairs⟩

def toList (p : Productions) : List (Symbol × Word) := p.rules.entries

def size (p : Productions) : Nat := p.rules.size

def isEmpty (p : Productions) : Bool := p.rules.isEmpty

/-- What one symbol becomes in a round: its replacement, or itself when it is terminal. -/
def image (p : Productions) (c : Symbol) : Word := (p.get? c).getD [c]

/-- One round: every symbol gives way to its image, in place. -/
def substitute (p : Productions) (w : Word) : Word := w.flatMap p.image

/-- The word derived from `start` in `n` rounds.  Without productions no round changes anything,
so none is run. -/
def expand (p : Productions) (start : Symbol) (n : Nat) : Word :=
  if p.isEmpty then [start] else Nat.repeat p.substitute n [start]

/-! ## Substitution and concatenation -/

@[simp] theorem substitute_nil (p : Productions) : p.substitute [] = [] := rfl

@[simp] theorem substitute_cons (p : Productions) (c : Symbol) (w : Word) :
    p.substitute (c :: w) = p.image c ++ p.substitute w := by
  simp [substitute]

theorem substitute_append (p : Productions) (v w : Word) :
    p.substitute (v ++ w) = p.substitute v ++ p.substitute w := by
  simp [substitute]

theorem image_of_isEmpty {p : Productions} (h : p.isEmpty) (c : Symbol) : p.image c = [c] := by
  have hnil : p.rules.entries = [] := List.isEmpty_iff.1 h
  simp [image, get?, SymbolMap.get?, hnil]

/-! ## Rounds -/

@[simp] theorem expand_zero (p : Productions) (start : Symbol) : p.expand start 0 = [start] := by
  simp [expand, Nat.repeat]

/-- A further round substitutes once more, also where no round is run. -/
theorem expand_succ (p : Productions) (start : Symbol) (n : Nat) :
    p.expand start (n + 1) = p.substitute (p.expand start n) := by
  by_cases h : p.isEmpty
  · simp [expand, h, image_of_isEmpty h]
  · simp [expand, h, Nat.repeat]

end Productions

end Arbor
