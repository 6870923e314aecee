import Arbor.Grammar.Productions

/-!
# Counting a derived word without building it

A census says how often each symbol occurs.  One round of counting sends the count of a symbol to
every symbol of its image (`Census.advance`), so the length of a derived word is known without the
word.  Counts are capped: a sum that would pass `countCap` stays there, which happens long before
such a word could be built.
-/

namespace Arbor

/-- The largest count a census can hold. -/
def countCap : Nat := Nat.pow 2 128 - 1

/-- Addition that stays at the cap instead of passing it. -/
def addCapped (a b : Nat) : Nat := min (a + b) countCap

/-- How often each symbol occurs: one entry per symbol. -/
abbrev Census := List (Symbol × Nat)

namespace Census

/-- Count `n` more occurrences of `c`. -/
def add (c : Symbol) (n : Nat) : Census → Census
  | [] => [(c, addCapped 0 n)]
  | (d, k) :: rest => if d = c then (d, addCapped k n) :: rest else (d, k) :: add c n rest

/-- Count every symbol of `w` `n` more times. -/
def addWord (w : Word) (n : Nat) (census : Census) : Census :=
  w.foldl (fun census c => census.add c n) census

/-- The census after one more round: each occurrence of a symbol gives way to one occurrence of
every symbol of its image. -/
def advance (p : Productions) (census : Census) : Census :=
  census.foldl (fun next e => next.addWord (p.image e.1) e.2) []

/-- The length of a word with this census. -/
def total (census : Census) : Nat := census.foldl (fun sum e => addCapped sum e.2) 0

end Census

/-- The length of `p.expand start n`, or `countCap` when it is longer. -/
def Productions.projectedLength (p : Productions) (start : Symbol) (n : Nat) : Nat :=
  if p.isEmpty then 1 else (Nat.repeat (Census.advance p) n [(start, 1)]).total

end Arbor
