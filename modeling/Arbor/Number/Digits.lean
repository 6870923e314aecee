/-!
# Decimal digits

Natural numbers as lists of decimal digits, the most significant one first (`digits`), and back
(`ofDigits`).
-/

namespace Arbor

abbrev Digit := Fin 10

namespace Digit

def zero : Digit := ⟨0, by decide⟩

def char (d : Digit) : Char := Char.ofNat ('0'.toNat + d)

def ofChar? (c : Char) : Option Digit :=
  if h : '0'.toNat ≤ c.toNat ∧ c.toNat < '0'.toNat + 10 then
    some ⟨c.toNat - '0'.toNat, by omega⟩
  else none

@[simp] theorem ofChar?_char (d : Digit) : ofChar? d.char = some d := by
  revert d; decide

end Digit

/-- The number that digits spell. -/
def ofDigits (ds : List Digit) : Nat := ds.foldl (fun n (d : Digit) => 10 * n + d.val) 0

/-- The digits of `n` in front of `tail`, as long as there are at most `fuel` of them. -/
def digitsOnto : Nat → Nat → List Digit → List Digit
  | 0, _, tail => tail
  | fuel + 1, n, tail =>
    let tail := Fin.ofNat 10 n :: tail
    if n < 10 then tail else digitsOnto fuel (n / 10) tail

/-- The digits of a number; zero has the one digit 0.  A number has no more decimal digits than
binary ones. -/
def digits (n : Nat) : List Digit := digitsOnto (n.log2 + 1) n []

theorem digitsOnto_ne_nil (fuel n : Nat) (tail : List Digit) : digitsOnto (fuel + 1) n tail ≠ [] := by
  induction fuel generalizing n tail with
  | zero => rw [digitsOnto]; split <;> simp [digitsOnto]
  | succ fuel ih =>
    rw [digitsOnto]
    split
    · simp
    · exact ih _ _

theorem digits_ne_nil (n : Nat) : digits n ≠ [] := digitsOnto_ne_nil _ _ _

theorem foldl_digitsOnto (fuel n : Nat) (tail : List Digit) (h : n < Nat.pow 2 fuel) :
    (digitsOnto fuel n tail).foldl (fun n (d : Digit) => 10 * n + d.val) 0 =
      tail.foldl (fun n (d : Digit) => 10 * n + d.val) n := by
  induction fuel generalizing n tail with
  | zero =>
    obtain rfl : n = 0 := Nat.lt_one_iff.1 h
    rfl
  | succ fuel ih =>
    have hpow : Nat.pow 2 (fuel + 1) = 2 * Nat.pow 2 fuel := Nat.pow_succ'
    rw [digitsOnto]
    split
    · simp [Fin.ofNat, Nat.mod_eq_of_lt ‹n < 10›]
    · rw [ih _ _ (by omega)]
      simp only [List.foldl_cons, Fin.ofNat]
      congr 1
      omega

/-- Digits spell the number they were taken from. -/
@[simp] theorem ofDigits_digits (n : Nat) : ofDigits (digits n) = n := by
  rw [ofDigits, digits, foldl_digitsOnto _ _ _ Nat.lt_log2_self]
  rfl

end Arbor
