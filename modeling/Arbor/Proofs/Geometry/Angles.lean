import Arbor.Proofs.Geometry.Signs

/-!
# Sines and cosines at given angles

Turning takes sine and cosine as a parameter, and what is proved of turns needs no more of them than
that the one is odd and the other even, up to the signs of zeros (`Trig.Parity`).  Where a walk is to
be evaluated they are needed at the angles of its turns only.  `Trig.given` sets them there, at an
angle and at its opposite together, so that their parity is kept (`Trig.Parity.given`).
-/

namespace Arbor

/-- An odd sine and an even cosine. -/
structure Trig.Parity (trig : Trig) : Prop where
  sin : ∀ x, Float32Alike (trig.sin (-x)) (-trig.sin x)
  cos : ∀ x, Float32Alike (trig.cos (-x)) (trig.cos x)

/-- The function with the values `v` and `v'` at a number and its negative. -/
def pinned (f : Float32 → Float32) (a v v' x : Float32) : Float32 :=
  if x = a then v else if x = -a then v' else f x

/-- A function that obeys a law about negation still does when the given values obey it. -/
lemma pinned_neg {f g : Float32 → Float32} (hf : ∀ x, Float32Alike (f (-x)) (g (f x)))
    {a v v' : Float32} (ha : a ≠ -a) (hv : Float32Alike v' (g v)) (hv' : Float32Alike v (g v'))
    (x : Float32) : Float32Alike (pinned f a v v' (-x)) (g (pinned f a v v' x)) := by
  have hopposite (x y : Float32) : -x = y ↔ x = -y := by
    constructor
    · rintro rfl
      exact (Single.neg_neg_single x).symm
    · rintro rfl
      exact Single.neg_neg_single y
  simp only [pinned, hopposite, Single.neg_neg_single]
  by_cases h : x = a
  · subst h
    rwa [if_neg ha, if_pos rfl, if_pos rfl]
  · by_cases h' : x = -a
    · rwa [if_pos h', if_neg h, if_pos h']
    · rw [if_neg h, if_neg h', if_neg h, if_neg h']
      exact hf x

namespace Trig

/-- A sine and a cosine with given values at one angle and its opposite. -/
def given (trig : Trig) (angle sin cos : Float32) : Trig where
  sin := pinned trig.sin angle sin (-sin)
  cos := pinned trig.cos angle cos cos

lemma Parity.given {trig : Trig} (hparity : trig.Parity) {angle : Float32}
    (hangle : angle ≠ -angle) (sin cos : Float32) : (trig.given angle sin cos).Parity where
  sin := pinned_neg hparity.sin hangle (.refl _) (.of_eq (Single.neg_neg_single sin).symm)
  cos := pinned_neg (g := id) hparity.cos hangle (.refl _) (.refl _)

/-- Sine and cosine in single precision at half of 30 degrees, the usual turn, and as they are near
zero everywhere else. -/
def turning : Trig :=
  (Trig.mk id fun _ => 1).given (Float32.ofBits 0xbe860a92) (Float32.ofBits 0xbe8483ee)
    (Float32.ofBits 0x3f7746ea)

lemma parity_turning : turning.Parity := by
  have hflat : (Trig.mk id fun _ => 1).Parity := ⟨fun _ => .refl _, fun _ => .refl _⟩
  exact hflat.given (by decide) _ _

end Trig

end Arbor
