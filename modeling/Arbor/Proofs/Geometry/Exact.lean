import Arbor.Proofs.Geometry.Signs

/-!
# Sums that need no rounding

Every finite number in single precision is a whole multiple of the least positive one, `2⁻¹⁴⁹`, and
`units` counts these multiples.  A sum is computed from the exact one by rounding, and rounding
leaves alone what is a number already.  So when the exact sum of two numbers is a number, it is what
addition gives, up to the sign of a zero (`Float32Alike.add_of_units`), and likewise for differences.

What has to be known for this about the data that are read from numbers is that their mantissas are
as long as they can be (`Single.exponent_unpack`): a multiple of `2⁻¹⁴⁹` then has one such datum only,
and it is the one that rounding arrives at.
-/

namespace Arbor

open Float.Model (Format UnpackedFloat totalExponent)
open Float.Model.UnpackedFloat

namespace Single

/-! ## The exponent of a number -/

/-- The exponent that rounding gives to the number of mantissa `m` and exponent `e`. -/
def gridExponent (m : ℕ) (e : ℤ) : ℤ := Format.binary32.targetExponent (totalExponent m e)

lemma gridExponent_eq (m : ℕ) (e : ℤ) : gridExponent m e = max (m.log2 + e - 23) (-149) := by
  show max ((m.log2 : ℤ) + 1 + e - 24) (-149) = _
  omega

lemma le_gridExponent (m : ℕ) (e : ℤ) : -149 ≤ gridExponent m e := by
  rw [gridExponent_eq]
  exact le_max_right _ _

lemma log2_mul_two_pow {m : ℕ} (hm : 0 < m) (k : ℕ) : (m * 2 ^ k).log2 = m.log2 + k := by
  have hpos : 0 < m * 2 ^ k := Nat.mul_pos hm (Nat.two_pow_pos k)
  obtain ⟨hlow, hhigh⟩ := (Nat.log2_eq_iff hm.ne').1 rfl
  refine (Nat.log2_eq_iff hpos.ne').2 ⟨?_, ?_⟩
  · rw [Nat.pow_add]
    exact Nat.mul_le_mul_right _ hlow
  · rw [Nat.add_right_comm, Nat.pow_add]
    exact Nat.mul_lt_mul_of_pos_right hhigh (Nat.two_pow_pos k)

/-- The exponent does not depend on how a number is written. -/
lemma gridExponent_congr {m m' : ℕ} {e e' : ℤ} (hm : 0 < m) (hm' : 0 < m')
    (hscale : m * 2 ^ (e - e').toNat = m' * 2 ^ (e' - e).toNat) :
    gridExponent m e = gridExponent m' e' := by
  have hlog := congrArg Nat.log2 hscale
  rw [log2_mul_two_pow hm, log2_mul_two_pow hm'] at hlog
  rw [gridExponent_eq, gridExponent_eq]
  omega

/-- Numbers are read with mantissas that are as long as they can be. -/
lemma exponent_unpack {b : BitVec Format.binary32.numBits} {s : Sign} {m : ℕ} {e : ℤ} {hm : 0 < m}
    (h : unpack Format.binary32 b = .finite s m e hm) : e = gridExponent m e := by
  have hbias : (Format.binary32.exponentBias : ℤ) = 127 := rfl
  rw [gridExponent_eq]
  unfold unpack at h
  dsimp only at h
  split at h
  · split at h <;> cases h
  · split at h
    case isTrue hfirst =>
      split at h
      · cases h
      · -- Below the normal numbers the exponent is the least one.
        rw [UnpackedFloat.finite.injEq] at h
        obtain ⟨-, rfl, rfl, -⟩ := h
        have hshort : (unpackMantissa b).toNat.log2 < 23 :=
          (Nat.log2_lt hm.ne').2 (unpackMantissa b).isLt
        have hzero : (unpackExponent b).toNat = 0 := by rw [hfirst]; rfl
        rw [hzero, hbias]
        omega
    case isFalse hfirst =>
      rw [UnpackedFloat.finite.injEq] at h
      obtain ⟨-, rfl, rfl, -⟩ := h
      have hpos : (unpackExponent b).toNat ≠ 0 := fun hzero =>
        hfirst (BitVec.eq_of_toNat_eq hzero)
      rw [log2_implicit, hbias]
      omega

/-! ## Rounding what is a number already -/

lemma shiftRight_mul_two_pow (m k : ℕ) :
    ExtendedMantissa.ofMantissaAndAccuracy (m * 2 ^ k) .exact >>> k =
      ExtendedMantissa.ofMantissaAndAccuracy m .exact := by
  show Nat.repeat ExtendedMantissa.shiftRightOne k _ = _
  induction k generalizing m with
  | zero =>
      rw [Nat.pow_zero, Nat.mul_one]
      rfl
  | succ k ih =>
      rw [Nat.repeat, Nat.pow_succ', ← Nat.mul_assoc, ih]
      simp [ExtendedMantissa.shiftRightOne, ExtendedMantissa.ofMantissaAndAccuracy]

section Round

variable {s : Sign} {m : ℕ} {e : ℤ} {hm : 0 < m} (he : e = gridExponent m e)

include he

lemma shiftToTargetExponent_mul_two_pow (hm : 0 < m) (k : ℕ) :
    shiftToTargetExponent Format.binary32 (m * 2 ^ k) (e - k) .exact =
      (ExtendedMantissa.ofMantissaAndAccuracy m .exact, e) := by
  have hscale : m * 2 ^ k * 2 ^ (e - k - e).toNat = m * 2 ^ (e - (e - k)).toNat := by
    rw [show (e - k - e).toNat = 0 by omega, show (e - (e - k)).toNat = k by omega, Nat.pow_zero,
      Nat.mul_one]
  have htarget : Format.binary32.targetExponent (totalExponent (m * 2 ^ k) (e - k)) = e :=
    (gridExponent_congr (Nat.mul_pos hm (Nat.two_pow_pos k)) hm hscale).trans he.symm
  simp only [shiftToTargetExponent, htarget, shiftToExponent]
  rw [show (e - (e - k)).toNat = k by omega, shiftRight_mul_two_pow, Int.sub_add_cancel]

lemma roundWithAccuracy_mul_two_pow (k : ℕ) :
    roundWithAccuracy Format.binary32 s (m * 2 ^ k) (e - k) .exact = .finite s m e hm := by
  have hfirst := shiftToTargetExponent_mul_two_pow he hm k
  have hsecond := shiftToTargetExponent_mul_two_pow he hm 0
  rw [Nat.pow_zero, Nat.mul_one, Nat.cast_zero, Int.sub_zero] at hsecond
  simp only [roundWithAccuracy, hfirst, ExtendedMantissa.roundedMantissa,
    ExtendedMantissa.accuracy, ExtendedMantissa.ofMantissaAndAccuracy,
    Accuracy.roundToNearestEven, hsecond, hm.ne', dite_false]

/-- However a number is written, rounding gives the datum that is read from it. -/
lemma round_of_scale {m' : ℕ} {e' : ℤ}
    (hscale : m' * 2 ^ (e' - e).toNat = m * 2 ^ (e - e').toNat) :
    round Format.binary32 s m' e' = .finite s m e hm := by
  have hm' : 0 < m' := by
    have hpos := Nat.mul_pos hm (Nat.two_pow_pos (e - e').toNat)
    rw [← hscale] at hpos
    exact Nat.pos_of_mul_pos_right hpos
  have htarget : Format.binary32.targetExponent (totalExponent m' e') = e :=
    (gridExponent_congr hm' hm hscale).trans he.symm
  have hexponent : e' - (e' - e).toNat = e - (e - e').toNat := by omega
  simp only [UnpackedFloat.round, htarget, decreaseExponent, Nat.shiftLeft_eq, hscale, hexponent]
  exact roundWithAccuracy_mul_two_pow he _

end Round

/-! ## Data of finite numbers -/

/-- A zero, or a datum with a mantissa that is as long as it can be. -/
inductive Regular : UnpackedFloat → Prop
  | zero (s : Sign) : Regular (.zero s)
  | finite (s : Sign) {m : ℕ} {e : ℤ} (hm : 0 < m) (he : e = gridExponent m e) :
      Regular (.finite s m e hm)

/-- A regular datum as a multiple of `2⁻¹⁴⁹`, and 0 for data that are no finite numbers. -/
def datumUnits : UnpackedFloat → ℤ
  | .finite s m e _ => s.apply (m * 2 ^ (e + 149).toNat)
  | _ => 0

lemma regular_datum {a : Float32} (ha : a.isFinite) : Regular (datum a) := by
  change (datum a).isFinite at ha
  cases hx : datum a with
  | notANumber => rw [hx] at ha; cases ha
  | infinity s => rw [hx] at ha; cases ha
  | zero s => exact .zero s
  | finite s m e hm => exact .finite s hm (exponent_unpack hx)

lemma apply_mul (s : Sign) (m n : ℤ) : s.apply (m * n) = s.apply m * n := by
  cases s
  · exact (Int.neg_mul m n).symm
  · rfl

lemma apply_apply (s : Sign) (n : ℤ) : s.apply (s.apply n) = n := by
  cases s
  · exact Int.neg_neg n
  · rfl

lemma datumUnits_neg (x : UnpackedFloat) : datumUnits x.neg = -datumUnits x := by
  cases x with
  | finite s m e hm => exact apply_neg s _
  | _ => rfl

/-- Only a zero is no multiple of the least number but the zeroth. -/
lemma units_finite_ne_zero (s : Sign) {m : ℕ} (e : ℤ) (hm : 0 < m) :
    datumUnits (.finite s m e hm) ≠ 0 := by
  have hpos : (0 : ℤ) < m * 2 ^ (e + 149).toNat := by positivity
  cases s
  · exact (Int.neg_neg_of_pos hpos).ne
  · exact hpos.ne'

/-- Multiples of a power of two that are the same number of units are the same number. -/
lemma scale_of_units {m m' : ℕ} {e e' : ℤ} (he : -149 ≤ e) (he' : -149 ≤ e')
    (h : (m' : ℤ) * 2 ^ (e' + 149).toNat = m * 2 ^ (e + 149).toNat) :
    m' * 2 ^ (e' - e).toNat = m * 2 ^ (e - e').toNat := by
  have hnat : m' * 2 ^ (e' + 149).toNat = m * 2 ^ (e + 149).toNat := by exact_mod_cast h
  rw [show (e' + 149).toNat = (e' - e).toNat + (min e e' + 149).toNat by omega,
    show (e + 149).toNat = (e - e').toNat + (min e e' + 149).toNat by omega, Nat.pow_add,
    Nat.pow_add, ← Nat.mul_assoc, ← Nat.mul_assoc] at hnat
  exact Nat.eq_of_mul_eq_mul_right (Nat.two_pow_pos _) hnat

/-- A sum other than zero is rounded with the sign that it has. -/
lemma normalize_apply (s : Sign) {n : ℕ} (hn : 0 < n) (e : ℤ) (s' : Sign) :
    UnpackedFloat.normalize Format.binary32 (s.apply n) e s' =
      UnpackedFloat.round Format.binary32 s n e := by
  unfold UnpackedFloat.normalize
  cases s with
  | negative =>
      have hneg : -(n : ℤ) < 0 := by omega
      simp only [Sign.apply, compare_lt_iff_lt.2 hneg, Int.neg_neg, Int.toNat_natCast]
  | positive =>
      have hpos : (0 : ℤ) < n := by omega
      simp only [Sign.apply, compare_gt_iff_gt.2 hpos, Int.toNat_natCast]

/-- Rounding leaves alone what is a number already, up to the sign of a zero. -/
lemma agree_normalize {x : UnpackedFloat} (hx : Regular x) {z e : ℤ} (he : -149 ≤ e) (s : Sign)
    (h : z * 2 ^ (e + 149).toNat = datumUnits x) :
    Agree (UnpackedFloat.normalize Format.binary32 z e s) x := by
  cases hx with
  | zero s' =>
      have hz : z = 0 := (Int.mul_eq_zero.1 h).resolve_right (by positivity)
      rw [hz]
      exact .zeros s s'
  | @finite s' m e' hm hgrid =>
      have hmagnitude : s'.apply z * 2 ^ (e + 149).toNat = m * 2 ^ (e' + 149).toNat := by
        rw [← apply_mul, h, datumUnits, apply_apply]
      have hpos : 0 < s'.apply z * 2 ^ (e + 149).toNat := by
        rw [hmagnitude]
        positivity
      have hz : 0 < s'.apply z := pos_of_mul_pos_left hpos (by positivity)
      obtain ⟨n, hn⟩ := Int.eq_ofNat_of_zero_le hz.le
      rw [hn] at hmagnitude hz
      have hlow : -149 ≤ e' := hgrid ▸ le_gridExponent m e'
      have hround : UnpackedFloat.round Format.binary32 s' n e = .finite s' m e' hm :=
        round_of_scale hgrid (scale_of_units hlow he hmagnitude)
      rw [← apply_apply s' z, hn, normalize_apply s' (by exact_mod_cast hz), hround]
      exact .same _

/-- Regular data of the same number agree. -/
lemma Regular.agree {x y : UnpackedFloat} (hx : Regular x) (hy : Regular y)
    (h : datumUnits x = datumUnits y) : Agree x y := by
  cases hx with
  | zero s =>
      cases hy with
      | zero s' => exact .zeros s s'
      | finite s' hm he => exact absurd h.symm (units_finite_ne_zero s' _ hm)
  | @finite s m e hm he =>
      have hlow : -149 ≤ e := he ▸ le_gridExponent m e
      have hself : s.apply (m : ℤ) * 2 ^ (e + 149).toNat = datumUnits (.finite s m e hm) :=
        (apply_mul s m _).symm
      have hleft := agree_normalize (.finite s hm he) hlow .positive hself
      have hright := agree_normalize hy hlow .positive (hself.trans h)
      exact hleft.symm.trans hright

/-- Writing a number with a lesser exponent does not change how many units it is. -/
lemma units_decrease (s : Sign) {m : ℕ} {e e' : ℤ} (hm : 0 < m) (he : e' ≤ e) (he' : -149 ≤ e') :
    s.apply ((m * 2 ^ (e - e').toNat : ℕ) : ℤ) * 2 ^ (e' + 149).toNat =
      datumUnits (.finite s m e hm) := by
  have hsplit : (e + 149).toNat = (e - e').toNat + (e' + 149).toNat := by omega
  rw [datumUnits, hsplit, ← apply_mul]
  push_cast
  rw [Int.mul_assoc, Int.pow_add]

/-- The exact sum of two numbers is their sum when it is a number. -/
lemma Regular.agree_add {x y z : UnpackedFloat} (hx : Regular x) (hy : Regular y) (hz : Regular z)
    (h : datumUnits x + datumUnits y = datumUnits z) : Agree (add Format.binary32 x y) z := by
  cases hx with
  | zero s =>
      cases hy with
      | zero s' =>
          have hsum : ∃ s'', add Format.binary32 (.zero s) (.zero s') = .zero s'' := by
            cases s <;> cases s' <;> exact ⟨_, rfl⟩
          obtain ⟨s'', hsum⟩ := hsum
          rw [hsum]
          exact (Regular.zero s'').agree hz h
      | finite s' hm he => exact (Regular.finite s' hm he).agree hz ((Int.zero_add _).symm.trans h)
  | @finite s m e hm he =>
      cases hy with
      | zero s' => exact (Regular.finite s hm he).agree hz ((Int.add_zero _).symm.trans h)
      | @finite s' m' e' hm' he' =>
          have hlow : -149 ≤ min e e' :=
            le_min (he ▸ le_gridExponent m e) (he' ▸ le_gridExponent m' e')
          simp only [add, decreaseExponent, Nat.shiftLeft_eq]
          refine agree_normalize hz hlow .positive ?_
          rw [← h, Int.add_mul]
          exact congrArg₂ (· + ·) (units_decrease s hm (Int.min_le_left _ _) hlow)
            (units_decrease s' hm' (Int.min_le_right _ _) hlow)

/-! ## Exact sums and differences -/

/-- A finite number as a multiple of `2⁻¹⁴⁹`. -/
def units (a : Float32) : ℤ := datumUnits (datum a)

@[simp] lemma units_neg (a : Float32) : units (-a) = -units a := by
  rw [units, datum_neg, datumUnits_neg, units]

lemma isFinite_neg {a : Float32} (ha : a.isFinite) : (-a).isFinite := by
  change (datum (-a)).isFinite
  rw [datum_neg]
  change (datum a).isFinite at ha
  generalize datum a = x at ha
  cases x with
  | notANumber => cases ha
  | infinity s => cases ha
  | _ => rfl

end Single

open Single

namespace Float32Alike

variable {a b d : Float32}

/-- A sum that is a number needs no rounding. -/
lemma add_of_units (ha : a.isFinite) (hb : b.isFinite) (hd : d.isFinite)
    (h : units a + units b = units d) : Float32Alike (a + b) d := by
  have hagree := (regular_datum ha).agree_add (regular_datum hb) (regular_datum hd) h
  rw [← ofDatum_datum d]
  exact ofDatum hagree

/-- Nor does a difference. -/
lemma sub_of_units (ha : a.isFinite) (hb : b.isFinite) (hd : d.isFinite)
    (h : units a - units b = units d) : Float32Alike (a - b) d := by
  rw [sub_eq_add_neg_single]
  exact add_of_units ha (isFinite_neg hb) hd (by rw [units_neg, ← Int.sub_eq_add_neg, h])

end Float32Alike

end Arbor
