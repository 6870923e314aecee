import Mathlib
import Arbor.Geometry.Reflection

/-!
# Signs in single precision

A number in single precision is read as its datum, a sign with a magnitude or one of the special
values, computed with there, and stored again.  Storing a datum that was read gives the number back
(`ofDatum_datum`), and turning the sign of a datum around turns the sign of what is stored around
(`ofDatum_neg`), so the sign laws of arithmetic are laws about data.  Products and quotients obey
them bit for bit.  Sums do up to the sign of a zero, since `x - x` is `0` and never `-0`.

Two numbers are alike when their data agree up to the sign of a zero (`alike_iff_agree`).  All of
arithmetic respects this, apart from division by what may be a zero.
-/

namespace Arbor

open Float.Model (Format UnpackedFloat)
open Float.Model.UnpackedFloat

namespace Single

/-! ## Signs -/

lemma neg_neg_sign (s : Sign) : - -s = s := by
  cases s <;> rfl

lemma neg_mul_sign (s s' : Sign) : -s * s' = -(s * s') := by
  cases s <;> cases s' <;> rfl

lemma mul_comm_sign (s s' : Sign) : s * s' = s' * s := by
  cases s <;> cases s' <;> rfl

lemma neg_div_sign (s s' : Sign) : -s / s' = -(s / s') := by
  cases s <;> cases s' <;> rfl

lemma apply_neg (s : Sign) (n : ℤ) : (-s).apply n = -s.apply n := by
  cases s
  · exact (neg_neg n).symm
  · rfl

lemma toBitVec_ofBitVec (b : BitVec 1) : (Sign.ofBitVec b).toBitVec = b := by
  revert b
  decide

lemma ofBitVec_toBitVec (s : Sign) : Sign.ofBitVec s.toBitVec = s := by
  cases s <;> rfl

/-! ## Packing -/

lemma unpackSign_packComponents {spec : Format} (s : Sign) (x : BitVec spec.exponentBits)
    (m : BitVec spec.mantissaBitsWithoutImplicit) :
    unpackSign (packComponents spec s x m) = s.toBitVec := by
  ext i hi
  obtain rfl : i = 0 := by omega
  simp [unpackSign, packComponents, BitVec.getLsbD_append, BitVec.getElem_append]

/-- A packed number consists of its three fields. -/
lemma packComponents_fields (b : BitVec Format.binary32.numBits) :
    packComponents Format.binary32 (Sign.ofBitVec (unpackSign b)) (unpackExponent b)
      (unpackMantissa b) = b := by
  change BitVec 32 at b
  rw [packComponents, toBitVec_ofBitVec]
  change (b.extractLsb' 31 1 ++ b.extractLsb' 23 8) ++ b.extractLsb' 0 23 = b
  grind

/-- Below the normal numbers the mantissa is stored as it is. -/
lemma pack_subnormal (s : Sign) (m : BitVec 23) {e : ℤ} (he : e = -149) (hm : 0 < m.toNat) :
    pack Format.binary32 (.finite s m.toNat e hm) = packComponents Format.binary32 s 0 m := by
  have hfits : ¬ 2 ^ 8 ≤ (e + 127 + 23).toNat + 1 := by omega
  have hshort : ¬ m.toNat.log2 + 1 = 24 := by
    have := (Nat.log2_lt (by omega)).2 m.isLt
    omega
  change (if 2 ^ 8 ≤ (e + 127 + 23).toNat + 1 then _ else
    if m.toNat.log2 + 1 = 24 then _ else
      packComponents Format.binary32 s 0 (BitVec.ofNat 23 m.toNat)) = _
  rw [if_neg hfits, if_neg hshort, BitVec.ofNat_toNat, BitVec.setWidth_eq]

lemma toNat_implicit (m : BitVec 23) : (1#1 ++ m).toNat = 2 ^ 23 + m.toNat := by
  rw [BitVec.toNat_append, ← Nat.shiftLeft_add_eq_or_of_lt m.isLt]
  rfl

/-- With its first bit the mantissa of a normal number is 24 bits long. -/
lemma log2_implicit (m : BitVec 23) : (1#1 ++ m).toNat.log2 = 23 := by
  have hm := m.isLt
  rw [toNat_implicit]
  exact (Nat.log2_eq_iff (by omega)).2 (by omega)

/-- A normal number is stored without the first bit of its mantissa. -/
lemma pack_normal (s : Sign) {x : BitVec 8} (hx : x ≠ -1#8) (m : BitVec 23) {e : ℤ}
    (he : e = x.toNat - 150) (hm : 0 < (1#1 ++ m).toNat) :
    pack Format.binary32 (.finite s (1#1 ++ m).toNat e hm) =
      packComponents Format.binary32 s x m := by
  have hexponent : (e + 127 + 23).toNat = x.toNat := by omega
  have hfits : ¬ 2 ^ 8 ≤ x.toNat + 1 := by
    have hmax : x.toNat ≠ 255 := fun h => hx (BitVec.eq_of_toNat_eq h)
    omega
  change (if 2 ^ 8 ≤ (e + 127 + 23).toNat + 1 then _ else
    if (1#1 ++ m).toNat.log2 + 1 = 24 then
      packComponents Format.binary32 s (BitVec.ofNat 8 (e + 127 + 23).toNat)
        (BitVec.ofNat 23 (1#1 ++ m).toNat) else _) = _
  rw [hexponent, if_neg hfits, log2_implicit, if_pos rfl, toNat_implicit, BitVec.ofNat_toNat,
    BitVec.setWidth_eq]
  congr 1
  apply BitVec.eq_of_toNat_eq
  rw [BitVec.toNat_ofNat, Nat.add_mod_left, Nat.mod_eq_of_lt m.isLt]

/-- What is read from a valid bit pattern is stored as that pattern. -/
lemma pack_unpack {b : BitVec Format.binary32.numBits} (hb : Format.binary32.Valid b) :
    pack Format.binary32 (unpack Format.binary32 b) = b := by
  have hfields := packComponents_fields b
  unfold unpack
  dsimp only
  split
  case isTrue hlast =>
    split
    case isTrue hm =>
      rw [pack, packedInfinity, ← hlast]
      rwa [hm] at hfields
    case isFalse hm => exact (hb.eq_packedNaN hlast hm).symm
  case isFalse hfinite =>
    split
    case isTrue hfirst =>
      rw [hfirst] at hfields
      split
      case isTrue hm => rwa [hm] at hfields
      case isFalse hm =>
        rw [pack_subnormal _ _ (by rw [hfirst]; rfl)]
        exact hfields
    case isFalse =>
      rw [pack_normal _ hfinite _ (by rfl)]
      exact hfields

/-- Fields that differ in the sign alone are read as data that differ in the sign alone. -/
lemma unpack_packComponents_neg (s : Sign) (x : BitVec Format.binary32.exponentBits)
    (m : BitVec Format.binary32.mantissaBitsWithoutImplicit) :
    unpack Format.binary32 (packComponents Format.binary32 (-s) x m) =
      (unpack Format.binary32 (packComponents Format.binary32 s x m)).neg := by
  simp only [unpack, unpackMantissa_packComponents, unpackExponent_packComponents,
    unpackSign_packComponents, ofBitVec_toBitVec]
  split
  · split <;> rfl
  · split
    · split <;> rfl
    · rfl

lemma unpack_pack_neg (x : UnpackedFloat) :
    unpack Format.binary32 (pack Format.binary32 x.neg) =
      (unpack Format.binary32 (pack Format.binary32 x)).neg := by
  cases x with
  | notANumber => rfl
  | infinity s => exact unpack_packComponents_neg s _ _
  | zero s => exact unpack_packComponents_neg s _ _
  | finite s m e hm =>
      simp only [UnpackedFloat.neg, pack]
      split
      · exact unpack_packComponents_neg s _ _
      · split
        · exact unpack_packComponents_neg s _ _
        · exact unpack_packComponents_neg s _ _

/-! ## Numbers and their data -/

/-- The sign and magnitude that a number stands for, or that it is none. -/
def datum (a : Float32) : UnpackedFloat := a.toModel.unpack

/-- The number that a datum is stored as. -/
def ofDatum (x : UnpackedFloat) : Float32 := .ofModel (.pack x)

/-- A number is stored as it was read. -/
lemma ofDatum_datum (a : Float32) : ofDatum (datum a) = a := by
  obtain ⟨⟨bits, hvalid⟩⟩ := a
  have hbits : UInt32.ofBitVec (pack Format.binary32 (unpack Format.binary32 bits.toBitVec)) =
      bits := by rw [pack_unpack hvalid]
  simp only [ofDatum, datum, Float32.Model.pack, Float32.Model.unpack, hbits]

lemma datum_injective {a b : Float32} (h : datum a = datum b) : a = b := by
  rw [← ofDatum_datum a, h, ofDatum_datum]

lemma datum_neg (a : Float32) : datum (-a) = (datum a).neg := by
  have hstored : datum (ofDatum (datum a).neg) = (datum (ofDatum (datum a))).neg :=
    unpack_pack_neg (datum a)
  rw [ofDatum_datum] at hstored
  exact hstored

lemma ofDatum_neg (x : UnpackedFloat) : ofDatum x.neg = -ofDatum x := by
  apply datum_injective
  rw [datum_neg]
  exact unpack_pack_neg x

/-! ## Operations on data -/

variable (x y : UnpackedFloat)

lemma neg_neg_datum : x.neg.neg = x := by
  cases x <;> simp only [UnpackedFloat.neg, neg_neg_sign]

lemma roundWithAccuracy_neg (spec : Format) (s : Sign) (m : ℕ) (e : ℤ) (a : Accuracy) :
    roundWithAccuracy spec (-s) m e a = (roundWithAccuracy spec s m e a).neg := by
  simp only [roundWithAccuracy]
  split <;> rfl

lemma round_neg (spec : Format) (s : Sign) (m : ℕ) (e : ℤ) :
    round spec (-s) m e = (round spec s m e).neg :=
  roundWithAccuracy_neg spec s _ _ _

lemma mul_comm_datum (spec : Format) : mul spec x y = mul spec y x := by
  cases x <;> cases y <;>
    simp only [UnpackedFloat.mul, mul_comm_sign, Nat.mul_comm, Int.add_comm]

lemma neg_mul_datum (spec : Format) : mul spec x.neg y = (mul spec x y).neg := by
  cases x <;> cases y <;>
    simp only [UnpackedFloat.mul, UnpackedFloat.neg, neg_mul_sign, roundWithAccuracy_neg]

lemma neg_div_datum (spec : Format) : div spec x.neg y = (div spec x y).neg := by
  cases x <;> cases y <;>
    simp only [UnpackedFloat.div, UnpackedFloat.neg, neg_div_sign, roundWithAccuracy_neg]

/-- A difference is a sum, infinities and zeros included. -/
lemma sub_eq_add_neg_datum (spec : Format) : sub spec x y = add spec x y.neg := by
  cases x <;> cases y <;>
    simp only [UnpackedFloat.sub, UnpackedFloat.add, UnpackedFloat.neg, apply_neg, sub_eq_add_neg]

lemma add_comm_datum (spec : Format) : add spec x y = add spec y x := by
  cases x with
  | infinity s => cases y with
    | infinity s' => cases s <;> cases s' <;> rfl
    | _ => rfl
  | zero s => cases y with
    | zero s' => cases s <;> cases s' <;> rfl
    | _ => rfl
  | notANumber => cases y <;> rfl
  | finite s m e hm => cases y with
    | finite s' m' e' hm' => simp only [UnpackedFloat.add, min_comm, add_comm]
    | _ => rfl

/-! ## Agreement up to the sign of a zero -/

/-- The same datum, or zeros. -/
inductive Agree : UnpackedFloat → UnpackedFloat → Prop
  | same (x : UnpackedFloat) : Agree x x
  | zeros (s s' : Sign) : Agree (.zero s) (.zero s')

namespace Agree

variable {x y z x' y' : UnpackedFloat}

lemma symm (h : Agree x y) : Agree y x := by
  cases h with
  | same => exact .same x
  | zeros s s' => exact .zeros s' s

lemma trans (h : Agree x y) (h' : Agree y z) : Agree x z := by
  cases h with
  | same => exact h'
  | zeros s s' =>
      cases h' with
      | same => exact .zeros s s'
      | zeros _ s'' => exact .zeros s s''

lemma neg (h : Agree x y) : Agree x.neg y.neg := by
  cases h with
  | same => exact .same _
  | zeros s s' => exact .zeros (-s) (-s')

lemma add_right (spec : Format) (h : Agree x x') (y : UnpackedFloat) :
    Agree (add spec x y) (add spec x' y) := by
  cases h with
  | same => exact .same _
  | zeros s s' =>
      cases y with
      | zero s'' =>
          simp only [UnpackedFloat.add]
          split <;> split <;> exact .zeros _ _
      | _ => exact .same _

lemma add (spec : Format) (hx : Agree x x') (hy : Agree y y') :
    Agree (add spec x y) (add spec x' y') := by
  have hright := hy.add_right spec x'
  rw [add_comm_datum y, add_comm_datum y'] at hright
  exact (hx.add_right spec y).trans hright

lemma mul_right (spec : Format) (h : Agree x x') (y : UnpackedFloat) :
    Agree (mul spec x y) (mul spec x' y) := by
  cases h with
  | same => exact .same _
  | zeros s s' =>
      cases y with
      | zero s'' => exact .zeros _ _
      | finite s'' => exact .zeros _ _
      | _ => exact .same _

lemma mul (spec : Format) (hx : Agree x x') (hy : Agree y y') :
    Agree (mul spec x y) (mul spec x' y') := by
  have hright := hy.mul_right spec x'
  rw [mul_comm_datum y, mul_comm_datum y'] at hright
  exact (hx.mul_right spec y).trans hright

lemma div_right (spec : Format) (h : Agree x x') (y : UnpackedFloat) :
    Agree (div spec x y) (div spec x' y) := by
  cases h with
  | same => exact .same _
  | zeros s s' =>
      cases y with
      | infinity s'' => exact .zeros _ _
      | finite s'' => exact .zeros _ _
      | _ => exact .same _

end Agree

/-- A sum that turns its sign around can only come out as the other zero. -/
lemma agree_normalize_neg (spec : Format) (m : ℤ) (e : ℤ) (s : Sign) :
    Agree (UnpackedFloat.normalize spec (-m) e s) (UnpackedFloat.normalize spec m e s).neg := by
  unfold UnpackedFloat.normalize
  rcases lt_trichotomy m 0 with hlt | rfl | hgt
  · rw [compare_gt_iff_gt.2 (show 0 < -m by omega), compare_lt_iff_lt.2 hlt, ← round_neg]
    exact .same _
  · exact .zeros _ _
  · rw [compare_lt_iff_lt.2 (show -m < 0 by omega), compare_gt_iff_gt.2 hgt, ← round_neg, neg_neg]
    exact .same _

/-- Sums of negated data are negated sums, up to the sign of a zero. -/
lemma agree_add_neg (spec : Format) (x y : UnpackedFloat) :
    Agree (add spec x.neg y.neg) (add spec x y).neg := by
  cases x with
  | notANumber => exact .same _
  | infinity s =>
      cases y with
      | infinity s' => cases s <;> cases s' <;> exact .same _
      | _ => exact .same _
  | zero s =>
      cases y with
      | zero s' => cases s <;> cases s' <;> exact .zeros _ _
      | _ => exact .same _
  | finite s m e hm =>
      cases y with
      | finite s' m' e' hm' =>
          simp only [UnpackedFloat.add, UnpackedFloat.neg, apply_neg, ← neg_add]
          exact agree_normalize_neg spec _ _ _
      | _ => exact .same _

/-- Finite data that compare as equal are equal, since they are compared by exponent and mantissa. -/
lemma eq_of_compare_finite {s s' : Sign} {m m' : ℕ} {e e' : ℤ} {hm : 0 < m} {hm' : 0 < m'}
    (h : (UnpackedFloat.finite s m e hm).compare (.finite s' m' e' hm') = some .eq) :
    UnpackedFloat.finite s m e hm = .finite s' m' e' hm' := by
  have heq (hthen : (compare e e').then (compare m m') = .eq) : e = e' ∧ m = m' := by
    rw [Ordering.then_eq_eq, compare_eq_iff_eq, compare_eq_iff_eq] at hthen
    exact hthen
  cases s with
  | negative =>
      cases s' with
      | negative =>
          obtain ⟨rfl, rfl⟩ := heq (Ordering.swap_eq_eq.1 (Option.some.inj h))
          rfl
      | positive => cases h
  | positive =>
      cases s' with
      | negative => cases h
      | positive =>
          obtain ⟨rfl, rfl⟩ := heq (Option.some.inj h)
          rfl

/-- A multiple of zero is a zero or no number, so its sign does not matter. -/
lemma agree_neg_zero_mul (spec : Format) (s : Sign) (x : UnpackedFloat) :
    Agree (mul spec (.zero s) x).neg (mul spec (.zero s) x) := by
  cases x with
  | notANumber => exact .same _
  | infinity s' => exact .same _
  | zero s' => exact .zeros _ _
  | finite s' => exact .zeros _ _

/-- Of data that compare as equal, only zeros may differ. -/
lemma agree_of_compare {x y : UnpackedFloat} (h : x.compare y = some .eq) : Agree x y := by
  cases x with
  | notANumber => cases h
  | infinity s =>
      cases y with
      | infinity s' =>
          cases s <;> cases s'
          · exact .same _
          · cases h
          · cases h
          · exact .same _
      | _ => cases s <;> cases h
  | zero s =>
      cases y with
      | zero s' => exact .zeros s s'
      | notANumber => cases h
      | infinity s' => cases s' <;> cases h
      | finite s' => cases s' <;> cases h
  | finite s m e hm =>
      cases y with
      | zero s' => cases s <;> cases h
      | notANumber => cases h
      | infinity s' => cases s' <;> cases s <;> cases h
      | finite s' m' e' hm' =>
          rw [eq_of_compare_finite h]
          exact .same _

lemma compare_self {x : UnpackedFloat} (h : x ≠ .notANumber) : x.compare x = some .eq := by
  cases x with
  | notANumber => exact absurd rfl h
  | infinity s => cases s <;> rfl
  | zero s => rfl
  | finite s m e hm => cases s <;> simp [UnpackedFloat.compare]

lemma eq_notANumber_of_isNaN {x : UnpackedFloat} (h : x.isNaN) : x = .notANumber := by
  cases x with
  | notANumber => rfl
  | _ => cases h

/-! ## Sign laws of arithmetic -/

variable (a b : Float32)

@[simp] lemma neg_neg_single : - -a = a := by
  apply datum_injective
  rw [datum_neg, datum_neg, neg_neg_datum]

lemma mul_comm_single : a * b = b * a := congrArg ofDatum (mul_comm_datum _ _ _)

@[simp] lemma neg_mul_single : -a * b = -(a * b) := by
  show ofDatum (mul _ (datum (-a)) (datum b)) = -ofDatum (mul _ (datum a) (datum b))
  rw [datum_neg, neg_mul_datum, ofDatum_neg]

@[simp] lemma mul_neg_single : a * -b = -(a * b) := by
  rw [mul_comm_single, neg_mul_single, mul_comm_single]

@[simp] lemma neg_div_single : -a / b = -(a / b) := by
  show ofDatum (div _ (datum (-a)) (datum b)) = -ofDatum (div _ (datum a) (datum b))
  rw [datum_neg, neg_div_datum, ofDatum_neg]

lemma sub_eq_add_neg_single : a - b = a + -b := by
  show ofDatum (sub _ (datum a) (datum b)) = ofDatum (add _ (datum a) (datum (-b)))
  rw [datum_neg, sub_eq_add_neg_datum]

end Single

/-! ## Alike numbers -/

open Single

lemma beq_iff_compare {a b : Float32} :
    a == b ↔ (datum a).compare (datum b) = some .eq :=
  beq_iff_eq (a := (datum a).compare (datum b))

lemma isNaN_iff_datum {a : Float32} : a.isNaN ↔ datum a = .notANumber := by
  change (datum a).isNaN ↔ _
  constructor
  · exact eq_notANumber_of_isNaN
  · intro h
    rw [h]
    rfl

/-- Numbers are alike when their data agree. -/
lemma alike_iff_agree {a b : Float32} : Float32Alike a b ↔ Agree (datum a) (datum b) := by
  rw [Float32Alike, beq_iff_compare, isNaN_iff_datum, isNaN_iff_datum]
  constructor
  · rintro (hcompare | ⟨ha, hb⟩)
    · exact agree_of_compare hcompare
    · rw [ha, hb]
      exact .same _
  · intro h
    generalize datum a = x at h
    generalize datum b = y at h
    cases h with
    | zeros s s' => exact .inl rfl
    | same =>
        by_cases hnan : x = .notANumber
        · exact .inr ⟨hnan, hnan⟩
        · exact .inl (compare_self hnan)

namespace Float32Alike

variable {a a' b b' c : Float32}

@[refl] lemma refl (a : Float32) : Float32Alike a a := alike_iff_agree.2 (.same _)

lemma of_eq (h : a = b) : Float32Alike a b := h ▸ refl a

@[symm] lemma symm (h : Float32Alike a b) : Float32Alike b a :=
  alike_iff_agree.2 (alike_iff_agree.1 h).symm

@[trans] lemma trans (h : Float32Alike a b) (h' : Float32Alike b c) : Float32Alike a c :=
  alike_iff_agree.2 ((alike_iff_agree.1 h).trans (alike_iff_agree.1 h'))

/-- Data that agree are stored as alike numbers. -/
lemma ofDatum {x y : UnpackedFloat} (h : Agree x y) : Float32Alike (ofDatum x) (ofDatum y) := by
  cases h with
  | same => exact refl _
  | zeros s s' => cases s <;> cases s' <;> exact .inl rfl

lemma neg (h : Float32Alike a b) : Float32Alike (-a) (-b) := ofDatum (alike_iff_agree.1 h).neg

lemma add (ha : Float32Alike a a') (hb : Float32Alike b b') : Float32Alike (a + b) (a' + b') :=
  ofDatum ((alike_iff_agree.1 ha).add _ (alike_iff_agree.1 hb))

lemma sub (ha : Float32Alike a a') (hb : Float32Alike b b') : Float32Alike (a - b) (a' - b') := by
  rw [sub_eq_add_neg_single, sub_eq_add_neg_single]
  exact ha.add hb.neg

lemma mul (ha : Float32Alike a a') (hb : Float32Alike b b') : Float32Alike (a * b) (a' * b') :=
  ofDatum ((alike_iff_agree.1 ha).mul _ (alike_iff_agree.1 hb))

lemma div_right (h : Float32Alike a a') (b : Float32) : Float32Alike (a / b) (a' / b) :=
  ofDatum ((alike_iff_agree.1 h).div_right _ _)

/-- Alike numbers are equal, or zeros. -/
lemma eq_or_zeros (h : Float32Alike a b) :
    a = b ∨ ∃ s s', datum a = .zero s ∧ datum b = .zero s' := by
  have hagree := alike_iff_agree.1 h
  generalize hx : datum a = x at hagree
  generalize hy : datum b = y at hagree
  cases hagree with
  | same => exact .inl (datum_injective (hx.trans hy.symm))
  | zeros s s' => exact .inr ⟨s, s', rfl, rfl⟩

/-- Alike numbers have the same square, since that of a zero is positive. -/
lemma mul_self (h : Float32Alike a b) : a * a = b * b := by
  rcases h.eq_or_zeros with rfl | ⟨s, s', ha, hb⟩
  · rfl
  · show Single.ofDatum (UnpackedFloat.mul _ (datum a) (datum a)) =
      Single.ofDatum (UnpackedFloat.mul _ (datum b) (datum b))
    rw [ha, hb]
    cases s <;> cases s' <;> rfl

lemma beq_zero_iff : a == 0 ↔ Float32Alike a 0 := by
  constructor
  · exact .inl
  · rintro (heq | ⟨-, hzero⟩)
    · exact heq
    · cases hzero

lemma bne_zero (h : Float32Alike a b) : (a != 0) = (b != 0) := by
  rw [bne, bne, Bool.not_inj_iff, Bool.eq_iff_iff, beq_zero_iff, beq_zero_iff]
  exact ⟨h.symm.trans, h.trans⟩

/-- Apart from zeros, alike numbers are equal. -/
lemma eq_of_bne_zero (h : Float32Alike a b) (ha : a != 0) : a = b := by
  rcases h.eq_or_zeros with heq | ⟨s, -, hzero, -⟩
  · exact heq
  · have : a == 0 := by
      rw [beq_iff_compare, hzero]
      rfl
    rw [bne, this] at ha
    cases ha

lemma neg_add_neg (a b : Float32) : Float32Alike (-a + -b) (-(a + b)) := by
  show Float32Alike (Single.ofDatum (UnpackedFloat.add _ (datum (-a)) (datum (-b))))
    (-Single.ofDatum (UnpackedFloat.add _ (datum a) (datum b)))
  rw [datum_neg, datum_neg, ← ofDatum_neg]
  exact ofDatum (agree_add_neg _ _ _)

lemma neg_sub_neg (a b : Float32) : Float32Alike (-a - -b) (-(a - b)) := by
  rw [sub_eq_add_neg_single, sub_eq_add_neg_single]
  exact neg_add_neg a (-b)

lemma neg_zero_mul (a : Float32) : Float32Alike (-(0 * a)) (0 * a) := by
  have h := ofDatum (agree_neg_zero_mul Format.binary32 .positive (datum a))
  rwa [ofDatum_neg] at h

end Float32Alike

end Arbor
