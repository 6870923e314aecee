import Arbor.Proofs.Geometry.Alike
import Arbor.Proofs.Geometry.Angles

/-!
# Geometry seen in a mirror

Reflecting space turns the first axis around.  Positions and directions are reflected by
`Vec3.reflect`; an axis of rotation is a vector product and keeps its first component where the
other two turn around (`Vec3.spin`).  A rotation is reflected like the axes it turns around.

Each law says that an operation on reflected arguments gives the reflection of its result.  Products
and quotients obey it bit for bit, and so do the dot product, lengths and norms.  Whatever adds a
component that turns around obeys it up to the sign of a zero.  Turns around the third axis take the
negated angle, and for them alone the sine has to be odd and the cosine even (`Trig.Parity`).
-/

namespace Arbor

open Single

/-! ## Vectors -/

namespace Vec3

/-- An axis of rotation as it looks when space is reflected. -/
def spin (a : Vec3) : Vec3 := ⟨a.x, -a.y, -a.z⟩

variable (a b : Vec3) (k : Float32)

lemma reflect_add : (a.reflect + b.reflect).Alike (a + b).reflect where
  x := .neg_add_neg _ _
  y := .refl _
  z := .refl _

lemma reflect_sub : (a.reflect - b.reflect).Alike (a - b).reflect where
  x := .neg_sub_neg _ _
  y := .refl _
  z := .refl _

lemma reflect_mul : a.reflect * k = (a * k).reflect :=
  congrArg (mk · (a.y * k) (a.z * k)) (neg_mul_single a.x k)

lemma reflect_div : a.reflect / k = (a / k).reflect :=
  congrArg (mk · (a.y / k) (a.z / k)) (neg_div_single a.x k)

lemma spin_mul : a.spin * k = (a * k).spin :=
  congrArg₂ (mk (a.x * k)) (neg_mul_single a.y k) (neg_mul_single a.z k)

/-- An axis that is scaled by a number that turns around is a direction. -/
lemma spin_mul_neg : a.spin * -k = (a * k).reflect := by
  show mk (a.x * -k) (-a.y * -k) (-a.z * -k) = mk (-(a.x * k)) (a.y * k) (a.z * k)
  simp only [neg_mul_single, mul_neg_single, neg_neg_single]

/-- Along the third axis, a number that turns around makes the axis turn around. -/
lemma unitZ_mul_neg : (unitZ * -k).Alike (unitZ * k).spin where
  x := (Float32Alike.of_eq (mul_neg_single _ _)).trans (.neg_zero_mul k)
  y := .of_eq (mul_neg_single _ _)
  z := .of_eq (mul_neg_single _ _)

lemma dot_reflect : a.reflect.dot b.reflect = a.dot b := by
  simp only [dot, reflect, neg_mul_single, mul_neg_single, neg_neg_single]

lemma dot_spin : a.spin.dot b.spin = a.dot b := by
  simp only [dot, spin, neg_mul_single, mul_neg_single, neg_neg_single]

/-- Directions and axes turn around in complementary components. -/
lemma dot_reflect_spin : Float32Alike (a.reflect.dot b.spin) (-a.dot b) := by
  simp only [dot, reflect, spin, neg_mul_single, mul_neg_single]
  exact ((Float32Alike.neg_add_neg _ _).add (.refl _)).trans (.neg_add_neg _ _)

lemma length_reflect : a.reflect.length = a.length := by
  rw [length, length, dot_reflect]

lemma length_spin : a.spin.length = a.length := by
  rw [length, length, dot_spin]

lemma normalize_spin : a.spin.normalize = a.normalize.spin := by
  rw [normalize, normalize, length_spin, spin_mul]

lemma normalizeOrZero_reflect : a.reflect.normalizeOrZero.Alike a.normalizeOrZero.reflect := by
  rw [normalizeOrZero, normalizeOrZero, length_reflect]
  split
  · rw [reflect_mul]
  · exact ⟨.inl rfl, .refl _, .refl _⟩

/-- The vector product of two directions is an axis. -/
lemma cross_reflect : (a.reflect.cross b.reflect).Alike (a.cross b).spin := by
  simp only [cross, reflect, spin, neg_mul_single, mul_neg_single]
  exact ⟨.refl _, .neg_sub_neg _ _, .neg_sub_neg _ _⟩

/-- The vector product of an axis and a direction is a direction. -/
lemma cross_spin_reflect : (a.spin.cross b.reflect).Alike (a.cross b).reflect := by
  simp only [cross, reflect, spin, neg_mul_single, mul_neg_single, neg_neg_single]
  exact ⟨.neg_sub_neg _ _, .refl _, .refl _⟩

end Vec3

/-! ## Rotations -/

namespace Quat

variable (p q : Quat) (v : Vec3)

lemma norm_reflect : q.reflect.norm = q.norm := by
  simp only [norm, reflect, neg_mul_single, mul_neg_single, neg_neg_single]

lemma normalize_reflect : q.reflect.normalize = q.normalize.reflect := by
  rw [normalize, norm_reflect]
  simp only [normalize, reflect, neg_div_single]

/-- Rotations in a row are reflected one by one. -/
lemma mul_reflect : (p.reflect * q.reflect).Alike (p * q).reflect := by
  show (mul p.reflect q.reflect).Alike (mul p q).reflect
  simp only [mul, reflect, neg_mul_single, mul_neg_single, neg_neg_single]
  -- Only the components that turn around are sums of terms that all turn around.
  refine ⟨.refl _, ?_, ?_, .refl _⟩
  · exact ((Float32Alike.neg_sub_neg _ _).add (.neg_add_neg _ _)).trans (.neg_add_neg _ _)
  · exact ((Float32Alike.neg_add_neg _ _).add (.neg_sub_neg _ _)).trans (.neg_add_neg _ _)

/-- A vector that is rotated has a part along itself, one along the axis and one across, and each
of them is a direction. -/
lemma rotate_reflect : (q.reflect.rotate v.reflect).Alike (q.rotate v).reflect := by
  have hstraight : (v.reflect * (q.w * q.w - q.vector.spin.dot q.vector.spin)).Alike
      (v * (q.w * q.w - q.vector.dot q.vector)).reflect := by
    rw [Vec3.dot_spin, Vec3.reflect_mul]
  have halong : (q.vector.spin * (v.reflect.dot q.vector.spin * 2)).Alike
      (q.vector * (v.dot q.vector * 2)).reflect := by
    rw [← Vec3.spin_mul_neg, ← neg_mul_single]
    exact Vec3.Alike.mul (.refl _) ((v.dot_reflect_spin _).mul (.refl 2))
  have hacross : (q.vector.spin.cross v.reflect * (q.w * 2)).Alike
      (q.vector.cross v * (q.w * 2)).reflect := by
    rw [← Vec3.reflect_mul]
    exact (Vec3.cross_spin_reflect _ _).mul (.refl _)
  have hsum := (hstraight.add halong).trans (Vec3.reflect_add _ _)
  exact (hsum.add hacross).trans (Vec3.reflect_add _ _)

lemma ofAxisAngle_spin (trig : Trig) (angle : Float32) :
    ofAxisAngle trig v.spin angle = (ofAxisAngle trig v angle).reflect := by
  simp only [ofAxisAngle, Vec3.spin_mul]
  rfl

/-- A turn around the third axis is reflected to the turn by the negated angle. -/
lemma ofAxisAngle_neg {trig : Trig} (hparity : trig.Parity) (angle : Float32) :
    (ofAxisAngle trig Vec3.unitZ (-angle)).Alike (ofAxisAngle trig Vec3.unitZ angle).reflect := by
  have hcos := hparity.cos (angle * 0.5)
  have haxis := (Vec3.Alike.mul (.refl Vec3.unitZ) (hparity.sin (angle * 0.5))).trans
    (Vec3.unitZ_mul_neg _)
  simp only [ofAxisAngle, neg_mul_single]
  exact ⟨haxis.x, haxis.y, haxis.z, hcos⟩

end Quat

/-! ## Poses -/

namespace Pose

variable (p : Pose) (trig : Trig)

lemma up_reflect : p.reflect.up.Alike p.up.reflect := by
  have hunit : Vec3.unitY.Alike Vec3.unitY.reflect := ⟨.inl rfl, .refl _, .refl _⟩
  exact (Quat.Alike.rotate (.refl _) hunit).trans (Quat.rotate_reflect _ _)

lemma advance_reflect (distance : Float32) :
    (p.reflect.advance distance).Alike (p.advance distance).reflect where
  position := by
    have hstep : (p.reflect.up * distance).Alike (p.up * distance).reflect := by
      rw [← Vec3.reflect_mul]
      exact p.up_reflect.mul (.refl _)
    exact (Vec3.Alike.add (.refl _) hstep).trans (Vec3.reflect_add _ _)
  rotation := .refl _

/-- A turn around an axis is reflected to the turn around the reflected axis. -/
lemma turn_reflect (around : Vec3) (degrees : Float32) :
    (p.reflect.turn trig around.spin degrees).Alike (p.turn trig around degrees).reflect where
  position := .refl _
  rotation := by
    show (p.rotation.reflect * Quat.ofAxisAngle trig around.spin _).normalize.Alike
      (p.rotation * Quat.ofAxisAngle trig around _).normalize.reflect
    rw [Quat.ofAxisAngle_spin, ← Quat.normalize_reflect]
    exact (Quat.mul_reflect _ _).normalize

/-- The third axis is reflected to its opposite, which the negated angle makes up for. -/
lemma turnZ_reflect {trig : Trig} (hparity : trig.Parity) (degrees : Float32) :
    (p.reflect.turnZ trig (-degrees)).Alike (p.turnZ trig degrees).reflect where
  position := .refl _
  rotation := by
    show (p.rotation.reflect * Quat.ofAxisAngle trig Vec3.unitZ (radians (-degrees))).normalize.Alike
      (p.rotation * Quat.ofAxisAngle trig Vec3.unitZ (radians degrees)).normalize.reflect
    have hturn := Quat.ofAxisAngle_neg hparity (radians degrees)
    rw [← Quat.normalize_reflect, radians, neg_mul_single]
    exact ((Quat.Alike.mul (.refl _) hturn).trans (Quat.mul_reflect _ _)).normalize

lemma toward_reflect (nearest : Vec3) :
    (p.reflect.toward nearest.reflect).Alike (p.toward nearest).reflect :=
  (Vec3.reflect_sub _ _).normalizeOrZero.trans (Vec3.normalizeOrZero_reflect _)

/-- Steering in the mirror takes the same angle around the reflected axis.  The angle is a product of
two directions and does not turn around, so the sine need not be odd here. -/
lemma steer_reflect (nearest : Vec3) (strength : Float32) :
    (p.reflect.steer trig nearest.reflect strength).1.Alike
      (p.steer trig nearest strength).1.reflect := by
  have htoward := p.toward_reflect nearest
  have haround := (htoward.cross p.up_reflect).trans (Vec3.cross_reflect _ _)
  have hcosine : Float32Alike ((p.reflect.toward nearest.reflect).dot p.reflect.up)
      ((p.toward nearest).dot p.up) :=
    (htoward.dot p.up_reflect).trans (.of_eq (Vec3.dot_reflect _ _))
  have hangle := hcosine.mul (.refl strength)
  have hlength := haround.length.trans (Vec3.length_spin _)
  simp only [steer, hlength]
  split
  · exact .refl _
  · rw [← hangle.bne_zero]
    split
    · rename_i hturn
      rw [← hangle.eq_of_bne_zero hturn]
      refine (Alike.turn (.refl _) haround.normalize trig _).trans ?_
      rw [Vec3.normalize_spin]
      exact p.turn_reflect trig _ _
    · exact .refl _

end Pose

/-! ## Spheres -/

/-- The ball around the reflected center. -/
def Sphere.reflect (s : Sphere) : Sphere := ⟨s.center.reflect, s.radius⟩

/-- The reflected ball answers reflected queries by reflected points. -/
lemma Sphere.nearest_reflect (s : Sphere) (q : Vec3) :
    (s.reflect.nearest q.reflect).Alike (s.nearest q).reflect := by
  have hoffset := Vec3.reflect_sub q s.center
  have hsquared : (q.reflect - s.center.reflect).dot (q.reflect - s.center.reflect) =
      (q - s.center).dot (q - s.center) := by
    rw [hoffset.dot_self, Vec3.dot_reflect]
  simp only [nearest, reflect, hsquared]
  split
  · exact (Vec3.Alike.add (.refl _) hoffset).trans (Vec3.reflect_add _ _)
  · refine (Vec3.Alike.add (.refl _) ((hoffset.div_right _).mul (.refl _))).trans ?_
    rw [Vec3.reflect_div, Vec3.reflect_mul]
    exact Vec3.reflect_add _ _

end Arbor
