import Arbor.Proofs.Geometry.Alike

/-!
# The two quaternions of a rotation

A rotation is stored by two quaternions that are negatives of each other.  What a pose does shows no
difference: the direction of growth is the same up to the signs of zeros (`Pose.up_flip`), so is every
step, and turning and bending lead from one quaternion and from the other to a pair of the same kind
(`Pose.turn_flip`, `Pose.steer_flip`).

Products of two components that both turn around come out bit for bit, and so do norms.  Where a sum
turns around as a whole it does so up to the sign of a zero.  Nothing need be known of sine and cosine.
-/

namespace Arbor

open Single

/-! ## Vectors -/

/-- The vector in the opposite direction. -/
def Vec3.neg (a : Vec3) : Vec3 := ⟨-a.x, -a.y, -a.z⟩

namespace Vec3

variable (a b : Vec3) (k : Float32)

/-- A vector and a factor that both turn around make the same multiple. -/
lemma neg_mul_neg : a.neg * -k = a * k := by
  show mk (-a.x * -k) (-a.y * -k) (-a.z * -k) = mk (a.x * k) (a.y * k) (a.z * k)
  simp only [neg_mul_single, mul_neg_single, neg_neg_single]

lemma neg_dot_neg : a.neg.dot b.neg = a.dot b := by
  simp only [dot, neg, neg_mul_single, mul_neg_single, neg_neg_single]

lemma dot_neg : Float32Alike (a.dot b.neg) (-a.dot b) := by
  simp only [dot, neg, mul_neg_single]
  exact ((Float32Alike.neg_add_neg _ _).add (.refl _)).trans (.neg_add_neg _ _)

lemma neg_cross : (a.neg.cross b).Alike (a.cross b).neg := by
  simp only [cross, neg, neg_mul_single, mul_neg_single]
  exact ⟨.neg_sub_neg _ _, .neg_sub_neg _ _, .neg_sub_neg _ _⟩

end Vec3

/-! ## Rotations -/

namespace Quat

variable (p q : Quat) (v : Vec3)

lemma norm_neg : q.neg.norm = q.norm := by
  simp only [norm, neg, neg_mul_single, mul_neg_single, neg_neg_single]

lemma normalize_neg : q.neg.normalize = q.normalize.neg := by
  rw [normalize, norm_neg]
  simp only [normalize, neg, neg_div_single]

/-- A product turns around with its first factor. -/
lemma neg_mul : (p.neg * q).Alike (p * q).neg := by
  show (mul p.neg q).Alike (mul p q).neg
  simp only [mul, neg, neg_mul_single]
  refine ⟨?_, ?_, ?_, ?_⟩
  · exact ((Float32Alike.neg_add_neg _ _).add (.neg_sub_neg _ _)).trans (.neg_add_neg _ _)
  · exact ((Float32Alike.neg_sub_neg _ _).add (.neg_add_neg _ _)).trans (.neg_add_neg _ _)
  · exact ((Float32Alike.neg_add_neg _ _).add (.neg_sub_neg _ _)).trans (.neg_add_neg _ _)
  · exact ((Float32Alike.neg_sub_neg _ _).add (.neg_sub_neg _ _)).trans (.neg_add_neg _ _)

/-- Both quaternions rotate alike.  In each of the three parts of a rotated vector the quaternion
stands twice. -/
lemma rotate_neg : (q.neg.rotate v).Alike (q.rotate v) := by
  have hstraight : v * (-q.w * -q.w - q.vector.neg.dot q.vector.neg) =
      v * (q.w * q.w - q.vector.dot q.vector) := by
    rw [Vec3.neg_dot_neg, neg_mul_single, mul_neg_single, neg_neg_single]
  have halong : (q.vector.neg * (v.dot q.vector.neg * 2)).Alike (q.vector * (v.dot q.vector * 2)) := by
    rw [← Vec3.neg_mul_neg q.vector, ← neg_mul_single]
    exact Vec3.Alike.mul (.refl _) ((v.dot_neg _).mul (.refl 2))
  have hacross : (q.vector.neg.cross v * (-q.w * 2)).Alike (q.vector.cross v * (q.w * 2)) := by
    rw [← Vec3.neg_mul_neg (q.vector.cross v), neg_mul_single]
    exact (Vec3.neg_cross _ _).mul (.refl _)
  show (v * (-q.w * -q.w - q.vector.neg.dot q.vector.neg) + _ + _).Alike _
  rw [hstraight]
  exact (Vec3.Alike.add (.refl _) halong).add hacross

end Quat

/-! ## Poses -/

namespace Pose

variable (p : Pose) (trig : Trig)

lemma up_flip : p.flip.up.Alike p.up := Quat.rotate_neg _ _

lemma advance_flip (distance : Float32) :
    (p.flip.advance distance).Alike (p.advance distance).flip where
  position := Vec3.Alike.add (.refl _) (p.up_flip.mul (.refl _))
  rotation := .refl _

lemma turn_flip (around : Vec3) (degrees : Float32) :
    (p.flip.turn trig around degrees).Alike (p.turn trig around degrees).flip where
  position := .refl _
  rotation := by
    show (p.rotation.neg * Quat.ofAxisAngle trig around _).normalize.Alike
      (p.rotation * Quat.ofAxisAngle trig around _).normalize.neg
    rw [← Quat.normalize_neg]
    exact (Quat.neg_mul _ _).normalize

/-- Steering sees the place and the direction of growth of a pose alone, and what it does with the
rotation is a turn. -/
lemma steer_flip (nearest : Vec3) (strength : Float32) :
    (p.flip.steer trig nearest strength).1.Alike (p.steer trig nearest strength).1.flip := by
  have haround := Vec3.Alike.cross (.refl (p.toward nearest)) p.up_flip
  have hangle := (Vec3.Alike.dot (.refl (p.toward nearest)) p.up_flip).mul (.refl strength)
  have hlength := haround.length
  change ((p.flip.toward nearest).cross p.flip.up).length = _ at hlength
  simp only [steer, hlength]
  split
  · exact .refl _
  · change Float32Alike ((p.flip.toward nearest).dot p.flip.up * strength) _ at hangle
    rw [← hangle.bne_zero]
    split
    · rename_i hturn
      rw [← hangle.eq_of_bne_zero hturn]
      exact (Alike.turn (.refl _) haround.normalize trig _).trans (p.turn_flip trig _ _)
    · exact .refl _

end Pose

end Arbor
