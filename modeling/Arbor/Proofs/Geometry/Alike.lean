import Arbor.Proofs.Geometry.Signs
import Arbor.Surface

/-!
# Alike things stay alike

What is computed from alike vectors, rotations and poses is alike again.  There are two places where
this takes more than the same fact about numbers.  A length is a root of squares, and alike numbers
have equal squares, so alike vectors have equal lengths (`Vec3.Alike.length`) and no quotient ever
sees the sign of a zero.  And steering hands its angle to sine and cosine, of which nothing is known,
but only when the angle is no zero, so that alike angles are equal (`Pose.Alike.steer`).
-/

namespace Arbor

/-! ## Vectors -/

namespace Vec3.Alike

variable {a a' b b' c : Vec3} {k k' : Float32}

@[refl] lemma refl (a : Vec3) : a.Alike a where
  x := .refl _
  y := .refl _
  z := .refl _

@[trans] lemma trans (h : a.Alike b) (h' : b.Alike c) : a.Alike c where
  x := h.x.trans h'.x
  y := h.y.trans h'.y
  z := h.z.trans h'.z

lemma add (ha : a.Alike a') (hb : b.Alike b') : (a + b).Alike (a' + b') where
  x := ha.x.add hb.x
  y := ha.y.add hb.y
  z := ha.z.add hb.z

lemma sub (ha : a.Alike a') (hb : b.Alike b') : (a - b).Alike (a' - b') where
  x := ha.x.sub hb.x
  y := ha.y.sub hb.y
  z := ha.z.sub hb.z

lemma mul (ha : a.Alike a') (hk : Float32Alike k k') : (a * k).Alike (a' * k') where
  x := ha.x.mul hk
  y := ha.y.mul hk
  z := ha.z.mul hk

lemma div_right (ha : a.Alike a') (k : Float32) : (a / k).Alike (a' / k) where
  x := ha.x.div_right k
  y := ha.y.div_right k
  z := ha.z.div_right k

lemma dot (ha : a.Alike a') (hb : b.Alike b') : Float32Alike (a.dot b) (a'.dot b') :=
  ((ha.x.mul hb.x).add (ha.y.mul hb.y)).add (ha.z.mul hb.z)

lemma cross (ha : a.Alike a') (hb : b.Alike b') : (a.cross b).Alike (a'.cross b') where
  x := (ha.y.mul hb.z).sub (hb.y.mul ha.z)
  y := (ha.z.mul hb.x).sub (hb.z.mul ha.x)
  z := (ha.x.mul hb.y).sub (hb.x.mul ha.y)

lemma dot_self (h : a.Alike a') : a.dot a = a'.dot a' := by
  rw [Vec3.dot, Vec3.dot, h.x.mul_self, h.y.mul_self, h.z.mul_self]

lemma length (h : a.Alike a') : a.length = a'.length := by
  rw [Vec3.length, Vec3.length, h.dot_self]

lemma normalize (h : a.Alike a') : a.normalize.Alike a'.normalize := by
  rw [Vec3.normalize, Vec3.normalize, h.length]
  exact h.mul (.refl _)

lemma normalizeOrZero (h : a.Alike a') : a.normalizeOrZero.Alike a'.normalizeOrZero := by
  rw [Vec3.normalizeOrZero, Vec3.normalizeOrZero, h.length]
  split
  · exact h.mul (.refl _)
  · exact .refl _

end Vec3.Alike

/-! ## Rotations -/

namespace Quat.Alike

variable {p p' q q' r : Quat} {v v' : Vec3}

@[refl] lemma refl (q : Quat) : q.Alike q where
  x := .refl _
  y := .refl _
  z := .refl _
  w := .refl _

@[trans] lemma trans (h : p.Alike q) (h' : q.Alike r) : p.Alike r where
  x := h.x.trans h'.x
  y := h.y.trans h'.y
  z := h.z.trans h'.z
  w := h.w.trans h'.w

lemma vector (h : q.Alike q') : q.vector.Alike q'.vector where
  x := h.x
  y := h.y
  z := h.z

lemma norm (h : q.Alike q') : q.norm = q'.norm := by
  rw [Quat.norm, Quat.norm, h.x.mul_self, h.y.mul_self, h.z.mul_self, h.w.mul_self]

lemma normalize (h : q.Alike q') : q.normalize.Alike q'.normalize := by
  rw [Quat.normalize, Quat.normalize, h.norm]
  exact ⟨h.x.div_right _, h.y.div_right _, h.z.div_right _, h.w.div_right _⟩

lemma mul (hp : p.Alike p') (hq : q.Alike q') : (p * q).Alike (p' * q') where
  x := ((hp.w.mul hq.x).add (hp.x.mul hq.w)).add ((hp.y.mul hq.z).sub (hp.z.mul hq.y))
  y := ((hp.w.mul hq.y).sub (hp.x.mul hq.z)).add ((hp.y.mul hq.w).add (hp.z.mul hq.x))
  z := ((hp.w.mul hq.z).add (hp.x.mul hq.y)).add ((hp.z.mul hq.w).sub (hp.y.mul hq.x))
  w := ((hp.w.mul hq.w).sub (hp.x.mul hq.x)).add ((hp.y.mul hq.y).neg.sub (hp.z.mul hq.z))

lemma rotate (hq : q.Alike q') (hv : v.Alike v') : (q.rotate v).Alike (q'.rotate v') := by
  have hb := hq.vector
  have hstraight := hv.mul ((hq.w.mul hq.w).sub (hb.dot hb))
  have halong := hb.mul ((hv.dot hb).mul (.refl 2))
  have hacross := (hb.cross hv).mul (hq.w.mul (.refl 2))
  exact (hstraight.add halong).add hacross

lemma ofAxisAngle (hv : v.Alike v') (trig : Trig) (angle : Float32) :
    (Quat.ofAxisAngle trig v angle).Alike (Quat.ofAxisAngle trig v' angle) where
  x := hv.x.mul (.refl _)
  y := hv.y.mul (.refl _)
  z := hv.z.mul (.refl _)
  w := .refl _

end Quat.Alike

/-! ## Poses -/

namespace Pose.Alike

variable {p p' p'' : Pose} {v v' : Vec3}

@[refl] lemma refl (p : Pose) : p.Alike p := ⟨.refl _, .refl _⟩

@[trans] lemma trans (h : p.Alike p') (h' : p'.Alike p'') : p.Alike p'' :=
  ⟨h.position.trans h'.position, h.rotation.trans h'.rotation⟩

lemma up (h : p.Alike p') : p.up.Alike p'.up := h.rotation.rotate (.refl _)

lemma advance (h : p.Alike p') (distance : Float32) :
    (p.advance distance).Alike (p'.advance distance) :=
  ⟨h.position.add (h.up.mul (.refl _)), h.rotation⟩

lemma turn (h : p.Alike p') (hv : v.Alike v') (trig : Trig) (degrees : Float32) :
    (p.turn trig v degrees).Alike (p'.turn trig v' degrees) :=
  ⟨h.position, (h.rotation.mul (.ofAxisAngle hv trig _)).normalize⟩

lemma turnZ (h : p.Alike p') (trig : Trig) (degrees : Float32) :
    (p.turnZ trig degrees).Alike (p'.turnZ trig degrees) :=
  h.turn (.refl _) trig degrees

lemma toward (h : p.Alike p') (hv : v.Alike v') : (p.toward v).Alike (p'.toward v') :=
  (hv.sub h.position).normalizeOrZero

lemma steer (h : p.Alike p') (hv : v.Alike v') (trig : Trig) (strength : Float32) :
    (p.steer trig v strength).1.Alike (p'.steer trig v' strength).1 := by
  have haround := (h.toward hv).cross h.up
  have hangle := ((h.toward hv).dot h.up).mul (.refl strength)
  simp only [Pose.steer, haround.length]
  split
  · exact h
  · rw [← hangle.bne_zero]
    split
    · rename_i hturn
      rw [hangle.eq_of_bne_zero hturn]
      exact h.turn haround.normalize trig _
    · exact h

end Pose.Alike

/-! ## Spheres -/

lemma Sphere.alike_nearest (s : Sphere) {q q' : Vec3} (h : q.Alike q') :
    (s.nearest q).Alike (s.nearest q') := by
  have hoffset := h.sub (.refl s.center)
  simp only [Sphere.nearest, hoffset.dot_self]
  split
  · exact Vec3.Alike.add (.refl _) hoffset
  · exact Vec3.Alike.add (.refl _) ((hoffset.div_right _).mul (.refl _))

end Arbor
