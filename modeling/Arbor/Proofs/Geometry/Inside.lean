import Arbor.Proofs.Geometry.Alike
import Arbor.Proofs.Geometry.Exact

/-!
# Turtles inside a ball

A query within a ball is taken to the frame of its center and back, and both ways are rounded.  A ball
leaves a turtle alone (`Sphere.LeavesAlone`) when its nearest point is where the turtle stands, so
that steering turns by nothing.  It does so for exactly those places within that survive the way
there and back (`Sphere.leavesAlone_iff`).  Those whose offset from the center is a vector in single
precision do, and around the origin all do.  Others need not (`Sphere.not_leavesAlone_besideAxis`), and
then steering takes the last bits that rounding has changed for a direction.
-/

namespace Arbor

open Float.Model (Format UnpackedFloat)
open Single

/-! ## Zeros -/

namespace Single

/-- A number less itself is zero, or no number. -/
lemma sub_self_single (a : Float32) : a - a = 0 ∨ a - a = ofDatum .notANumber := by
  show ofDatum (UnpackedFloat.sub _ (datum a) (datum a)) = 0 ∨
    ofDatum (UnpackedFloat.sub _ (datum a) (datum a)) = ofDatum .notANumber
  generalize datum a = x
  cases x with
  | notANumber => exact .inr rfl
  | infinity s => cases s <;> exact .inr rfl
  | zero s => cases s <;> exact .inl rfl
  | finite s m e hm =>
      simp only [UnpackedFloat.sub, Int.sub_self]
      exact .inl rfl

lemma units_of_beq_zero {a : Float32} (h : a == 0) : units a = 0 := by
  obtain rfl | ⟨s, s', hzero, -⟩ := Float32Alike.eq_or_zeros (.inl h)
  · rfl
  · rw [units, hzero]
    rfl

end Single

namespace Float32Alike

variable {a b : Float32}

/-- Zero times a finite number is a zero. -/
lemma zero_mul (ha : a.isFinite) : Float32Alike (0 * a) 0 := by
  change (datum a).isFinite at ha
  show Float32Alike (Single.ofDatum (UnpackedFloat.mul _ (datum 0) (datum a))) 0
  generalize datum a = x at ha
  refine ofDatum (y := .zero .positive) ?_
  cases x with
  | notANumber => cases ha
  | infinity s => cases ha
  | zero s => exact .zeros _ _
  | finite s m e hm => exact .zeros _ _

lemma mul_zero (ha : a.isFinite) : Float32Alike (a * 0) 0 := by
  rw [mul_comm_single]
  exact zero_mul ha

/-- Numbers that are alike are equal as numbers when they are finite. -/
lemma beq (h : Float32Alike a b) (hb : b.isFinite) : a == b := by
  obtain heq | ⟨-, hnan⟩ := h
  · exact heq
  · change (datum b).isFinite at hb
    rw [isNaN_iff_datum.1 hnan] at hb
    cases hb

end Float32Alike

namespace Vec3

variable {a b d : Vec3}

lemma beq_iff : a == b ↔ a.x == b.x ∧ a.y == b.y ∧ a.z == b.z := by
  show (a.x == b.x && (a.y == b.y && a.z == b.z)) = true ↔ _
  rw [Bool.and_eq_true, Bool.and_eq_true]

lemma isFinite_iff : a.isFinite ↔ a.x.isFinite ∧ a.y.isFinite ∧ a.z.isFinite := by
  rw [Vec3.isFinite, Bool.and_eq_true, Bool.and_eq_true, and_assoc]

lemma alike_of_beq (h : a == b) : a.Alike b := by
  obtain ⟨hx, hy, hz⟩ := beq_iff.1 h
  exact ⟨.inl hx, .inl hy, .inl hz⟩

lemma Alike.beq (h : a.Alike b) (hb : b.isFinite) : a == b := by
  obtain ⟨hx, hy, hz⟩ := isFinite_iff.1 hb
  exact beq_iff.2 ⟨h.x.beq hx, h.y.beq hy, h.z.beq hz⟩

/-- Nothing leads from a place to itself, even where the difference is no number. -/
lemma normalizeOrZero_sub_self (a : Vec3) : (a - a).normalizeOrZero = zero := by
  show normalizeOrZero ⟨a.x - a.x, a.y - a.y, a.z - a.z⟩ = zero
  rcases sub_self_single a.x with hx | hx <;> rcases sub_self_single a.y with hy | hy <;>
    rcases sub_self_single a.z with hz | hz <;> rw [hx, hy, hz] <;> decide +kernel

lemma zero_cross_alike (ha : a.isFinite) : (zero.cross a).Alike zero := by
  obtain ⟨hx, hy, hz⟩ := isFinite_iff.1 ha
  have hzero : Float32Alike (0 - 0 : Float32) 0 := .of_eq (by decide +kernel)
  exact
    { x := ((Float32Alike.zero_mul hz).sub (.mul_zero hy)).trans hzero
      y := ((Float32Alike.zero_mul hx).sub (.mul_zero hz)).trans hzero
      z := ((Float32Alike.zero_mul hy).sub (.mul_zero hx)).trans hzero }

/-! ## Offsets -/

/-- The vector `d` leads from `a` to `b` without any rounding. -/
structure IsOffset (d a b : Vec3) : Prop where
  finite : d.isFinite
  x : units b.x - units a.x = units d.x
  y : units b.y - units a.y = units d.y
  z : units b.z - units a.z = units d.z

namespace IsOffset

variable (hd : d.IsOffset a b) (ha : a.isFinite) (hb : b.isFinite)

include hd ha hb

/-- An offset is what subtraction computes. -/
lemma sub_alike : (b - a).Alike d := by
  obtain ⟨hax, hay, haz⟩ := isFinite_iff.1 ha
  obtain ⟨hbx, hby, hbz⟩ := isFinite_iff.1 hb
  obtain ⟨hdx, hdy, hdz⟩ := isFinite_iff.1 hd.finite
  exact ⟨.sub_of_units hbx hax hdx hd.x, .sub_of_units hby hay hdy hd.y,
    .sub_of_units hbz haz hdz hd.z⟩

/-- Going along an offset ends where it leads. -/
lemma add_alike : (a + d).Alike b := by
  obtain ⟨hax, hay, haz⟩ := isFinite_iff.1 ha
  obtain ⟨hbx, hby, hbz⟩ := isFinite_iff.1 hb
  obtain ⟨hdx, hdy, hdz⟩ := isFinite_iff.1 hd.finite
  have hx := hd.x
  have hy := hd.y
  have hz := hd.z
  exact ⟨.add_of_units hax hdx hbx (by omega), .add_of_units hay hdy hby (by omega),
    .add_of_units haz hdz hbz (by omega)⟩

lemma add_sub_beq : a + (b - a) == b :=
  ((Alike.add (.refl a) (hd.sub_alike ha hb)).trans (hd.add_alike ha hb)).beq hb

end IsOffset

/-- A place is its own offset from the origin. -/
lemma isOffset_of_beq_zero (ha : a == zero) (hb : b.isFinite) : b.IsOffset a b := by
  obtain ⟨hx, hy, hz⟩ := beq_iff.1 ha
  refine ⟨hb, ?_, ?_, ?_⟩
  · rw [units_of_beq_zero hx, Int.sub_zero]
  · rw [units_of_beq_zero hy, Int.sub_zero]
  · rw [units_of_beq_zero hz, Int.sub_zero]

end Vec3

/-! ## Steering on the spot -/

/-- Nothing turns a pose that stands on the nearest point, wherever that is. -/
theorem Pose.steer_of_alike_position (trig : Trig) {p : Pose} {nearest : Vec3}
    (hnear : nearest.Alike p.position) (hup : p.up.isFinite) (strength : Float32) :
    p.steer trig nearest strength = (p, 0) := by
  have htoward : (p.toward nearest).Alike Vec3.zero := by
    rw [← Vec3.normalizeOrZero_sub_self p.position]
    exact (hnear.sub (.refl _)).normalizeOrZero
  have haround : ((p.toward nearest).cross p.up).length = Vec3.zero.length :=
    ((htoward.cross (.refl _)).trans (Vec3.zero_cross_alike hup)).length
  have hshort : Vec3.zero.length < shortestAxis := by decide +kernel
  simp only [Pose.steer, haround, hshort, if_true]

/-- The angle is found without sine and cosine. -/
lemma Pose.snd_steer (trig : Trig) (p : Pose) (nearest : Vec3) (strength : Float32) :
    (p.steer trig nearest strength).2 =
      if ((p.toward nearest).cross p.up).length < shortestAxis then 0
      else (p.toward nearest).dot p.up * strength := by
  rw [Pose.steer]
  split <;> rfl

/-! ## Inside a ball -/

namespace Sphere

/-- The ball does not pull at a turtle at `q`: it sees no other place, and no pose there is turned. -/
structure LeavesAlone (s : Sphere) (q : Vec3) : Prop where
  nearest : s.nearest q == q
  steer : ∀ (trig : Trig) (p : Pose) (strength : Float32), p.position = q → p.up.isFinite →
    p.steer trig (s.nearest q) strength = (p, 0)

/-- Whether poses are turned is a matter of the nearest point alone. -/
lemma leavesAlone_iff_nearest {s : Sphere} {q : Vec3} : s.LeavesAlone q ↔ s.nearest q == q := by
  refine ⟨fun h => h.nearest, fun h => ⟨h, ?_⟩⟩
  rintro trig p strength rfl hup
  exact p.steer_of_alike_position trig (Vec3.alike_of_beq h) hup strength

/-- A query within the ball goes to the frame of the center and back. -/
lemma nearest_of_inside {s : Sphere} {q : Vec3}
    (hinside : (q - s.center).dot (q - s.center) ≤ s.radius * s.radius) :
    s.nearest q = s.center + (q - s.center) := if_pos hinside

/-- A ball leaves a place within alone exactly when taking the offset from the center and going along
it leads back.  Where that offset needs no rounding it does, so that a ball around the origin leaves
alone all that it contains. -/
theorem leavesAlone_iff (s : Sphere) (q : Vec3) (hcenter : s.center.isFinite) (hq : q.isFinite)
    (hinside : (q - s.center).dot (q - s.center) ≤ s.radius * s.radius) :
    (s.LeavesAlone q ↔ s.center + (q - s.center) == q) ∧
    ((∃ d : Vec3, d.IsOffset s.center q) → s.LeavesAlone q) ∧
    (s.center == Vec3.zero → s.LeavesAlone q) := by
  have hback : s.LeavesAlone q ↔ s.center + (q - s.center) == q := by
    rw [leavesAlone_iff_nearest, nearest_of_inside hinside]
  have hexact : (∃ d : Vec3, d.IsOffset s.center q) → s.LeavesAlone q := fun ⟨_, hd⟩ =>
    hback.2 (hd.add_sub_beq hcenter hq)
  exact ⟨hback, hexact, fun hzero => hexact ⟨q, Vec3.isOffset_of_beq_zero hzero hq⟩⟩

/-- The ball with its top at the origin and its center four below. -/
def buried : Sphere := around ⟨0, -4, 0⟩ 4

/-- Half a unit off the axis of `buried` the offset is a vector, `(0.5, 3.5, 0.25)`. -/
theorem leavesAlone_buried_half : buried.LeavesAlone ⟨0.5, -0.5, 0.25⟩ :=
  (leavesAlone_iff buried ⟨0.5, -0.5, 0.25⟩ (by decide +kernel) (by decide +kernel)
    (by decide +kernel)).2.1 ⟨⟨0.5, 3.5, 0.25⟩, by decide +kernel, by decide +kernel,
      by decide +kernel, by decide +kernel⟩

/-- A place within `buried` whose offset from the center is rounded. -/
def besideAxis : Vec3 := ⟨0.1, -0.1, 0.1⟩

/-- A pose there that leans to one side. -/
def leaning : Pose := ⟨besideAxis, ⟨0, 0, 0.6, 0.8⟩⟩

/-- Although the place is within the ball and nothing overflows, the ball answers with another place,
and the leaning pose is turned. -/
theorem not_leavesAlone_besideAxis :
    buried.center.isFinite ∧ buried.radius.isFinite ∧ 0 ≤ buried.radius ∧ besideAxis.isFinite ∧
    (besideAxis - buried.center).dot (besideAxis - buried.center) ≤ buried.radius * buried.radius ∧
    (buried.radius * buried.radius).isFinite ∧ ¬ (buried.nearest besideAxis == besideAxis) ∧
    leaning.position = besideAxis ∧ leaning.up.isFinite ∧
    ∀ trig : Trig, (leaning.steer trig (buried.nearest besideAxis) 30).2 != 0 := by
  refine ⟨by decide +kernel, by decide +kernel, by decide +kernel, by decide +kernel,
    by decide +kernel, by decide +kernel, by decide +kernel, rfl, by decide +kernel, fun trig => ?_⟩
  rw [Pose.snd_steer]
  decide +kernel

end Sphere

end Arbor
