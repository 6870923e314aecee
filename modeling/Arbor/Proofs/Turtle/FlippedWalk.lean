import Arbor.Proofs.Geometry.Flip
import Arbor.Proofs.Turtle.Alongside

/-!
# Walks by the other quaternion

Callers who hand over an initial pose may store its rotation by either of its two quaternions.  The
walk does not tell them apart (`Turtle.walk_flip`): its branches are alike, and where it ends the
rotation is stored by the other quaternion again.  This takes surroundings that do not tell alike
things apart either.
-/

namespace Arbor

variable {σ τ : Type}

/-- What a turtle does by one quaternion, it does by the other. -/
lemma movesAlike_flip (trig : Trig) (settings : Settings) :
    MovesAlike (fun p p' => p'.Alike p.flip) (fun q q' => q'.Alike q) id trig trig settings
      settings where
  position h := h.position
  advance h := (h.advance _).trans (Pose.advance_flip _ _)
  turn h _ := (h.turnZ trig _).trans (Pose.turn_flip _ trig _ _)
  steer h _ _ hq := (h.steer hq trig _).trans (Pose.steer_flip _ trig _ _)
  limit := rfl

/-- A surface that answers alike queries by alike points, with a pacer whose words depend on the
number of branches alone. -/
lemma Host.corresponds_beside {host : Host σ}
    (hpace : ∀ h h' n, (host.pace h n).1 = (host.pace h' n).1) {surface : Surface}
    (hsurface : ∀ {q q'}, q'.Alike q → (surface q').Alike (surface q)) :
    (host.beside surface).Corresponds (fun q q' => q'.Alike q) (fun _ _ => True)
      (host.beside surface) where
  word _ n := hpace _ _ n
  paced _ _ _ := trivial
  answer _ _ _ hq := hsurface hq
  asked _ _ _ _ := trivial
  emitted _ _ _ _ _ := trivial

namespace Turtle

variable (trig : Trig) (t : Turtle)

/-- In surroundings that correspond, walks by the two quaternions of a rotation do. -/
lemma walk_flip_of_corresponds {host : Host σ} {host' : Host τ} {R : σ → τ → Prop}
    (hhost : host.Corresponds (fun q q' => q'.Alike q) R host') {h : σ} {h' : τ} (hR : R h h')
    (pose : Pose) (w : Word) :
    (t.walk trig host h pose w).Corresponds (fun p p' => p'.Alike p.flip) (fun q q' => q'.Alike q)
      (t.walk trig host' h' pose.flip w) := by
  have halphabet (c : Symbol) : t.alphabet.get? c = (t.alphabet.get? c).map (Op.mapTurn id) := by
    rw [funext Op.mapTurn_id, Option.map_id']
  exact walk_corresponds (movesAlike_flip trig t.settings) hhost halphabet hR (.refl _) w

/-- **Walks by the other quaternion.**  Beside a surface that answers alike queries by alike points,
and with a pacer whose words depend on the number of branches alone, take the other quaternion of the
initial rotation.  The walk then ends with the same error or with a report that counts the same, its
branches are alike, and its last pose is alike to the other quaternion's at the same place.  The
initial pose may be of any bits. -/
theorem walk_flip (host : Host σ) (hpace : ∀ h h' n, (host.pace h n).1 = (host.pace h' n).1)
    (surface : Surface) (hsurface : ∀ q q', q'.Alike q → (surface q').Alike (surface q)) (h : σ)
    (pose : Pose) (w : Word) :
    (t.walk trig (host.beside surface) h pose w).Corresponds (fun p p' => p'.Alike p.flip)
      (fun q q' => q'.Alike q) (t.walk trig (host.beside surface) h pose.flip w) :=
  t.walk_flip_of_corresponds trig (Host.corresponds_beside hpace (hsurface _ _)) trivial pose w

/-- A pose that leans to one side. -/
def tilted : Pose := ⟨⟨0.3, 0.2, -0.1⟩, ⟨0.1, -0.7, 0.5, 0.5⟩⟩

/-- Its other quaternion is a different one, and leads to the same three branches beside a ball. -/
theorem walk_flip_tilted :
    (∀ h h' n, ((Host.plain .unlimited Surface.absent).pace h n).1 =
      ((Host.plain .unlimited Surface.absent).pace h' n).1) ∧
    (∀ q q' : Vec3, q'.Alike q → (Sphere.unit.nearest q').Alike (Sphere.unit.nearest q)) ∧
    tilted.flip ≠ tilted ∧
    ((standard { strength := 40 }).walk Trig.native
        ((Host.plain .unlimited Surface.absent).beside Sphere.unit.nearest) () tilted
        "F[+F]F".toList).Corresponds (fun p p' => p'.Alike p.flip) (fun q q' => q'.Alike q)
      ((standard { strength := 40 }).walk Trig.native
        ((Host.plain .unlimited Surface.absent).beside Sphere.unit.nearest) () tilted.flip
        "F[+F]F".toList) ∧
    ((standard { strength := 40 }).walk Trig.native
        ((Host.plain .unlimited Surface.absent).beside Sphere.unit.nearest) () tilted
        "F[+F]F".toList).branches.length = 3 := by
  have hpace : ∀ h h' n, ((Host.plain .unlimited Surface.absent).pace h n).1 =
      ((Host.plain .unlimited Surface.absent).pace h' n).1 := fun _ _ _ => rfl
  have hsurface (q q' : Vec3) (h : q'.Alike q) :
      (Sphere.unit.nearest q').Alike (Sphere.unit.nearest q) := Sphere.unit.alike_nearest h
  exact ⟨hpace, hsurface, by decide +kernel, walk_flip Trig.native (standard { strength := 40 }) _
    hpace Sphere.unit.nearest hsurface () tilted "F[+F]F".toList, rfl⟩

end Turtle

end Arbor
