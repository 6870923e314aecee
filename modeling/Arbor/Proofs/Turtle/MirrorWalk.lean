import Arbor.Grammar.Rename
import Arbor.Proofs.Geometry.Mirror
import Arbor.Proofs.Turtle.Alongside

/-!
# Walks seen in a mirror

A turtle whose turns have the opposite signs, that sets out from the reflected pose and meets
reflected surfaces, draws the mirror image of what the turtle itself draws (`Turtle.walk_mirror`).
The arithmetic rounds in both walks alike, so the image is exact up to the signs of zeros.  In the
standard alphabet the turns `+` and `-` have opposite signs, and swapping them in the word is enough.
-/

namespace Arbor

variable {σ τ : Type}

/-! ## Mirror images -/

/-- The second surface answers reflected queries by reflected points. -/
def Surface.Mirrors (surface surface' : Surface) : Prop :=
  ∀ {q q' : Vec3}, q'.Alike q.reflect → (surface' q').Alike (surface q).reflect

/-- The second surroundings are the mirror image of the first, as long as `R` relates their states;
and whatever is done with both keeps it so. -/
def Host.Mirrors (R : σ → τ → Prop) (host : Host σ) (host' : Host τ) : Prop :=
  host.Corresponds (fun q q' => q'.Alike q.reflect) R host'

/-- Surroundings with a surface that depends on the query alone. -/
lemma Host.mirrors_paced (pace : σ → ℕ → Pace × σ) {surface surface' : Surface}
    (h : surface.Mirrors surface') :
    (Host.paced pace surface).Mirrors Eq (Host.paced pace surface') where
  word := by
    rintro _ h _ _ rfl n
    rfl
  paced := by
    rintro _ h _ _ rfl n _
    rfl
  answer _ _ _ hq := h hq
  asked heq _ _ _ := heq
  emitted heq _ _ _ _ := heq

/-- The ball around the reflected center mirrors a ball. -/
lemma Sphere.mirrors_reflect (s : Sphere) : Surface.Mirrors s.nearest s.reflect.nearest :=
  fun hq => (s.reflect.alike_nearest hq).trans (s.nearest_reflect _)

/-- The turtle with the opposite sign in each of its turns. -/
def Turtle.mirror (t : Turtle) : Turtle :=
  { t with alphabet := t.alphabet.map (Op.mapTurn fun sign => -sign) }

/-- The second run is the mirror image of the first.  They end with the same error, or with reports
that count alike and end at reflected poses; and the branches of the one are those of the other,
reflected. -/
def Run.Mirrors (r : Run σ) (r' : Run τ) : Prop :=
  r.Corresponds (fun p p' => p'.Alike p.reflect) (fun q q' => q'.Alike q.reflect) r'

/-! ## Moves -/

/-- All that a turtle does, its mirror image does in the mirror. -/
lemma movesAlike_reflect {trig : Trig} (hparity : trig.Parity) (settings : Settings) :
    MovesAlike (fun p p' => p'.Alike p.reflect) (fun q q' => q'.Alike q.reflect)
      (fun sign => -sign) trig trig settings settings where
  position h := h.position
  advance h := (h.advance _).trans (Pose.advance_reflect _ _)
  turn h sign := by
    rw [Single.mul_neg_single]
    exact (h.turnZ trig _).trans (Pose.turnZ_reflect _ hparity _)
  steer h _ _ hq := (h.steer hq trig _).trans (Pose.steer_reflect _ trig _ _)
  limit := rfl

/-! ## Swapping the turns of a word -/

/-- The standard symbol that turns the other way. -/
def swapTurns (c : Symbol) : Symbol :=
  if c = '+' then '-' else if c = '-' then '+' else c

/-- No other standard symbol turns. -/
lemma mapTurn_of_get?_standard {c : Symbol} {op : Op} (hop : Alphabet.standard.get? c = some op)
    (hplus : c ≠ '+') (hminus : c ≠ '-') (g : Float32 → Float32) : op.mapTurn g = op := by
  have hmem := SymbolMap.mem_entries_of_get? hop
  have hentries : Alphabet.standard.entries = [('+', .turn (-1)), ('-', .turn 1), ('F', .draw),
    ('X', .ignore), ('Z', .ignore), ('[', .push), (']', .pop)] := rfl
  simp only [hentries, List.mem_cons, Prod.mk.injEq, hplus, hminus, false_and, false_or,
    List.not_mem_nil, or_false] at hmem
  rcases hmem with ⟨-, rfl⟩ | ⟨-, rfl⟩ | ⟨-, rfl⟩ | ⟨-, rfl⟩ | ⟨-, rfl⟩ <;> rfl

/-- The swapped symbol does what the mirrored turtle does for the symbol. -/
lemma Turtle.read_swapTurns {t : Turtle} (hstandard : t.alphabet = Alphabet.standard)
    (position : ℕ) (c : Symbol) : t.read position (swapTurns c) = t.mirror.read position c := by
  have hmirror : t.mirror.alphabet.get? c =
      (Alphabet.standard.get? c).map (Op.mapTurn fun sign => -sign) := by
    rw [mirror, SymbolMap.get?_map, hstandard]
  rw [read, read, hmirror, hstandard]
  by_cases hplus : c = '+'
  · subst hplus
    show Except.ok (Op.turn 1) = Except.ok (Op.turn (- -1))
    rw [Single.neg_neg_single]
  · by_cases hminus : c = '-'
    · subst hminus
      rfl
    · rw [swapTurns, if_neg hplus, if_neg hminus]
      cases hop : Alphabet.standard.get? c with
      | none => rfl
      | some op =>
          rw [Option.map_some, mapTurn_of_get?_standard hop hplus hminus]

/-! ## Walks -/

namespace Turtle

variable {R : σ → τ → Prop} {host : Host σ} {host' : Host τ}

lemma mirrors_walk_mirror {trig : Trig} (hparity : trig.Parity) (t : Turtle)
    (hhost : host.Mirrors R host') {h : σ} {h' : τ} (hR : R h h') (pose : Pose) (w : Word) :
    (t.walk trig host h pose w).Mirrors (t.mirror.walk trig host' h' pose.reflect w) := by
  have hmoves : MovesAlike _ _ _ trig trig t.settings t.mirror.settings :=
    movesAlike_reflect hparity t.settings
  have halphabet (c : Symbol) : t.mirror.alphabet.get? c = _ := SymbolMap.get?_map _ t.alphabet c
  exact walk_corresponds hmoves hhost halphabet hR (Pose.Alike.refl _) w

lemma walk_map_swapTurns (trig : Trig) {t : Turtle} (hstandard : t.alphabet = Alphabet.standard)
    (host : Host σ) (h : σ) (pose : Pose) (w : Word) :
    t.walk trig host h pose (w.map swapTurns) = t.mirror.walk trig host h pose w := by
  rw [walk, walk, State.follow_map]
  congr 2
  funext position c
  exact t.read_swapTurns hstandard position c

/-- **Walks in a mirror.**  Let the sine be odd and the cosine even, up to the signs of zeros.  If each
turn of a turtle is given the opposite sign, its pose is reflected and its surroundings are replaced
by their mirror image, then its walk becomes the mirror image: it ends with the same error or with a
report that counts alike, its branches are reflected, and so is its last pose.  In the standard
alphabet it is enough to swap `+` and `-` in the word.  Surfaces that answer reflected queries by
reflected points are mirror images of each other whatever the pacer, and so are balls of one radius
around reflected centers. -/
theorem walk_mirror {trig : Trig} (hparity : trig.Parity) (t : Turtle)
    (hhost : host.Mirrors R host') {h : σ} {h' : τ} (hR : R h h') (pose : Pose) (w : Word) :
    (t.walk trig host h pose w).Mirrors (t.mirror.walk trig host' h' pose.reflect w) ∧
    (t.alphabet = Alphabet.standard →
      (t.walk trig host h pose w).Mirrors
        (t.walk trig host' h' pose.reflect (w.map swapTurns))) ∧
    (∀ (pace : σ → ℕ → Pace × σ) (surface surface' : Surface), surface.Mirrors surface' →
      (Host.paced pace surface).Mirrors Eq (Host.paced pace surface')) ∧
    ∀ s : Sphere, Surface.Mirrors s.nearest s.reflect.nearest := by
  have hmirror := mirrors_walk_mirror hparity t hhost hR pose w
  refine ⟨hmirror, ?_, ?_, Sphere.mirrors_reflect⟩
  · intro hstandard
    rw [walk_map_swapTurns trig hstandard]
    exact hmirror
  · intro pace surface surface' hsurface
    exact Host.mirrors_paced pace hsurface

end Turtle

/-- Sine and cosine in single precision at the three angles by which the turtle turns on the walk
below, and as they are near zero everywhere else. -/
def bendingSines : Trig :=
  (Trig.turning.given (Float32.ofBits 0xbeac1fe1) (Float32.ofBits 0xbea8e68f)
    (Float32.ofBits 0x3f71ab64)).given (Float32.ofBits 0xbe3f33dd) (Float32.ofBits 0xbe3e17ef)
    (Float32.ofBits 0x3f7b8cdd)

lemma parity_bendingSines : bendingSines.Parity :=
  (Trig.parity_turning.given (by decide) _ _).given (by decide) _ _

namespace Turtle

/-- A ball beside the first branch of a walk from the origin. -/
def ballBeside : Sphere := ⟨⟨0.5, -1, 0.25⟩, 1⟩

/-- Two branches bend away from a ball beside them, and the other way from its image. -/
theorem walk_mirror_of_ballBeside :
    bendingSines.Parity ∧
    (Host.plain .unlimited ballBeside.nearest).Mirrors Eq
      (Host.plain .unlimited ballBeside.reflect.nearest) ∧
    ((standard { strength := 40 }).walk bendingSines (Host.plain .unlimited ballBeside.nearest) ()
        Pose.origin ['F', '+', 'F']).Mirrors
      ((standard { strength := 40 }).walk bendingSines
        (Host.plain .unlimited ballBeside.reflect.nearest) () Pose.origin.reflect
        ['F', '-', 'F']) ∧
    ((standard { strength := 40 }).walk bendingSines (Host.plain .unlimited ballBeside.nearest) ()
        Pose.origin ['F', '+', 'F']).branches.length = 2 := by
  have hhost : (Host.plain .unlimited ballBeside.nearest).Mirrors Eq
      (Host.plain .unlimited ballBeside.reflect.nearest) :=
    Host.mirrors_paced _ ballBeside.mirrors_reflect
  obtain ⟨-, hswapped, -⟩ := walk_mirror parity_bendingSines (standard { strength := 40 }) hhost rfl
    Pose.origin ['F', '+', 'F']
  exact ⟨parity_bendingSines, hhost, hswapped rfl, rfl⟩

end Turtle

end Arbor
