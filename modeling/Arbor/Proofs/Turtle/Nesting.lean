import Mathlib
import Arbor.Turtle.Forest

/-!
# Brackets and forests

A list of operations is the flattening of at most one forest (`Forest.flatten_injective`), and of
one whenever its brackets match (`Forest.exists_flatten_eq`).

Both are inductions that have to speak about lists in which brackets are closed that were opened
before.  For uniqueness that is the rest of a list behind a forest, which has to begin with a
closing bracket if with anything (`EndsGroup`); for existence it is a list that closes `k` brackets
more than it opens, which is a forest followed by `k` closing brackets with a forest behind each.
-/

namespace Arbor

namespace Forest

/-! ## Uniqueness -/

lemma Leaf.op_injective {a b : Leaf} (h : a.op = b.op) : a = b := by
  cases a <;> cases b <;> simp_all [Leaf.op]

/-- Nothing follows, or a closing bracket. -/
def EndsGroup (rest : List Op) : Prop := ∀ op ∈ rest.head?, op = .pop

lemma endsGroup_nil : EndsGroup [] := by
  simp [EndsGroup]

lemma endsGroup_pop (rest : List Op) : EndsGroup (.pop :: rest) := by
  simp [EndsGroup]

lemma not_endsGroup_leaf (op : Leaf) (rest : List Op) : ¬ EndsGroup (op.op :: rest) := by
  cases op <;> simp [EndsGroup, Leaf.op]

lemma not_endsGroup_push (rest : List Op) : ¬ EndsGroup (.push :: rest) := by
  simp [EndsGroup]

/-- A forest in front of a list is told apart from what follows by the first bracket that closes
none of its own. -/
lemma flatten_append_injective {f g : Forest} {rest rest' : List Op} (hrest : EndsGroup rest)
    (hrest' : EndsGroup rest') (h : f.flatten ++ rest = g.flatten ++ rest') :
    f = g ∧ rest = rest' := by
  induction f generalizing g rest rest' with
  | nil =>
      cases g with
      | nil => exact ⟨rfl, h⟩
      | leaf op g =>
          have hbehind : rest = op.op :: (g.flatten ++ rest') := h
          exact absurd (hbehind ▸ hrest) (not_endsGroup_leaf op _)
      | group inner g =>
          have hbehind : rest = .push :: (inner.flatten ++ .pop :: g.flatten ++ rest') := h
          exact absurd (hbehind ▸ hrest) (not_endsGroup_push _)
  | leaf op f ih =>
      cases g with
      | nil =>
          have hbehind : rest' = op.op :: (f.flatten ++ rest) := h.symm
          exact absurd (hbehind ▸ hrest') (not_endsGroup_leaf op _)
      | leaf op' g =>
          obtain ⟨hop, htail⟩ := List.cons.inj h
          obtain ⟨rfl, rfl⟩ := ih hrest hrest' htail
          exact ⟨by rw [Leaf.op_injective hop], rfl⟩
      | group inner g =>
          have hop : op.op = .push := (List.cons.inj h).1
          cases op <;> simp [Leaf.op] at hop
  | group inner f ihInner ihRest =>
      cases g with
      | nil =>
          have hbehind : rest' = .push :: (inner.flatten ++ .pop :: f.flatten ++ rest) := h.symm
          exact absurd (hbehind ▸ hrest') (not_endsGroup_push _)
      | leaf op' g =>
          have hop : .push = op'.op := (List.cons.inj h).1
          cases op' <;> simp [Leaf.op] at hop
      | group inner' g =>
          have htail : inner.flatten ++ .pop :: (f.flatten ++ rest) =
              inner'.flatten ++ .pop :: (g.flatten ++ rest') := by
            simpa [flatten] using h
          obtain ⟨rfl, hbehind⟩ := ihInner (endsGroup_pop _) (endsGroup_pop _) htail
          obtain ⟨rfl, rfl⟩ := ihRest hrest hrest' (List.cons.inj hbehind).2
          exact ⟨rfl, rfl⟩

/-- No two forests have the same operations. -/
lemma flatten_injective {f g : Forest} (h : f.flatten = g.flatten) : f = g := by
  refine (flatten_append_injective (f := f) (g := g) endsGroup_nil endsGroup_nil ?_).1
  rw [h]

/-! ## Existence -/

/-- A list that closes `k` brackets more than it opens, and never more than that, is a forest
followed by `k` closing brackets with a forest behind each. -/
lemma exists_flatten_append {ops : List Op} {k : ℕ}
    (hfront : ∀ front, front <+: ops → -(k : ℤ) ≤ depth front) (hend : depth ops = -(k : ℤ)) :
    ∃ (f : Forest) (fs : List Forest), fs.length = k ∧
      ops = f.flatten ++ fs.flatMap fun g => .pop :: g.flatten := by
  induction ops generalizing k with
  | nil =>
      have hk : k = 0 := by simpa using hend
      exact ⟨nil, [], hk.symm, rfl⟩
  | cons op ops ih =>
      have hstep : ∀ front, front <+: ops → -(k : ℤ) ≤ op.drift + depth front := by
        intro front h
        simpa using hfront (op :: front) (List.cons_prefix_cons.2 ⟨rfl, h⟩)
      rw [depth_cons] at hend
      -- An operation without brackets goes in front of the first forest.
      have hleaf : ∀ l : Leaf, l.op = op → ∃ (f : Forest) (fs : List Forest), fs.length = k ∧
          op :: ops = f.flatten ++ fs.flatMap fun g => .pop :: g.flatten := by
        rintro l rfl
        rw [drift_leaf, Int.zero_add] at hend
        have htail : ∀ front, front <+: ops → -(k : ℤ) ≤ depth front := by
          intro front h
          simpa [drift_leaf] using hstep front h
        obtain ⟨f, fs, hlen, rfl⟩ := ih htail hend
        exact ⟨leaf l f, fs, hlen, rfl⟩
      cases op with
      | draw => exact hleaf .draw rfl
      | turn sign => exact hleaf (.turn sign) rfl
      | ignore => exact hleaf .ignore rfl
      | push =>
          simp only [Op.drift] at hstep hend
          have htail : ∀ front, front <+: ops → -((k + 1 : ℕ) : ℤ) ≤ depth front := by
            intro front h
            have := hstep front h
            omega
          obtain ⟨f, fs, hlen, rfl⟩ := ih htail (by omega)
          obtain ⟨g, gs, rfl⟩ := List.exists_cons_of_length_eq_add_one hlen
          refine ⟨group f g, gs, by simpa using hlen, ?_⟩
          simp [flatten]
      | pop =>
          simp only [Op.drift] at hstep hend
          have hpos : 0 < k := by
            have := hstep [] List.nil_prefix
            rw [depth_nil] at this
            omega
          have htail : ∀ front, front <+: ops → -((k - 1 : ℕ) : ℤ) ≤ depth front := by
            intro front h
            have := hstep front h
            omega
          obtain ⟨f, fs, hlen, rfl⟩ := ih htail (by omega)
          refine ⟨nil, f :: fs, by simp only [List.length_cons]; omega, ?_⟩
          simp [flatten]

/-- Operations with matching brackets are those of a forest. -/
lemma exists_flatten_eq {ops : List Op} (h : Balanced ops) : ∃ f : Forest, f.flatten = ops := by
  have hfront : ∀ front, front <+: ops → -((0 : ℕ) : ℤ) ≤ depth front := by
    intro front hf
    simpa using h.nonneg front hf
  obtain ⟨f, fs, hlen, hops⟩ := exists_flatten_append hfront (by simpa using h.closed)
  rw [List.length_eq_zero_iff.1 hlen] at hops
  exact ⟨f, by simpa using hops.symm⟩

end Forest

end Arbor
