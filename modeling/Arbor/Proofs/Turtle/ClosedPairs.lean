import Mathlib
import Arbor.Turtle.RootPath

/-!
# Closed bracket pairs and root paths

A root path is given by the positions that no closed bracket pair encloses (`rootPositions`), and a
walk knows nothing of pairs: it saves and restores.  Reading backward is between the two, and this
file settles that it finds the same path (`filterMap_rootPositions`), as long as no bracket is closed
that was not opened.

What both have in common is the depth.  A position is enclosed exactly when the depth falls below its
own somewhere behind it (`enclosed_iff_sinks`): the first place where it does so is the closing
bracket, and the last one in front of the position where it was as low is the opening one.  Reading
backward with `k` brackets still to be matched is the case of `k` closing brackets behind the list
(`Sinks`), and this is what the induction over the list is about (`pathBehind_eq`).
-/

namespace Arbor

/-! ## Depths along a list -/

/-- The depth in front of a position of a list. -/
def level (ops : List Op) (n : ℕ) : ℤ := depth (ops.take n)

section Level

variable {ops : List Op} {a b i j n : ℕ} {op : Op}

@[simp] lemma level_zero (ops : List Op) : level ops 0 = 0 := rfl

lemma level_length (ops : List Op) : level ops ops.length = depth ops := by
  rw [level, List.take_length]

lemma level_succ (h : ops[n]? = some op) : level ops (n + 1) = level ops n + op.drift := by
  rw [level, level, List.take_add_one, h, depth_append]
  simp

lemma level_append_of_le (h : n ≤ ops.length) (more : List Op) :
    level (ops ++ more) n = level ops n := by
  rw [level, level, List.take_append_of_le_length h]

/-- Within a stretch of a list the depth is what it is in the list, counted from the stretch. -/
lemma depth_take_drop_take (hi : a + i ≤ b) :
    depth (((ops.take b).drop a).take i) = level ops (a + i) - level ops a := by
  have hsplit : ops.take (a + i) = ops.take a ++ ((ops.take b).drop a).take i := by
    rw [List.take_add, List.drop_take, List.take_take, Nat.min_eq_left (by omega)]
  rw [level, level, hsplit, depth_append]
  omega

lemma depth_drop_take (hab : a ≤ b) :
    depth ((ops.take b).drop a) = level ops b - level ops a := by
  have hwhole : depth (((ops.take b).drop a).take (b - a)) = level ops (a + (b - a)) - level ops a :=
    depth_take_drop_take (by omega)
  have hlength : ((ops.take b).drop a).length ≤ b - a := by
    rw [List.length_drop]
    exact Nat.sub_le_sub_right (List.length_take_le b ops) a
  rwa [List.take_of_length_le hlength, Nat.add_sub_cancel' hab] at hwhole

lemma eq_push_of_drift_pos (h : 0 < op.drift) : op = .push := by
  cases op <;> simp [Op.drift] at h ⊢

lemma eq_pop_of_drift_neg (h : op.drift < 0) : op = .pop := by
  cases op <;> simp [Op.drift] at h ⊢

lemma drift_of_leads (h : op.leads = true) : op.drift = 0 := by
  cases op <;> simp [Op.leads, Op.drift] at h ⊢

end Level

/-! ## Enclosed positions -/

section Enclosed

variable {ops : List Op} {a b j : ℕ} {op : Op}

/-- The depth falls below that of `j` behind it, at the latest when `k` more brackets are closed. -/
def Sinks (k : ℕ) (ops : List Op) (j : ℕ) : Prop :=
  (∃ n, j < n ∧ n ≤ ops.length ∧ level ops n < level ops j) ∨ depth ops - k < level ops j

/-- Brackets that belong together have the same depth outside of them, and no less between them. -/
lemma Closes.level_le (h : Closes ops a b) (haj : a < j) (hjb : j ≤ b) :
    level ops b ≤ level ops j := by
  have hlt := h.lt
  have hend := h.between.closed
  rw [depth_drop_take (by omega)] at hend
  have hfront := h.between.nonneg _ (List.take_prefix (j - (a + 1)) _)
  rw [depth_take_drop_take (by omega), Nat.add_sub_cancel' haj] at hfront
  omega

/-- Behind a position in a closed pair the depth falls below that of the position. -/
lemma Enclosed.exists_level_lt (h : Enclosed ops j) :
    ∃ n, j < n ∧ n ≤ ops.length ∧ level ops n < level ops j := by
  obtain ⟨a, ha, b, hb, hjb, hcloses⟩ := h
  have hle := hcloses.level_le ha hjb.le
  have hpop : level ops (b + 1) = level ops b - 1 := level_succ hcloses.closing
  exact ⟨b + 1, by omega, hb, by omega⟩

/-- Where the depth falls below that of a position, the position is in a closed pair, if no bracket
is closed that was not opened. -/
lemma enclosed_of_level_lt (hnonneg : ∀ n ≤ ops.length, 0 ≤ level ops n) (hj : ops[j]? = some op)
    (hleads : op.leads = true) (hsink : ∃ n, j < n ∧ n ≤ ops.length ∧ level ops n < level ops j) :
    Enclosed ops j := by
  have hflat : level ops (j + 1) = level ops j := by
    rw [level_succ hj, drift_of_leads hleads, Int.add_zero]
  -- The closing bracket is the first operation to fall below the depth of `j`.
  classical
  obtain ⟨hjn, hnlen, hnlow⟩ := Nat.find_spec hsink
  have hfirst := fun m (hm : m < Nat.find hsink) => Nat.find_min hsink hm
  generalize Nat.find hsink = n at hjn hnlen hnlow hfirst
  obtain ⟨b, rfl⟩ : ∃ b, n = b + 1 := ⟨n - 1, by omega⟩
  have hjb : j < b := by
    rcases Nat.lt_succ_iff_lt_or_eq.1 hjn with hjb | rfl
    · exact hjb
    · omega
  have hinside : ∀ m, j ≤ m → m ≤ b → level ops j ≤ level ops m := by
    intro m hjm hmb
    rcases Nat.eq_or_lt_of_le hjm with rfl | hjm
    · exact le_rfl
    · by_contra hlow
      exact hfirst m (by omega) ⟨hjm, by omega, by omega⟩
  have hb : ops[b]? = some ops[b] := List.getElem?_eq_getElem (by omega)
  have hbstep := level_succ hb
  have hblow := hinside b hjb.le le_rfl
  have hpop : ops[b] = .pop := eq_pop_of_drift_neg (by omega)
  rw [hpop, Op.drift] at hbstep
  -- The opening one is the last operation in front of `j` that was below it.
  have hstart : level ops 0 < level ops j := by
    have := hnonneg (b + 1) hnlen
    rw [level_zero]
    omega
  have haspec := Nat.findGreatest_spec (P := fun a => level ops a < level ops j) (Nat.zero_le j)
    hstart
  have hale := Nat.findGreatest_le (P := fun a => level ops a < level ops j) j
  have hlast := fun m => Nat.findGreatest_is_greatest (P := fun a => level ops a < level ops j)
    (n := j) (k := m)
  generalize Nat.findGreatest (fun a => level ops a < level ops j) j = a at haspec hale hlast
  have haj : a < j := by
    rcases Nat.eq_or_lt_of_le hale with rfl | haj
    · exact absurd haspec (lt_irrefl _)
    · exact haj
  have hbetween : ∀ m, a < m → m ≤ b → level ops j ≤ level ops m := by
    intro m ham hmb
    rcases Nat.lt_or_ge m j with hmj | hjm
    · exact not_lt.1 (hlast m ham hmj.le)
    · exact hinside m hjm hmb
  have ha : ops[a]? = some ops[a] := List.getElem?_eq_getElem (by omega)
  have hastep := level_succ ha
  have hahigh := hbetween (a + 1) (by omega) (by omega)
  have hpush : ops[a] = .push := eq_push_of_drift_pos (by omega)
  rw [hpush, Op.drift] at hastep
  refine ⟨a, haj, b, by omega, hjb, by omega, hpush ▸ ha, hpop ▸ hb, ?_⟩
  rw [balanced_iff_take]
  constructor
  · intro i hi
    rw [List.length_drop, List.length_take] at hi
    have hhigh := hbetween (a + 1 + i) (by omega) (by omega)
    rw [depth_take_drop_take (by omega)]
    omega
  · rw [depth_drop_take (by omega)]
    omega

/-- **A position is enclosed where the depth falls below its own.** -/
lemma enclosed_iff_sinks (hnonneg : ∀ n ≤ ops.length, 0 ≤ level ops n) (hj : ops[j]? = some op)
    (hleads : op.leads = true) : Enclosed ops j ↔ Sinks 0 ops j := by
  have hjlen : j < ops.length := (List.getElem?_eq_some_iff.1 hj).1
  constructor
  · intro h
    exact .inl h.exists_level_lt
  · rintro (hsink | hend)
    · exact enclosed_of_level_lt hnonneg hj hleads hsink
    · refine enclosed_of_level_lt hnonneg hj hleads ⟨ops.length, hjlen, le_rfl, ?_⟩
      rw [level_length]
      omega

end Enclosed

/-! ## Reading backward -/

section Backward

variable {ops : List Op} {j k n : ℕ} {op : Op}

/-- How many brackets are still to be matched in front of an operation when `k` are behind it. -/
def Op.pending (k : ℕ) : Op → ℕ
  | .pop => k + 1
  | .push => k - 1
  | _ => k

/-- The draws and turns that still hold when `k` more brackets are closed behind a list. -/
def pathBehind (k : ℕ) (ops : List Op) : List Op := (visible k ops.reverse).reverse

@[simp] lemma pathBehind_nil (k : ℕ) : pathBehind k [] = [] := by
  simp [pathBehind, visible]

/-- The last operation of a list stands on the path if it leads and nothing is closed behind it. -/
lemma pathBehind_snoc (k : ℕ) (ops : List Op) (op : Op) :
    pathBehind k (ops ++ [op]) =
      pathBehind (op.pending k) ops ++ if op.leads ∧ k = 0 then [op] else [] := by
  rw [pathBehind, List.reverse_append, List.reverse_singleton, List.singleton_append]
  cases op <;> cases k <;> simp [visible, pathBehind, Op.pending, Op.leads]

/-- An operation behind a position sinks the depth as the brackets do that it leaves to be matched. -/
lemma sinks_snoc (hj : j < ops.length) :
    Sinks k (ops ++ [op]) j ↔ Sinks (op.pending k) ops j := by
  have hold : ∀ n ≤ ops.length, level (ops ++ [op]) n = level ops n :=
    fun n hn => level_append_of_le hn [op]
  have hlast : level (ops ++ [op]) (ops.length + 1) = depth ops + op.drift := by
    rw [level, List.take_of_length_le (by simp), depth_append]
    simp
  have hend : depth ops < level ops j → ∃ n, j < n ∧ n ≤ ops.length ∧ level ops n < level ops j :=
    fun hlow => ⟨ops.length, hj, le_rfl, by rwa [level_length]⟩
  have hsplit : (∃ n, j < n ∧ n ≤ (ops ++ [op]).length ∧
        level (ops ++ [op]) n < level (ops ++ [op]) j) ↔
      (∃ n, j < n ∧ n ≤ ops.length ∧ level ops n < level ops j) ∨
        depth ops + op.drift < level ops j := by
    rw [hold j hj.le, List.length_append, List.length_singleton]
    constructor
    · rintro ⟨n, hjn, hn, hlow⟩
      rcases Nat.le_succ_iff.1 hn with hn | rfl
      · exact .inl ⟨n, hjn, hn, hold n hn ▸ hlow⟩
      · exact .inr (hlast ▸ hlow)
    · rintro (⟨n, hjn, hn, hlow⟩ | hlow)
      · exact ⟨n, hjn, hn.trans (Nat.le_succ _), (hold n hn).symm ▸ hlow⟩
      · exact ⟨ops.length + 1, by omega, le_rfl, hlast.symm ▸ hlow⟩
  rw [Sinks, Sinks, hsplit, hold j hj.le, depth_append, depth_cons, depth_nil, Int.add_zero]
  by_cases hsink : ∃ n, j < n ∧ n ≤ ops.length ∧ level ops n < level ops j
  · exact iff_of_true (.inl (.inl hsink)) (.inl hsink)
  · have hhigh : ¬ depth ops < level ops j := fun hlow => hsink (hend hlow)
    simp only [hsink, false_or]
    cases op <;> simp only [Op.pending, Op.drift] <;> omega

/-- Behind a draw or turn that ends a list only further brackets sink the depth. -/
lemma sinks_length_iff (hleads : op.leads = true) :
    Sinks k (ops ++ [op]) ops.length ↔ k ≠ 0 := by
  have hhere : level (ops ++ [op]) ops.length = depth ops := by
    rw [level_append_of_le le_rfl, level_length]
  have hend : depth (ops ++ [op]) = depth ops := by
    simp [drift_of_leads hleads]
  rw [Sinks, hhere, hend]
  constructor
  · rintro (⟨n, hn, hlen, hlow⟩ | hlow)
    · obtain rfl : n = (ops ++ [op]).length := by
        rw [List.length_append, List.length_singleton] at hlen ⊢
        omega
      rw [level_length, hend] at hlow
      omega
    · omega
  · intro hk
    right
    omega

open scoped Classical in
/-- **Reading backward finds the positions behind which the depth does not sink.** -/
lemma pathBehind_eq (k : ℕ) (ops : List Op) :
    pathBehind k ops = (List.range ops.length).filterMap fun j =>
      if ops[j]?.any Op.leads ∧ ¬ Sinks k ops j then ops[j]? else none := by
  induction ops using List.reverseRecOn generalizing k with
  | nil => simp
  | append_singleton ops op ih =>
      rw [pathBehind_snoc, ih, List.length_append, List.length_singleton, List.range_succ,
        List.filterMap_append]
      congr 1
      · refine List.filterMap_congr fun j hj => ?_
        have hj := List.mem_range.1 hj
        rw [List.getElem?_append_left hj, sinks_snoc hj]
      · by_cases hleads : op.leads = true
        · by_cases hk : k = 0
          · simp [hleads, sinks_length_iff hleads, hk]
          · simp [hleads, sinks_length_iff hleads, hk]
        · simp [hleads]

/-- **The two readings of a root path agree.** -/
lemma filterMap_rootPositions (hnonneg : ∀ n ≤ ops.length, 0 ≤ level ops n) :
    ((rootPositions ops).filterMap fun j => ops[j]?) = rootPath ops := by
  classical
  change _ = pathBehind 0 ops
  rw [pathBehind_eq, rootPositions, List.filterMap_filter]
  refine List.filterMap_congr fun j hj => ?_
  have hj := List.mem_range.1 hj
  have hop : ops[j]? = some ops[j] := List.getElem?_eq_getElem hj
  by_cases hleads : ops[j].leads = true
  · simp [hop, hleads, enclosed_iff_sinks hnonneg hop hleads]
  · simp [hop, hleads]

/-- A closed pair hides its draw, and an open one hides nothing. -/
example :
    rootPositions [.draw, .push, .draw, .pop, .turn 1, .push, .draw] = [0, 4, 6] ∧
      rootPath [.draw, .push, .draw, .pop, .turn 1, .push, .draw] = [.draw, .turn 1, .draw] := by
  decide

end Backward

/-! ## Paths of fronts -/

section Fronts

variable {ops : List Op} {a b i j : ℕ} {op : Op}

/-- A pair is closed in a front of a list when its closing bracket stands there. -/
lemma closes_take_iff : Closes (ops.take j) a b ↔ Closes ops a b ∧ b < j := by
  constructor
  · rintro ⟨hlt, hopening, hclosing, hbetween⟩
    rw [List.getElem?_take] at hopening hclosing
    obtain ⟨hb, hclosing⟩ := Option.ite_none_right_eq_some.1 hclosing
    obtain ⟨-, hopening⟩ := Option.ite_none_right_eq_some.1 hopening
    rw [List.take_take, Nat.min_eq_left hb.le] at hbetween
    exact ⟨⟨hlt, hopening, hclosing, hbetween⟩, hb⟩
  · rintro ⟨⟨hlt, hopening, hclosing, hbetween⟩, hb⟩
    refine ⟨hlt, ?_, ?_, ?_⟩
    · rw [List.getElem?_take, if_pos (hlt.trans hb), hopening]
    · rw [List.getElem?_take, if_pos hb, hclosing]
    · rwa [List.take_take, Nat.min_eq_left hb.le]

/-- What a pair encloses in front of an open position is enclosed by a pair in front of it. -/
lemma enclosed_take_iff (hj : ops[j]? = some op) (hleads : op.leads = true)
    (hopen : ¬ Enclosed ops j) (hij : i < j) : Enclosed (ops.take j) i ↔ Enclosed ops i := by
  constructor
  · rintro ⟨a, ha, b, -, hib, hcloses⟩
    obtain ⟨hcloses, -⟩ := closes_take_iff.1 hcloses
    exact ⟨a, ha, b, (List.getElem?_eq_some_iff.1 hcloses.closing).1, hib, hcloses⟩
  · rintro ⟨a, ha, b, hb, hib, hcloses⟩
    have hjlen : j < ops.length := (List.getElem?_eq_some_iff.1 hj).1
    rcases Nat.lt_trichotomy b j with hbj | rfl | hjb
    · refine ⟨a, ha, b, ?_, hib, closes_take_iff.2 ⟨hcloses, hbj⟩⟩
      rwa [List.length_take, Nat.min_eq_left hjlen.le]
    · rw [hcloses.closing, Option.some.injEq] at hj
      subst hj
      cases hleads
    · exact absurd ⟨a, ha.trans hij, b, hb, hjb, hcloses⟩ hopen

/-- What stands in front of a number in a filtered range is the filtered range up to it. -/
lemma eq_filter_range_of_append {P : ℕ → Bool} {n : ℕ} {front rest : List ℕ}
    (h : (List.range n).filter P = front ++ j :: rest) : front = (List.range j).filter P := by
  obtain ⟨l, m, hrange, rfl, hm⟩ := List.filter_eq_append_iff.1 h
  obtain ⟨skipped, later, rfl, hskipped, -, -⟩ := List.filter_eq_cons_iff.1 hm
  rw [← List.append_assoc] at hrange
  have hat : (List.range n)[(l ++ skipped).length]? = some j := by
    rw [hrange]
    simp
  obtain ⟨hlt, hj⟩ := List.getElem?_eq_some_iff.1 hat
  rw [List.getElem_range] at hj
  rw [List.length_range, hj] at hlt
  have hlow : l ++ skipped = List.range j := by
    have htake := congrArg (List.take j) hrange
    rwa [List.take_range, List.take_left' hj, Nat.min_eq_left hlt.le, eq_comm] at htake
  rw [← hlow, List.filter_append, List.filter_eq_nil_iff.2 hskipped, List.append_nil]

/-- The path to a position on a root path is what stands in front of it there. -/
lemma rootPositions_take {front rest : List ℕ} (h : rootPositions ops = front ++ j :: rest) :
    rootPositions (ops.take j) = front := by
  have hmem : j ∈ rootPositions ops := h ▸ List.mem_append_right _ List.mem_cons_self
  obtain ⟨hjlen, hpath⟩ := List.mem_filter.1 hmem
  have hjlen := List.mem_range.1 hjlen
  have hj : ops[j]? = some ops[j] := List.getElem?_eq_getElem hjlen
  simp only [hj, Option.any_some, Bool.and_eq_true, Bool.not_eq_true', decide_eq_false_iff_not]
    at hpath
  obtain ⟨hleads, hopen⟩ := hpath
  rw [eq_filter_range_of_append h, rootPositions, List.length_take, Nat.min_eq_left hjlen.le]
  refine List.filter_congr fun i hi => ?_
  have hij := List.mem_range.1 hi
  rw [List.getElem?_take, if_pos hij]
  simp only [enclosed_take_iff hj hleads hopen hij]

end Fronts

end Arbor
