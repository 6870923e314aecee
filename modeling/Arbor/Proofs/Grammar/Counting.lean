import Mathlib
import Arbor.Grammar.Census

/-!
# Counting derived words

`Productions.projectedLength` counts a derived word without building it, on a census of its
symbols whose entries are added up at a cap.  This file settles that the count is exact up to the
cap: it is the length of `Productions.expand`, or `countCap` when the word is longer.

Two things stand between the census and the word.  A count that was cut off in one round goes into
the sums of the next, so it has to be seen that a cut is never noticed later; the reason is that a
cut count is spread over the symbols of an image in whole multiples, which are either none at all
or at or above the cap (`cap_cap_mul_add`).  And a census is a table without an order of its own, so
the rounds may visit its entries in any order: `Productions.Surveyed` is a run of the count in which
every round does, `Productions.Projects` the lengths that such runs give, and the executable count
is one of them (`projects_projectedLength`).

The invariant is `Census.Counts m census`: the census has one entry for each symbol with a positive
multiplicity under `m`, and the entry holds the multiplicity cut off at the cap.  Each operation on
a census is one lemma about it.
-/

namespace Arbor

/-! ## Cutting off at the cap -/

/-- A number cut off at the cap of a census. -/
def cap (n : ℕ) : ℕ := min n countCap

lemma countCap_pos : 0 < countCap := by
  decide

@[simp] lemma cap_zero : cap 0 = 0 := Nat.zero_min _

lemma cap_eq_zero_iff {n : ℕ} : cap n = 0 ↔ n = 0 := by
  have := countCap_pos
  unfold cap
  omega

/-- A cut in one summand is not noticed in a sum that is cut itself. -/
lemma cap_cap_add (a b : ℕ) : cap (cap a + b) = cap (a + b) := by
  unfold cap
  omega

lemma cap_add_cap (a b : ℕ) : cap (a + cap b) = cap (a + b) := by
  unfold cap
  omega

lemma addCapped_cap (a b : ℕ) : addCapped (cap a) b = cap (a + b) := cap_cap_add a b

/-- A cut in one factor is not noticed either: the other one is 0, or the product is no smaller
than the factor that was cut. -/
lemma cap_cap_mul_add (a k b : ℕ) : cap (cap a * k + b) = cap (a * k + b) := by
  rcases Nat.eq_zero_or_pos k with rfl | hk
  · simp
  · by_cases ha : a ≤ countCap
    · simp [cap, Nat.min_eq_left ha]
    · have hcut : countCap ≤ countCap * k := Nat.le_mul_of_pos_right _ hk
      have hfull : a ≤ a * k := Nat.le_mul_of_pos_right _ hk
      have hcap : cap a = countCap := Nat.min_eq_right (by omega)
      rw [hcap]
      unfold cap
      omega

/-- Hence cuts in the entries of a weighted sum are not noticed in the sum. -/
lemma cap_sum_cap_mul {α : Type} (l : List α) (f k : α → ℕ) :
    cap (l.map fun x => cap (f x) * k x).sum = cap (l.map fun x => f x * k x).sum := by
  induction l with
  | nil => rfl
  | cons x l ih =>
      simp only [List.map_cons, List.sum_cons]
      rw [cap_cap_mul_add, ← cap_add_cap, ih, cap_add_cap]

/-! ## What a census counts -/

namespace Census

/-- The symbols that have an entry. -/
def keys (census : Census) : List Symbol := census.map Prod.fst

/-- The census has one entry for each symbol with a positive multiplicity, and the entry holds the
multiplicity cut off at the cap. -/
structure Counts (m : Symbol → ℕ) (census : Census) : Prop where
  nodup : census.keys.Nodup
  exact : ∀ e ∈ census, e.2 = cap (m e.1)
  covers : ∀ c, m c ≠ 0 → c ∈ census.keys

namespace Counts

variable {m m' : Symbol → ℕ} {census : Census}

/-- Nothing in a census depends on the order of its entries. -/
lemma perm {order : Census} (h : Counts m census) (hperm : order.Perm census) :
    Counts m order where
  nodup := (hperm.map Prod.fst).nodup_iff.2 h.nodup
  exact e he := h.exact e (hperm.mem_iff.1 he)
  covers c hc := (hperm.map Prod.fst).mem_iff.2 (h.covers c hc)

/-- A census does not tell multiplicities apart that are cut off to the same number. -/
lemma congr (h : Counts m census) (hm : ∀ c, cap (m c) = cap (m' c)) : Counts m' census where
  nodup := h.nodup
  exact e he := by rw [h.exact e he, hm]
  covers c hc := by
    apply h.covers c
    intro h0
    apply hc
    rw [← cap_eq_zero_iff, ← hm, h0, cap_zero]

end Counts

lemma counts_nil : Counts (fun _ => 0) [] where
  nodup := List.nodup_nil
  exact e he := by simp at he
  covers c hc := absurd rfl hc

/-- A symbol without an entry gets one behind the others. -/
lemma keys_add (c : Symbol) (n : ℕ) (census : Census) :
    (census.add c n).keys = if c ∈ census.keys then census.keys else census.keys ++ [c] := by
  induction census with
  | nil => simp [add, keys]
  | cons e census ih =>
      obtain ⟨d, k⟩ := e
      unfold keys at ih ⊢
      by_cases hd : d = c
      · simp [add, hd]
      · have hc : c ≠ d := fun h => hd h.symm
        simp only [add, if_neg hd, List.map_cons, ih, List.mem_cons, hc, false_or]
        split <;> rfl

/-- An entry of the grown census is an old entry of another symbol, or the grown entry of the
symbol, which may be new. -/
lemma mem_add {census : Census} (hnodup : census.keys.Nodup) {c : Symbol} {n : ℕ}
    {e : Symbol × ℕ} (he : e ∈ census.add c n) :
    (e.1 ≠ c ∧ e ∈ census) ∨ (∃ k, (c, k) ∈ census ∧ e = (c, addCapped k n)) ∨
      (c ∉ census.keys ∧ e = (c, addCapped 0 n)) := by
  induction census with
  | nil =>
      right; right
      simpa [add, keys] using he
  | cons first census ih =>
      obtain ⟨d, k⟩ := first
      obtain ⟨hfresh, htail⟩ := List.nodup_cons.1 hnodup
      by_cases hd : d = c
      · subst hd
        rw [add, if_pos rfl, List.mem_cons] at he
        rcases he with rfl | he
        · exact .inr (.inl ⟨k, List.mem_cons_self, rfl⟩)
        · have hkey : e.1 ∈ keys census := List.mem_map_of_mem he
          exact .inl ⟨fun h => hfresh (h ▸ hkey), List.mem_cons_of_mem _ he⟩
      · rw [add, if_neg hd, List.mem_cons] at he
        rcases he with rfl | he
        · exact .inl ⟨hd, List.mem_cons_self⟩
        · rcases ih htail he with ⟨hne, hmem⟩ | ⟨j, hmem, rfl⟩ | ⟨hnew, rfl⟩
          · exact .inl ⟨hne, List.mem_cons_of_mem _ hmem⟩
          · exact .inr (.inl ⟨j, List.mem_cons_of_mem _ hmem, rfl⟩)
          · have habsent : c ∉ keys ((d, k) :: census) := by
              intro h
              rcases List.mem_cons.1 h with h | h
              · exact hd h.symm
              · exact hnew h
            exact .inr (.inr ⟨habsent, rfl⟩)

namespace Counts

variable {m : Symbol → ℕ} {census : Census}

/-- Counting `n` more occurrences of a symbol raises its multiplicity by `n`. -/
lemma add (h : Counts m census) (c : Symbol) (n : ℕ) :
    Counts (fun d => m d + if d = c then n else 0) (census.add c n) where
  nodup := by
    rw [keys_add]
    split
    · exact h.nodup
    · rename_i hc
      refine List.nodup_append.2 ⟨h.nodup, List.nodup_singleton c, ?_⟩
      intro a ha b hb hab
      rw [hab, List.mem_singleton.1 hb] at ha
      exact hc ha
  exact e he := by
    rcases mem_add h.nodup he with ⟨hne, hmem⟩ | ⟨k, hmem, rfl⟩ | ⟨hnew, rfl⟩
    · simp [h.exact e hmem, hne]
    · have hk : k = cap (m c) := h.exact _ hmem
      simp [hk, addCapped_cap]
    · have hm : m c = 0 := not_not.1 fun hc => hnew (h.covers c hc)
      simp [hm, addCapped, cap]
  covers d hd := by
    rw [keys_add]
    by_cases hdc : d = c
    · subst hdc
      split
      · assumption
      · simp
    · have hold : d ∈ census.keys := h.covers d (by simpa [hdc] using hd)
      split
      · exact hold
      · exact List.mem_append_left _ hold

/-- Counting a word `n` more times raises the multiplicity of a symbol by `n` for each of its
occurrences. -/
lemma addWord (h : Counts m census) (w : Word) (n : ℕ) :
    Counts (fun d => m d + n * w.count d) (census.addWord w n) := by
  induction w generalizing m census with
  | nil => simpa [Census.addWord] using h
  | cons c w ih =>
      apply (ih (h.add c n)).congr
      intro d
      by_cases hd : d = c
      · simp [hd, Nat.mul_add, Nat.add_assoc, Nat.add_comm n]
      · have hc : ¬ c = d := fun e => hd e.symm
        simp [hd, hc]

/-- After a round, a symbol is there as often as the images of the entries hold it, each image once
for every occurrence that its entry counts. -/
lemma advance (p : Productions) (entries : Census) :
    Counts (fun d => (entries.map fun e => e.2 * (p.image e.1).count d).sum)
      (entries.advance p) := by
  suffices hfold : ∀ {m : Symbol → ℕ} {next : Census}, Counts m next →
      Counts (fun d => m d + (entries.map fun e => e.2 * (p.image e.1).count d).sum)
        (entries.foldl (fun next e => next.addWord (p.image e.1) e.2) next) by
    simpa [Census.advance] using hfold counts_nil
  induction entries with
  | nil => intro m next h; simpa using h
  | cons e entries ih =>
      intro m next h
      apply (ih (h.addWord (p.image e.1) e.2)).congr
      intro d
      simp [Nat.add_assoc]

end Counts

/-! ## A census of a word -/

/-- A sum over the symbols of a word, taken symbol by symbol or occurrence by occurrence. -/
lemma sum_map_count_mul {keys : List Symbol} (hnodup : keys.Nodup) {w : Word}
    (hcovers : ∀ c ∈ w, c ∈ keys) (g : Symbol → ℕ) :
    (keys.map fun c => w.count c * g c).sum = (w.map g).sum := by
  rw [← List.sum_toFinset _ hnodup, Finset.sum_list_map_count]
  symm
  apply Finset.sum_subset
  · intro c hc
    exact List.mem_toFinset.2 (hcovers c (List.mem_toFinset.1 hc))
  · intro c _ hc
    have habsent : c ∉ w := fun h => hc (List.mem_toFinset.2 h)
    simp [List.count_eq_zero_of_not_mem habsent]

namespace Counts

variable {w : Word} {census : Census}

/-- The weighted sum of the entries of a census of a word is, up to the cap, the sum of the weights
along the word. -/
lemma cap_sum_mul (h : Counts (fun c => w.count c) census) (g : Symbol → ℕ) :
    cap (census.map fun e => e.2 * g e.1).sum = cap (w.map g).sum := by
  have hentries : (census.map fun e => e.2 * g e.1) =
      census.map fun e => cap (w.count e.1) * g e.1 := by
    apply List.map_congr_left
    intro e he
    rw [h.exact e he]
  have hkeys : (census.map fun e => w.count e.1 * g e.1) =
      census.keys.map fun c => w.count c * g c := by
    simp [keys, Function.comp_def]
  have hcovers : ∀ c ∈ w, c ∈ census.keys := fun c hc =>
    h.covers c (List.count_pos_iff.2 hc).ne'
  rw [hentries, cap_sum_cap_mul, hkeys, sum_map_count_mul h.nodup hcovers]

/-- A round of counting turns a census of a word into one of the word after a round. -/
lemma substitute (p : Productions) (h : Counts (fun c => w.count c) census) :
    Counts (fun c => (p.substitute w).count c) (census.advance p) := by
  apply (advance p census).congr
  intro d
  rw [h.cap_sum_mul fun c => (p.image c).count d, Productions.substitute, List.count_flatMap]
  rfl

/-- The total of a census of a word is the length of the word up to the cap. -/
lemma total (h : Counts (fun c => w.count c) census) : census.total = cap w.length := by
  have hfold : ∀ (entries : Census) (a : ℕ),
      entries.foldl (fun sum e => addCapped sum e.2) (cap a) =
        cap (a + (entries.map Prod.snd).sum) := by
    intro entries
    induction entries with
    | nil => intro a; simp
    | cons e entries ih =>
        intro a
        rw [List.foldl_cons, addCapped_cap, ih, List.map_cons, List.sum_cons, Nat.add_assoc]
  have hsum := h.cap_sum_mul fun _ => 1
  simp only [Nat.mul_one, List.map_const', List.sum_replicate, smul_eq_mul] at hsum
  calc census.total = cap (0 + (census.map Prod.snd).sum) := by
        rw [← hfold, cap_zero, Census.total]
    _ = cap w.length := by rw [Nat.zero_add]; exact hsum

end Counts

lemma counts_singleton (c : Symbol) : Counts (fun d => [c].count d) [(c, 1)] where
  nodup := List.nodup_singleton c
  exact e he := by
    rw [List.mem_singleton.1 he]
    have := countCap_pos
    simp [cap]
    omega
  covers d hd := by
    have hmem : d ∈ [c] := List.count_pos_iff.1 (Nat.pos_of_ne_zero hd)
    simpa [keys] using hmem

end Census

/-! ## The length of a derived word -/

namespace Productions

variable (p : Productions) (start : Symbol)

/-- The censuses that `n` rounds of counting can lead to, when every round visits the entries of the
one before in an order of its own. -/
inductive Surveyed : ℕ → Census → Prop
  | start : Surveyed 0 [(start, 1)]
  | round {n : ℕ} {census order : Census} : Surveyed n census → order.Perm census →
      Surveyed (n + 1) (order.advance p)

/-- `k` is a length that counting `n` rounds can give, with the entries of every census, the last
one included, visited in some order.  Without productions nothing is counted. -/
def Projects (n k : ℕ) : Prop :=
  if p.isEmpty then k = 1
  else ∃ census order : Census, p.Surveyed start n census ∧ order.Perm census ∧ k = order.total

variable {p start}

/-- Whatever the orders, the rounds keep a census of the derived word. -/
lemma Surveyed.counts {n : ℕ} {census : Census} (h : p.Surveyed start n census) :
    census.Counts fun c => (p.expand start n).count c := by
  induction h with
  | start => simpa using Census.counts_singleton start
  | round _ hperm ih =>
      rw [expand_succ]
      exact (ih.perm hperm).substitute p

variable (p start)

lemma surveyed_repeat (n : ℕ) :
    p.Surveyed start n (Nat.repeat (Census.advance p) n [(start, 1)]) := by
  induction n with
  | zero => exact .start
  | succ n ih => exact .round ih (List.Perm.refl _)

/-- The executable count visits entries as they stand, which is one of the orders. -/
lemma projects_projectedLength (n : ℕ) : p.Projects start n (p.projectedLength start n) := by
  unfold Projects projectedLength
  split
  · rfl
  · exact ⟨_, _, surveyed_repeat p start n, List.Perm.refl _, rfl⟩

lemma eq_cap_length_of_projects {n k : ℕ} (h : p.Projects start n k) :
    k = cap (p.expand start n).length := by
  unfold Projects at h
  split at h
  · rename_i hempty
    have hone : cap 1 = 1 := by decide
    simp [h, expand, hempty, hone]
  · obtain ⟨census, order, hsurvey, hperm, rfl⟩ := h
    exact (hsurvey.counts.perm hperm).total

lemma projectedLength_eq_cap (n : ℕ) :
    p.projectedLength start n = cap (p.expand start n).length :=
  eq_cap_length_of_projects p start (projects_projectedLength p start n)

lemma projects_iff_eq_projectedLength (n k : ℕ) :
    p.Projects start n k ↔ k = p.projectedLength start n := by
  constructor
  · intro hk
    rw [eq_cap_length_of_projects p start hk, projectedLength_eq_cap]
  · rintro rfl
    exact projects_projectedLength p start n

/-- Derived words of the same length are counted alike, in whatever orders. -/
lemma projects_congr {q : Productions} {start' : Symbol} {n : ℕ}
    (hlength : (q.expand start' n).length = (p.expand start n).length) :
    q.projectedLength start' n = p.projectedLength start n ∧
      ∀ k, q.Projects start' n k ↔ p.Projects start n k := by
  have hcount : q.projectedLength start' n = p.projectedLength start n := by
    rw [projectedLength_eq_cap, projectedLength_eq_cap, hlength]
  refine ⟨hcount, fun k => ?_⟩
  rw [projects_iff_eq_projectedLength, projects_iff_eq_projectedLength, hcount]

/-- **The projected length is exact up to the cap.**  It is the length of the derived word, or the
cap when the word is longer, for every order in which the rounds visit the entries of a census. -/
theorem projects_iff_eq_min_length (n k : ℕ) :
    (p.Projects start n k ↔ k = min (p.expand start n).length countCap) ∧
      p.projectedLength start n = min (p.expand start n).length countCap := by
  have hrun := eq_cap_length_of_projects p start (projects_projectedLength p start n)
  refine ⟨⟨eq_cap_length_of_projects p start, ?_⟩, hrun⟩
  intro hk
  rw [hk, ← cap, ← hrun]
  exact projects_projectedLength p start n

end Productions

end Arbor
