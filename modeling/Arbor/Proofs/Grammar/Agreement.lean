import Arbor.Proofs.Grammar.Counting
import Arbor.Proofs.Grammar.Derivation

/-!
# Productions that agree where it matters

A round looks up the image of each symbol of a word and of no other symbol.  So two sets of
productions derive the same words as long as they have the same images for the symbols that turn up
on the way, and it is enough to look for these symbols in the words that one of them derives
(`expand_congr`).  The hypothesis is used at the word of the round before, which by then is known to
be the same for both.

Counting has an early end of its own where there are no productions.  It need not be followed
through the rounds: whatever is counted is the length of the derived word (`projects_congr`), and
the count that runs its rounds all the same comes to the same length (`Surveyed.total_eq`).
-/

namespace Arbor

namespace Productions

variable {p q : Productions} {start : Symbol} {n : ℕ}

/-! ## Words -/

lemma substitute_congr {w : Word} (himage : ∀ c ∈ w, q.image c = p.image c) :
    q.substitute w = p.substitute w :=
  List.flatMap_congr himage

/-- Productions with the same images for the symbols of the earlier rounds derive the same word. -/
lemma expand_congr (himage : ∀ k < n, ∀ c ∈ p.expand start k, q.image c = p.image c) :
    q.expand start n = p.expand start n := by
  induction n with
  | zero => rw [expand_zero, expand_zero]
  | succ n ih =>
      have hbefore : q.expand start n = p.expand start n :=
        ih fun k hk => himage k (Nat.lt_succ_of_lt hk)
      rw [expand_succ, expand_succ, hbefore]
      exact substitute_congr (himage n (Nat.lt_succ_self n))

/-! ## Counts -/

/-- The rounds of a count come to the projected length, also where the count would not run them. -/
lemma Surveyed.total_eq {census order : Census} (h : p.Surveyed start n census)
    (hperm : order.Perm census) : order.total = p.projectedLength start n := by
  rw [(h.counts.perm hperm).total, projectedLength_eq_cap]

/-! ## Productions that change nothing -/

lemma image_insert (p : Productions) (c : Symbol) (w : Word) (d : Symbol) :
    (p.insert c w).image d = if d = c then w else p.image d := by
  rw [image, get?, insert, SymbolMap.get?_insert]
  split <;> rfl

/-- A production that says what is the case already changes no image. -/
lemma image_insert_self {c : Symbol} (hself : p.image c = [c]) (d : Symbol) :
    (p.insert c [c]).image d = p.image d := by
  rw [image_insert]
  split
  · rename_i hd
    rw [hd, hself]
  · rfl

lemma image_insert_of_notMem {c d : Symbol} {v : Word} (hc : c ∉ v) (hd : d ∈ v) (w : Word) :
    (p.insert c w).image d = p.image d := by
  have hne : d ≠ c := fun h => hc (h ▸ hd)
  rw [image_insert, if_neg hne]

/-- **Only the productions that are applied matter.**  Two sets of productions that have the same
images for the symbols of the words of all earlier rounds derive the same word, and count it alike,
in whatever orders.  In particular it makes no difference that no round is run where there are no
productions, neither for the word nor for any order of counting; a production of a terminal symbol
for itself changes nothing; and neither does a new or another production of a symbol that is not in
the words of the earlier rounds. -/
theorem expand_eq_of_image_eq (start : Symbol) (n : ℕ) :
    (∀ p q : Productions, (∀ k < n, ∀ c ∈ p.expand start k, q.image c = p.image c) →
      q.expand start n = p.expand start n ∧
      q.projectedLength start n = p.projectedLength start n ∧
      ∀ k, q.Projects start n k ↔ p.Projects start n k) ∧
    (∀ p : Productions, Nat.repeat p.substitute n [start] = p.expand start n ∧
      ∀ census order : Census, p.Surveyed start n census → order.Perm census →
        order.total = p.projectedLength start n) ∧
    (∀ (p : Productions) (c : Symbol), p.image c = [c] →
      (p.insert c [c]).expand start n = p.expand start n ∧
      (p.insert c [c]).projectedLength start n = p.projectedLength start n) ∧
    ∀ (p : Productions) (c : Symbol) (w : Word), (∀ k < n, c ∉ p.expand start k) →
      (p.insert c w).expand start n = p.expand start n ∧
      (p.insert c w).projectedLength start n = p.projectedLength start n := by
  have hagree (p q : Productions)
      (himage : ∀ k < n, ∀ c ∈ p.expand start k, q.image c = p.image c) :
      q.expand start n = p.expand start n ∧
        q.projectedLength start n = p.projectedLength start n ∧
        ∀ k, q.Projects start n k ↔ p.Projects start n k := by
    have hword := expand_congr himage
    exact ⟨hword, projects_congr p start (congrArg List.length hword)⟩
  refine ⟨hagree, ?_, ?_, ?_⟩
  · intro p
    refine ⟨?_, fun _ _ => Surveyed.total_eq⟩
    rw [repeat_substitute, List.flatMap_singleton]
  · intro p c hself
    obtain ⟨hword, hcount, -⟩ := hagree p (p.insert c [c]) fun _ _ d _ => image_insert_self hself d
    exact ⟨hword, hcount⟩
  · intro p c w habsent
    obtain ⟨hword, hcount, -⟩ := hagree p (p.insert c w) fun k hk d hd =>
      image_insert_of_notMem (habsent k hk) hd w
    exact ⟨hword, hcount⟩

/-- Two symbols of which the first one grows and the second one turns into the first. -/
def algae : Productions := .ofList [('A', "AB".toList), ('B', "A".toList)]

/-- Productions of symbols that never turn up are not noticed, be they for itself or for nothing. -/
theorem expand_algae_eq :
    (∀ k < 5, ∀ c ∈ algae.expand 'A' k,
      ((algae.insert 'C' "CC".toList).insert '+' ['+']).image c = algae.image c) ∧
    algae.image '+' = ['+'] ∧ (∀ k < 5, 'C' ∉ algae.expand 'A' k) ∧
    ((algae.insert 'C' "CC".toList).insert '+' ['+']).expand 'A' 5 = "ABAABABAABAAB".toList ∧
    (algae.insert '+' ['+']).projectedLength 'A' 5 = 13 ∧
    (algae.insert 'C' []).expand 'A' 5 = "ABAABABAABAAB".toList := by
  have himage : ∀ k < 5, ∀ c ∈ algae.expand 'A' k,
      ((algae.insert 'C' "CC".toList).insert '+' ['+']).image c = algae.image c := by
    -- Asked for all symbols with a property, `decide` would go through every character there is.
    have hall : ∀ k < 5, (algae.expand 'A' k).all fun c =>
        ((algae.insert 'C' "CC".toList).insert '+' ['+']).image c = algae.image c := by
      decide +kernel
    simpa using hall
  have hself : algae.image '+' = ['+'] := by decide +kernel
  have habsent : ∀ k < 5, 'C' ∉ algae.expand 'A' k := by decide +kernel
  have hword : algae.expand 'A' 5 = "ABAABABAABAAB".toList := by decide +kernel
  have hcount : algae.projectedLength 'A' 5 = 13 := by decide +kernel
  obtain ⟨hagree, -, hterminal, hunused⟩ := expand_eq_of_image_eq 'A' 5
  exact ⟨himage, hself, habsent, (hagree _ _ himage).1.trans hword,
    (hterminal _ _ hself).2.trans hcount, (hunused _ _ _ habsent).1.trans hword⟩

end Productions

end Arbor
