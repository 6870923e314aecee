import Mathlib
import Arbor.Json.Parser
import Arbor.Json.Printer

/-!
# Numerals as they are written and read

A numeral has a spelling (`Numeral.Spelled`) when there is a digit in front of the point, no zero in
front of others there, and a digit in the power of ten if one is stated.  Each part of such a numeral
is read up to the first symbol that cannot go on it, so the whole of it is read back from in front of
anything that does not go on a numeral (`readNumeral_print`).

What is written has a spelling.  For counts this is that digits are produced without a leading zero
(`isWhole_digits`).  For numbers in single precision the layout keeps the leading digit of the
significand in front, and the significand is not zero unless the number is far out of the range that
is written without a power of ten (`shortestDecimal_pos`): every point of a positive interval is
positive, and where the search for one gives up it has reached the finest grid.

No numeral is written for a number in single precision just when it is not finite
(`Numeral.ofSingle?_eq_none_iff`).
-/

namespace Arbor

open Float.Model (Format)
open Float.Model.UnpackedFloat

/-! ## Runs of digits -/

/-- No digit stands in front of a text. -/
def NoDigitAhead (s : List Char) : Prop := ∀ c ∈ s.head?, Digit.ofChar? c = none

lemma readDigits_digitChars (ds : List Digit) {s : List Char} (hs : NoDigitAhead s) :
    readDigits (digitChars ds ++ s) = (ds, s) := by
  induction ds with
  | nil =>
      cases s with
      | nil => rfl
      | cons c s =>
          have hc : Digit.ofChar? c = none := hs c rfl
          simp only [digitChars, List.map_nil, List.nil_append, readDigits, hc]
  | cons d ds ih =>
      simp only [digitChars, List.map_cons, List.cons_append, readDigits, Digit.ofChar?_char] at ih ⊢
      rw [ih]

lemma readDigits₁_digitChars {ds : List Digit} (hds : ds ≠ []) {s : List Char}
    (hs : NoDigitAhead s) : readDigits₁ (digitChars ds ++ s) = some (ds, s) := by
  rw [readDigits₁, readDigits_digitChars ds hs]
  cases ds with
  | nil => exact absurd rfl hds
  | cons d ds => rfl

lemma char_digit : ∀ d : Digit, d.char ≠ '-' ∧ d.char ≠ '+' := by
  decide

/-! ## The parts of a numeral -/

/-- The digits before a point: at least one, and no zero in front of others. -/
def IsWhole (ds : List Digit) : Prop := ds ≠ [] ∧ ∀ d rest, ds ≠ Digit.zero :: d :: rest

/-- A numeral that has a spelling. -/
structure Numeral.Spelled (n : Numeral) : Prop where
  whole : IsWhole n.whole
  power : ∀ p ∈ n.power, p.digits ≠ []

/-- What cannot go on a numeral stands in front of a text, or nothing. -/
def EndsNumeral (s : List Char) : Prop :=
  ∀ c ∈ s.head?, Digit.ofChar? c = none ∧ c ≠ '.' ∧ c ≠ 'e' ∧ c ≠ 'E'

def printFraction (fraction : List Digit) : List Char :=
  if fraction.isEmpty then [] else '.' :: digitChars fraction

def printPower : Option Power → List Char
  | none => []
  | some p => 'e' :: p.mark.print ++ digitChars p.digits

lemma Numeral.print_eq (n : Numeral) : n.print = (if n.negative then ['-'] else []) ++
    (digitChars n.whole ++ (printFraction n.fraction ++ printPower n.power)) := by
  rw [← List.append_assoc, ← List.append_assoc]
  rfl

lemma readWhole_digitChars {ds : List Digit} (hds : IsWhole ds) {s : List Char}
    (hs : NoDigitAhead s) : readWhole (digitChars ds ++ s) = some (ds, s) := by
  rw [readWhole, readDigits₁_digitChars hds.1 hs]
  split
  case h_1 d rest t heq =>
    obtain ⟨rfl, -⟩ := Prod.mk.inj (Option.some.inj heq)
    exact absurd rfl (hds.2 d rest)
  case h_2 => rfl

lemma readFraction_printFraction (fraction : List Digit) {s : List Char} (hs : NoDigitAhead s)
    (hpoint : '.' ∉ s.head?) : readFraction (printFraction fraction ++ s) = some (fraction, s) := by
  cases fraction with
  | nil =>
      change readFraction s = _
      unfold readFraction
      split
      case h_1 => exact absurd rfl hpoint
      case h_2 => rfl
  | cons d ds => exact readDigits₁_digitChars (List.cons_ne_nil d ds) hs

lemma readPower_printPower {power : Option Power} (hpower : ∀ p ∈ power, p.digits ≠ [])
    {s : List Char} (hs : EndsNumeral s) : readPower (printPower power ++ s) = some (power, s) := by
  cases power with
  | none =>
      change readPower s = _
      unfold readPower
      split
      case h_1 => exact absurd rfl (hs 'e' rfl).2.2.1
      case h_2 => exact absurd rfl (hs 'E' rfl).2.2.2
      case h_3 => rfl
  | some p =>
      obtain ⟨mark, ds⟩ := p
      have hds : ds ≠ [] := hpower _ rfl
      have hread := readDigits₁_digitChars hds fun c hc => (hs c hc).1
      cases mark with
      | bare =>
          -- The first digit is no mark.
          obtain ⟨d, ds, rfl⟩ := List.exists_cons_of_ne_nil hds
          simp only [digitChars, List.map_cons, List.cons_append] at hread
          simp [printPower, PowerMark.print, digitChars, readPower, hread, char_digit d]
      | plus => simp [printPower, PowerMark.print, readPower, hread]
      | minus => simp [printPower, PowerMark.print, readPower, hread]

/-! ## Whole numerals -/

/-- In front of a power, or of what follows a numeral without one, there is no digit and no point. -/
lemma head_printPower (power : Option Power) {s : List Char} (hs : EndsNumeral s) :
    ∀ c ∈ (printPower power ++ s).head?, Digit.ofChar? c = none ∧ c ≠ '.' := by
  intro c hc
  cases power with
  | none => exact ⟨(hs c hc).1, (hs c hc).2.1⟩
  | some p =>
      obtain rfl : 'e' = c := Option.some.inj hc
      decide

lemma noDigitAhead_printFraction (fraction : List Digit) {s : List Char} (hs : NoDigitAhead s) :
    NoDigitAhead (printFraction fraction ++ s) := by
  cases fraction with
  | nil => exact hs
  | cons d ds =>
      intro c hc
      obtain rfl : '.' = c := Option.some.inj hc
      decide

/-- A numeral is read back from in front of what cannot go on it. -/
lemma readNumeral_print {n : Numeral} (hn : n.Spelled) {s : List Char} (hs : EndsNumeral s) :
    readNumeral (n.print ++ s) = some (n, s) := by
  obtain ⟨negative, whole, fraction, power⟩ := n
  have hhead := head_printPower power hs
  have hafter : NoDigitAhead (printPower power ++ s) := fun c hc => (hhead c hc).1
  have hwhole := readWhole_digitChars hn.whole (noDigitAhead_printFraction fraction hafter)
  have hfraction := readFraction_printFraction fraction hafter fun hc => (hhead _ hc).2 rfl
  have hpower := readPower_printPower hn.power hs
  simp only [Numeral.print_eq, List.append_assoc]
  cases negative with
  | true => simp [readNumeral, hwhole, hfraction, hpower]
  | false =>
      -- The first digit is no sign.
      obtain ⟨d, ds, rfl⟩ := List.exists_cons_of_ne_nil hn.whole.1
      simp only [digitChars, List.map_cons, List.cons_append] at hwhole
      simp [readNumeral, digitChars, char_digit d, hwhole, hfraction, hpower]

/-- A spelled numeral begins with a sign or a digit. -/
lemma head_print {n : Numeral} (hn : n.Spelled) :
    ∃ c s, n.print = c :: s ∧ (c = '-' ∨ ∃ d : Digit, c = d.char) := by
  obtain ⟨negative, whole, fraction, power⟩ := n
  obtain ⟨d, ds, rfl⟩ := List.exists_cons_of_ne_nil hn.whole.1
  cases negative with
  | true => exact ⟨_, _, rfl, .inl rfl⟩
  | false => exact ⟨_, _, rfl, .inr ⟨d, rfl⟩⟩

/-! ## The numerals of counts -/

/-- The first digit is not zero. -/
def Leads (ds : List Digit) : Prop := ∃ d rest, ds = d :: rest ∧ d ≠ Digit.zero

lemma Leads.isWhole {ds : List Digit} (h : Leads ds) : IsWhole ds := by
  obtain ⟨d, rest, rfl, hd⟩ := h
  exact ⟨List.cons_ne_nil d rest, fun _ _ heq => hd (List.cons.inj heq).1⟩

lemma leads_digitsOnto {fuel n : ℕ} (hfuel : n < 2 ^ fuel) (hn : 0 < n) (tail : List Digit) :
    Leads (digitsOnto fuel n tail) := by
  induction fuel generalizing n tail with
  | zero => omega
  | succ fuel ih =>
      rw [digitsOnto]
      split
      · refine ⟨_, _, rfl, fun hzero => ?_⟩
        have hval : n % 10 = 0 := congrArg Fin.val hzero
        omega
      · exact ih (by omega) (by omega) _

lemma leads_digits {n : ℕ} (hn : 0 < n) : Leads (digits n) :=
  leads_digitsOnto Nat.lt_log2_self hn []

lemma isWhole_singleton (d : Digit) : IsWhole [d] :=
  ⟨List.cons_ne_nil d [], fun _ _ h => List.cons_ne_nil _ _ (List.cons.inj h).2.symm⟩

lemma isWhole_digits (n : ℕ) : IsWhole (digits n) := by
  rcases Nat.eq_zero_or_pos n with rfl | hn
  · exact isWhole_singleton Digit.zero
  · exact (leads_digits hn).isWhole

lemma spelled_ofNat (n : ℕ) : (Numeral.ofNat n).Spelled :=
  ⟨isWhole_digits n, fun _ hp => by cases hp⟩

/-! ## The numerals of measures -/

lemma isWhole_layout {d : Decimal} (hd : 0 < d.significand) : IsWhole d.layout.1 := by
  obtain ⟨c, rest, hdigits, hc⟩ := leads_digits hd
  unfold Decimal.layout
  rw [hdigits]
  dsimp only
  split
  · exact Leads.isWhole ⟨c, _, rfl, hc⟩
  · split
    · rename_i hplaces
      obtain ⟨k, hk⟩ : ∃ k, (c :: rest).length - (-d.exponent).toNat = k + 1 :=
        ⟨_, (Nat.succ_pred_eq_of_pos (Nat.sub_pos_of_lt hplaces)).symm⟩
      rw [List.splitAt_eq, hk]
      exact Leads.isWhole ⟨c, _, rfl, hc⟩
    · exact isWhole_singleton Digit.zero

/-- A decimal that is positive, or else has an exponent anyway, is spelled without a superfluous
zero. -/
lemma spelled_ofDecimal (negative : Bool) {d : Decimal}
    (hd : Numeral.isPositional d.scale → 0 < d.significand) :
    (Numeral.ofDecimal negative d).Spelled := by
  unfold Numeral.ofDecimal
  split
  · rename_i hpositional
    exact ⟨isWhole_layout (hd hpositional), fun _ hp => by cases hp⟩
  · obtain ⟨c, rest, hdigits⟩ := List.exists_cons_of_ne_nil (digits_ne_nil d.significand)
    rw [hdigits, List.splitAt_eq]
    refine ⟨isWhole_singleton c, fun p hp => ?_⟩
    obtain rfl := Option.some.inj hp
    exact digits_ne_nil _

namespace RoundingInterval

/-- The points that stand for a positive interval are positive. -/
lemma point?_pos {i : RoundingInterval} (hlow : 0 < i.low) {tie : Tie} {e : ℤ} {c : ℕ}
    (hc : i.point? tie e = some c) : 0 < c := by
  unfold point? at hc
  extract_lets unit quarter value inside below above at hc
  have hquarter : 0 < quarter := by
    rw [show quarter = Nat.pow 10 (-e).toNat <<< i.q.toNat from rfl, Nat.shiftLeft_eq]
    exact Nat.mul_pos (Nat.pow_pos (by decide)) (Nat.pow_pos (by decide))
  have hinside (c : ℕ) (h : inside c = true) : 0 < c := by
    have hpos : 0 < i.low * quarter := Nat.mul_pos hlow hquarter
    refine Nat.pos_of_ne_zero fun hzero => ?_
    rw [show inside c = (if i.closed then _ else _) from rfl, hzero, Nat.zero_mul] at h
    split at h
    · simp only [Bool.and_eq_true, decide_eq_true_eq] at h
      omega
    · simp only [Bool.and_eq_true, decide_eq_true_eq] at h
      omega
  have habove : 0 < above := Nat.succ_pos below
  split at hc
  case h_1 hb _ =>
    have hbelow := hinside below hb
    grind
  case h_2 hb _ => exact Option.some.inj hc ▸ hinside below hb
  case h_3 => exact Option.some.inj hc ▸ habove
  case h_4 => cases hc

/-- The search ends at a point of the interval, or at the last of its grids. -/
lemma search_pos_or {i : RoundingInterval} (hlow : 0 < i.low) (tie : Tie) (least : ℤ) (fuel : ℕ) :
    0 < (i.search tie least fuel).significand ∨ i.search tie least fuel = ⟨0, least⟩ := by
  induction fuel with
  | zero =>
      rw [search]
      cases hpoint : i.point? tie least with
      | none => exact .inr rfl
      | some c => exact .inl (point?_pos hlow hpoint)
  | succ fuel ih =>
      rw [search]
      split
      · rename_i hpoint
        exact .inl (point?_pos hlow hpoint)
      · exact ih

end RoundingInterval

/-- What is written for a number without a significand to show has an exponent. -/
lemma shortestDecimal_pos {tie : Tie} {m : ℕ} (hm : 0 < m) {q : ℤ}
    (hpositional : Numeral.isPositional (shortestDecimal tie m q).scale) :
    0 < (shortestDecimal tie m q).significand := by
  have hlow : 0 < (RoundingInterval.ofSingle m q).low := by
    unfold RoundingInterval.ofSingle
    dsimp only
    split <;> omega
  refine (RoundingInterval.search_pos_or hlow tie (-46) 85).resolve_right fun hlast => ?_
  rw [shortestDecimal, hlast] at hpositional
  revert hpositional
  decide

namespace Numeral

lemma spelled_ofSingle? {f : Float32} {n : Numeral} (h : ofSingle? f = some n) : n.Spelled := by
  unfold ofSingle? at h
  split at h
  case h_1 => cases h
  case h_2 => cases h
  case h_3 negative m q _ =>
    split at h
    · obtain rfl := Option.some.inj h
      exact ⟨isWhole_singleton Digit.zero, fun _ hp => by cases hp⟩
    · rename_i hm
      obtain rfl := Option.some.inj h
      exact spelled_ofDecimal negative (shortestDecimal_pos (Nat.pos_of_ne_zero hm))

end Numeral

/-! ## Numbers that have no numeral -/

/-- The numbers that are not finite are those with the last exponent. -/
lemma isFinite_iff_exponent {f : Float32} : f.isFinite ↔ f.toBits.toNat >>> 23 % 256 ≠ 255 := by
  have hexponent : (@unpackExponent Format.binary32 f.toBits.toBitVec).toNat =
      f.toBits.toNat >>> 23 % 256 := BitVec.extractLsb'_toNat 23 8 f.toBits.toBitVec
  change (unpack Format.binary32 f.toBits.toBitVec).isFinite ↔ _
  rw [← hexponent]
  unfold unpack
  dsimp only
  split
  case isTrue hlast =>
    refine iff_of_false ?_ (not_not.2 (congrArg BitVec.toNat hlast))
    split <;> exact Bool.false_ne_true
  case isFalse hlast =>
    refine iff_of_true ?_ fun h => hlast (BitVec.eq_of_toNat_eq h)
    split
    · split <;> rfl
    · rfl

lemma unpackSingle_cases (f : Float32) :
    (f.toBits.toNat >>> 23 % 256 = 255 ∧
      (unpackSingle f = .nan ∨ ∃ negative, unpackSingle f = .infinite negative)) ∨
    (f.toBits.toNat >>> 23 % 256 ≠ 255 ∧ ∃ negative m q, unpackSingle f = .finite negative m q) := by
  have hunpack : unpackSingle f =
      if f.toBits.toNat >>> 23 % 256 = 255 then
        if f.toBits.toNat % (1 <<< 23) = 0 then .infinite _ else .nan
      else if f.toBits.toNat >>> 23 % 256 = 0 then .finite _ _ _ else .finite _ _ _ := rfl
  rw [hunpack]
  split
  · refine .inl ⟨‹_›, ?_⟩
    split
    · exact .inr ⟨_, rfl⟩
    · exact .inl rfl
  · refine .inr ⟨‹_›, ?_⟩
    split <;> exact ⟨_, _, _, rfl⟩

/-- A number has a numeral when it is finite. -/
lemma Numeral.ofSingle?_eq_none_iff {f : Float32} : ofSingle? f = none ↔ ¬ f.isFinite := by
  rw [isFinite_iff_exponent, not_not]
  obtain ⟨hlast, hnan | ⟨_, hinfinite⟩⟩ | ⟨hlast, _, m, _, hfinite⟩ := unpackSingle_cases f
  · exact iff_of_true (by rw [ofSingle?, hnan]) hlast
  · exact iff_of_true (by rw [ofSingle?, hinfinite]) hlast
  · refine iff_of_false ?_ hlast
    rw [ofSingle?, hfinite]
    dsimp only
    split <;> exact Option.some_ne_none _

end Arbor
