import Mathlib
import Arbor.Proofs.Json.Numerals
import Arbor.Proofs.Json.Strings

/-!
# Values as they are written and read

The reader calls itself with less fuel for every item, member and nesting, so what is shown of a value
is that it is read back with fuel for twice the length of its text, from in front of whatever does not
go on a numeral (`Json.ReadsBack`).  For arrays and objects this is an induction on the items or the
members, in which each of them pays for itself and for the comma in front of it (`readItems_print`,
`readMembers_print`).  The induction on the value (`readsBack_of_spelled`) puts these together.

Only values with a text are considered (`Json.Spelled`): a string that holds half of a surrogate
pair, say, has none.
-/

namespace Arbor

namespace Json

/-- A value that has a text: its numerals are spelled, and its strings and names are words. -/
inductive Spelled : Json → Prop
  | null : Spelled .null
  | bool (b : Bool) : Spelled (.bool b)
  | number {n : Numeral} (hn : n.Spelled) : Spelled (.number n)
  | string (w : Word) : Spelled (.string (Text.ofWord w))
  | array {items : List Json} (hitems : ∀ item ∈ items, Spelled item) : Spelled (.array items)
  | object {members : List (Text × Json)} (hnames : ∀ m ∈ members, ∃ w, m.1 = Text.ofWord w)
      (hvalues : ∀ m ∈ members, Spelled m.2) : Spelled (.object members)

/-- A value is read back from in front of any text that does not go on a numeral, when there is fuel
for two steps for each symbol of its own text. -/
def ReadsBack (j : Json) : Prop :=
  ∀ fuel s, 2 * j.print.length ≤ fuel → EndsNumeral s → readValue fuel (j.print ++ s) = some (j, s)

end Json

open Json

lemma endsNumeral_cons {c : Char} (hc : Digit.ofChar? c = none ∧ c ≠ '.' ∧ c ≠ 'e' ∧ c ≠ 'E')
    (s : List Char) : EndsNumeral (c :: s) := by
  intro d hd
  obtain rfl : c = d := Option.some.inj hd
  exact hc

lemma skipBlanks_cons {c : Char} (hc : isBlank c = false) (s : List Char) :
    skipBlanks (c :: s) = c :: s :=
  List.dropWhile_cons_of_neg (by simp [hc])

lemma isBlank_char : ∀ d : Digit, isBlank d.char = false ∧ d.char ≠ ']' := by
  decide

/-- The text of a value begins with neither a blank nor the end of an array. -/
lemma head_print_value {j : Json} (hj : j.Spelled) :
    ∃ c s, j.print = c :: s ∧ isBlank c = false ∧ c ≠ ']' := by
  cases hj with
  | null => exact ⟨_, _, rfl, by decide, by decide⟩
  | bool b => cases b <;> exact ⟨_, _, rfl, by decide, by decide⟩
  | number hn =>
      rw [Json.print]
      obtain ⟨c, s, hprint, rfl | ⟨d, rfl⟩⟩ := head_print hn
      · exact ⟨_, s, hprint, by decide, by decide⟩
      · exact ⟨_, s, hprint, isBlank_char d⟩
  | string w =>
      rw [Json.print, Text.print]
      exact ⟨_, _, rfl, by decide, by decide⟩
  | @array items _ =>
      cases items <;> rw [Json.print] <;> exact ⟨_, _, rfl, by decide, by decide⟩
  | @object members _ _ =>
      cases members <;> rw [Json.print] <;> exact ⟨_, _, rfl, by decide, by decide⟩

lemma skipBlanks_print {j : Json} (hj : j.Spelled) (s : List Char) :
    skipBlanks (j.print ++ s) = j.print ++ s := by
  obtain ⟨c, t, hprint, hc, -⟩ := head_print_value hj
  rw [hprint]
  exact skipBlanks_cons hc _

/-! ## Items and members -/

lemma endsNumeral_printItems (items : List Json) (s : List Char) :
    EndsNumeral (printItems items ++ s) := by
  cases items <;> rw [printItems] <;> exact endsNumeral_cons (by decide) _

lemma readItems_print {item : Json} {items : List Json}
    (hspelled : ∀ i ∈ item :: items, i.Spelled) (hread : ∀ i ∈ item :: items, i.ReadsBack)
    {fuel : ℕ} (hfuel : 2 * (item.print ++ printItems items).length ≤ fuel) (s : List Char) :
    readItems fuel (item.print ++ (printItems items ++ s)) = some (item :: items, s) := by
  induction items generalizing item fuel with
  | nil =>
      simp only [printItems, List.length_append, List.length_cons] at hfuel
      obtain ⟨fuel, rfl⟩ := Nat.exists_eq_succ_of_ne_zero (show fuel ≠ 0 by omega)
      have hitem := hread item List.mem_cons_self fuel _ (by omega) (endsNumeral_printItems [] s)
      rw [readItems, hitem]
      rfl
  | cons next items ih =>
      simp only [printItems, List.length_append, List.length_cons] at hfuel
      obtain ⟨fuel, rfl⟩ := Nat.exists_eq_succ_of_ne_zero (show fuel ≠ 0 by omega)
      have hitem := hread item List.mem_cons_self fuel _ (by omega)
        (endsNumeral_printItems (next :: items) s)
      have hrest := ih (fun i hi => hspelled i (List.mem_cons_of_mem _ hi))
        (fun i hi => hread i (List.mem_cons_of_mem _ hi))
        (show _ ≤ fuel by rw [List.length_append]; omega)
      have hskip := skipBlanks_print (hspelled next (List.mem_cons_of_mem _ List.mem_cons_self))
        (printItems items ++ s)
      have hcomma : skipBlanks (printItems (next :: items) ++ s) =
          ',' :: (next.print ++ (printItems items ++ s)) := by
        rw [printItems, List.append_assoc]
        exact skipBlanks_cons (by decide) _
      rw [readItems, hitem]
      simp only [Option.bind_eq_bind, Option.bind_some, hcomma, hskip, hrest, Option.pure_def]

/-- A member has a word for its name and a value that is read back. -/
structure MemberReadsBack (m : Text × Json) : Prop where
  name : ∃ w, m.1 = Text.ofWord w
  spelled : m.2.Spelled
  value : m.2.ReadsBack

def printMember (m : Text × Json) : List Char := m.1.print ++ ':' :: m.2.print

lemma printMembers_cons (m : Text × Json) (members : List (Text × Json)) :
    printMembers (m :: members) = ',' :: (printMember m ++ printMembers members) := by
  rw [printMembers, printMember]
  simp only [List.cons_append, List.append_assoc]

lemma endsNumeral_printMembers (members : List (Text × Json)) (s : List Char) :
    EndsNumeral (printMembers members ++ s) := by
  cases members <;> rw [printMembers] <;> exact endsNumeral_cons (by decide) _

lemma skipBlanks_printMember {m : Text × Json} (hm : MemberReadsBack m) (s : List Char) :
    skipBlanks (printMember m ++ s) = printMember m ++ s := by
  obtain ⟨w, hw⟩ := hm.name
  rw [printMember, hw, List.append_assoc, print_ofWord_append]
  exact skipBlanks_cons (by decide) _

/-- How an object is read on behind a member. -/
def readOn (fuel : ℕ) (m : Text × Json) (s : List Char) :
    Option (List (Text × Json) × List Char) :=
  match skipBlanks s with
  | '}' :: rest => some ([m], rest)
  | ',' :: rest => (readMembers fuel (skipBlanks rest)).bind fun r => some (m :: r.1, r.2)
  | _ => none

/-- A member is read up to where its value ends. -/
lemma readMembers_printMember {m : Text × Json} (hm : MemberReadsBack m) {fuel : ℕ}
    (hfuel : 2 * m.2.print.length ≤ fuel) {s : List Char} (hs : EndsNumeral s) :
    readMembers (fuel + 1) (printMember m ++ s) = readOn fuel m s := by
  obtain ⟨name, value⟩ := m
  obtain ⟨w, rfl⟩ := hm.name
  have htext : printMember (Text.ofWord w, value) ++ s =
      '\"' :: (w.flatMap escape ++ '\"' :: ':' :: (value.print ++ s)) := by
    simp only [printMember, List.append_assoc, List.cons_append, print_ofWord_append]
  have hcolon : skipBlanks (':' :: (value.print ++ s)) = ':' :: (value.print ++ s) :=
    skipBlanks_cons (by decide) _
  rw [htext, readMembers]
  simp only [Option.bind_eq_bind, readText_escapes, Option.bind_some, hcolon,
    skipBlanks_print hm.spelled, hm.value fuel s hfuel hs, Option.pure_def]
  rfl

lemma readMembers_print {m : Text × Json} {members : List (Text × Json)}
    (hread : ∀ n ∈ m :: members, MemberReadsBack n) {fuel : ℕ}
    (hfuel : 2 * (printMember m ++ printMembers members).length ≤ fuel) (s : List Char) :
    readMembers fuel (printMember m ++ (printMembers members ++ s)) = some (m :: members, s) := by
  have hm := hread m List.mem_cons_self
  have hlength (n : Text × Json) : n.2.print.length < (printMember n).length := by
    rw [printMember, List.length_append, List.length_cons]
    omega
  induction members generalizing m fuel with
  | nil =>
      have hvalue := hlength m
      rw [List.length_append] at hfuel
      obtain ⟨fuel, rfl⟩ := Nat.exists_eq_succ_of_ne_zero (show fuel ≠ 0 by omega)
      rw [readMembers_printMember hm (by omega) (endsNumeral_printMembers [] s)]
      rfl
  | cons next members ih =>
      have hvalue := hlength m
      rw [printMembers_cons, List.length_append, List.length_cons] at hfuel
      obtain ⟨fuel, rfl⟩ := Nat.exists_eq_succ_of_ne_zero (show fuel ≠ 0 by omega)
      have hnext := hread next (List.mem_cons_of_mem _ List.mem_cons_self)
      have hcomma : skipBlanks (printMembers (next :: members) ++ s) =
          ',' :: (printMember next ++ (printMembers members ++ s)) := by
        rw [printMembers_cons, List.cons_append, List.append_assoc]
        exact skipBlanks_cons (by decide) _
      have hrest := ih (fun n hn => hread n (List.mem_cons_of_mem _ hn))
        (show _ ≤ fuel by omega) hnext
      rw [readMembers_printMember hm (by omega) (endsNumeral_printMembers _ s), readOn, hcomma]
      simp only [skipBlanks_printMember hnext, hrest, Option.bind_some]

/-! ## Values -/

lemma char_ne : ∀ d : Digit, d.char ≠ 'n' ∧ d.char ≠ 't' ∧ d.char ≠ 'f' ∧ d.char ≠ '\"' ∧
    d.char ≠ '[' ∧ d.char ≠ '{' := by
  decide

/-- No other kind of value begins with a sign or a digit. -/
lemma readValue_numeral {n : Numeral} (hn : n.Spelled) (fuel : ℕ) {s : List Char}
    (hs : EndsNumeral s) : readValue (fuel + 1) (n.print ++ s) = some (.number n, s) := by
  have hread := readNumeral_print hn hs
  obtain ⟨c, t, hprint, hc⟩ := head_print hn
  have hother : c ≠ 'n' ∧ c ≠ 't' ∧ c ≠ 'f' ∧ c ≠ '\"' ∧ c ≠ '[' ∧ c ≠ '{' := by
    rcases hc with rfl | ⟨d, rfl⟩
    · decide
    · exact char_ne d
  rw [hprint, List.cons_append] at hread ⊢
  rw [readValue, hread]
  · rfl
  all_goals simp [hother]

lemma Json.ReadsBack.of_succ {j : Json} (hj : j.Spelled)
    (h : ∀ fuel s, 2 * j.print.length ≤ fuel + 1 → EndsNumeral s →
      readValue (fuel + 1) (j.print ++ s) = some (j, s)) : j.ReadsBack := by
  intro fuel s hfuel hs
  obtain ⟨c, t, hprint, -, -⟩ := head_print_value hj
  have hlength : j.print.length = t.length + 1 := congrArg List.length hprint
  obtain ⟨fuel, rfl⟩ := Nat.exists_eq_succ_of_ne_zero (show fuel ≠ 0 by omega)
  exact h fuel s hfuel hs

lemma readsBack_array {items : List Json} (hspelled : ∀ i ∈ items, i.Spelled)
    (hread : ∀ i ∈ items, i.ReadsBack) : (Json.array items).ReadsBack := by
  refine .of_succ (.array hspelled) fun fuel s hfuel _ => ?_
  cases items with
  | nil => rfl
  | cons item items =>
      have hitem := hspelled item List.mem_cons_self
      obtain ⟨c, t, hprint, -, hc⟩ := head_print_value hitem
      rw [Json.print, List.cons_append, List.length_cons] at hfuel
      have hitems := readItems_print hspelled hread (show _ ≤ fuel by omega) s
      have hskip := skipBlanks_print hitem (printItems items ++ s)
      rw [Json.print, List.cons_append, List.cons_append, List.append_assoc, readValue, hskip]
      split
      -- No item begins with the end of the array.
      case h_1 heq =>
        rw [hprint] at heq
        exact absurd (List.cons.inj heq).1 hc
      case h_2 =>
        rw [hitems]
        rfl

lemma readsBack_object {members : List (Text × Json)}
    (hread : ∀ m ∈ members, MemberReadsBack m) : (Json.object members).ReadsBack := by
  have hspelled : (Json.object members).Spelled :=
    .object (fun m hm => (hread m hm).name) fun m hm => (hread m hm).spelled
  refine .of_succ hspelled fun fuel s hfuel _ => ?_
  cases members with
  | nil => rfl
  | cons m members =>
      have hprint : (Json.object (m :: members)).print =
          '{' :: (printMember m ++ printMembers members) := by
        rw [Json.print, printMember]
        simp only [List.cons_append, List.append_assoc]
      rw [hprint, List.length_cons] at hfuel
      have hmembers := readMembers_print hread (show _ ≤ fuel by omega) s
      have hskip := skipBlanks_printMember (hread m List.mem_cons_self) (printMembers members ++ s)
      rw [hprint, List.cons_append, List.append_assoc, readValue, hskip]
      split
      case h_1 heq => cases heq
      case h_2 =>
        rw [hmembers]
        rfl

/-- The text of a value is read as that value. -/
lemma readsBack_of_spelled {j : Json} (hj : j.Spelled) : j.ReadsBack := by
  induction hj with
  | null => exact .of_succ .null fun _ _ _ _ => rfl
  | bool b => exact .of_succ (.bool b) fun _ _ _ _ => by cases b <;> rfl
  | number hn =>
      refine .of_succ (.number hn) fun fuel s _ hs => ?_
      rw [Json.print]
      exact readValue_numeral hn fuel hs
  | string w =>
      refine .of_succ (.string w) fun fuel s _ _ => ?_
      rw [Json.print, print_ofWord_append, readValue, readText_escapes]
      rfl
  | array hitems ih => exact readsBack_array hitems ih
  | object hnames hvalues ih =>
      exact readsBack_object fun m hm => ⟨hnames m hm, hvalues m hm, ih m hm⟩

/-- **A value is read back from its text.** -/
theorem parse?_print {j : Json} (hj : j.Spelled) : Json.parse? j.print = some j := by
  have hread := readsBack_of_spelled hj (2 * j.print.length + 1) [] (by omega) (by simp [EndsNumeral])
  have hskip := skipBlanks_print hj []
  rw [List.append_nil] at hread hskip
  rw [Json.parse?, hskip, hread]
  rfl

end Arbor
