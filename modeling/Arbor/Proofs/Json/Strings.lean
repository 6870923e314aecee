import Mathlib
import Arbor.Json.Parser
import Arbor.Json.Printer

/-!
# Strings as they are written and read

A written string is the quote, the escapes of its symbols side by side, and the quote again.  An
escape takes one of three forms (`escape_forms`): a backslash and a letter that stands for the
symbol, a backslash and the four digits of its code, or the symbol itself.  So the closing quote is
the first one without a backslash in front of it (`cutAtQuote_escape`), and what is in front of it is
read escape by escape (`contents?_escape`).  Together they read every word back from behind an
opening quote, whatever follows the closing one (`readText_escapes`).
-/

namespace Arbor

variable (c : Char) (s : List Char)

/-! ## Escapes -/

lemma escape_forms : (∃ e, escape c = ['\\', e] ∧ e ≠ 'u' ∧ unescape? e = some c) ∨
    (escape c = hexEscape c.toNat ∧ c.toNat < 32) ∨
    escape c = [c] ∧ c ≠ '\\' ∧ c ≠ '\"' ∧ ¬ c.toNat < 32 := by
  unfold escape
  split_ifs with hquote hback hb ht hn hf hr hlow
  · exact .inl ⟨_, rfl, by decide, by rw [hquote]; rfl⟩
  · exact .inl ⟨_, rfl, by decide, by rw [hback]; rfl⟩
  · exact .inl ⟨_, rfl, by decide, by rw [hb]; rfl⟩
  · exact .inl ⟨_, rfl, by decide, by rw [ht]; rfl⟩
  · exact .inl ⟨_, rfl, by decide, by rw [hn]; rfl⟩
  · exact .inl ⟨_, rfl, by decide, by rw [hf]; rfl⟩
  · exact .inl ⟨_, rfl, by decide, by rw [hr]; rfl⟩
  · exact .inr (.inl ⟨rfl, hlow⟩)
  · exact .inr (.inr ⟨rfl, hback, hquote, hlow⟩)

lemma hexDigit_ne : ∀ n < 16, hexDigit n ≠ '\"' ∧ hexDigit n ≠ '\\' := by
  decide

lemma hexValue?_hexDigit : ∀ n < 16, hexValue? (hexDigit n) = some n := by
  decide

/-- The four digits of a code spell it. -/
lemma hexCode?_hexDigits {code : ℕ} (hcode : code < 65536) :
    hexCode? (hexDigit (code / 4096 % 16)) (hexDigit (code / 256 % 16))
      (hexDigit (code / 16 % 16)) (hexDigit (code % 16)) = some code := by
  have hdigit (n : ℕ) : hexValue? (hexDigit (n % 16)) = some (n % 16) :=
    hexValue?_hexDigit _ (Nat.mod_lt _ (by decide))
  simp only [hexCode?, hdigit, Option.bind_eq_bind, Option.bind_some, Option.pure_def]
  congr 1
  omega

/-! ## The closing quote -/

variable {c} in
lemma cutAtQuote_cons (hquote : c ≠ '\"') (hback : c ≠ '\\') :
    cutAtQuote (c :: s) = (cutAtQuote s).map fun r => (c :: r.1, r.2) := by
  rw [cutAtQuote]
  · exact hquote
  · exact fun _ _ h => absurd h hback

/-- No escape holds the closing quote. -/
lemma cutAtQuote_escape :
    cutAtQuote (escape c ++ s) = (cutAtQuote s).map fun r => (escape c ++ r.1, r.2) := by
  obtain ⟨e, hform, -, -⟩ | ⟨hform, -⟩ | ⟨hform, hback, hquote, -⟩ := escape_forms c <;> rw [hform]
  · rfl
  · have hdigit (n : ℕ) (t : List Char) : cutAtQuote (hexDigit (n % 16) :: t) =
        (cutAtQuote t).map fun r => (hexDigit (n % 16) :: r.1, r.2) :=
      have hne := hexDigit_ne _ (Nat.mod_lt n (by decide))
      cutAtQuote_cons t hne.1 hne.2
    simp only [hexEscape, List.cons_append, List.nil_append, cutAtQuote, hdigit, Option.map_map]
    rfl
  · exact cutAtQuote_cons s hquote hback

lemma cutAtQuote_escapes (w : Word) :
    cutAtQuote (w.flatMap escape ++ '\"' :: s) = some (w.flatMap escape, s) := by
  induction w with
  | nil => rfl
  | cons c w ih =>
      rw [List.flatMap_cons, List.append_assoc, cutAtQuote_escape, ih]
      rfl

/-! ## Between the quotes -/

/-- An escape is read as the symbol it was written for. -/
lemma contents?_escape : contents? (escape c ++ s) = (contents? s).map (.scalar c :: ·) := by
  obtain ⟨e, hform, hu, he⟩ | ⟨hform, hlow⟩ | ⟨hform, hback, hquote, hlow⟩ := escape_forms c <;>
    rw [hform]
  · rw [List.cons_append, List.cons_append, List.nil_append, contents?, he]
    · cases contents? s <;> rfl
    · exact fun _ _ _ _ _ h => absurd h hu
  · have hcode := hexCode?_hexDigits (show c.toNat < 65536 by omega)
    have hscalar : TextUnit.ofCode c.toNat = .scalar c := by
      rw [TextUnit.ofCode, if_neg (by omega), Char.ofNat_toNat]
    simp only [hexEscape, List.cons_append, List.nil_append, contents?, hcode, hscalar,
      Option.bind_eq_bind, Option.bind_some, Option.pure_def]
    cases contents? s <;> rfl
  · rw [List.singleton_append, contents?, if_neg (by simp [hback, hquote, hlow])]
    all_goals simp only [hback, false_implies, implies_true]

lemma contents?_escapes (w : Word) : contents? (w.flatMap escape) = some (Text.ofWord w) := by
  induction w with
  | nil => rfl
  | cons c w ih =>
      rw [List.flatMap_cons, contents?_escape, ih]
      rfl

/-- A word is read back up to its closing quote. -/
lemma readText_escapes (w : Word) :
    readText (w.flatMap escape ++ '\"' :: s) = some (Text.ofWord w, s) := by
  simp only [readText, cutAtQuote_escapes, contents?_escapes, Option.bind_eq_bind, Option.bind_some,
    Option.pure_def]

lemma print_ofWord_append (w : Word) :
    (Text.ofWord w).print ++ s = '\"' :: (w.flatMap escape ++ '\"' :: s) := by
  rw [Text.print, Text.ofWord, List.flatMap_map, List.cons_append, List.cons_append,
    List.append_assoc]
  rfl

end Arbor
