import Arbor.Grammar.Rename
import Arbor.Proofs.Plant.FirstDefect
import Arbor.Proofs.Turtle.Runs

/-!
# Symbols are names

No symbol has a meaning of its own: what it becomes and what it does are looked up.  So if all
symbols change their names, in the start symbol, in the productions and in the alphabet, everything
goes on as before under the new names.

A table that is renamed is sorted anew, so none of its entries need be where it was.  Look-ups are
what goes along with a renaming (`Productions.get?_rename`, `SymbolMap.contains_rename`), and the
rest is said in terms of them.  A walk of the renamed word looks up the same operations
(`Turtle.walk_rename`).  The count of a word follows its length, whatever the order of its entries.
And each question of the check is answered by look-ups and the count
(`Plant.defect?_rename_eq_none_iff`), with one trace left of the order of the table: of several
productions with a symbol without operation, the one reported has the least key, which may be
another one under the new names (`ConfigError.Renamed`).
-/

namespace Arbor

/-! ## Tables and words -/

section Words

variable (f : Symbol ≃ Symbol)

lemma SymbolMap.contains_rename {α : Type} (m : SymbolMap α) (c : Symbol) :
    (m.rename f).contains (f c) = m.contains c := by
  rw [contains, get?_rename fun h => f.injective h, contains]

namespace Productions

variable (p : Productions) (start : Symbol) (n : ℕ)

lemma get?_rename (c : Symbol) : (p.rename f).get? (f c) = (p.get? c).map fun w => w.map f := by
  rw [get?, rename, SymbolMap.get?_rename fun h => f.injective h, SymbolMap.get?_map, get?]

/-- Renamed productions derive the renamed word. -/
lemma expand_rename : (p.rename f).expand (f start) n = (p.expand start n).map f := by
  induction n with
  | zero => simp
  | succ n ih =>
      rw [expand_succ, expand_succ, ih]
      exact substitute_rename (fun h => f.injective h) p _

/-- Renamed productions count the renamed word as the word was counted, whatever the orders. -/
lemma projects_rename :
    (p.rename f).projectedLength (f start) n = p.projectedLength start n ∧
      ∀ k, (p.rename f).Projects (f start) n k ↔ p.Projects start n k :=
  projects_congr p start (by rw [expand_rename, List.length_map])

end Productions

end Words

/-! ## Walks -/

/-- The error under the new names; only one kind of error shows a symbol. -/
def WalkError.rename (f : Symbol → Symbol) : WalkError → WalkError
  | unknownSymbol position symbol => .unknownSymbol position (f symbol)
  | e => e

/-- An error for the brackets shows no symbol. -/
lemma WalkError.rename_of_isStructural (f : Symbol → Symbol) {e : WalkError} (h : e.isStructural) :
    e.rename f = e := by
  cases e with
  | unknownSymbol => cases h
  | _ => rfl

namespace Turtle

variable {σ : Type}

/-- The turtle with an alphabet under the new names. -/
def rename (f : Symbol → Symbol) (t : Turtle) : Turtle := { t with alphabet := t.alphabet.rename f }

variable (f : Symbol ≃ Symbol) (trig : Trig) (t : Turtle) (host : Host σ) (h : σ) (pose : Pose)
  {w : Word}

/-- A word is walked as under its old names, but for the symbol of an error. -/
lemma walk_rename (w : Word) :
    (t.rename f).walk trig host h pose (w.map f) =
      { t.walk trig host h pose w with
        outcome := (t.walk trig host h pose w).outcome.mapError (WalkError.rename f) } := by
  have hnames : List.Forall₂ (fun c d => d = f c) w (w.map f) := by
    rw [List.forall₂_map_right_iff, List.forall₂_same]
    exact fun _ _ => rfl
  refine Progress.Rel.run_eq (fun _ => rfl) (t.looksUp_read.follow_rel (t.rename f).looksUp_read
    ?_ ?_ ?_ trig t.settings host (State.start pose h) hnames)
  · rintro c _ rfl
    exact SymbolMap.get?_rename (fun h => f.injective h) t.alphabet c
  · rintro c _ position e e' rfl herror herror'
    rw [eq_of_read_eq_error herror, eq_of_read_eq_error herror']
    rfl
  · intro e hstructural
    exact (WalkError.rename_of_isStructural f hstructural).symm

/-- Where every symbol has an operation only the brackets can be at fault. -/
lemma ok_or_isStructural_of_contains (hmapped : ∀ c ∈ w, t.alphabet.contains c) :
    (∃ r, (t.walkUnpaced trig host h pose w).outcome = .ok r) ∨
      ∃ e, e.isStructural ∧ (t.walkUnpaced trig host h pose w).outcome = .error e := by
  rcases outcome_walkUnpaced_of_contains trig host h pose hmapped with
    hok | ⟨i, -, hout⟩ | ⟨d, -, hout⟩ | ⟨i, -, hout⟩
  · exact .inl hok
  · exact .inr ⟨_, rfl, hout⟩
  · exact .inr ⟨_, rfl, hout⟩
  · exact .inr ⟨_, rfl, hout⟩

/-- Such a word is walked as under its old names, for nothing shows a symbol. -/
lemma walkUnpaced_rename_of_contains (hmapped : ∀ c ∈ w, t.alphabet.contains c) :
    (t.rename f).walkUnpaced trig host h pose (w.map f) = t.walkUnpaced trig host h pose w := by
  have hout : (t.walk trig host.unpaced h pose w).outcome.mapError (WalkError.rename f) =
      (t.walk trig host.unpaced h pose w).outcome := by
    rw [← Run.outcome_withoutPaces, ← walkUnpaced]
    rcases t.ok_or_isStructural_of_contains trig host h pose hmapped with
      ⟨r, hr⟩ | ⟨e, hstructural, he⟩
    · rw [hr, Except.mapError]
    · rw [he, Except.mapError, WalkError.rename_of_isStructural f hstructural]
  rw [walkUnpaced, walkUnpaced, walk_rename, hout]

end Turtle

/-! ## The check -/

/-- Two defects are the same but for names.  Of several productions with a symbol without operation
any one may be the first under the new names. -/
inductive ConfigError.Renamed (f : Symbol → Symbol) : ConfigError → ConfigError → Prop
  | stepLength (value : Float32) : Renamed f (.stepLength value) (.stepLength value)
  | turnAngle (value : Float32) : Renamed f (.turnAngle value) (.turnAngle value)
  | strength (value : Float32) : Renamed f (.strength value) (.strength value)
  | start (c : Symbol) : Renamed f (.unmapped c .start) (.unmapped (f c) .start)
  | rule (c key c' key' : Symbol) :
      Renamed f (.unmapped c (.rule key)) (.unmapped c' (.rule key'))
  | tooLong (projected limit : ℕ) : Renamed f (.tooLong projected limit) (.tooLong projected limit)

namespace Plant

/-- The plant under the new names. -/
def rename (f : Symbol → Symbol) (p : Plant) : Plant :=
  { p with start := f p.start, productions := p.productions.rename f }

variable (f : Symbol ≃ Symbol) (alphabet : Alphabet) (p : Plant)

lemma word_rename : (p.rename f).word = p.word.map f :=
  Productions.expand_rename f p.productions p.start p.rounds.toNat

variable {f alphabet p}

lemma mapped_rename {key : Symbol} {w : Word} :
    Mapped (alphabet.rename f) (f key) (w.map f) ↔ Mapped alphabet key w := by
  simp only [Mapped, List.forall_mem_map, SymbolMap.contains_rename]

/-- Every key is the new name of a symbol, and its production that of the symbol. -/
lemma missingRule?_rename_eq_none_iff :
    missingRule? (alphabet.rename f) (p.rename f).productions = none ↔
      missingRule? alphabet p.productions = none := by
  rw [missingRule?_eq_none_iff_mapped, missingRule?_eq_none_iff_mapped, f.surjective.forall]
  apply forall_congr'
  intro key
  have hget : (p.rename f).productions.get? (f key) =
      (p.productions.get? key).map fun w => w.map f := Productions.get?_rename f p.productions key
  rw [hget]
  simp only [Option.map_eq_some_iff, forall_exists_index, and_imp, forall_apply_eq_imp_iff₂,
    mapped_rename]

/-- A question finds a defect under the new names exactly if it finds one under the old names. -/
lemma defect?_rename_eq_none_iff (rank : ℕ) :
    (p.rename f).defect? (alphabet.rename f) rank = none ↔ p.defect? alphabet rank = none := by
  rcases rank with _ | _ | _ | _ | _ | _ | rank
  · rfl
  · rfl
  · rfl
  · simp only [defect?, rename, SymbolMap.contains_rename, ite_eq_left_iff, reduceCtorEq, imp_false]
  · exact missingRule?_rename_eq_none_iff
  · simp only [defect?, rename, (Productions.projects_rename f _ _ _).1]
  · rfl

lemma check_rename_eq_ok_iff :
    (p.rename f).check (alphabet.rename f) = .ok () ↔ p.check alphabet = .ok () := by
  simp only [check_eq_ok_iff_defect?, defect?_rename_eq_none_iff]

/-- The same question finds the first defect, under the old and under the new names. -/
lemma renamed_of_check_eq_error {e e' : ConfigError} (he : p.check alphabet = .error e)
    (he' : (p.rename f).check (alphabet.rename f) = .error e') : e.Renamed f e' := by
  obtain ⟨rank, -, hfound, hfirst⟩ := check_eq_error_iff_defect?.1 he
  obtain ⟨rank', -, hfound', hfirst'⟩ := check_eq_error_iff_defect?.1 he'
  have hrank : rank' = rank := by
    rcases Nat.lt_trichotomy rank' rank with hlt | heq | hlt
    · have hnone := defect?_rename_eq_none_iff (f := f) rank' |>.2 (hfirst rank' hlt)
      rw [hnone] at hfound'
      cases hfound'
    · exact heq
    · have hnone := defect?_rename_eq_none_iff (f := f) rank |>.1 (hfirst' rank hlt)
      rw [hnone] at hfound
      cases hfound
  subst hrank
  rw [defect?_eq_some_iff] at hfound hfound'
  cases hfound with
  | stepLength =>
      cases hfound' with
      | stepLength => exact .stepLength _
  | turnAngle =>
      cases hfound' with
      | turnAngle => exact .turnAngle _
  | strength =>
      cases hfound' with
      | strength => exact .strength _
  | start =>
      cases hfound' with
      | start => exact .start _
  | rule =>
      cases hfound' with
      | rule => exact .rule ..
  | tooLong =>
      cases hfound' with
      | tooLong =>
          rw [word_rename, List.length_map]
          exact .tooLong ..

/-- A plant that does not pass does not pass under its new names either. -/
lemma exists_check_rename_eq_error {e : ConfigError} (he : p.check alphabet = .error e) :
    ∃ e', (p.rename f).check (alphabet.rename f) = .error e' ∧ e.Renamed f e' := by
  cases he' : (p.rename f).check (alphabet.rename f) with
  | ok =>
      rw [check_rename_eq_ok_iff.1 he'] at he
      cases he
  | error e' => exact ⟨e', rfl, renamed_of_check_eq_error he he'⟩

/-! ## Growth -/

variable {σ : Type} {t : Turtle} {h : σ}

lemma growWith_of_check_eq_error {trig : Trig} {host : Host σ} {e : ConfigError}
    (he : p.check t.alphabet = .error e) :
    p.growWith trig t host h = ⟨.error (.config e), [], h⟩ := by
  rw [growWith, he]

/-- A plant that passes can fail for its brackets only. -/
lemma ok_or_isStructural_of_check (trig : Trig) (host : Host σ) (h : σ)
    (hok : p.check t.alphabet = .ok ()) :
    (∃ r, (p.growWith trig t host h).outcome = .ok r) ∨
      ∃ e, e.isStructural ∧ (p.growWith trig t host h).outcome = .error (.walk e) := by
  rw [outcome_growWith_eq hok]
  rcases Turtle.ok_or_isStructural_of_contains trig { t with settings := p.settings } host h p.pose
    (contains_of_check hok) with ⟨r, hr⟩ | ⟨e, hstructural, he⟩
  · rw [hr]
    exact .inl ⟨r, rfl⟩
  · rw [he]
    exact .inr ⟨e, hstructural, rfl⟩

/-- A plant that passes grows as under its old names, also where its brackets are at fault. -/
lemma growWith_rename_of_check (trig : Trig) (host : Host σ) (h : σ)
    (hok : p.check t.alphabet = .ok ()) :
    (p.rename f).growWith trig (t.rename f) host h = p.growWith trig t host h := by
  have hok' : (p.rename f).check (t.rename f).alphabet = .ok () := check_rename_eq_ok_iff.2 hok
  have hwalk :
      Turtle.walkUnpaced trig { t.rename f with settings := p.settings } host h p.pose
          (p.word.map f) =
        Turtle.walkUnpaced trig { t with settings := p.settings } host h p.pose p.word :=
    Turtle.walkUnpaced_rename_of_contains f trig { t with settings := p.settings } host h p.pose
      (contains_of_check hok)
  rw [growWith, hok', growWith, hok]
  dsimp only
  rw [word_rename, ← hwalk]
  rfl

/-- **Renaming symbols changes nothing but names.**  Let `f` give every symbol a new name, no two of
them the same.  The productions under the new names derive the word under the new names from the new
name of the start symbol, and count it alike, in whatever orders.  The walk of a word under the new
names makes the same calls, leaves its surroundings in the same state and has the same report or
error, but that an error for a symbol shows its new name.  So growth under the new names makes the
same calls, and ends with the same report or the same error of its brackets, or in both cases with a
defect, which is the same but for names. -/
theorem growWith_rename (f : Symbol ≃ Symbol) :
    (∀ (p : Productions) (start : Symbol) (n : ℕ),
      (p.rename f).expand (f start) n = (p.expand start n).map f ∧
      (p.rename f).projectedLength (f start) n = p.projectedLength start n ∧
      ∀ k, (p.rename f).Projects (f start) n k ↔ p.Projects start n k) ∧
    (∀ (σ : Type) (trig : Trig) (t : Turtle) (host : Host σ) (h : σ) (pose : Pose) (w : Word),
      let run := t.walk trig host h pose w
      let renamed := (t.rename f).walk trig host h pose (w.map f)
      renamed.calls = run.calls ∧ renamed.host = run.host ∧
      (∀ r, run.outcome = .ok r → renamed.outcome = .ok r) ∧
      ∀ e, run.outcome = .error e → renamed.outcome = .error (e.rename f)) ∧
    ∀ (σ : Type) (trig : Trig) (t : Turtle) (p : Plant) (host : Host σ) (h : σ),
      let growth := p.growWith trig t host h
      let renamed := (p.rename f).growWith trig (t.rename f) host h
      renamed.calls = growth.calls ∧ renamed.host = growth.host ∧
      renamed.branches = growth.branches ∧
      ((∃ r, growth.outcome = .ok r ∧ renamed.outcome = .ok r) ∨
        (∃ e, e.isStructural ∧ growth.outcome = .error (.walk e) ∧
          renamed.outcome = .error (.walk e)) ∨
        ∃ e e', e.Renamed f e' ∧ growth.outcome = .error (.config e) ∧
          renamed.outcome = .error (.config e')) := by
  refine ⟨?_, ?_, ?_⟩
  · intro p start n
    exact ⟨Productions.expand_rename f p start n, Productions.projects_rename f p start n⟩
  · intro σ trig t host h pose w run renamed
    have hwalk : renamed = { run with outcome := run.outcome.mapError (WalkError.rename f) } :=
      t.walk_rename f trig host h pose w
    refine ⟨by rw [hwalk], by rw [hwalk], ?_, ?_⟩
    · intro r hr
      rw [hwalk, hr]
      rfl
    · intro e he
      rw [hwalk, he]
      rfl
  · intro σ trig t p host h growth renamed
    cases hcheck : p.check t.alphabet with
    | ok =>
        have hsame : renamed = growth := growWith_rename_of_check trig host h hcheck
        rw [hsame]
        refine ⟨rfl, rfl, rfl, ?_⟩
        rcases ok_or_isStructural_of_check trig host h hcheck with ⟨r, hr⟩ | ⟨e, hstructural, he⟩
        · exact .inl ⟨r, hr, hr⟩
        · exact .inr (.inl ⟨e, hstructural, he, he⟩)
    | error e =>
        have hgrowth : growth = ⟨.error (.config e), [], h⟩ := growWith_of_check_eq_error hcheck
        obtain ⟨e', he', hnames⟩ := exists_check_rename_eq_error (f := f) hcheck
        have hrenamed : renamed = ⟨.error (.config e'), [], h⟩ := growWith_of_check_eq_error he'
        rw [hgrowth, hrenamed]
        exact ⟨rfl, rfl, rfl, .inr (.inr ⟨e, e', hnames, rfl, rfl⟩)⟩

/-- With `a` and `b` exchanged, it is the production of the old `b` that is reported. -/
example :
    let p : Plant := { ofPreset .climbing with
      productions := .ofList [('X', "X".toList), ('a', "X".toList), ('b', "F?".toList)] }
    let f := Equiv.swap 'a' 'b'
    p.check Alphabet.standard = .error (.unmapped 'a' (.rule 'a')) ∧
      (p.rename f).productions.get? 'a' = some "F?".toList ∧
      (p.rename f).check (Alphabet.standard.rename f) = .error (.unmapped 'a' (.rule 'a')) := by
  decide +kernel

end Plant

end Arbor
