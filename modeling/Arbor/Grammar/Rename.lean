import Arbor.Grammar.Productions

/-!
# Renaming symbols

A renaming replaces symbols throughout, in keys as well as in words.  For one that keeps different
symbols apart, look-ups go along with it (`get?_rename`) and so does substitution (`substitute_rename`).
-/

namespace Arbor

namespace SymbolMap

variable {α β : Type}

def map (g : α → β) (m : SymbolMap α) : SymbolMap β where
  entries := m.entries.map fun e => (e.1, g e.2)
  ascending := List.pairwise_map.2 m.ascending

def rename (f : Symbol → Symbol) (m : SymbolMap α) : SymbolMap α :=
  ofList (m.entries.map fun e => (f e.1, e.2))

theorem get?_map (g : α → β) (m : SymbolMap α) (c : Symbol) :
    (m.map g).get? c = (m.get? c).map g := by
  show List.lookup c (m.entries.map fun e => (e.1, g e.2)) = (m.entries.lookup c).map g
  induction m.entries with
  | nil => rfl
  | cons e rest ih =>
    obtain ⟨d, v⟩ := e
    rw [List.map_cons, lookup_cons_eq, lookup_cons_eq, ih]
    split <;> rfl

/-- A list of values that names no symbol twice is found again in the table it builds. -/
theorem get?_insertAll (m : SymbolMap α) (l : List (Symbol × α)) (c : Symbol)
    (h : l.Pairwise fun a b => a.1 ≠ b.1) :
    (m.insertAll l).get? c = (l.lookup c).or (m.get? c) := by
  induction l generalizing m with
  | nil => rfl
  | cons e rest ih =>
    obtain ⟨d, v⟩ := e
    obtain ⟨apart, tail⟩ := List.pairwise_cons.1 h
    rw [insertAll_cons, ih _ tail, get?_insert, lookup_cons_eq]
    split
    · rename_i hcd
      have hnone : rest.lookup c = none :=
        List.lookup_eq_none_iff.2 fun e he => by
          simpa [hcd] using apart e he
      simp [hnone]
    · rfl

theorem lookup_map_key {f : Symbol → Symbol} (hf : ∀ {a b}, f a = f b → a = b) (c : Symbol)
    (l : List (Symbol × α)) :
    (l.map fun e => (f e.1, e.2)).lookup (f c) = l.lookup c := by
  induction l with
  | nil => rfl
  | cons e rest ih =>
    obtain ⟨d, v⟩ := e
    rw [List.map_cons, lookup_cons_eq, lookup_cons_eq, ih]
    by_cases h : c = d
    · simp [h]
    · rw [if_neg h, if_neg fun e => h (hf e)]

/-- A look-up under the new name finds what the old name had. -/
theorem get?_rename {f : Symbol → Symbol} (hf : ∀ {a b}, f a = f b → a = b) (m : SymbolMap α)
    (c : Symbol) : (m.rename f).get? (f c) = m.get? c := by
  rw [rename, ofList, get?_insertAll, lookup_map_key hf]
  · exact Option.or_none
  · refine List.pairwise_map.2 (m.ascending.imp fun {a b} hlt heq => ?_)
    rw [hf heq] at hlt
    exact Char.lt_irrefl _ hlt

end SymbolMap

namespace Productions

def rename (f : Symbol → Symbol) (p : Productions) : Productions :=
  ⟨(p.rules.map fun w => w.map f).rename f⟩

theorem image_rename {f : Symbol → Symbol} (hf : ∀ {a b}, f a = f b → a = b) (p : Productions)
    (c : Symbol) : (p.rename f).image (f c) = (p.image c).map f := by
  simp only [image, get?, rename, SymbolMap.get?_rename hf, SymbolMap.get?_map]
  cases p.rules.get? c <;> rfl

/-- Renaming a word and then substituting is substituting and then renaming. -/
theorem substitute_rename {f : Symbol → Symbol} (hf : ∀ {a b}, f a = f b → a = b) (p : Productions)
    (w : Word) : (p.rename f).substitute (w.map f) = (p.substitute w).map f := by
  induction w with
  | nil => rfl
  | cons c w ih => simp [ih, image_rename hf]

end Productions

end Arbor
