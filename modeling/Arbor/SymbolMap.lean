/-!
# Symbols and tables keyed by them

A symbol is one Unicode scalar value and a word is a list of symbols.  `SymbolMap` is a finite
table keyed by symbols.  Its entries stand in strictly ascending order of their keys, and the type
carries that order, so two tables are equal exactly when they answer every look-up alike
(`SymbolMap.ext_get?`).  `insert` overwrites: the last write for a key is the one that counts
(`get?_insert`).
-/

namespace Arbor

/-- One letter of the plant alphabet. -/
abbrev Symbol := Char

abbrev Word := List Symbol

/-- A finite table from symbols to values, held in ascending order of its keys. -/
structure SymbolMap (α : Type) where
  entries : List (Symbol × α)
  /-- No key stands twice, and smaller keys stand first. -/
  ascending : entries.Pairwise (fun a b => a.1 < b.1)

namespace SymbolMap

variable {α β : Type}

/-! ## Entry lists -/

/-- Put `(k, v)` at its place in an ascending list, over an entry with the same key. -/
def put (k : Symbol) (v : α) : List (Symbol × α) → List (Symbol × α)
  | [] => [(k, v)]
  | e :: rest =>
    if k < e.1 then (k, v) :: e :: rest
    else if k = e.1 then (k, v) :: rest
    else e :: put k v rest

theorem eq_or_mem_of_mem_put {k : Symbol} {v : α} {x : Symbol × α} :
    ∀ {l : List (Symbol × α)}, x ∈ put k v l → x = (k, v) ∨ x ∈ l
  | [], h => by simpa [put] using h
  | e :: rest, h => by
    rw [put] at h
    split at h
    · simpa using h
    · split at h
      · rcases List.mem_cons.1 h with h | h
        · exact .inl h
        · exact .inr (List.mem_cons_of_mem _ h)
      · rcases List.mem_cons.1 h with h | h
        · exact .inr (h ▸ List.mem_cons_self)
        · exact (eq_or_mem_of_mem_put h).imp_right (List.mem_cons_of_mem _)

theorem ascending_put (k : Symbol) (v : α) : ∀ {l : List (Symbol × α)},
    l.Pairwise (fun a b => a.1 < b.1) → (put k v l).Pairwise (fun a b => a.1 < b.1)
  | [], _ => List.pairwise_singleton _ _
  | e :: rest, h => by
    obtain ⟨below, tail⟩ := List.pairwise_cons.1 h
    rw [put]
    split
    · rename_i hlt
      refine List.pairwise_cons.2 ⟨fun x hx => ?_, h⟩
      rcases List.mem_cons.1 hx with rfl | hx
      · exact hlt
      · exact Char.lt_trans hlt (below x hx)
    · split
      · rename_i heq
        exact List.pairwise_cons.2 ⟨fun x hx => heq ▸ below x hx, tail⟩
      · rename_i hnlt hne
        have hgt : e.1 < k := by
          rcases Decidable.em (e.1 < k) with h | h
          · exact h
          · exact absurd (Char.le_antisymm (Char.not_lt.1 h) (Char.not_lt.1 hnlt)) hne
        refine List.pairwise_cons.2 ⟨fun x hx => ?_, ascending_put k v tail⟩
        rcases eq_or_mem_of_mem_put hx with rfl | hx
        · exact hgt
        · exact below x hx

theorem lookup_cons_eq (c d : Symbol) (w : α) (rest : List (Symbol × α)) :
    ((d, w) :: rest).lookup c = if c = d then some w else rest.lookup c := by
  by_cases h : c = d
  · simp [h]
  · simp [List.lookup_cons, h, beq_false_of_ne h]

theorem lookup_put (k : Symbol) (v : α) (c : Symbol) : ∀ l : List (Symbol × α),
    (put k v l).lookup c = if c = k then some v else l.lookup c
  | [] => by simp [put, lookup_cons_eq]
  | (d, w) :: rest => by
    rw [put]
    split
    · rw [lookup_cons_eq]
    · split
      · rename_i hkd
        by_cases h : c = k <;> simp_all [lookup_cons_eq]
      · rename_i hkd
        rw [lookup_cons_eq, lookup_put k v c rest, lookup_cons_eq]
        by_cases h : c = d
        · have hk : ¬ c = k := fun e => hkd (e.symm.trans h)
          simp [h ▸ hk, h]
        · simp [h]

theorem lookup_eq_none_of_lt {c : Symbol} : ∀ {l : List (Symbol × α)},
    (∀ x ∈ l, c < x.1) → l.lookup c = none
  | [], _ => rfl
  | (d, w) :: rest, h => by
    have hcd : ¬ c = d := fun e => Char.lt_irrefl c (by simpa [e] using h (d, w) List.mem_cons_self)
    rw [lookup_cons_eq, if_neg hcd]
    exact lookup_eq_none_of_lt fun x hx => h x (List.mem_cons_of_mem _ hx)

/-- Ascending lists that answer every look-up alike are equal. -/
theorem eq_of_lookup_eq : ∀ {l m : List (Symbol × α)},
    l.Pairwise (fun a b => a.1 < b.1) → m.Pairwise (fun a b => a.1 < b.1) →
    (∀ c, l.lookup c = m.lookup c) → l = m
  | [], [], _, _, _ => rfl
  | [], (d, w) :: m, _, _, h => by simpa using h d
  | (c, v) :: l, [], _, _, h => by simpa using h c
  | (c, v) :: l, (d, w) :: m, hl, hm, h => by
    obtain ⟨belowL, tailL⟩ := List.pairwise_cons.1 hl
    obtain ⟨belowM, tailM⟩ := List.pairwise_cons.1 hm
    have hcd : c = d := by
      rcases Decidable.em (c < d) with hlt | hge
      · have hc := h c
        rw [List.lookup_cons_self, lookup_eq_none_of_lt] at hc
        · simp at hc
        · intro x hx
          rcases List.mem_cons.1 hx with rfl | hx
          · exact hlt
          · exact Char.lt_trans hlt (belowM x hx)
      · rcases Decidable.em (d < c) with hgt | hle
        · have hd := h d
          rw [List.lookup_cons_self, lookup_eq_none_of_lt] at hd
          · simp at hd
          · intro x hx
            rcases List.mem_cons.1 hx with rfl | hx
            · exact hgt
            · exact Char.lt_trans hgt (belowL x hx)
        · exact Char.le_antisymm (Char.not_lt.1 hle) (Char.not_lt.1 hge)
    subst hcd
    have hvw : v = w := by simpa using h c
    subst hvw
    have rest : l = m := eq_of_lookup_eq tailL tailM fun x => by
      by_cases hx : x = c
      · subst hx
        rw [lookup_eq_none_of_lt belowL, lookup_eq_none_of_lt belowM]
      · have := h x
        rwa [lookup_cons_eq, lookup_cons_eq, if_neg hx, if_neg hx] at this
    rw [rest]

/-- The value stored for a key in an ascending list, found on the way to its place. -/
def displaced? (k : Symbol) : List (Symbol × α) → Option α
  | [] => none
  | e :: rest => if k < e.1 then none else if k = e.1 then some e.2 else displaced? k rest

theorem displaced?_eq_lookup (k : Symbol) : ∀ {l : List (Symbol × α)},
    l.Pairwise (fun a b => a.1 < b.1) → displaced? k l = l.lookup k
  | [], _ => rfl
  | (d, v) :: rest, h => by
    obtain ⟨below, tail⟩ := List.pairwise_cons.1 h
    rw [displaced?, lookup_cons_eq, displaced?_eq_lookup k tail]
    split
    · rename_i hlt
      have hne : ¬ k = d := fun e => Char.lt_irrefl d (e ▸ hlt)
      rw [if_neg hne, lookup_eq_none_of_lt fun x hx => Char.lt_trans hlt (below x hx)]
    · rfl

/-! ## Tables -/

def empty : SymbolMap α := ⟨[], List.Pairwise.nil⟩

instance : Inhabited (SymbolMap α) := ⟨empty⟩

def get? (m : SymbolMap α) (c : Symbol) : Option α := m.entries.lookup c

def contains (m : SymbolMap α) (c : Symbol) : Bool := (m.get? c).isSome

/-- Store a value for a symbol, over the value it had. -/
def insert (m : SymbolMap α) (c : Symbol) (v : α) : SymbolMap α :=
  ⟨put c v m.entries, ascending_put c v m.ascending⟩

/-- Store a value for a symbol; the value it had comes first. -/
def exchange (m : SymbolMap α) (c : Symbol) (v : α) : Option α × SymbolMap α :=
  (displaced? c m.entries, m.insert c v)

/-- Store a list of values in order, so that the last one for a symbol stays. -/
def insertAll (m : SymbolMap α) (pairs : List (Symbol × α)) : SymbolMap α :=
  pairs.foldl (fun m e => m.insert e.1 e.2) m

/-- The table a list of values builds; the last one for a symbol stays. -/
def ofList (pairs : List (Symbol × α)) : SymbolMap α := empty.insertAll pairs

def size (m : SymbolMap α) : Nat := m.entries.length

def isEmpty (m : SymbolMap α) : Bool := m.entries.isEmpty

/-- Tables compare entry by entry, with the equality of their values. -/
instance [BEq α] : BEq (SymbolMap α) := ⟨fun a b => a.entries == b.entries⟩

theorem ext_entries {a b : SymbolMap α} (h : a.entries = b.entries) : a = b := by
  cases a; cases b; cases h; rfl

/-- A table is determined by its look-ups. -/
theorem ext_get? {a b : SymbolMap α} (h : ∀ c, a.get? c = b.get? c) : a = b :=
  ext_entries (eq_of_lookup_eq a.ascending b.ascending h)

instance [DecidableEq α] : DecidableEq (SymbolMap α) := fun a b =>
  decidable_of_iff (a.entries = b.entries) ⟨ext_entries, congrArg entries⟩

/-- What is found in a table stands in it. -/
theorem mem_entries_of_get? {m : SymbolMap α} {c : Symbol} {v : α} (h : m.get? c = some v) :
    (c, v) ∈ m.entries := by
  obtain ⟨front, back, hentries, -⟩ := List.lookup_eq_some_iff.1 h
  rw [hentries]
  exact List.mem_append_right _ List.mem_cons_self

@[simp] theorem get?_empty (c : Symbol) : (empty : SymbolMap α).get? c = none := rfl

theorem get?_insert (m : SymbolMap α) (k : Symbol) (v : α) (c : Symbol) :
    (m.insert k v).get? c = if c = k then some v else m.get? c :=
  lookup_put k v c m.entries

/-- The value that is displaced is the one that was stored. -/
theorem exchange_eq (m : SymbolMap α) (k : Symbol) (v : α) :
    m.exchange k v = (m.get? k, m.insert k v) := by
  rw [exchange, displaced?_eq_lookup k m.ascending, get?]

@[simp] theorem insertAll_cons (m : SymbolMap α) (e : Symbol × α) (l : List (Symbol × α)) :
    m.insertAll (e :: l) = (m.insert e.1 e.2).insertAll l := rfl

end SymbolMap

end Arbor
