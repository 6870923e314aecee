import Mathlib
import Arbor.Grammar.Rename

/-!
# Look-ups and entries of a table

A table has one entry for each of its keys, so an entry and a look-up say the same
(`SymbolMap.get?_eq_some_iff`), and values for different keys may be stored in any order
(`SymbolMap.ofList_perm`).  Of several values for one key the last one is found
(`SymbolMap.get?_insertAll_reverse`).
-/

namespace Arbor

namespace SymbolMap

variable {α : Type}

lemma nodup_keys (m : SymbolMap α) : (m.entries.map Prod.fst).Nodup := by
  refine List.pairwise_map.2 (m.ascending.imp ?_)
  intro a b hlt heq
  exact Char.lt_irrefl _ (heq ▸ hlt)

lemma get?_eq_some_iff {m : SymbolMap α} {c : Symbol} {v : α} :
    m.get? c = some v ↔ (c, v) ∈ m.entries := by
  refine ⟨mem_entries_of_get?, fun hmem => ?_⟩
  cases hget : m.get? c with
  | none =>
      have hother := List.lookup_eq_none_iff.1 hget _ hmem
      simp at hother
  | some w =>
      have hsame : (c, w) = (c, v) :=
        List.inj_on_of_nodup_map m.nodup_keys (mem_entries_of_get? hget) hmem rfl
      rw [(Prod.mk.inj hsame).2]

/-- A table has as many entries as there are keys that are found in it. -/
lemma size_eq_ncard (m : SymbolMap α) : m.size = {c | m.get? c ≠ none}.ncard := by
  have hkeys : {c | m.get? c ≠ none} = ((m.entries.map Prod.fst).toFinset : Set Symbol) := by
    ext c
    simp only [Set.mem_ofPred_eq, Option.ne_none_iff_exists', get?_eq_some_iff, Finset.mem_coe,
      List.mem_toFinset, List.mem_map, Prod.exists, exists_and_right, exists_eq_right]
  rw [hkeys, Set.ncard_coe_finset, List.toFinset_card_of_nodup m.nodup_keys, List.length_map, size]

lemma isEmpty_iff_get? {m : SymbolMap α} : m.isEmpty ↔ ∀ c, m.get? c = none := by
  refine ⟨fun hempty c => ?_, fun hnone => ?_⟩
  · rw [get?, List.isEmpty_iff.1 hempty, List.lookup_nil]
  · refine List.isEmpty_iff.2 (List.eq_nil_iff_forall_not_mem.2 fun e he => ?_)
    have hget := get?_eq_some_iff.2 he
    rw [hnone] at hget
    cases hget

/-- The last value of a list for a key is the one that is found. -/
lemma get?_insertAll_reverse (m : SymbolMap α) (l : List (Symbol × α)) (c : Symbol) :
    (m.insertAll l).get? c = (l.reverse.lookup c).or (m.get? c) := by
  induction l generalizing m with
  | nil => rfl
  | cons e rest ih =>
      rw [insertAll_cons, ih, get?_insert, List.reverse_cons, List.lookup_append, Option.or_assoc,
        lookup_cons_eq]
      split
      · rfl
      · rfl

/-- A table is built again from its entries. -/
lemma ofList_entries (m : SymbolMap α) : ofList m.entries = m := by
  apply ext_get?
  intro c
  have hapart : m.entries.Pairwise fun a b => a.1 ≠ b.1 := List.pairwise_map.1 m.nodup_keys
  rw [ofList, get?_insertAll _ _ _ hapart, get?_empty, Option.or_none, get?]

/-- Writes for different keys do not get in each other's way. -/
lemma insert_comm (m : SymbolMap α) {c d : Symbol} (hne : c ≠ d) (v w : α) :
    (m.insert c v).insert d w = (m.insert d w).insert c v := by
  apply ext_get?
  intro k
  rw [get?_insert, get?_insert, get?_insert, get?_insert]
  by_cases hc : k = c
  · have hd : k ≠ d := hc ▸ hne
    rw [if_neg hd, if_pos hc, if_pos hc]
  · rw [if_neg hc, if_neg hc]

/-- The order in which values for different keys are stored makes no difference. -/
lemma ofList_perm {pairs pairs' : List (Symbol × α)} (hperm : pairs.Perm pairs')
    (hkeys : (pairs.map Prod.fst).Nodup) : ofList pairs' = ofList pairs := by
  refine (hperm.foldl_eq' ?_ _).symm
  intro x hx y hy m
  by_cases hkey : x.1 = y.1
  · rw [List.inj_on_of_nodup_map hkeys hx hy hkey]
  · exact m.insert_comm hkey _ _

end SymbolMap

end Arbor
