import Mathlib

/-!
# Maps and sets of strings

`std::map<string, …>` and `std::set<string>` as the ordered maps and sets of the
standard library: two of them with the same contents are equal, and a traversal meets
the keys in their order. The lemmas are the ones about these containers that speak of
an order, stated with equality of strings instead.
-/

open Std

/-- `std::map<string, β>`. -/
abbrev StringMap (β : Type) : Type := ExtTreeMap String β compare

/-- `std::set<string>`. -/
abbrev StringSet : Type := ExtTreeSet String compare

namespace StringMap

variable {β : Type} {m : StringMap β} {k a : String} {v : β}

theorem getElem?_insert : (m.insert k v)[a]? = if k = a then some v else m[a]? := by
  simp only [ExtTreeMap.getElem?_insert, LawfulEqCmp.compare_eq_iff_eq]

theorem getElem?_erase : (m.erase k)[a]? = if k = a then none else m[a]? := by
  simp only [ExtTreeMap.getElem?_erase, LawfulEqCmp.compare_eq_iff_eq]

theorem mem_insert : a ∈ m.insert k v ↔ a = k ∨ a ∈ m := by
  rw [ExtTreeMap.mem_insert, LawfulEqCmp.compare_eq_iff_eq, eq_comm]

theorem mem_erase : a ∈ m.erase k ↔ a ≠ k ∧ a ∈ m := by
  rw [ExtTreeMap.mem_erase, ne_eq, LawfulEqCmp.compare_eq_iff_eq, eq_comm]

/-- A second write to a key replaces the first one. -/
@[simp] theorem insert_insert {w : β} : (m.insert k v).insert k w = m.insert k w := by
  refine ExtTreeMap.ext_getElem? fun a => ?_
  simp only [getElem?_insert]
  split <;> rfl

theorem mem_iff : a ∈ m ↔ m[a]? ≠ none := by
  rw [ExtTreeMap.mem_iff_isSome_getElem?, Option.isSome_iff_ne_none]

theorem nodup_toList (m : StringMap β) : m.toList.Nodup :=
  (ExtTreeMap.distinct_keys_toList (t := m)).imp (by
    intro p q hne heq
    exact hne (LawfulEqCmp.compare_eq_iff_eq.mpr (congrArg Prod.fst heq)))

/-- A pair of a map comes before or after the others. -/
theorem toList_perm (h : m[k]? = some v) : m.toList.Perm ((k, v) :: (m.erase k).toList) := by
  have hfresh : (k, v) ∉ (m.erase k).toList := by
    rw [ExtTreeMap.mem_toList_iff_getElem?_eq_some, getElem?_erase, if_pos rfl]
    exact (Option.some_ne_none v).symm
  refine (List.perm_ext_iff_of_nodup (nodup_toList m)
    (List.nodup_cons.mpr ⟨hfresh, nodup_toList _⟩)).mpr fun entry => ?_
  obtain ⟨a, w⟩ := entry
  rw [List.mem_cons, ExtTreeMap.mem_toList_iff_getElem?_eq_some,
    ExtTreeMap.mem_toList_iff_getElem?_eq_some, getElem?_erase, Prod.mk.injEq]
  by_cases ha : k = a
  · subst ha
    rw [h, if_pos rfl]
    simp [eq_comm]
  · rw [if_neg ha]
    simp [Ne.symm ha]

/-- A written pair comes before or after those under the other keys. -/
theorem toList_insert_perm : (m.insert k v).toList.Perm ((k, v) :: (m.erase k).toList) := by
  have herase : (m.insert k v).erase k = m.erase k := by
    refine ExtTreeMap.ext_getElem? fun a => ?_
    simp only [getElem?_erase, getElem?_insert]
    split <;> rfl
  rw [← herase]
  exact toList_perm (by rw [getElem?_insert, if_pos rfl])

theorem erase_of_notMem (h : k ∉ m) : m.erase k = m := by
  refine ExtTreeMap.ext_getElem? fun a => ?_
  rw [getElem?_erase]
  split
  · next hk =>
    rw [← hk, ← not_not (a := none = _), eq_comm, ← ne_eq, ← mem_iff]
    exact h
  · rfl

/-- A map that is written entry by entry has no other entries. -/
theorem exists_of_getElem?_foldl {α : Type} {key : α → String} {value : α → β} {as : List α}
    {k : String} {v : β}
    (h : (as.foldl (fun m a => m.insert (key a) (value a)) (∅ : StringMap β))[k]? = some v) :
    ∃ a ∈ as, key a = k ∧ value a = v := by
  suffices hloop : ∀ m : StringMap β,
      (as.foldl (fun m a => m.insert (key a) (value a)) m)[k]? = some v →
      m[k]? = some v ∨ ∃ a ∈ as, key a = k ∧ value a = v by
    refine (hloop ∅ h).resolve_left ?_
    simp
  clear h
  induction as with
  | nil => exact fun m h => .inl h
  | cons a as ih =>
    intro m h
    rcases ih _ h with h | ⟨a', ha', hk, hv⟩
    · rw [getElem?_insert] at h
      split_ifs at h with hk
      · exact .inr ⟨a, List.mem_cons_self, hk, Option.some.inj h⟩
      · exact .inl h
    · exact .inr ⟨a', List.mem_cons_of_mem _ ha', hk, hv⟩

/-- A map filled from a list of pairs with distinct keys has exactly these pairs. -/
theorem getElem?_ofList {l : List (String × β)} (h : (l.map Prod.fst).Nodup) :
    (ExtTreeMap.ofList l compare : StringMap β)[a]? = some v ↔ (a, v) ∈ l := by
  have hdistinct : l.Pairwise (fun p q => ¬ compare p.1 q.1 = .eq) := by
    rw [List.Nodup, List.pairwise_map] at h
    exact h.imp (fun hne heq => hne (LawfulEqCmp.compare_eq_iff_eq.mp heq))
  constructor
  · intro hget
    have hmem : a ∈ (ExtTreeMap.ofList l compare : StringMap β) := by
      rw [mem_iff, hget]
      exact Option.some_ne_none v
    rw [ExtTreeMap.mem_ofList, List.contains_iff_mem, List.mem_map] at hmem
    obtain ⟨⟨a', v'⟩, hpair, rfl⟩ := hmem
    rw [ExtTreeMap.getElem?_ofList_of_mem ReflCmp.compare_self hdistinct hpair] at hget
    cases hget
    exact hpair
  · intro hpair
    exact ExtTreeMap.getElem?_ofList_of_mem ReflCmp.compare_self hdistinct hpair

end StringMap

namespace StringSet

theorem nodup_toList (t : StringSet) : t.toList.Nodup :=
  (ExtTreeSet.distinct_toList (t := t)).imp (by
    intro a b hne heq
    exact hne (LawfulEqCmp.compare_eq_iff_eq.mpr heq))

theorem mem_toList {t : StringSet} {k : String} : k ∈ t.toList ↔ k ∈ t := ExtTreeSet.mem_toList

theorem mem_ofList {l : List String} {k : String} :
    k ∈ (ExtTreeSet.ofList l compare : StringSet) ↔ k ∈ l := by
  rw [ExtTreeSet.mem_ofList, List.contains_iff_mem]

end StringSet
