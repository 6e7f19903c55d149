import Mathlib.Data.List.Nodup
import Mathlib.Data.List.Perm.Basic
import Mathlib.Data.List.Basic

/-!
# Lists whose elements are compared through a key

A container that compares its elements by part of their contents treats two
elements with the same key as the same element. This module has the operations
such containers are updated with (`pushNew`, `eraseKey`, `missing`) and what a
round of them computes: adding what a target list has and a present list lacks,
then erasing what the target lacks, keeps exactly the target's keys
(`reconcile_keys`), and every element that survives was either present before or
is the target's own (`mem_reconcile_iff`).

Nothing here says that a surviving element equals the target's element with the
same key: the operations never look past the key.
-/

namespace KeyedList

variable {α κ : Type} [DecidableEq κ] (key : α → κ)

/-- Append an element unless the list already has one with its key. -/
def pushNew (xs : List α) (x : α) : List α :=
  if key x ∈ xs.map key then xs else xs ++ [x]

/-- Append a list of elements one by one, skipping keys that are already there. -/
def pushAll (xs ys : List α) : List α :=
  ys.foldl (pushNew key) xs

/-- Drop the first element with a key; `none` when there is none. -/
def eraseKey (k : κ) : List α → Option (List α)
  | [] => none
  | x :: xs => if key x = k then some xs else (eraseKey k xs).map (x :: ·)

/-- Drop the first element of each key in turn; `none` when one is not found. -/
def eraseKeys : List κ → List α → Option (List α)
  | [], xs => some xs
  | k :: ks, xs => (eraseKey key k xs).bind (eraseKeys ks)

/-- The elements of `wanted` whose key no element of `present` has. -/
def missing (present wanted : List α) : List α :=
  wanted.filter (fun w => key w ∉ present.map key)

variable {key}

variable {x : α}

@[simp] theorem mem_missing {present wanted : List α} :
    x ∈ missing key present wanted ↔ x ∈ wanted ∧ key x ∉ present.map key := by
  simp only [missing, List.mem_filter, decide_eq_true_eq]

theorem missing_keys_nodup {present wanted : List α} (h : (wanted.map key).Nodup) :
    ((missing key present wanted).map key).Nodup :=
  h.sublist (List.filter_sublist.map key)

variable {xs : List α}

theorem pushNew_of_mem (h : key x ∈ xs.map key) :
    pushNew key xs x = xs := if_pos h

theorem pushNew_of_notMem (h : key x ∉ xs.map key) :
    pushNew key xs x = xs ++ [x] := if_neg h

/-- Pushing keeps keys distinct and adds nothing but pushed elements. -/
theorem pushAll_spec (ys : List α) (hxs : (xs.map key).Nodup) :
    ((pushAll key xs ys).map key).Nodup ∧ ∀ z ∈ pushAll key xs ys, z ∈ xs ∨ z ∈ ys := by
  induction ys generalizing xs with
  | nil => exact ⟨hxs, fun z hz => .inl hz⟩
  | cons y ys ih =>
    have hpush : ((pushNew key xs y).map key).Nodup ∧ ∀ z ∈ pushNew key xs y, z ∈ xs ∨ z = y := by
      by_cases hy : key y ∈ xs.map key
      · rw [pushNew_of_mem hy]
        exact ⟨hxs, fun z hz => .inl hz⟩
      · rw [pushNew_of_notMem hy, List.map_append]
        refine ⟨List.Nodup.append hxs (List.nodup_singleton _) ?_, fun z hz => ?_⟩
        · intro k hk hmem
          exact hy (List.mem_singleton.mp hmem ▸ hk)
        · simpa using hz
    obtain ⟨hnodup, hmem⟩ := ih hpush.1
    refine ⟨hnodup, fun z hz => ?_⟩
    rcases hmem z hz with hz | hz
    · rcases hpush.2 z hz with hz | rfl
      · exact .inl hz
      · exact .inr List.mem_cons_self
    · exact .inr (List.mem_cons_of_mem y hz)

variable {ys : List α} {k : κ}

theorem mem_keys_pushAll :
    k ∈ (pushAll key xs ys).map key ↔ k ∈ xs.map key ∨ k ∈ ys.map key := by
  induction ys generalizing xs with
  | nil => simp [pushAll]
  | cons y ys ih =>
    have hpush : k ∈ (pushNew key xs y).map key ↔ k ∈ xs.map key ∨ k = key y := by
      by_cases hy : key y ∈ xs.map key
      · rw [pushNew_of_mem hy]
        exact ⟨.inl, fun h => h.elim id fun heq => heq ▸ hy⟩
      · rw [pushNew_of_notMem hy, List.map_append, List.mem_append, List.map_singleton,
          List.mem_singleton]
    rw [pushAll, List.foldl_cons, ← pushAll, ih, hpush, List.map_cons, List.mem_cons, or_assoc]

/-- Pushing elements whose keys are new and pairwise distinct is appending them. -/
theorem pushAll_eq_append (hys : (ys.map key).Nodup) (hnew : ∀ y ∈ ys, key y ∉ xs.map key) :
    pushAll key xs ys = xs ++ ys := by
  induction ys generalizing xs with
  | nil => simp only [pushAll, List.foldl_nil, List.append_nil]
  | cons y ys ih =>
    obtain ⟨hy, hys⟩ := List.nodup_cons.mp hys
    have hpush : pushNew key xs y = xs ++ [y] := pushNew_of_notMem (hnew y List.mem_cons_self)
    have hrest : ∀ z ∈ ys, key z ∉ (xs ++ [y]).map key := by
      intro z hz hmem
      rw [List.map_append, List.mem_append] at hmem
      rcases hmem with hmem | hmem
      · exact hnew z (List.mem_cons_of_mem y hz) hmem
      · rw [List.map_singleton, List.mem_singleton] at hmem
        exact hy (hmem ▸ List.mem_map_of_mem hz)
    calc pushAll key xs (y :: ys) = pushAll key (xs ++ [y]) ys := by
          simp only [pushAll, List.foldl_cons, hpush]
      _ = (xs ++ [y]) ++ ys := ih hys hrest
      _ = xs ++ y :: ys := by simp

/-- Erasing a key that occurs once is filtering it out. -/
theorem eraseKey_eq_filter (hxs : (xs.map key).Nodup) (h : eraseKey key k xs = some ys) :
    ys = xs.filter (fun x => key x ≠ k) := by
  induction xs generalizing ys with
  | nil => simp only [eraseKey, reduceCtorEq] at h
  | cons x xs ih =>
    obtain ⟨hx, hxs⟩ := List.nodup_cons.mp hxs
    by_cases hk : key x = k
    · -- the first hit: by distinctness the filter keeps the whole tail
      simp only [eraseKey, if_pos hk, Option.some.injEq] at h
      subst h
      have htail : ∀ y ∈ xs, key y ≠ k := by
        intro y hy heq
        exact hx (hk ▸ heq ▸ List.mem_map_of_mem hy)
      rw [List.filter_cons_of_neg (by simp [hk])]
      exact (List.filter_eq_self.mpr (by simpa using htail)).symm
    · simp only [eraseKey, if_neg hk] at h
      obtain ⟨zs, hzs, rfl⟩ := Option.map_eq_some_iff.mp h
      rw [List.filter_cons_of_pos (by simpa using hk), ih hxs hzs]

/-- Erasing a key takes out the element that a search for the key finds. -/
theorem eraseKey_split (h : eraseKey key k xs = some ys) :
    ∃ x l₁ l₂, xs.find? (fun x => key x = k) = some x ∧ xs = l₁ ++ x :: l₂ ∧ ys = l₁ ++ l₂ := by
  induction xs generalizing ys with
  | nil => simp only [eraseKey, reduceCtorEq] at h
  | cons x xs ih =>
    by_cases hk : key x = k
    · simp only [eraseKey, if_pos hk, Option.some.injEq] at h
      exact ⟨x, [], xs, by simp [hk], rfl, h.symm⟩
    · simp only [eraseKey, if_neg hk] at h
      obtain ⟨zs, hzs, rfl⟩ := Option.map_eq_some_iff.mp h
      obtain ⟨y, l₁, l₂, hfind, rfl, rfl⟩ := ih hzs
      exact ⟨y, x :: l₁, l₂, by simpa [hk] using hfind, rfl, rfl⟩

variable {ks : List κ}

/-- Erasing a list of keys, when it succeeds, filters all of them out. -/
theorem eraseKeys_eq_filter (hxs : (xs.map key).Nodup) (h : eraseKeys key ks xs = some ys) :
    ys = xs.filter (fun x => key x ∉ ks) := by
  induction ks generalizing xs with
  | nil =>
    simp only [eraseKeys, Option.some.injEq] at h
    simp [h]
  | cons k ks ih =>
    obtain ⟨zs, hzs, hys⟩ := Option.bind_eq_some_iff.mp h
    have hz := eraseKey_eq_filter hxs hzs
    have hzn : (zs.map key).Nodup := hz ▸ hxs.sublist (List.filter_sublist.map key)
    rw [ih hzn hys, hz, List.filter_filter]
    congr 1
    funext x
    simp [Bool.and_comm]

/-- A key that occurs can be erased. -/
theorem eraseKey_of_mem (h : k ∈ xs.map key) :
    ∃ l₁ x l₂, xs = l₁ ++ x :: l₂ ∧ key x = k ∧ eraseKey key k xs = some (l₁ ++ l₂) := by
  induction xs with
  | nil => cases h
  | cons x xs ih =>
    by_cases hk : key x = k
    · exact ⟨[], x, xs, rfl, hk, if_pos hk⟩
    · obtain ⟨l₁, y, l₂, rfl, hy, herase⟩ := ih ((List.mem_cons.mp h).resolve_left (Ne.symm hk))
      exact ⟨x :: l₁, y, l₂, rfl, hy, by simp [eraseKey, hk, herase]⟩

/-- Other keys stay. -/
theorem mem_keys_of_eraseKey {k' : κ} (h : eraseKey key k xs = some ys) (hne : k' ≠ k) :
    k' ∈ ys.map key ↔ k' ∈ xs.map key := by
  obtain ⟨x, l₁, l₂, hfind, rfl, rfl⟩ := eraseKey_split h
  have hx : key x = k := by simpa using List.find?_some hfind
  simp [hx, hne]

section

variable (h : eraseKeys key ks xs = some ys)

include h

theorem eraseKeys_sublist :
    ys.Sublist xs := by
  induction ks generalizing xs with
  | nil =>
    cases h
    exact List.Sublist.refl _
  | cons k ks ih =>
    rw [eraseKeys] at h
    obtain ⟨zs, hz, hrest⟩ := Option.bind_eq_some_iff.mp h
    obtain ⟨x, l₁, l₂, -, rfl, rfl⟩ := eraseKey_split hz
    exact (ih hrest).trans ((List.sublist_cons_self x l₂).append_left l₁)

theorem mem_keys_of_eraseKeys (hk : k ∉ ks) :
    k ∈ ys.map key ↔ k ∈ xs.map key := by
  induction ks generalizing xs with
  | nil =>
    cases h
    exact Iff.rfl
  | cons k' ks ih =>
    obtain ⟨zs, hzs, hys⟩ := Option.bind_eq_some_iff.mp h
    rw [List.mem_cons, not_or] at hk
    obtain ⟨hne, hk⟩ := hk
    rw [ih hys hk, mem_keys_of_eraseKey hzs hne]

/-- Keys that could be erased were there. -/
theorem mem_keys_of_erased (hk : k ∈ ks) : k ∈ xs.map key := by
  induction ks generalizing xs with
  | nil => cases hk
  | cons k' ks ih =>
    obtain ⟨zs, hzs, hys⟩ := Option.bind_eq_some_iff.mp h
    obtain ⟨x, l₁, l₂, hfind, rfl, rfl⟩ := eraseKey_split hzs
    rcases List.mem_cons.mp hk with rfl | hk
    · exact List.mem_map.mpr ⟨x, List.mem_of_find?_eq_some hfind, by simpa using List.find?_some hfind⟩
    · exact ((List.sublist_cons_self x l₂).append_left l₁ |>.map key).subset (ih hys hk)

theorem eraseKeys_length :
    ys.length + ks.length = xs.length := by
  induction ks generalizing xs with
  | nil =>
    cases h
    rfl
  | cons k ks ih =>
    obtain ⟨zs, hzs, hys⟩ := Option.bind_eq_some_iff.mp h
    obtain ⟨x, l₁, l₂, -, rfl, rfl⟩ := eraseKey_split hzs
    have := ih hys
    simp only [List.length_append, List.length_cons] at this ⊢
    omega

end

/-- Adding what is new and erasing something else changes a list, unless there is nothing to add
and nothing to erase. -/
theorem eq_nil_of_unchanged {present grown : List α} (added : List α)
    (herase : eraseKeys key ks grown = some present) (hgrown : ∀ a ∈ added, key a ∈ grown.map key)
    (hnone : added = [] → grown = present) (hfresh : ∀ a ∈ added, key a ∉ present.map key ∧ key a ∉ ks) :
    added = [] ∧ ks = [] := by
  have hadded : added = [] := by
    refine List.eq_nil_iff_forall_not_mem.mpr fun a ha => ?_
    obtain ⟨hpresent, hkept⟩ := hfresh a ha
    exact hpresent ((mem_keys_of_eraseKeys herase hkept).mpr (hgrown a ha))
  have hlength := eraseKeys_length herase
  rw [hnone hadded] at hlength
  exact ⟨hadded, List.eq_nil_of_length_eq_zero (by omega)⟩

/-- A list of distinct keys that occur, and stay to be erased. -/
structure Erasable (key : α → κ) (ks : List κ) (xs : List α) : Prop where
  distinct : ks.Nodup
  occur : ∀ k ∈ ks, k ∈ xs.map key

/-- The first of these keys can be erased, and then the rest. -/
theorem Erasable.eraseKey (h : Erasable key (k :: ks) xs) :
    ∃ ys, KeyedList.eraseKey key k xs = some ys ∧ Erasable key ks ys := by
  obtain ⟨l₁, x, l₂, -, -, herase⟩ := eraseKey_of_mem (h.occur k List.mem_cons_self)
  obtain ⟨hk, hks⟩ := List.nodup_cons.mp h.distinct
  refine ⟨l₁ ++ l₂, herase, hks, fun k' hk' => ?_⟩
  rw [mem_keys_of_eraseKey herase fun heq => hk (heq ▸ hk')]
  exact h.occur k' (List.mem_cons_of_mem k hk')

/-- A key of the target is not in the difference that is to be erased. -/
theorem notMem_keys_missing {present target : List α} (hk : k ∈ target.map key) :
    k ∉ (pushAll key [] (missing key target present)).map key := by
  rw [mem_keys_pushAll]
  intro h
  rcases h with h | h
  · cases h
  · obtain ⟨x, hx, rfl⟩ := List.mem_map.mp h
    exact (mem_missing.mp hx).2 hk

/-- What a difference lists can be erased from the list it was taken of. -/
theorem erasable_missing (present wanted : List α) :
    Erasable key ((pushAll key [] (missing key present wanted)).map key) wanted := by
  obtain ⟨hnodup, hmem⟩ := pushAll_spec (missing key present wanted)
    (show (([] : List α).map key).Nodup from List.nodup_nil)
  refine ⟨hnodup, fun k hk => ?_⟩
  obtain ⟨x, hx, rfl⟩ := List.mem_map.mp hk
  rcases hmem x hx with hx | hx
  · cases hx
  · exact List.mem_map_of_mem (mem_missing.mp hx).1

/-- Erasing the keys of all elements with a property, in any order, drops these elements, when
no other element has one of the keys. -/
theorem eraseKeys_of_perm {p : α → Bool} (hperm : ((xs.filter p).map key).Perm ks)
    (hown : ∀ x ∈ xs, key x ∈ ks → p x = true) :
    eraseKeys key ks xs = some (xs.filter (fun x => !p x)) := by
  induction ks generalizing xs with
  | nil =>
    have hnone : xs.filter p = [] := List.map_eq_nil_iff.mp hperm.eq_nil
    have hall : ∀ x ∈ xs, (!p x) = true := by simpa using hnone
    rw [eraseKeys, List.filter_eq_self.mpr hall]
  | cons k ks ih =>
    have hk : k ∈ xs.map key := (List.filter_sublist.map key).subset
      (hperm.symm.subset List.mem_cons_self)
    obtain ⟨l₁, x, l₂, rfl, hx, herase⟩ := eraseKey_of_mem hk
    have hpx : p x = true := hown x (by simp) (by simp [hx])
    have hdrop : (((l₁ ++ l₂).filter p).map key).Perm ks := by
      refine List.Perm.cons_inv (a := k) (List.Perm.trans ?_ hperm)
      simp only [List.filter_append, List.filter_cons, hpx, if_true, List.map_append, List.map_cons,
        hx]
      exact List.perm_middle.symm
    rw [eraseKeys, herase, Option.bind_some, ih hdrop fun y hy hmem =>
      hown y (by rcases List.mem_append.mp hy with h | h <;> simp [h]) (List.mem_cons_of_mem k hmem)]
    simp [hpx]

theorem mem_of_eraseKeys (hxs : (xs.map key).Nodup) (h : eraseKeys key ks xs = some ys) :
    x ∈ ys ↔ x ∈ xs ∧ key x ∉ ks := by
  rw [eraseKeys_eq_filter hxs h, List.mem_filter, decide_eq_true_eq]

theorem eraseKeys_keys_nodup (hxs : (xs.map key).Nodup) (h : eraseKeys key ks xs = some ys) :
    (ys.map key).Nodup := by
  rw [eraseKeys_eq_filter hxs h]
  exact hxs.sublist (List.filter_sublist.map key)

/-- With distinct keys, an element is the only one under its key. -/
theorem filter_key_eq_singleton (hxs : (xs.map key).Nodup) (hx : x ∈ xs) :
    xs.filter (fun y => key y = key x) = [x] := by
  induction xs with
  | nil => cases hx
  | cons y ys ih =>
    obtain ⟨hy, hys⟩ := List.nodup_cons.mp hxs
    rcases List.mem_cons.mp hx with rfl | hx
    · have htail : ys.filter (fun z => key z = key x) = [] := by
        refine List.filter_eq_nil_iff.mpr (fun z hz => ?_)
        simp only [decide_eq_true_eq]
        exact fun heq => hy (heq ▸ List.mem_map_of_mem hz)
      rw [List.filter_cons_of_pos (by simp), htail]
    · have hne : key y ≠ key x := fun heq => hy (heq ▸ List.mem_map_of_mem hx)
      rw [List.filter_cons_of_neg (by simpa using hne), ih hys hx]

/-- The two-step update of a list towards a target: push what is missing, then erase
the keys the target lacks. -/
def reconcile (key : α → κ) (present target : List α) : Option (List α) :=
  let grown := pushAll key present (missing key present target)
  eraseKeys key ((missing key target grown).map key) grown

variable {present target result : List α}

theorem pushAll_missing (ht : (target.map key).Nodup) :
    pushAll key present (missing key present target) = present ++ missing key present target :=
  pushAll_eq_append (missing_keys_nodup ht) (fun _ hy => (mem_missing.mp hy).2)

variable (hp : (present.map key).Nodup) (ht : (target.map key).Nodup)

include hp ht

/-- The grown list has one element per key. -/
theorem grown_keys_nodup :
    ((present ++ missing key present target).map key).Nodup := by
  rw [List.map_append]
  refine List.Nodup.append hp (missing_keys_nodup ht) ?_
  intro k hk hm
  obtain ⟨x, hx, rfl⟩ := List.mem_map.mp hm
  exact (mem_missing.mp hx).2 hk

/-- Reconciling keeps, of the grown list, exactly the elements with a key of the target. -/
theorem reconcile_eq_filter
    (h : reconcile key present target = some result) :
    result = (present ++ missing key present target).filter (fun x => key x ∈ target.map key) := by
  simp only [reconcile, pushAll_missing ht] at h
  rw [eraseKeys_eq_filter (grown_keys_nodup hp ht) h]
  refine List.filter_congr (fun x hx => ?_)
  simp only [decide_eq_decide]
  constructor
  · intro hnot
    by_contra hk
    exact hnot (List.mem_map_of_mem (mem_missing.mpr ⟨hx, hk⟩))
  · rintro hk hmem
    obtain ⟨y, hy, hyx⟩ := List.mem_map.mp hmem
    exact (mem_missing.mp hy).2 (hyx ▸ hk)

/-- An element survives when the target has its key and it was present, or when it is the
target's own element under a key that was not present. -/
theorem mem_reconcile_iff
    (h : reconcile key present target = some result) :
    x ∈ result ↔ (x ∈ present ∧ key x ∈ target.map key) ∨
      (x ∈ target ∧ key x ∉ present.map key) := by
  rw [reconcile_eq_filter hp ht h, List.mem_filter, List.mem_append, mem_missing,
    decide_eq_true_eq]
  constructor
  · rintro ⟨hx | hx, hk⟩
    · exact .inl ⟨hx, hk⟩
    · exact .inr hx
  · rintro (⟨hx, hk⟩ | ⟨hx, hk⟩)
    · exact ⟨.inl hx, hk⟩
    · exact ⟨.inr ⟨hx, hk⟩, List.mem_map_of_mem hx⟩

/-- Reconciling keeps the keys distinct. -/
theorem reconcile_keys_nodup
    (h : reconcile key present target = some result) : (result.map key).Nodup := by
  rw [reconcile_eq_filter hp ht h]
  exact (grown_keys_nodup hp ht).sublist (List.filter_sublist.map key)

/-- Differences that are collected in a list of their own reconcile as well. -/
theorem reconcile_of_collected
    (h : let grown := pushAll key present (pushAll key [] (missing key present target))
      eraseKeys key ((pushAll key [] (missing key target grown)).map key) grown = some result) :
    reconcile key present target = some result := by
  have hcollect {present target : List α} (ht : (target.map key).Nodup) :
      pushAll key [] (missing key present target) = missing key present target :=
    (pushAll_eq_append (missing_keys_nodup ht) (by simp)).trans (List.nil_append _)
  have hgrown : ((pushAll key present (missing key present target)).map key).Nodup := by
    rw [pushAll_missing ht]
    exact grown_keys_nodup hp ht
  simp only [hcollect ht, hcollect hgrown] at h
  exact h

/-- Reconciling reaches exactly the keys of the target. -/
theorem reconcile_keys
    (h : reconcile key present target = some result) :
    k ∈ result.map key ↔ k ∈ target.map key := by
  constructor
  · intro hk
    obtain ⟨x, hx, rfl⟩ := List.mem_map.mp hk
    rcases (mem_reconcile_iff hp ht h).mp hx with ⟨-, hk⟩ | ⟨hx, -⟩
    · exact hk
    · exact List.mem_map_of_mem hx
  · intro hk
    by_cases hpk : k ∈ present.map key
    · obtain ⟨x, hx, rfl⟩ := List.mem_map.mp hpk
      exact List.mem_map_of_mem ((mem_reconcile_iff hp ht h).mpr (.inl ⟨hx, hk⟩))
    · obtain ⟨x, hx, rfl⟩ := List.mem_map.mp hk
      exact List.mem_map_of_mem ((mem_reconcile_iff hp ht h).mpr (.inr ⟨hx, hpk⟩))

/-- Under each key, reconciling keeps what is present and takes the target's own otherwise. -/
theorem find?_reconcile (h : reconcile key present target = some result) :
    result.find? (key · = k) =
      (target.find? (key · = k)).map ((present.find? (key · = k)).getD ·) := by
  have hfilter (xs : List α) (q : κ → Prop) [DecidablePred q] :
      (xs.filter (fun x => q (key x))).find? (key · = k) =
        if q k then xs.find? (key · = k) else none := by
    grind
  have hmem {xs : List α} : k ∈ xs.map key ↔ (xs.find? (key · = k)).isSome := by simp
  rw [reconcile_eq_filter hp ht h, hfilter _ (· ∈ target.map key), List.find?_append, missing,
    hfilter _ (· ∉ present.map key)]
  simp only [hmem]
  cases target.find? (key · = k) <;> cases present.find? (key · = k) <;> simp

end KeyedList
