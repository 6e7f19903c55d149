import Mathlib.Data.List.Basic

/-!
# Flow tables

The part of a switch's flow table that its controller writes: one entry for each
key, where adding under a key overwrites what was there and a strict deletion
empties exactly that key. `installAll_apply` and `deleteAll_apply` say what a
batch of either leaves under a key; `entry` is the entry a list of additions asks
for, the last one under the key.
-/

/-- For each key, the entry installed under it. -/
def FlowTable (κ α : Type) : Type := κ → Option α

namespace FlowTable

variable {κ α : Type} [DecidableEq κ]

def empty : FlowTable κ α := fun _ => none

/-- An addition overwrites the entry under its key. -/
def add (t : FlowTable κ α) (k : κ) (a : α) : FlowTable κ α :=
  fun j => if j = k then some a else t j

/-- A strict deletion removes the entry under its key, if there is one. -/
def deleteStrict (t : FlowTable κ α) (k : κ) : FlowTable κ α :=
  fun j => if j = k then none else t j

def installAll (t : FlowTable κ α) (rs : List (κ × α)) : FlowTable κ α :=
  rs.foldl (fun t r => t.add r.1 r.2) t

def deleteAll (t : FlowTable κ α) (ks : List κ) : FlowTable κ α := ks.foldl deleteStrict t

/-- The entry that a list of additions leaves under a key: the last one. -/
def entry : List (κ × α) → κ → Option α
  | [], _ => none
  | r :: rs, k => (entry rs k).or (if r.1 = k then some r.2 else none)

omit [DecidableEq κ] in
theorem eq_iff {t u : FlowTable κ α} : t = u ↔ ∀ k, t k = u k := funext_iff

theorem installAll_apply (t : FlowTable κ α) (rs : List (κ × α)) (k : κ) :
    t.installAll rs k = (entry rs k).or (t k) := by
  induction rs generalizing t with
  | nil => simp only [installAll, List.foldl_nil, entry, Option.none_or]
  | cons r rs ih =>
    have hstep : t.installAll (r :: rs) = (t.add r.1 r.2).installAll rs := rfl
    rw [hstep, ih, entry, Option.or_assoc]
    congr 1
    by_cases hk : r.1 = k
    · simp only [add, hk, if_true, Option.some_or]
    · simp only [add, if_neg hk, if_neg (Ne.symm hk), Option.none_or]

theorem installAll_append (t : FlowTable κ α) (rs qs : List (κ × α)) :
    t.installAll (rs ++ qs) = (t.installAll rs).installAll qs := List.foldl_append

theorem deleteAll_apply (t : FlowTable κ α) (ks : List κ) (k : κ) :
    t.deleteAll ks k = if k ∈ ks then none else t k := by
  induction ks generalizing t with
  | nil => simp only [deleteAll, List.foldl_nil, List.not_mem_nil, if_false]
  | cons j ks ih =>
    have hstep : t.deleteAll (j :: ks) = (t.deleteStrict j).deleteAll ks := rfl
    rw [hstep, ih]
    by_cases hmem : k ∈ ks
    · rw [if_pos hmem, if_pos (List.mem_cons_of_mem j hmem)]
    · by_cases hj : k = j
      · rw [if_neg hmem, if_pos (hj ▸ List.mem_cons_self), deleteStrict, if_pos hj]
      · rw [if_neg hmem, if_neg (by simp [hj, hmem]), deleteStrict, if_neg hj]

/-- A list of additions asks for an entry under the keys it has. -/
theorem entry_eq_none {rs : List (κ × α)} {k : κ} : entry rs k = none ↔ k ∉ rs.map Prod.fst := by
  induction rs with
  | nil => simp [entry]
  | cons r rs ih =>
    rw [entry, Option.or_eq_none_iff, ih, List.map_cons, List.mem_cons, not_or]
    constructor
    · rintro ⟨hrs, hr⟩
      exact ⟨fun h => by simp [h] at hr, hrs⟩
    · rintro ⟨hr, hrs⟩
      exact ⟨hrs, if_neg (Ne.symm hr)⟩

theorem entry_append (rs qs : List (κ × α)) (k : κ) :
    entry (rs ++ qs) k = (entry qs k).or (entry rs k) := by
  induction rs with
  | nil => simp only [List.nil_append, entry, Option.or_none]
  | cons r rs ih => simp only [List.cons_append, entry, ih, Option.or_assoc]

/-- Dropping one addition leaves the entries under other keys. -/
theorem entry_drop_one {rs qs : List (κ × α)} {r : κ × α} {k : κ} (hk : r.1 ≠ k) :
    entry (rs ++ r :: qs) k = entry (rs ++ qs) k := by
  rw [entry_append, entry_append, entry, if_neg hk, Option.or_none]

end FlowTable
