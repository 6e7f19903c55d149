import Mathlib.Data.List.Forall2
import Mathlib.Data.List.Nodup
import UnOrchestrator.Lib.Abort

/-!
# Lists kept side by side

A program keeps what it knows about some things in two lists, one with their names and one with
the handles that another program gave them. A thing is added by a push to each list. Its handle
is found by walking both lists until the name turns up, and it is removed from both.

The lists are grouped by a key. That the lists of a key have the same length and that a name and
the handle in the same place belong together is `List.Forall₂`. Pushes in parallel keep it
(`forall₂_push`), and so does removing what the walk found (`forall₂_erase`, `forall₂_filter`).
-/

namespace Paired

variable {κ α β : Type} [DecidableEq κ]

/-- `map[k].push_back(x)`. -/
def push (f : κ → List α) (k : κ) (x : α) : κ → List α := Function.update f k (f k ++ [x])

theorem push_self (f : κ → List α) (k : κ) (x : α) : push f k x k = f k ++ [x] :=
  Function.update_self ..

theorem push_of_ne (f : κ → List α) {k k' : κ} (x : α) (h : k' ≠ k) : push f k x k' = f k' :=
  Function.update_of_ne h ..

theorem mem_push {f : κ → List α} {k k' : κ} {x y : α} :
    y ∈ push f k x k' ↔ y ∈ f k' ∨ k' = k ∧ y = x := by
  by_cases hk : k' = k
  · subst hk
    simp [push_self]
  · simp [push_of_ne f x hk, hk]

theorem nodup_push {f : κ → List α} {k : κ} {x : α} (k' : κ) (h : (f k').Nodup) (hx : x ∉ f k') :
    (push f k x k').Nodup := by
  by_cases hk : k' = k
  · subst hk
    rw [push_self]
    exact h.append (List.nodup_singleton x) (List.disjoint_singleton.mpr hx)
  · rwa [push_of_ne f x hk]

theorem forall₂_push {R : α → β → Prop} {names : κ → List α} {handles : κ → List β} {k k' : κ} {a : α}
    {b : β} (h : List.Forall₂ R (names k') (handles k')) (hR : k' = k → R a b) :
    List.Forall₂ R (push names k a k') (push handles k b k') := by
  by_cases hk : k' = k
  · subst hk
    rw [push_self, push_self]
    exact List.rel_append h (.cons (hR rfl) .nil)
  · rwa [push_of_ne names a hk, push_of_ne handles b hk]

/-- The handle in the place of the first name that is equal to the given one. The walk must not
leave the list of handles. -/
def find [DecidableEq α] (name : α) : List α → List β → Except Abort (Option β)
  | [], _ => .ok none
  | _ :: _, [] => .error .undefinedBehaviour
  | n :: ns, h :: hs => if n = name then .ok (some h) else find name ns hs

/-- The handles that go when the things with the given names are taken out of both lists one after
another. A name that is not there, and one for which the walk leaves the list of handles, takes none. -/
def taken [DecidableEq α] [DecidableEq β] : List α → List α → List β → List β
  | [], _, _ => []
  | name :: more, names, handles =>
    match find name names handles with
    | .ok (some handle) => handle :: taken more (names.filter (· ≠ name)) (handles.filter (· ≠ handle))
    | _ => taken more names handles

section Find

variable [DecidableEq α] {R : α → β → Prop} {name : α} {names : List α} {handles : List β}

omit [DecidableEq α] in
theorem exists_of_mem (h : List.Forall₂ R names handles) {n : α} (hn : n ∈ names) :
    ∃ handle ∈ handles, R n handle := by
  induction h with
  | nil => cases hn
  | @cons n' handle names handles hR _ ih =>
    rcases List.mem_cons.mp hn with rfl | hn
    · exact ⟨handle, List.mem_cons_self, hR⟩
    · obtain ⟨handle', hmem, hR'⟩ := ih hn
      exact ⟨handle', List.mem_cons_of_mem _ hmem, hR'⟩

omit [DecidableEq α] in
theorem forall₂_imp_of_mem {R' : α → β → Prop} (h : List.Forall₂ R names handles)
    (himp : ∀ n, ∀ handle ∈ handles, R n handle → R' n handle) : List.Forall₂ R' names handles := by
  induction h with
  | nil => exact .nil
  | @cons n handle names handles hR _ ih =>
    exact .cons (himp n handle List.mem_cons_self hR)
      (ih fun n' handle' hmem => himp n' handle' (List.mem_cons_of_mem _ hmem))

theorem find_eq_none (h : List.Forall₂ R names handles) :
    find name names handles = .ok none ↔ name ∉ names := by
  induction h with
  | nil => simp [find]
  | @cons n handle names handles _ _ ih =>
    rw [find, List.mem_cons, not_or]
    by_cases hn : n = name
    · simp [hn]
    · rw [if_neg hn, ih]
      simp [Ne.symm hn]

variable {handle : β}

theorem rel_of_find (h : List.Forall₂ R names handles)
    (hfind : find name names handles = .ok (some handle)) : R name handle ∧ handle ∈ handles := by
  induction h with
  | nil => cases hfind
  | @cons n handle' names handles hR _ ih =>
    rw [find] at hfind
    split_ifs at hfind with hn
    · cases hfind
      subst hn
      exact ⟨hR, List.mem_cons_self⟩
    · exact ⟨(ih hfind).1, List.mem_cons_of_mem _ (ih hfind).2⟩

/-- The name and the handle that the walk found are taken out together. -/
theorem forall₂_erase [DecidableEq β] (h : List.Forall₂ R names handles) (hnodup : handles.Nodup)
    (hfind : find name names handles = .ok (some handle)) :
    List.Forall₂ R (names.erase name) (handles.filter (· ≠ handle)) := by
  induction h with
  | nil => cases hfind
  | @cons n handle' names handles hR hrest ih =>
    rw [find] at hfind
    rw [List.nodup_cons] at hnodup
    split_ifs at hfind with hn
    · cases hfind
      subst hn
      have hothers : handles.filter (· ≠ handle) = handles := by
        rw [List.filter_eq_self]
        intro x hx
        simpa using ne_of_mem_of_not_mem hx hnodup.1
      rw [List.erase_cons_head, List.filter_cons_of_neg (by simp), hothers]
      exact hrest
    · have hmem := (rel_of_find hrest hfind).2
      have hne : handle' ≠ handle := fun heq => hnodup.1 (heq ▸ hmem)
      rw [List.erase_cons_tail (by simpa using hn), List.filter_cons_of_pos (by simpa using hne)]
      exact .cons hR (ih hnodup.2 hfind)

/-- The same where all places with the name or the handle are taken out, and each handle has one name. -/
theorem forall₂_filter [DecidableEq β] (h : List.Forall₂ R names handles)
    (hiff : ∀ n h', h' ∈ handles → R n h' → (n = name ↔ h' = handle)) :
    List.Forall₂ R (names.filter (· ≠ name)) (handles.filter (· ≠ handle)) := by
  induction h with
  | nil => exact .nil
  | @cons n handle' names handles hR _ ih =>
    have hhead := hiff n handle' List.mem_cons_self hR
    have hrest := ih fun n' h' hmem => hiff n' h' (List.mem_cons_of_mem _ hmem)
    by_cases hn : n = name
    · have hhandle := hhead.mp hn
      simpa [hn, hhandle] using hrest
    · have hhandle : handle' ≠ handle := fun heq => hn (hhead.mpr heq)
      rw [List.filter_cons_of_pos (by simpa using hn), List.filter_cons_of_pos (by simpa using hhandle)]
      exact .cons hR hrest

end Find

end Paired
