import UnOrchestrator.Lib.Call
import UnOrchestrator.Lib.StringMap
import UnOrchestrator.Highlevel.Graph

/-!
# The compute controller of a graph

The network functions of one graph: the descriptions that the name resolver gave for
each of them, and the description that was selected. The answers of the name resolver
and of the execution environments are parameters.
-/

namespace UnOrchestrator

/-- `Description`: an implementation of a network function, with the ports it gives a type
to. -/
structure Description where
  uri : String
  portTypes : List Nat := []
  supported : Bool := false
  deriving DecidableEq, Repr

/-- `NF`. The parser of the answer of the name resolver keeps only functions that have a
description. -/
structure NF where
  descriptions : List Description
  described : descriptions ≠ []
  selected : Option Description := none

/-- `nf_manager_ret_t`, with the descriptions that were retrieved. -/
inductive RetrievedDescription where
  | ok (descriptions : List Description) (described : descriptions ≠ [])
  | noNF
  | serverError

/-- `ComputeController`. -/
structure ComputeController where
  nfs : StringMap NF := ∅

namespace ComputeController

def getNFSelectedImplementation (c : ComputeController) (id : String) : Option Description :=
  (c.nfs[id]?).bind NF.selected

/-- What `retrieveDescription` stores after a good answer. -/
def addNF (c : ComputeController) (id : String) (descriptions : List Description)
    (described : descriptions ≠ []) : ComputeController :=
  { c with nfs := c.nfs.insert id { descriptions := descriptions, described := described } }

/-- `checkSupportedDescriptions`, on one network function. -/
def checkSupportedDescriptions (isSupported : Description → Bool) (nf : NF) : NF :=
  { nf with
    descriptions := nf.descriptions.map
      (fun descr => { descr with supported := descr.supported || isSupported descr })
    described := by simpa using nf.described }

/-- The loop of `selectImplementation`: a function without a selected description gets its
first supported one, and the loop ends at a function that has none. -/
def selectAll (isSupported : Description → Bool) :
    List (String × NF) → StringMap NF → StringMap NF × Bool
  | [], nfs => (nfs, true)
  | (id, nf) :: rest, nfs =>
    let current := checkSupportedDescriptions isSupported nf
    match nf.selected with
    | some _ => selectAll isSupported rest (nfs.insert id current)
    | none =>
      match current.descriptions.find? Description.supported with
      | none => (nfs, false)
      | some descr =>
        selectAll isSupported rest (nfs.insert id { current with selected := some descr })

/-- `selectImplementation`. Its final test that all functions have a description cannot fail
where the loop came to its end. -/
def selectImplementation (isSupported : Description → Bool) (c : ComputeController) :
    ComputeController × Bool :=
  let (nfs, ok) := selectAll isSupported c.nfs.toList c.nfs
  ({ c with nfs := nfs }, ok)

/-- `stopNF`; the second argument has the answer of the execution environment. A function
without a selected description has no manager to be asked. -/
def stopNF (c : ComputeController) (stopped : Bool) (id : String) :
    Except Abort (ComputeController × Bool) :=
  match c.nfs[id]? with
  | none => .ok (c, false)
  | some nf =>
    if nf.selected.isNone then .error .undefinedBehaviour
    else if stopped then .ok ({ c with nfs := c.nfs.erase id }, true)
    else .ok (c, false)

/-- `stopAll`. The loop goes on from an iterator whose element `stopNF` has erased, so that it
is defined only when no function is stopped. -/
def stopAll (c : ComputeController) (stopped : String → Bool) : Except Abort Unit :=
  c.nfs.toList.forM (fun nf => do
    let (_, erased) ← c.stopNF (stopped nf.1) nf.1
    if erased then .error .undefinedBehaviour else pure ())

variable {isSupported : Description → Bool} {id : String}

/-- With every description supported, every function gets one. -/
theorem selectImplementation_of_supported (h : ∀ descr, isSupported descr = true)
    (c : ComputeController) :
    (c.selectImplementation isSupported).2 = true := by
  have hall (l : List (String × NF)) (nfs : StringMap NF) : (selectAll isSupported l nfs).2 = true := by
    induction l generalizing nfs with
    | nil => rfl
    | cons entry rest ih =>
      obtain ⟨id, nf⟩ := entry
      rw [selectAll]
      split
      · exact ih _
      · split
        · next hnone =>
          obtain ⟨descr, hdescr⟩ := List.exists_mem_of_ne_nil _ nf.described
          have := List.find?_eq_none.mp hnone _ (List.mem_map_of_mem hdescr)
          simp [h] at this
        · exact ih _
  exact hall _ _

/-- The loop writes to functions that are there. -/
theorem mem_selectAll {l : List (String × NF)} {nfs : StringMap NF}
    (h : ∀ entry ∈ l, entry.1 ∈ nfs) :
    id ∈ (selectAll isSupported l nfs).1 ↔ id ∈ nfs := by
  induction l generalizing nfs with
  | nil => rfl
  | cons entry rest ih =>
    obtain ⟨current, nf⟩ := entry
    have hcurrent : current ∈ nfs := h (current, nf) List.mem_cons_self
    have hwritten (nf' : NF) : ∀ entry ∈ rest, entry.1 ∈ nfs.insert current nf' := fun entry hentry =>
      StringMap.mem_insert.mpr (.inr (h entry (List.mem_cons_of_mem _ hentry)))
    have hsame (nf' : NF) : id ∈ nfs.insert current nf' ↔ id ∈ nfs := by
      rw [StringMap.mem_insert]
      exact or_iff_right_of_imp fun hid => hid ▸ hcurrent
    rw [selectAll]
    split
    · exact (ih (hwritten _)).trans (hsame _)
    · split
      · rfl
      · exact (ih (hwritten _)).trans (hsame _)

/-- The functions that are known stay the same when descriptions are selected. -/
theorem mem_selectImplementation {c : ComputeController} :
    id ∈ (c.selectImplementation isSupported).1.nfs ↔ id ∈ c.nfs := by
  refine mem_selectAll fun entry hentry => ?_
  rw [StringMap.mem_iff, Std.ExtTreeMap.mem_toList_iff_getElem?_eq_some.mp hentry]
  exact Option.some_ne_none entry.2

/-- A function that can be stopped is no longer known. -/
theorem mem_stopNF {c c' : ComputeController} {stopped : Bool}
    (h : c.stopNF true id = .ok (c', stopped)) {other : String} :
    other ∈ c'.nfs ↔ other ∈ c.nfs ∧ other ≠ id := by
  unfold stopNF at h
  split at h
  · next hnone =>
    cases h
    refine (and_iff_left_of_imp fun hother heq => ?_).symm
    exact StringMap.mem_iff.mp hother (heq ▸ hnone)
  · split at h
    · cases h
    · cases h
      rw [StringMap.mem_erase, and_comm]

end ComputeController

end UnOrchestrator
