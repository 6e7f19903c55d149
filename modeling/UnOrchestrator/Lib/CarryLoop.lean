import Mathlib.Data.List.Perm.Basic
import Mathlib.Data.List.Pairwise

/-!
# Variables that a loop carries over

A loop over a list whose variables are declared outside of it hands what one element
leaves in them to the next. What an element contributes then depends on the elements
before it, unless it reads only variables that still have their initial values.

`CarryLoop` is such a loop with an account of the variables that each element reads. Its
law `forall_perm_run_iff` decides locality on pairs: in every order of a list all elements
contribute what they contribute alone exactly when no element reads a variable that
another one, alone, leaves with a value.
-/

structure CarryLoop (α σ β ι : Type) where
  init : σ
  step : σ → α → σ
  out : σ → α → β
  /-- The variable has its initial value. -/
  Initial : ι → σ → Prop
  Reads : α → ι → Prop
  initial_init : ∀ x, Initial x init
  /-- The variables that an element reads are those that its contribution depends on. -/
  out_eq_iff : ∀ s a, out s a = out init a ↔ ∀ x, Reads a x → Initial x s
  /-- A variable gets a value only from an element that gives it one alone, as long as the element
  reads initial values. -/
  leaves : ∀ s a x, (∀ y, Reads a y → Initial y s) → Initial x s → Initial x (step init a) →
    Initial x (step s a)

namespace CarryLoop

variable {α σ β ι : Type} (L : CarryLoop α σ β ι)

/-- What an element contributes as the only one. -/
def alone (a : α) : β := L.out L.init a

/-- What the elements contribute, one after the other. -/
def run (s : σ) : List α → List β
  | [] => []
  | a :: as => L.out s a :: run (L.step s a) as

theorem run_append (s : σ) (as bs : List α) :
    L.run s (as ++ bs) = L.run s as ++ L.run (as.foldl L.step s) bs := by
  induction as generalizing s with
  | nil => rfl
  | cons a as ih => rw [List.cons_append, run, ih, run, List.cons_append, List.foldl_cons]

/-- An element does not read what another one leaves. -/
def Undisturbed (a b : α) : Prop := ∀ x, L.Reads b x → L.Initial x (L.step L.init a)

variable {L}

theorem run_eq_map_alone {s : σ} {as : List α} (hpair : as.Pairwise L.Undisturbed)
    (hs : ∀ a ∈ as, ∀ x, L.Reads a x → L.Initial x s) : L.run s as = as.map L.alone := by
  induction as generalizing s with
  | nil => rfl
  | cons a as ih =>
    obtain ⟨ha, hpair⟩ := List.pairwise_cons.mp hpair
    have hreads := hs a List.mem_cons_self
    have htail : L.run (L.step s a) as = as.map L.alone := by
      apply ih hpair
      intro b hb x hx
      exact L.leaves s a x hreads (hs b (List.mem_cons_of_mem a hb) x hx) (ha b hb x hx)
    rw [run, htail, List.map_cons, alone, (L.out_eq_iff s a).mpr hreads]

/-- The second of two elements is undisturbed if it contributes what it contributes alone. -/
theorem undisturbed_of_run {a b : α} {as : List α}
    (h : L.run L.init (a :: b :: as) = (a :: b :: as).map L.alone) : L.Undisturbed a b := by
  simp only [run, List.map_cons, List.cons.injEq] at h
  exact (L.out_eq_iff _ b).mp h.2.1

/-- Locality in every order is a matter of pairs. -/
theorem forall_perm_run_iff {as : List α} :
    (∀ as', as'.Perm as → L.run L.init as' = as'.map L.alone) ↔
      as.Pairwise fun a b => L.Undisturbed a b ∧ L.Undisturbed b a := by
  constructor
  · intro h
    rw [List.pairwise_iff_forall_sublist]
    intro a b hsub
    obtain ⟨rest, hperm⟩ := hsub.exists_perm_append
    exact ⟨undisturbed_of_run (h _ hperm.symm),
      undisturbed_of_run (h _ ((List.Perm.swap a b rest).trans hperm.symm))⟩
  · intro h as' hperm
    have hpair := (hperm.pairwise_iff (fun hab => ⟨hab.2, hab.1⟩)).mpr h
    exact run_eq_map_alone (hpair.imp fun hab => hab.1) fun _ _ x _ => L.initial_init x

end CarryLoop
