import Mathlib.Tactic.Common
import UnOrchestrator.Lib.Abort

/-!
# Runs of a machine that can abort

A machine takes an input at a time and either moves to a next state or ends. A
property holds over a run when it holds in every state the run reaches
(`Always`); a condition on steps holds over a run when every step that returned
meets it (`EveryStep`). The rules turn facts about one step into facts about
runs: `always_of_invariant` for a condition that is enough, `always_iff_everyStep`
and `always_iff_of_invariant` for one that is also needed.
-/

namespace Run

variable {σ ι : Type} (step : σ → ι → Except Abort σ)

/-- The state after a sequence of inputs. -/
def exec (s : σ) (inputs : List ι) : Except Abort σ := inputs.foldlM step s

/-- The property holds in every state that the inputs reach, the first one included. -/
def Always (P : σ → Prop) : σ → List ι → Prop
  | s, [] => P s
  | s, i :: is => P s ∧ ∀ s', step s i = .ok s' → Always P s' is

/-- Every step of the run that returned met the condition. -/
def EveryStep (Q : σ → ι → Prop) : σ → List ι → Prop
  | _, [] => True
  | s, i :: is => ∀ s', step s i = .ok s' → Q s i ∧ EveryStep Q s' is

variable {step} {P I : σ → Prop} {Q : σ → ι → Prop}

variable {inputs : List ι} {s : σ}

/-- A condition on the inputs alone. -/
theorem everyStep_of_forall {q : ι → Prop} (h : ∀ i ∈ inputs, q i) :
    EveryStep step (fun _ i => q i) s inputs := by
  induction inputs generalizing s with
  | nil => trivial
  | cons i is ih =>
    intro s' _
    exact ⟨h i List.mem_cons_self, ih fun j hj => h j (List.mem_cons_of_mem i hj)⟩

theorem everyStep_true : EveryStep step (fun _ _ => True) s inputs :=
  everyStep_of_forall fun _ _ => trivial

theorem Always.mono {P' : σ → Prop} (h : Always step P s inputs) (himp : ∀ s, P s → P' s) :
    Always step P' s inputs := by
  induction inputs generalizing s with
  | nil => exact himp s h
  | cons i is ih => exact ⟨himp s h.1, fun s' hstep => ih (h.2 s' hstep)⟩

theorem Always.head (h : Always step P s inputs) : P s := by
  cases inputs with
  | nil => exact h
  | cons i is => exact h.1

variable {Q' : σ → ι → Prop}

theorem EveryStep.mono (h : EveryStep step Q s inputs) (himp : ∀ s i, Q s i → Q' s i) :
    EveryStep step Q' s inputs := by
  induction inputs generalizing s with
  | nil => trivial
  | cons i is ih =>
    intro s' hstep
    obtain ⟨hq, hrest⟩ := h s' hstep
    exact ⟨himp s i hq, ih hrest⟩

theorem EveryStep.and (h : EveryStep step Q s inputs) (h' : EveryStep step Q' s inputs) :
    EveryStep step (fun s i => Q s i ∧ Q' s i) s inputs := by
  induction inputs generalizing s with
  | nil => trivial
  | cons i is ih =>
    intro s' hstep
    obtain ⟨hq, hrest⟩ := h s' hstep
    obtain ⟨hq', hrest'⟩ := h' s' hstep
    exact ⟨⟨hq, hq'⟩, ih hrest hrest'⟩

/-- A condition that can be checked in a state can be checked over a run. -/
instance decidableEveryStep [∀ s i, Decidable (Q s i)] :
    (s : σ) → (inputs : List ι) → Decidable (EveryStep step Q s inputs)
  | _, [] => .isTrue trivial
  | s, i :: is =>
    match hstep : step s i with
    | .error _ => .isTrue (fun s' h => by rw [hstep] at h; cases h)
    | .ok s' =>
      have := decidableEveryStep s' is
      decidable_of_iff (Q s i ∧ EveryStep step Q s' is)
        ⟨fun h s'' h'' => by rw [hstep] at h''; cases h''; exact h, fun h => h s' hstep⟩

/-- An invariant that every step meeting the condition keeps holds over every run whose
steps meet it. -/
theorem always_of_invariant (keep : ∀ s i s', I s → Q s i → step s i = .ok s' → I s')
    (implies : ∀ s, I s → P s) (hs : I s) (hsteps : EveryStep step Q s inputs) : Always step P s inputs := by
  induction inputs generalizing s with
  | nil => exact implies s hs
  | cons i is ih =>
    refine ⟨implies s hs, fun s' hstep => ?_⟩
    obtain ⟨hq, hrest⟩ := hsteps s' hstep
    exact ih (keep s i s' hs hq hstep) hrest

/-- What an invariant says of the steps that meet the condition. -/
theorem EveryStep.of_invariant (keep : ∀ s i s', I s → Q s i → step s i = .ok s' → I s')
    (implies : ∀ s i, I s → Q s i → Q' s i) (hs : I s) (hsteps : EveryStep step Q s inputs) :
    EveryStep step Q' s inputs := by
  induction inputs generalizing s with
  | nil => trivial
  | cons i is ih =>
    intro s' hstep
    obtain ⟨hq, hrest⟩ := hsteps s' hstep
    exact ⟨implies s i hs hq, ih (keep s i s' hs hq hstep) hrest⟩

/-- When a condition decides for every step whether it keeps the property, the property
holds over a run exactly when every step meets the condition. -/
theorem always_iff_everyStep (decides : ∀ s i s', P s → step s i = .ok s' → (P s' ↔ Q s i)) (hs : P s) :
    Always step P s inputs ↔ EveryStep step Q s inputs := by
  induction inputs generalizing s with
  | nil => exact ⟨fun _ => trivial, fun _ => hs⟩
  | cons i is ih =>
    constructor
    · rintro ⟨-, hrest⟩ s' hstep
      have hs' : P s' := (hrest s' hstep).head
      exact ⟨(decides s i s' hs hstep).mp hs', (ih hs').mp (hrest s' hstep)⟩
    · intro hsteps
      refine ⟨hs, fun s' hstep => ?_⟩
      obtain ⟨hq, hrest⟩ := hsteps s' hstep
      exact (ih ((decides s i s' hs hstep).mpr hq)).mpr hrest

/-- When a condition is enough for a step to keep an invariant, and needed for the property to hold
behind the step, the property holds over a run exactly when every step meets the condition. -/
theorem always_iff_of_invariant {R : σ → ι → Prop}
    (keep : ∀ s i s', I s → R s i → Q s i → step s i = .ok s' → I s')
    (needs : ∀ s i s', I s → R s i → step s i = .ok s' → P s' → Q s i) (implies : ∀ s, I s → P s) (hs : I s)
    (hR : EveryStep step R s inputs) :
    Always step P s inputs ↔ EveryStep step Q s inputs := by
  constructor
  · intro halways
    induction inputs generalizing s with
    | nil => trivial
    | cons i is ih =>
      intro s' hstep
      have hrest := halways.2 s' hstep
      obtain ⟨hr, hR'⟩ := hR s' hstep
      have hq := needs s i s' hs hr hstep hrest.head
      exact ⟨hq, ih (keep s i s' hs hr hq hstep) hR' hrest⟩
  · intro hQ
    exact always_of_invariant (fun s i s' hs hboth => keep s i s' hs hboth.1 hboth.2) implies hs (hR.and hQ)

end Run
