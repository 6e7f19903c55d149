import Mathlib.Logic.Function.Basic
import Mathlib.Tactic.Common

/-!
# Links between nodes

A node has ends, and an end may be wired to an end of another node: `peer` gives the other end. The wiring
is in order (`Paired`) when it can be followed back, no end is wired to its own node, and two nodes are
joined by at most one link.

Wiring two free ends of nodes that are not joined keeps it in order (`Paired.join`), so a loop over all
pairs of nodes that joins those it finds apart ends with every pair joined by exactly one link
(`Paired.unique`). Loops that may stop with an error run to their end as long as a step keeps what the next
one needs (`foldlM_progress`).
-/

namespace Peering

variable {E N : Type} {node : E → N} {peer : E → Option E}

structure Paired (node : E → N) (peer : E → Option E) : Prop where
  back : ∀ {e f}, peer e = some f → peer f = some e
  apart : ∀ {e f}, peer e = some f → node e ≠ node f
  single : ∀ {e f e' f'}, peer e = some f → peer e' = some f' → node e = node e' → node f = node f' → e = e'

/-- There is a link between two nodes. -/
def Joined (node : E → N) (peer : E → Option E) (a b : N) : Prop :=
  ∃ e f, peer e = some f ∧ node e = a ∧ node f = b

theorem Paired.joined_symm (h : Paired node peer) {a b : N} (hab : Joined node peer a b) :
    Joined node peer b a := by
  obtain ⟨e, f, hef, rfl, rfl⟩ := hab
  exact ⟨f, e, h.back hef, rfl, rfl⟩

/-- The link between two nodes is determined by them. -/
theorem Paired.unique (h : Paired node peer) {e f e' f' : E} (hef : peer e = some f)
    (hef' : peer e' = some f') (ha : node e = node e') (hb : node f = node f') : e = e' ∧ f = f' := by
  obtain rfl := h.single hef hef' ha hb
  exact ⟨rfl, Option.mem_unique hef hef'⟩

section Join

variable [DecidableEq E] {e f : E}

/-- Two ends are wired to each other. -/
def join (peer : E → Option E) (e f : E) : E → Option E :=
  Function.update (Function.update peer e (some f)) f (some e)

/-- What is wired after two free ends are: they, and what was. -/
theorem join_eq_some (he : peer e = none) (hf : peer f = none) (hne : e ≠ f) {x y : E} :
    join peer e f x = some y ↔ peer x = some y ∨ (x = e ∧ y = f) ∨ (x = f ∧ y = e) := by
  unfold join
  by_cases hxf : x = f
  · subst hxf
    rw [Function.update_self, hf, Option.some_inj]
    simp [hne.symm, @eq_comm E y e]
  · rw [Function.update_of_ne hxf]
    by_cases hxe : x = e
    · subst hxe
      rw [Function.update_self, he, Option.some_inj]
      simp [hne, @eq_comm E y f]
    · rw [Function.update_of_ne hxe]
      simp [hxe, hxf]

/-- Two nodes are joined by a new link if they are its nodes. -/
theorem joined_join (he : peer e = none) (hf : peer f = none) (hne : e ≠ f) {a b : N} :
    Joined node (join peer e f) a b ↔
      Joined node peer a b ∨ (node e = a ∧ node f = b) ∨ (node f = a ∧ node e = b) := by
  simp only [Joined, join_eq_some he hf hne]
  constructor
  · rintro ⟨x, y, hxy | ⟨rfl, rfl⟩ | ⟨rfl, rfl⟩, ha, hb⟩
    · exact .inl ⟨x, y, hxy, ha, hb⟩
    · exact .inr (.inl ⟨ha, hb⟩)
    · exact .inr (.inr ⟨ha, hb⟩)
  · rintro (⟨x, y, hxy, ha, hb⟩ | ⟨ha, hb⟩ | ⟨ha, hb⟩)
    · exact ⟨x, y, .inl hxy, ha, hb⟩
    · exact ⟨e, f, .inr (.inl ⟨rfl, rfl⟩), ha, hb⟩
    · exact ⟨f, e, .inr (.inr ⟨rfl, rfl⟩), ha, hb⟩

/-- Nodes that are apart may be joined. -/
theorem Paired.join (h : Paired node peer) (he : peer e = none) (hf : peer f = none)
    (hne : node e ≠ node f) (hapart : ¬ Joined node peer (node e) (node f)) :
    Paired node (Peering.join peer e f) := by
  have hends : e ≠ f := fun heq => hne (congrArg node heq)
  have hapart' : ¬ Joined node peer (node f) (node e) := fun hj => hapart (h.joined_symm hj)
  constructor
  · intro x y hxy
    rw [join_eq_some he hf hends] at hxy ⊢
    rcases hxy with hxy | ⟨rfl, rfl⟩ | ⟨rfl, rfl⟩
    · exact .inl (h.back hxy)
    · exact .inr (.inr ⟨rfl, rfl⟩)
    · exact .inr (.inl ⟨rfl, rfl⟩)
  · intro x y hxy
    rw [join_eq_some he hf hends] at hxy
    rcases hxy with hxy | ⟨rfl, rfl⟩ | ⟨rfl, rfl⟩
    · exact h.apart hxy
    · exact hne
    · exact hne.symm
  · intro x y x' y' hxy hxy' hx hy
    rw [join_eq_some he hf hends] at hxy hxy'
    -- an old link cannot be between the nodes of the new one
    rcases hxy with hxy | ⟨rfl, rfl⟩ | ⟨rfl, rfl⟩
    · rcases hxy' with hxy' | ⟨rfl, rfl⟩ | ⟨rfl, rfl⟩
      · exact h.single hxy hxy' hx hy
      · exact absurd ⟨x, y, hxy, hx, hy⟩ hapart
      · exact absurd ⟨x, y, hxy, hx, hy⟩ hapart'
    · rcases hxy' with hxy' | ⟨rfl, rfl⟩ | ⟨rfl, rfl⟩
      · exact absurd ⟨x', y', hxy', hx.symm, hy.symm⟩ hapart
      · rfl
      · exact absurd hx hne
    · rcases hxy' with hxy' | ⟨rfl, rfl⟩ | ⟨rfl, rfl⟩
      · exact absurd ⟨x', y', hxy', hx.symm, hy.symm⟩ hapart'
      · exact absurd hx.symm hne
      · rfl

end Join

/-- A loop whose steps return and keep an invariant returns; what a step establishes for its element and
the others do not destroy holds for all elements at the end. -/
theorem foldlM_progress {σ α : Type} {f : σ → α → Option σ} {I : σ → Prop} {Q : α → σ → Prop}
    {l : List α} (hstep : ∀ a ∈ l, ∀ s, I s → ∃ s', f s a = some s' ∧ I s' ∧ Q a s' ∧ ∀ b, Q b s → Q b s')
    {s : σ} (hs : I s) :
    ∃ s', l.foldlM f s = some s' ∧ I s' ∧ (∀ a ∈ l, Q a s') ∧ ∀ b, Q b s → Q b s' := by
  induction l generalizing s with
  | nil => exact ⟨s, rfl, hs, nofun, fun _ h => h⟩
  | cons a l ih =>
    obtain ⟨s₁, hf, hs₁, ha, hkeep⟩ := hstep a List.mem_cons_self s hs
    obtain ⟨s₂, hrest, hs₂, hl, hkeep'⟩ := ih (fun b hb => hstep b (List.mem_cons_of_mem a hb)) hs₁
    refine ⟨s₂, ?_, hs₂, ?_, fun b hb => hkeep' b (hkeep b hb)⟩
    · rw [List.foldlM_cons, hf]
      exact hrest
    · intro b hb
      rcases List.mem_cons.mp hb with rfl | hb
      · exact hkeep' b ha
      · exact hl b hb

end Peering
