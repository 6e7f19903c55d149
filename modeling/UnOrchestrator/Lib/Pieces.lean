import UnOrchestrator.Lib.Call

/-!
# Calls made of pieces

A long call is a sequence of pieces. `done` says what a piece does to the state. A call that
`Performs` a list of pieces went through all of them if it returns. What holds at the start and is
kept by every piece holds at the end (`Chain.keeps`).
-/

namespace Call

variable {σ ι α β : Type} {done : ι → σ → σ → Prop} {s s' : σ}

/-- The pieces are done one after another. -/
inductive Chain (done : ι → σ → σ → Prop) : List ι → σ → σ → Prop where
  | nil {s : σ} : Chain done [] s s
  | cons {i : ι} {is : List ι} {s s₁ s' : σ} (head : done i s s₁) (tail : Chain done is s₁ s') :
      Chain done (i :: is) s s'

namespace Chain

theorem single {i : ι} (h : done i s s') : Chain done [i] s s' := .cons h .nil

variable {is : List ι}

theorem append {js : List ι} {s₁ : σ} (h : Chain done is s s₁) (h' : Chain done js s₁ s') :
    Chain done (is ++ js) s s' := by
  induction h with
  | nil => exact h'
  | cons head _ ih => exact .cons head (ih h')

theorem of_append {js : List ι} (h : Chain done (is ++ js) s s') :
    ∃ s₁, Chain done is s s₁ ∧ Chain done js s₁ s' := by
  induction is generalizing s with
  | nil => exact ⟨s, .nil, h⟩
  | cons i is ih =>
    cases h with
    | cons head tail =>
      obtain ⟨s₂, hfirst, hsecond⟩ := ih tail
      exact ⟨s₂, .cons head hfirst, hsecond⟩

/-- What every piece keeps holds after them. -/
theorem keeps {I : σ → Prop} (h : Chain done is s s')
    (hstep : ∀ i ∈ is, ∀ s s', done i s s' → I s → I s') (hI : I s) : I s' := by
  induction h with
  | nil => exact hI
  | @cons i is s s₁ s' head tail ih =>
    have hhead := hstep i List.mem_cons_self s s₁ head hI
    exact ih (fun j hj => hstep j (List.mem_cons_of_mem i hj)) hhead

/-- If a number does not decrease and is the same at the end, no piece changed it. -/
theorem and_eq {μ : σ → Nat} (h : Chain done is s s') (hle : ∀ i s s', done i s s' → μ s ≤ μ s')
    (heq : μ s' = μ s) :
    Chain (fun i s s' => done i s s' ∧ μ s' = μ s) is s s' := by
  have hall : ∀ {is s s'}, Chain done is s s' → μ s ≤ μ s' := by
    intro is s s' h
    refine h.keeps (I := fun s₁ => μ s ≤ μ s₁) (fun i _ s₁ s₂ hdone hs₁ => ?_) Nat.le.refl
    exact Nat.le_trans hs₁ (hle i s₁ s₂ hdone)
  induction h with
  | nil => exact .nil
  | @cons i is s s₁ s' head tail ih =>
    have hhead := hle i s s₁ head
    have htail := hall tail
    exact .cons ⟨head, by omega⟩ (ih (by omega))

end Chain

/-- The call is made of the pieces. -/
def Performs (done : ι → σ → σ → Prop) (is : List ι) (x : Call σ α) (s : σ) : Prop :=
  wp x (fun _ s' => Chain done is s s') (fun _ => True) s

namespace Performs

theorem pure {a : α} : Performs done [] (Pure.pure a : Call σ α) s := Chain.nil

variable {x : Call σ α} {is : List ι}

theorem single {i : ι} (h : wp x (fun _ s' => done i s s') (fun _ => True) s) :
    Performs done [i] x s :=
  wp_weaken h fun _ _ hdone => .single hdone

/-- A call whose result the next one depends on. -/
theorem bind_of_wp {js : List ι} {f : α → Call σ β} {Q : α → σ → Prop}
    (h : Performs done is x s) (hQ : wp x Q (fun _ => True) s)
    (hf : ∀ a s₁, Chain done is s s₁ → Q a s₁ → Performs done js (f a) s₁) :
    Performs done (is ++ js) (x >>= f) s := by
  unfold Performs
  rw [wp_bind]
  refine wp_mono (wp_and h hQ) (fun a s₁ ⟨hchain, hQ⟩ => ?_) (fun _ _ => trivial)
  exact wp_weaken (hf a s₁ hchain hQ) (fun _ s' hchain' => hchain.append hchain')

theorem bind {js : List ι} {f : α → Call σ β} (h : Performs done is x s)
    (hf : ∀ a s₁, Chain done is s s₁ → Performs done js (f a) s₁) :
    Performs done (is ++ js) (x >>= f) s :=
  h.bind_of_wp (Q := fun _ _ => True) (wp_of_forall (fun _ _ => trivial) fun _ => trivial)
    fun a s₁ hchain _ => hf a s₁ hchain

theorem get_bind {f : σ → Call σ β} (h : Performs done is (f s) s) :
    Performs done is (get >>= f) s := by
  unfold Performs
  rw [wp_bind, wp_get]
  exact h

theorem map {f : α → β} (h : Performs done is x s) :
    Performs done is (f <$> x) s := by
  unfold Performs
  rw [wp_map]
  exact h

theorem gather {pieces : α → List ι} {body : α → Call σ β}
    (h : ∀ a s, Performs done (pieces a) (body a) s) (as : List α) :
    Performs done (as.flatMap pieces) (Call.gather body as) s := by
  induction as generalizing s with
  | nil => exact pure
  | cons a as ih =>
    rw [Call.gather, List.flatMap_cons]
    refine (h a s).bind fun b s₁ _ => ?_
    rw [← List.append_nil (as.flatMap pieces)]
    exact ih.bind fun bs s₂ _ => pure

theorem each {pieces : α → List ι} {body : α → Call σ Unit}
    (h : ∀ a s, Performs done (pieces a) (body a) s) (as : List α) :
    Performs done (as.flatMap pieces) (Call.each body as) s := by
  induction as generalizing s with
  | nil => exact pure
  | cons a as ih =>
    rw [Call.each, List.flatMap_cons]
    exact (h a s).bind fun _ _ _ => ih

end Performs

end Call
