import Mathlib.Tactic.Common

/-!
# Computations that can end the process

A C++ call either returns or ends the process: a failed assertion aborts it, and
an access the language leaves undefined (a null pointer handed to `strlen`, an
`end()` iterator dereferenced) gives no guarantee at all. Both are an `Abort`; a
call that can meet one returns `Except Abort`.

The lemmas invert a successful run into the success of its parts.
-/

/-- Why a call did not return. -/
inductive Abort where
  | assertion
  | undefinedBehaviour
  deriving DecidableEq, Repr

namespace Abort

/-- The value of an option, or the end of the process. -/
def orElse {α : Type} (abort : Abort) : Option α → Except Abort α
  | some a => .ok a
  | none => .error abort

/-- `assert(condition)`. -/
def assert (condition : Bool) : Except Abort Unit :=
  if condition then .ok () else .error .assertion

variable {α β : Type}

@[simp] theorem orElse_some (abort : Abort) (a : α) : orElse abort (some a) = .ok a := rfl

@[simp] theorem orElse_none (abort : Abort) : orElse abort (none : Option α) = .error abort := rfl

@[simp] theorem orElse_eq_ok {abort : Abort} {o : Option α} {a : α} :
    orElse abort o = .ok a ↔ o = some a := by
  cases o with
  | none => simp [orElse]
  | some b => simp [orElse]

variable {f : α → Except Abort β}

/-- A sequence returns exactly when both of its parts do. -/
@[simp] theorem bind_eq_ok {x : Except Abort α} {b : β} :
    (x >>= f) = .ok b ↔ ∃ a, x = .ok a ∧ f a = .ok b := by
  cases x with
  | error e => simp [bind, Except.bind]
  | ok a => simp [bind, Except.bind]

@[simp] theorem pure_eq_ok {a b : α} : (pure a : Except Abort α) = .ok b ↔ a = b := by
  simp [pure, Except.pure]

/-- Whether a call returns a value with a property can be computed. -/
instance decidableReturns (x : Except Abort α) (P : α → Prop) [DecidablePred P] :
    Decidable (∃ a, x = .ok a ∧ P a) :=
  match x with
  | .ok a => decidable_of_iff (P a) (by simp)
  | .error _ => isFalse (by simp)

instance decidableReturned (x : Except Abort α) : Decidable (∃ a, x = .ok a) :=
  match x with
  | .ok a => isTrue ⟨a, rfl⟩
  | .error _ => isFalse (by simp)

/-- So can be whether all it can return has a property. -/
instance decidableReturnsOnly (x : Except Abort α) (P : α → Prop) [DecidablePred P] :
    Decidable (∀ a, x = .ok a → P a) :=
  match x with
  | .ok a => decidable_of_iff (P a) (by simp)
  | .error _ => isTrue (by simp)

variable {l : List α} {bs : List β}

/-- A list of results, one for each element. -/
theorem forall₂_of_mapM (h : l.mapM f = .ok bs) : List.Forall₂ (fun a b => f a = .ok b) l bs := by
  induction l generalizing bs with
  | nil =>
    cases h
    exact .nil
  | cons a l ih =>
    simp only [List.mapM_cons, bind_eq_ok, pure_eq_ok] at h
    obtain ⟨b, hb, bs, hbs, rfl⟩ := h
    exact .cons hb (ih hbs)

theorem mapM_returns_iff :
    (∃ bs, l.mapM f = .ok bs) ↔ ∀ a ∈ l, ∃ b, f a = .ok b := by
  induction l with
  | nil => simp
  | cons a l ih =>
    simp only [List.mapM_cons, bind_eq_ok, pure_eq_ok, List.forall_mem_cons, ← ih]
    constructor
    · rintro ⟨_, b, hb, bs, hbs, rfl⟩
      exact ⟨⟨b, hb⟩, bs, hbs⟩
    · rintro ⟨⟨b, hb⟩, bs, hbs⟩
      exact ⟨b :: bs, b, hb, bs, hbs, rfl⟩

/-- What a result shows of its element. -/
theorem map_eq_of_mapM {γ : Type} {φ : β → γ} {ψ : α → γ} (h : l.mapM f = .ok bs)
    (hf : ∀ a b, f a = .ok b → φ b = ψ a) :
    bs.map φ = l.map ψ := by
  have hall := forall₂_of_mapM h
  clear h
  induction hall with
  | nil => rfl
  | cons hab _ ih => rw [List.map_cons, List.map_cons, hf _ _ hab, ih]

theorem mem_of_mapM (h : l.mapM f = .ok bs) (b : β) : b ∈ bs ↔ ∃ a ∈ l, f a = .ok b := by
  have hall := forall₂_of_mapM h
  clear h
  induction hall with
  | nil => simp
  | cons hhead _ ih =>
    simp only [List.mem_cons, exists_eq_or_imp, hhead, Except.ok.injEq, ih]
    rw [eq_comm (b := b)]

/-- A loop whose every round keeps a property keeps it. -/
theorem foldlM_invariant {f : β → α → Except Abort β} {P : β → Prop}
    (step : ∀ s a s', f s a = .ok s' → P s → P s') :
    ∀ (l : List α) (s s' : β), l.foldlM f s = .ok s' → P s → P s'
  | [], s, s', h, hs => by
    simp only [List.foldlM_nil, pure_eq_ok] at h
    exact h ▸ hs
  | a :: l, s, s', h, hs => by
    simp only [List.foldlM_cons, bind_eq_ok] at h
    obtain ⟨t, ht, hrest⟩ := h
    exact foldlM_invariant step l t s' hrest (step s a t ht hs)

/-- A loop returns exactly when each of its rounds can, where an invariant about the rounds to
come says when a round can. -/
theorem foldlM_returns_iff {f : β → α → Except Abort β} {I : List α → β → Prop} {P : α → Prop}
    (returns : ∀ a l s, I (a :: l) s → ((∃ s', f s a = .ok s') ↔ P a))
    (keeps : ∀ a l s s', I (a :: l) s → f s a = .ok s' → I l s') :
    ∀ (l : List α) (s : β), I l s → ((∃ s', l.foldlM f s = .ok s') ↔ ∀ a ∈ l, P a)
  | [], s, _ => by simp
  | a :: l, s, hs => by
    simp only [List.foldlM_cons, bind_eq_ok, List.forall_mem_cons]
    constructor
    · intro h
      obtain ⟨s', t, ht, hrest⟩ := h
      have hrounds := foldlM_returns_iff returns keeps l t (keeps a l s t hs ht)
      exact ⟨(returns a l s hs).mp ⟨t, ht⟩, hrounds.mp ⟨s', hrest⟩⟩
    · intro h
      obtain ⟨t, ht⟩ := (returns a l s hs).mpr h.1
      obtain ⟨s', hrest⟩ :=
        (foldlM_returns_iff returns keeps l t (keeps a l s t hs ht)).mpr h.2
      exact ⟨s', t, ht, hrest⟩

end Abort
