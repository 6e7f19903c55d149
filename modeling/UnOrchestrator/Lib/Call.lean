import UnOrchestrator.Lib.Abort

/-!
# Calls that change a state

A C++ member function reads and writes the object it belongs to and ends in one of
three ways: it returns a value, it throws an exception, with the writes made up to
that point kept, or it ends the process. `Call σ α` is such a function over a state
`σ`.

`wp` is the weakest precondition of a call: an assertion for the end by return and
one for the end by exception; a call that ends the process meets every assertion. The
rules compute it statement by statement, so that a fact about a call is proved by
rewriting with them; `wp_each` is the rule for a loop over a list. `Survives` is the
other half: the call does not end the process. `Preserves` is the frame of a call: a part
of the state that it leaves alone however it ends.
-/

/-- Why an expression has no value: the process is gone, or an exception is thrown. -/
inductive Failure where
  | abort (why : Abort)
  | thrown
  deriving DecidableEq, Repr

namespace Failure

/-- An expression that can only end the process, among those that can throw as well. -/
def ofAbort {α : Type} : Except Abort α → Except Failure α
  | .ok a => .ok a
  | .error why => .error (.abort why)

/-- The value of an option, or the failure. -/
def orElse {α : Type} (failure : Failure) : Option α → Except Failure α
  | some a => .ok a
  | none => .error failure

variable {α β : Type}

variable {a : α}

@[simp] theorem ofAbort_eq_ok {x : Except Abort α} : ofAbort x = .ok a ↔ x = .ok a := by
  cases x <;> simp [ofAbort]

/-- What can only end the process does not throw. -/
theorem ofAbort_ne_thrown {x : Except Abort α} : ofAbort x ≠ .error .thrown := by
  cases x <;> simp [ofAbort]

variable {o : Option α}

variable {failure : Failure}

@[simp] theorem orElse_some : orElse failure (some a) = .ok a := rfl

@[simp] theorem orElse_none :
    orElse failure (none : Option α) = .error failure := rfl

@[simp] theorem orElse_eq_ok :
    orElse failure o = .ok a ↔ o = some a := by
  cases o <;> simp [orElse]

variable {x : Except Failure α} {b : β}

variable {f : α → Except Failure β}

@[simp] theorem bind_eq_ok :
    (x >>= f) = .ok b ↔ ∃ a, x = .ok a ∧ f a = .ok b := by
  cases x <;> simp [bind, Except.bind]

@[simp] theorem ok_bind : (Except.ok a >>= f) = f a := rfl

@[simp] theorem error_bind :
    (Except.error failure >>= f) = .error failure := rfl

variable {e : Failure}

theorem bind_eq_error :
    (x >>= f) = .error e ↔ x = .error e ∨ ∃ a, x = .ok a ∧ f a = .error e := by
  cases x <;> simp [bind, Except.bind]

theorem orElse_eq_error :
    orElse failure o = .error e ↔ o = none ∧ failure = e := by
  cases o <;> simp [orElse]

theorem pure_ne_error : (pure a : Except Failure α) ≠ .error e := nofun

@[simp] theorem pure_eq_ok {b : α} : (pure a : Except Failure α) = .ok b ↔ a = b := by
  simp [pure, Except.pure]

/-- The expression has a value. -/
def Returns (x : Except Failure α) : Prop := ∃ a, x = .ok a

@[simp] theorem returns_ok : Returns (.ok a : Except Failure α) := ⟨a, rfl⟩

@[simp] theorem not_returns_error : ¬ Returns (.error e : Except Failure α) := nofun

theorem pure_eq_ok_iff {b : α} (h : a = b) {r : α} :
    (pure a : Except Failure α) = .ok r ↔ r = b := by
  rw [pure_eq_ok, h, eq_comm]

/-- What follows an expression uses its value to make a result that is known otherwise. -/
theorem bind_pure_eq_ok_iff {f : α → β} (h : ∀ a, x = .ok a → f a = b) {r : β} :
    (x >>= fun a => pure (f a)) = .ok r ↔ Returns x ∧ r = b := by
  cases x with
  | error e => simp
  | ok a =>
    rw [ok_bind, pure_eq_ok, h a rfl, eq_comm]
    simp

/-- The same for a value that has to pass a test. -/
theorem bind_guard_eq_ok_iff {bad : α → Prop} [DecidablePred bad] {f : α → β}
    (h : ∀ a, x = .ok a → ¬ bad a → f a = b) {r : β} :
    (x >>= fun a => if bad a then .error e else pure (f a)) = .ok r ↔
      (∃ a, x = .ok a ∧ ¬ bad a) ∧ r = b := by
  cases x with
  | error e => simp
  | ok a =>
    by_cases hbad : bad a
    · simp [hbad]
    · rw [ok_bind, if_neg hbad, pure_eq_ok_iff (h a rfl hbad)]
      simp [hbad]

variable {as : List α} {bs : List β}

theorem mapM_eq_ok_iff :
    as.mapM f = .ok bs ↔ List.Forall₂ (fun a b => f a = .ok b) as bs := by
  induction as generalizing bs with
  | nil =>
    rw [List.mapM_nil, pure_eq_ok]
    constructor
    · rintro rfl
      exact .nil
    · rintro ⟨⟩
      rfl
  | cons a as ih =>
    simp only [List.mapM_cons, bind_eq_ok, pure_eq_ok, ih]
    constructor
    · rintro ⟨b, hb, bs', hbs', rfl⟩
      exact .cons hb hbs'
    · rintro (_ | ⟨hb, hbs⟩)
      exact ⟨_, hb, _, hbs, rfl⟩

@[simp] theorem toOption_ok {ε : Type} : (.ok a : Except ε α).toOption = some a := rfl

@[simp] theorem toOption_error {ε : Type} {e : ε} : (.error e : Except ε α).toOption = none := rfl

theorem toOption_eq_some : x.toOption = some a ↔ x = .ok a := by
  cases x <;> simp

/-- The values that a list of expressions yields, in order. -/
def collect (f : α → Except Failure (Option β)) : List α → Except Failure (List β)
  | [] => pure []
  | a :: as => do
    let b ← f a
    let bs ← collect f as
    pure (b.toList ++ bs)

variable {f g : α → Except Failure (Option β)}

theorem collect_append {as' : List α} :
    collect f (as ++ as') = .ok bs ↔
      ∃ l l', collect f as = .ok l ∧ collect f as' = .ok l' ∧ bs = l ++ l' := by
  induction as generalizing bs with
  | nil => simp [collect]
  | cons a as ih =>
    simp only [List.cons_append, collect, bind_eq_ok, pure_eq_ok, ih]
    constructor
    · rintro ⟨b, hb, _, ⟨l, l', hl, hl', rfl⟩, rfl⟩
      exact ⟨_, l', ⟨b, hb, l, hl, rfl⟩, hl', by simp⟩
    · rintro ⟨_, l', ⟨b, hb, l, hl, rfl⟩, hl', rfl⟩
      exact ⟨b, hb, _, ⟨l, l', hl, hl', rfl⟩, by simp⟩

theorem collect_congr (h : ∀ a ∈ as, f a = g a) : collect f as = collect g as := by
  induction as with
  | nil => rfl
  | cons a as ih =>
    rw [collect, collect, h a List.mem_cons_self,
      ih (fun b hb => h b (List.mem_cons_of_mem a hb))]

theorem mem_collect (h : collect f as = .ok bs) :
    b ∈ bs ↔ ∃ a ∈ as, f a = .ok (some b) := by
  induction as generalizing bs with
  | nil =>
    simp only [collect, pure_eq_ok] at h
    simp [← h]
  | cons a as ih =>
    simp only [collect, bind_eq_ok, pure_eq_ok] at h
    obtain ⟨o, ho, rest, hrest, rfl⟩ := h
    rw [List.mem_append, Option.mem_toList, ih hrest]
    constructor
    · rintro (hb | ⟨a', ha', hb⟩)
      · exact ⟨a, List.mem_cons_self, by rw [ho, hb]⟩
      · exact ⟨a', List.mem_cons_of_mem a ha', hb⟩
    · rintro ⟨a', ha', hb⟩
      rcases List.mem_cons.mp ha' with rfl | ha'
      · rw [ho] at hb
        exact .inl (Except.ok.inj hb)
      · exact .inr ⟨a', ha', hb⟩

/-- Every expression of a list that yields its values has returned. -/
theorem ok_of_collect (h : collect f as = .ok bs) (ha : a ∈ as) : ∃ o, f a = .ok o := by
  induction as generalizing bs with
  | nil => cases ha
  | cons a' as ih =>
    simp only [collect, bind_eq_ok, pure_eq_ok] at h
    obtain ⟨o, ho, rest, hrest, -⟩ := h
    rcases List.mem_cons.mp ha with rfl | ha
    · exact ⟨o, ho⟩
    · exact ih hrest ha

/-- A list of expressions has its values when each of them has. -/
theorem collect_returns (h : ∀ a ∈ as, ∃ o, f a = .ok o) :
    ∃ bs, collect f as = .ok bs := by
  induction as with
  | nil => exact ⟨[], rfl⟩
  | cons a as ih =>
    obtain ⟨o, ho⟩ := h a List.mem_cons_self
    obtain ⟨bs, hbs⟩ := ih (fun b hb => h b (List.mem_cons_of_mem a hb))
    refine ⟨o.toList ++ bs, ?_⟩
    rw [collect, ho, hbs]
    rfl

/-- A list of expressions fails as the first of them that fails. -/
theorem collect_eq_error : collect f as = .error e ↔
    ∃ before a after, as = before ++ a :: after ∧ (∀ b ∈ before, ∃ o, f b = .ok o) ∧
      f a = .error e := by
  constructor
  · intro h
    induction as with
    | nil => cases h
    | cons a as ih =>
      cases ha : f a with
      | error e' =>
        rw [collect, ha] at h
        obtain rfl : e' = e := Except.error.inj h
        exact ⟨[], a, as, rfl, List.forall_mem_nil _, ha⟩
      | ok o =>
        have hrest : collect f as = .error e := by
          cases hbs : collect f as with
          | ok bs => simp [collect, ha, hbs] at h
          | error e' =>
            rw [collect, ha, hbs] at h
            exact h
        obtain ⟨before, a', after, rfl, hbefore, ha'⟩ := ih hrest
        exact ⟨a :: before, a', after, rfl, List.forall_mem_cons.mpr ⟨⟨o, ha⟩, hbefore⟩, ha'⟩
  · rintro ⟨before, a, after, rfl, hbefore, ha⟩
    induction before with
    | nil =>
      rw [List.nil_append, collect, ha]
      rfl
    | cons b before ih =>
      obtain ⟨⟨o, ho⟩, hbefore⟩ := List.forall_mem_cons.mp hbefore
      rw [List.cons_append, collect, ho, ok_bind, ih hbefore]
      rfl

/-- The values of part of a list, when the part can be told from the values. -/
theorem collect_filter {p : α → Bool} {q : β → Bool} (h : collect f as = .ok bs)
    (hpq : ∀ a ∈ as, ∀ b, f a = .ok (some b) → q b = p a) :
    collect f (as.filter p) = .ok (bs.filter q) := by
  induction as generalizing bs with
  | nil =>
    cases h
    rfl
  | cons a as ih =>
    simp only [collect, bind_eq_ok, pure_eq_ok] at h
    obtain ⟨o, ho, rest, hrest, rfl⟩ := h
    have hfilter := ih hrest fun a' ha' => hpq a' (List.mem_cons_of_mem a ha')
    have hq : ∀ b, o = some b → q b = p a := fun b hb => hpq a List.mem_cons_self b (hb ▸ ho)
    rw [List.filter_append, List.filter_cons]
    cases hp : p a with
    | true =>
      have hkept : o.toList.filter q = o.toList := by
        cases o with
        | none => rfl
        | some b => simp [hq b rfl, hp]
      simp only [if_true, collect, bind_eq_ok, pure_eq_ok]
      exact ⟨o, ho, _, hfilter, by rw [hkept]⟩
    | false =>
      have hdropped : o.toList.filter q = [] := by
        cases o with
        | none => rfl
        | some b => simp [hq b rfl, hp]
      simpa only [Bool.false_eq_true, if_false, hdropped, List.nil_append] using hfilter

/-- What the values are marked with comes from the expressions, in order. -/
theorem map_sublist_of_collect {γ : Type} {φ : β → γ} {ψ : α → γ} (h : collect f as = .ok bs)
    (hφ : ∀ a ∈ as, ∀ b, f a = .ok (some b) → φ b = ψ a) :
    (bs.map φ).Sublist (as.map ψ) := by
  induction as generalizing bs with
  | nil =>
    cases h
    exact List.Sublist.refl _
  | cons a as ih =>
    simp only [collect, bind_eq_ok, pure_eq_ok] at h
    obtain ⟨o, ho, rest, hrest, rfl⟩ := h
    have hsub := ih hrest fun a' ha' => hφ a' (List.mem_cons_of_mem a ha')
    cases o with
    | none => exact hsub.cons _
    | some b =>
      have hb : φ b = ψ a := hφ a List.mem_cons_self b ho
      simpa [hb] using hsub

end Failure

/-- A function over a state: the returned value, or `none` for an exception, and the state at
its end. -/
def Call (σ α : Type) : Type := σ → Except Abort (Option α × σ)

namespace Call

variable {σ τ α β : Type}

instance : Monad (Call σ) where
  pure a := fun s => .ok (some a, s)
  bind x f := fun s =>
    match x s with
    | .error why => .error why
    | .ok (none, s') => .ok (none, s')
    | .ok (some a, s') => f a s'

theorem bind_apply (x : Call σ α) (f : α → Call σ β) (s : σ) :
    (x >>= f) s = match x s with
      | .error why => .error why
      | .ok (none, s') => .ok (none, s')
      | .ok (some a, s') => f a s' := rfl

instance : LawfulMonad (Call σ) := by
  refine LawfulMonad.mk' (Call σ) (fun x => ?_) (fun _ _ => rfl) (fun x f g => ?_)
  · funext s
    show (x >>= fun a => pure a) s = x s
    rw [bind_apply]
    rcases x s with why | ⟨_ | a, s'⟩ <;> rfl
  · funext s
    simp only [bind_apply]
    rcases x s with why | ⟨_ | a, s'⟩ <;> rfl

/-- The state. -/
def get : Call σ σ := fun s => .ok (some s, s)

/-- A write. -/
def modify (f : σ → σ) : Call σ Unit := fun s => .ok (some (), f s)

/-- A write that can end the process. -/
def update (f : σ → Except Abort σ) : Call σ Unit := fun s =>
  match f s with
  | .error why => .error why
  | .ok s' => .ok (some (), s')

/-- `throw`. -/
def throw : Call σ α := fun s => .ok (none, s)

/-- An expression that does not write. -/
def eval (x : Except Failure α) : Call σ α := fun s =>
  match x with
  | .ok a => .ok (some a, s)
  | .error .thrown => .ok (none, s)
  | .error (.abort why) => .error why

/-- The end of the process. -/
def abort (why : Abort) : Call σ α := fun _ => .error why

/-- `assert(condition)`. -/
def assert (condition : Bool) : Call σ Unit := fun s =>
  if condition then .ok (some (), s) else .error .assertion

/-- `try … catch`: the handler runs in the state the exception left. -/
def tryCatch (x : Call σ α) (handler : Call σ α) : Call σ α := fun s =>
  match x s with
  | .error why => .error why
  | .ok (none, s') => handler s'
  | .ok (some a, s') => .ok (some a, s')

/-- A function over a part of the state. -/
def focus (part : σ → τ) (put : τ → σ → σ) (x : Call τ α) : Call σ α := fun s =>
  match x (part s) with
  | .error why => .error why
  | .ok (o, t) => .ok (o, put t s)

/-- A loop over a list. -/
def each (body : α → Call σ Unit) : List α → Call σ Unit
  | [] => pure ()
  | a :: as => do
    body a
    each body as

/-- A loop over a list that collects a value in each round. -/
def gather (body : α → Call σ β) : List α → Call σ (List β)
  | [] => pure []
  | a :: as => do
    let b ← body a
    let bs ← gather body as
    pure (b :: bs)

/-- A function over an object of its own. What it returns comes with the object; an exception
leaves nothing of it. -/
def locally (t : τ) (x : Call τ α) : Call σ (α × τ) := fun s =>
  match x t with
  | .error why => .error why
  | .ok (none, _) => .ok (none, s)
  | .ok (some a, t') => .ok (some (a, t'), s)

variable {a : α}

theorem eval_ok : (eval (.ok a) : Call σ α) = pure a := rfl

variable {part : σ → τ} {put : τ → σ → σ}

/-- A part of the state and what the function over it returns. -/
theorem focus_map (f : α → β) (x : Call τ α) :
    focus part put (f <$> x) = f <$> focus part put x := by
  funext s
  simp only [map_eq_pure_bind, focus, bind_apply]
  rcases x (part s) with why | ⟨_ | a, t⟩ <;> rfl

/-! ## Weakest preconditions -/

/-- Whenever the call returns, `Q` holds of the value and the state; whenever it throws, `E`
holds of the state. -/
def wp (x : Call σ α) (Q : α → σ → Prop) (E : σ → Prop) (s : σ) : Prop :=
  match x s with
  | .error _ => True
  | .ok (some a, s') => Q a s'
  | .ok (none, s') => E s'

variable {Q : α → σ → Prop} {E : σ → Prop} {s : σ}

variable {x : Call σ α}

@[simp] theorem wp_pure : wp (pure a : Call σ α) Q E s ↔ Q a s := Iff.rfl

@[simp] theorem wp_bind {Q : β → σ → Prop} :
    wp (x >>= f) Q E s ↔ wp x (fun a s' => wp (f a) Q E s') E s := by
  unfold wp
  simp only [bind_apply]
  rcases x s with why | ⟨_ | a, s'⟩ <;> exact Iff.rfl

@[simp] theorem wp_map {f : α → β} {Q : β → σ → Prop} :
    wp (f <$> x) Q E s ↔ wp x (fun a s' => Q (f a) s') E s := by
  rw [map_eq_pure_bind]
  exact wp_bind

@[simp] theorem wp_get {Q : σ → σ → Prop} : wp (get : Call σ σ) Q E s ↔ Q s s := Iff.rfl

@[simp] theorem wp_modify {f : σ → σ} {Q : Unit → σ → Prop} :
    wp (modify f) Q E s ↔ Q () (f s) := Iff.rfl

@[simp] theorem wp_update {f : σ → Except Abort σ} {Q : Unit → σ → Prop} :
    wp (update f) Q E s ↔ ∀ s', f s = .ok s' → Q () s' := by
  unfold wp update
  cases f s <;> simp

@[simp] theorem wp_throw : wp (throw : Call σ α) Q E s ↔ E s := Iff.rfl

@[simp] theorem wp_abort {why : Abort} : wp (abort why : Call σ α) Q E s ↔ True := Iff.rfl

@[simp] theorem wp_eval {x : Except Failure α} :
    wp (eval x : Call σ α) Q E s ↔
      (∀ a, x = .ok a → Q a s) ∧ (x = .error .thrown → E s) := by
  rcases x with (why | _) | a <;> simp [eval, wp]

/-- An expression that can only end the process does not throw. -/
@[simp] theorem wp_eval_ofAbort {x : Except Abort α} :
    wp (eval (Failure.ofAbort x) : Call σ α) Q E s ↔ ∀ a, x = .ok a → Q a s := by
  cases x <;> simp [eval, wp, Failure.ofAbort]

variable {condition : Bool}

@[simp] theorem wp_assert {Q : Unit → σ → Prop} :
    wp (assert condition) Q E s ↔ (condition = true → Q () s) := by
  cases condition <;> simp [assert, wp]

@[simp] theorem wp_tryCatch {handler : Call σ α} :
    wp (tryCatch x handler) Q E s ↔ wp x Q (fun s' => wp handler Q E s') s := by
  unfold wp tryCatch
  rcases x s with why | ⟨_ | a, s'⟩ <;> exact Iff.rfl

@[simp] theorem wp_focus {x : Call τ α} :
    wp (focus part put x) Q E s ↔
      wp x (fun a t => Q a (put t s)) (fun t => E (put t s)) (part s) := by
  unfold wp focus
  rcases x (part s) with why | ⟨_ | a, t⟩ <;> exact Iff.rfl

@[simp] theorem wp_locally {t : τ} {x : Call τ α} {Q : α × τ → σ → Prop} :
    wp (locally t x) Q E s ↔ wp x (fun a t' => Q (a, t') s) (fun _ => E s) t := by
  unfold wp locally
  rcases x t with why | ⟨_ | a, t'⟩ <;> exact Iff.rfl

variable {Q' : α → σ → Prop}

/-- Weaker assertions hold of the same call. -/
theorem wp_mono {E' : σ → Prop} (h : wp x Q E s) (hQ : ∀ a s', Q a s' → Q' a s') (hE : ∀ s', E s' → E' s') :
    wp x Q' E' s := by
  unfold wp at h ⊢
  rcases hx : x s with why | ⟨_ | a, s'⟩
  · trivial
  · rw [hx] at h
    exact hE s' h
  · rw [hx] at h
    exact hQ a s' h

/-- The same with one assertion about exceptions. -/
theorem wp_weaken (h : wp x Q E s) (hQ : ∀ a s', Q a s' → Q' a s') : wp x Q' E s :=
  wp_mono h hQ fun _ h => h

variable {body : α → Call σ Unit} {I : List α → σ → Prop}

/-- A loop keeps what every round of it keeps; `I` may depend on the rounds still to come. -/
theorem wp_each (round : ∀ a as s, I (a :: as) s → wp (body a) (fun _ s' => I as s') E s) :
    ∀ (l : List α) (s : σ), I l s → wp (each body l) (fun _ s' => I [] s') E s
  | [], _, h => h
  | a :: as, s, h => by
    simp only [each, wp_bind]
    exact wp_weaken (round a as s h) (fun _ s' h' => wp_each round as s' h')

/-- The same for a loop that collects values; `I` may depend on those collected so far. -/
theorem wp_gather {body : α → Call σ β} {I : List α → List β → σ → Prop}
    (round : ∀ a as bs s, I (a :: as) bs s → wp (body a) (fun b s' => I as (bs ++ [b]) s') E s) :
    ∀ (l : List α) (bs : List β) (s : σ), I l bs s →
      wp (gather body l) (fun bs' s' => I [] (bs ++ bs') s') E s
  | [], bs, _, h => by
    simp only [gather, wp_pure, List.append_nil]
    exact h
  | a :: as, bs, s, h => by
    simp only [gather, wp_bind, wp_pure]
    refine wp_weaken (round a as bs s h) (fun b s' h' => ?_)
    refine wp_weaken (wp_gather round as (bs ++ [b]) s' h') (fun bs' s'' h'' => ?_)
    rwa [List.append_assoc] at h''

/-- What the assertions say about a call that ended. -/
theorem of_wp (h : wp x Q E s) {o : Option α} {s' : σ} (hx : x s = .ok (o, s')) :
    (∀ a, o = some a → Q a s') ∧ (o = none → E s') := by
  unfold wp at h
  rw [hx] at h
  cases o with
  | none =>
    refine ⟨fun a ha => ?_, fun _ => h⟩
    cases ha
  | some a =>
    refine ⟨fun b hb => ?_, fun hb => ?_⟩
    · cases hb
      exact h
    · cases hb

/-- The strongest assertions: what the call itself says. -/
theorem wp_self :
    wp x (fun a s' => x s = .ok (some a, s')) (fun s' => x s = .ok (none, s')) s := by
  unfold wp
  rcases x s with why | ⟨_ | a, s'⟩
  · trivial
  · rfl
  · rfl

/-- Assertions that hold of everything hold at the end of every call. -/
theorem wp_of_forall (hQ : ∀ a s', Q a s') (hE : ∀ s', E s') : wp x Q E s := by
  unfold wp
  rcases x s with why | ⟨_ | a, s'⟩
  · trivial
  · exact hE s'
  · exact hQ a s'

/-- Assertions that hold under a condition on the start. -/
theorem wp_imp {p : Prop} (h : p → wp x Q E s) :
    wp x (fun a s' => p → Q a s') (fun s' => p → E s') s := by
  unfold wp at h ⊢
  rcases hx : x s with why | ⟨_ | a, s'⟩
  · trivial
  · intro hp
    simpa only [hx] using h hp
  · intro hp
    simpa only [hx] using h hp

theorem wp_and {E' : σ → Prop} (h : wp x Q E s) (h' : wp x Q' E' s) :
    wp x (fun a s' => Q a s' ∧ Q' a s') (fun s' => E s' ∧ E' s') s := by
  unfold wp at h h' ⊢
  rcases hx : x s with why | ⟨_ | a, s'⟩
  · trivial
  · simp only [hx] at h h'
    exact ⟨h, h'⟩
  · simp only [hx] at h h'
    exact ⟨h, h'⟩

/-! ## Calls that do not end the process -/

/-- The call returns or throws. -/
def Survives (x : Call σ α) (s : σ) : Prop := ∃ r, x s = .ok r

theorem survives_pure : Survives (pure a : Call σ α) s := ⟨_, rfl⟩

theorem survives_throw : Survives (throw : Call σ α) s := ⟨_, rfl⟩

theorem survives_modify {f : σ → σ} : Survives (modify f) s := ⟨_, rfl⟩

theorem survives_update {f : σ → Except Abort σ} {s' : σ} (h : f s = .ok s') :
    Survives (update f) s := by
  refine ⟨(some (), s'), ?_⟩
  rw [update, h]

theorem survives_eval {x : Except Failure α} (h : x = .ok a) :
    Survives (eval x : Call σ α) s := by
  subst h
  exact ⟨_, rfl⟩

theorem survives_assert (h : condition = true) :
    Survives (assert condition : Call σ Unit) s := by
  subst h
  exact ⟨_, rfl⟩

/-- A sequence survives when its second part survives whatever the first one leaves. -/
theorem survives_bind (hx : Survives x s)
    (hf : wp x (fun a s' => Survives (f a) s') (fun _ => True) s) : Survives (x >>= f) s := by
  obtain ⟨⟨o, s'⟩, hr⟩ := hx
  unfold Survives
  rw [bind_apply]
  unfold wp at hf
  rw [hr] at hf ⊢
  cases o with
  | none => exact ⟨_, rfl⟩
  | some a => exact hf

theorem survives_get_bind {f : σ → Call σ β} (hf : Survives (f s) s) :
    Survives (get >>= f) s := hf

/-! ## Calls that return -/

/-- The call returns, with a value and a state that have the property. -/
def Returns (x : Call σ α) (Q : α → σ → Prop) (s : σ) : Prop := ∃ a s', x s = .ok (some a, s') ∧ Q a s'

instance decidableReturns (x : Call σ α) (Q : α → σ → Prop) [∀ a s', Decidable (Q a s')] (s : σ) :
    Decidable (Returns x Q s) :=
  match h : x s with
  | .error _ => isFalse fun ⟨_, _, h', _⟩ => nomatch h.symm.trans h'
  | .ok (none, _) => isFalse fun ⟨_, _, h', _⟩ => nomatch h.symm.trans h'
  | .ok (some a, s') =>
    decidable_of_iff (Q a s') ⟨fun hQ => ⟨a, s', h, hQ⟩, fun ⟨_, _, h', hQ⟩ => by
      obtain ⟨⟨rfl⟩, rfl⟩ := Prod.mk.inj (Except.ok.inj (h.symm.trans h'))
      exact hQ⟩

@[simp] theorem returns_pure : Returns (pure a : Call σ α) Q s ↔ Q a s := by
  constructor
  · rintro ⟨_, _, ⟨⟩, h⟩
    exact h
  · exact fun h => ⟨a, s, rfl, h⟩

@[simp] theorem returns_bind {Q : β → σ → Prop} :
    Returns (x >>= f) Q s ↔ Returns x (fun a s' => Returns (f a) Q s') s := by
  unfold Returns
  rw [bind_apply]
  rcases x s with why | ⟨_ | a, s'⟩
  · simp
  · simp
  · simp

@[simp] theorem returns_get {Q : σ → σ → Prop} : Returns (get : Call σ σ) Q s ↔ Q s s := by
  simp [Returns, get]

@[simp] theorem returns_modify {f : σ → σ} {Q : Unit → σ → Prop} :
    Returns (modify f) Q s ↔ Q () (f s) := by
  constructor
  · rintro ⟨⟨⟩, _, ⟨⟩, h⟩
    exact h
  · exact fun h => ⟨(), f s, rfl, h⟩

@[simp] theorem returns_update {f : σ → Except Abort σ} {Q : Unit → σ → Prop} :
    Returns (update f) Q s ↔ ∃ s', f s = .ok s' ∧ Q () s' := by
  simp only [Returns, update]
  cases f s with
  | error why => simp
  | ok s' =>
    constructor
    · rintro ⟨⟨⟩, _, ⟨⟩, h⟩
      exact ⟨s', rfl, h⟩
    · rintro ⟨_, ⟨⟩, h⟩
      exact ⟨(), s', rfl, h⟩

@[simp] theorem returns_eval {x : Except Failure α} :
    Returns (eval x) Q s ↔ ∃ a, x = .ok a ∧ Q a s := by
  simp only [Returns, eval]
  rcases x with (why | _) | a <;> simp

@[simp] theorem returns_assert {Q : Unit → σ → Prop} :
    Returns (assert condition) Q s ↔ condition = true ∧ Q () s := by
  cases condition with
  | false => simp [Returns, assert]
  | true =>
    constructor
    · rintro ⟨⟨⟩, _, ⟨⟩, h⟩
      exact ⟨rfl, h⟩
    · exact fun h => ⟨(), s, rfl, h.2⟩

@[simp] theorem returns_focus {x : Call τ α} :
    Returns (focus part put x) Q s ↔ Returns x (fun a t => Q a (put t s)) (part s) := by
  simp only [Returns, focus]
  rcases x (part s) with why | ⟨_ | a, t⟩ <;> simp

theorem Returns.mono (h : Returns x Q s) (himp : ∀ a s', Q a s' → Q' a s') : Returns x Q' s := by
  obtain ⟨a, s', hx, hQ⟩ := h
  exact ⟨a, s', hx, himp a s' hQ⟩

/-- A call that returns, and what is known of it if it does. -/
theorem Returns.and_wp (h : Returns x Q s) (hwp : wp x Q' E s) :
    Returns x (fun a s' => Q a s' ∧ Q' a s') s := by
  obtain ⟨a, s', hx, hQ⟩ := h
  exact ⟨a, s', hx, hQ, (of_wp hwp hx).1 a rfl⟩

/-- A loop returns when every round does, under an invariant about the rounds to come. -/
theorem returns_each (h : ∀ a as s, I (a :: as) s → Returns (body a) (fun _ s' => I as s') s) :
    ∀ (l : List α) (s : σ), I l s → Returns (each body l) (fun _ s' => I [] s') s
  | [], _, hs => returns_pure.mpr hs
  | a :: as, s, hs =>
    returns_bind.mpr ((h a as s hs).mono fun _ s' hs' => returns_each h as s' hs')

/-! ## Parts of the state that a call leaves alone -/

/-- However the call ends, the part of the state is as before. -/
def Preserves (part : σ → τ) (x : Call σ α) : Prop :=
  ∀ s, wp x (fun _ s' => part s' = part s) (fun s' => part s' = part s) s

variable {part : σ → τ}

/-- What holds of all states with the part unchanged holds after a call that preserves it. -/
theorem Preserves.wp (h : Preserves part x) (hQ : ∀ a s', part s' = part s → Q a s')
    (hE : ∀ s', part s' = part s → E s') :
    Call.wp x Q E s :=
  wp_mono (h s) hQ hE

namespace Preserves

/-- What is computed from a kept part is kept. -/
theorem map {υ : Type} (f : τ → υ) (h : Preserves part x) :
    Preserves (fun s => f (part s)) x := fun _ =>
  h.wp (fun _ _ hs => congrArg f hs) (fun _ hs => congrArg f hs)

theorem pure (a : α) : Preserves part (Pure.pure a : Call σ α) := fun _ => rfl

theorem throw : Preserves part (Call.throw : Call σ α) := fun _ => rfl

theorem get : Preserves part (Call.get : Call σ σ) := fun _ => rfl

theorem eval (x : Except Failure α) : Preserves part (Call.eval x : Call σ α) := fun _ =>
  wp_eval.mpr ⟨fun _ _ => rfl, fun _ => rfl⟩

theorem assert (condition : Bool) : Preserves part (Call.assert condition : Call σ Unit) := fun _ =>
  wp_assert.mpr fun _ => rfl

theorem modify {f : σ → σ} (h : ∀ s, part (f s) = part s) : Preserves part (Call.modify f) := h

theorem update {f : σ → Except Abort σ} (h : ∀ s s', f s = .ok s' → part s' = part s) :
    Preserves part (Call.update f) := fun s => wp_update.mpr (h s)

theorem bind {f : α → Call σ β} (hx : Preserves part x) (hf : ∀ a, Preserves part (f a)) :
    Preserves part (x >>= f) := fun s => by
  rw [wp_bind]
  refine hx.wp (fun a s' hs' => ?_) (fun s' hs' => hs')
  exact (hf a).wp (fun _ _ h => h.trans hs') (fun _ h => h.trans hs')

/-- A call that starts by reading the state. -/
theorem get_bind {f : σ → Call σ β}
    (hf : ∀ s, Call.wp (f s) (fun _ s' => part s' = part s) (fun s' => part s' = part s) s) :
    Preserves part (Call.get >>= f) := fun s => by
  rw [wp_bind, wp_get]
  exact hf s

theorem each (h : ∀ a, Preserves part (body a)) :
    ∀ l : List α, Preserves part (Call.each body l)
  | [] => pure ()
  | a :: as => bind (h a) (fun _ => each h as)

end Preserves

end Call
