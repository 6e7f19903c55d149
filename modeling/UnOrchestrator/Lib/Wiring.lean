import Mathlib.Data.List.Nodup
import Mathlib.Data.List.Lookmap
import Mathlib.Tactic.Common

/-!
# Links shared between two directions

Targets are served by links, and a link may serve one target in each direction. The
bookkeeping is a list of links and a partial function from targets to identifiers of
links. It is in order (`Wired`) when every target is served by an existing link, every
link serves some target, and no link serves two targets of one direction.

The operations keep it in order: handing out a list of links to targets in both
directions at once (`Wired.zip`), adding a link for new targets (`Wired.attach`), where
`pairUp` says which targets share one, and releasing a target together with its link unless the link is used in the other direction
(`Wired.release`). The last two leave the links of all other targets alone
(`resolve_append`, `resolve_of_sublist`).
-/

namespace Wiring

variable {κ ν ι : Type}

/-- The bookkeeping of links and targets is in order. -/
structure Wired (id : ν → ι) (up : κ → Bool) (links : List ν) (served : κ → Option ι) : Prop where
  distinct : (links.map id).Nodup
  attached : ∀ {k i}, served k = some i → i ∈ links.map id
  used : ∀ l ∈ links, ∃ k, served k = some (id l)
  exclusive : ∀ {k k' i}, served k = some i → served k' = some i → up k = up k' → k = k'

variable {id : ν → ι} {up : κ → Bool} {links : List ν} {served served' : κ → Option ι}

/-- Positions of a list without repetitions are determined by the elements. -/
private theorem zip_functional {ks : List κ} {is : List ι} (his : is.Nodup) {k k' : κ} {i : ι}
    (h : (k, i) ∈ ks.zip is) (h' : (k', i) ∈ ks.zip is) : k = k' := by
  induction ks generalizing is with
  | nil => simp at h
  | cons a ks ih =>
    cases is with
    | nil => simp at h
    | cons b is =>
      obtain ⟨hb, his⟩ := List.nodup_cons.mp his
      rw [List.zip_cons_cons, List.mem_cons, Prod.mk.injEq] at h h'
      rcases h with ⟨rfl, rfl⟩ | h
      · rcases h' with ⟨rfl, -⟩ | h'
        · rfl
        · exact absurd (List.of_mem_zip h').2 hb
      · rcases h' with ⟨-, rfl⟩ | h'
        · exact absurd (List.of_mem_zip h).2 hb
        · exact ih his h h'

/-- An element at a position that the other list reaches is paired with something. -/
theorem getElem_mem_zip {ks : List κ} {is : List ι} {n : Nat} (hk : n < ks.length)
    (hi : n < is.length) : (ks[n], is[n]) ∈ ks.zip is := by
  have hn : n < (ks.zip is).length := by
    rw [List.length_zip]
    omega
  rw [← List.getElem_zip (h := hn)]
  exact List.getElem_mem hn

/-- Handing out the links in order to the targets of either direction uses all of them, when
there are as many as the longer list needs. -/
theorem Wired.zip {ups downs : List κ} (hdistinct : (links.map id).Nodup)
    (hups : ∀ k ∈ ups, up k = true) (hdowns : ∀ k ∈ downs, up k = false)
    (hlength : links.length = max ups.length downs.length)
    (hserved : ∀ k i, served k = some i ↔
      (k, i) ∈ ups.zip (links.map id) ∨ (k, i) ∈ downs.zip (links.map id)) :
    Wired id up links served where
  distinct := hdistinct
  attached := by
    intro k i h
    rcases (hserved k i).mp h with h | h <;> exact (List.of_mem_zip h).2
  used := by
    intro l hl
    obtain ⟨n, hn, rfl⟩ := List.getElem_of_mem hl
    have hid : n < (links.map id).length := by rwa [List.length_map]
    have hget : (links.map id)[n] = id links[n] := List.getElem_map id
    by_cases hup : n < ups.length
    · exact ⟨ups[n], (hserved _ _).mpr (.inl (hget ▸ getElem_mem_zip hup hid))⟩
    · have hdown : n < downs.length := by omega
      exact ⟨downs[n], (hserved _ _).mpr (.inr (hget ▸ getElem_mem_zip hdown hid))⟩
  exclusive := by
    intro k k' i h h' hdir
    rcases (hserved k i).mp h with h | h <;> rcases (hserved k' i).mp h' with h' | h'
    · exact zip_functional hdistinct h h'
    · rw [hups k (List.of_mem_zip h).1, hdowns k' (List.of_mem_zip h').1] at hdir
      cases hdir
    · rw [hdowns k (List.of_mem_zip h).1, hups k' (List.of_mem_zip h').1] at hdir
      cases hdir
    · exact zip_functional hdistinct h h'

/-- A new link for new targets, at most one in each direction. -/
theorem Wired.attach (h : Wired id up links served) {l : ν} {keys : List κ}
    (hfresh : id l ∉ links.map id) (hkeys : keys ≠ [])
    (hone : ∀ k ∈ keys, ∀ k' ∈ keys, up k = up k' → k = k')
    (hserved : ∀ k i, served' k = some i ↔ (k ∈ keys ∧ i = id l) ∨ served k = some i) :
    Wired id up (links ++ [l]) served' where
  distinct := by
    rw [List.map_append, List.map_singleton]
    refine List.Nodup.append h.distinct (List.nodup_singleton _) ?_
    intro i hi hmem
    exact hfresh (List.mem_singleton.mp hmem ▸ hi)
  attached := by
    intro k i hk
    rw [List.map_append, List.mem_append]
    rcases (hserved k i).mp hk with ⟨-, rfl⟩ | hk
    · exact .inr List.mem_cons_self
    · exact .inl (h.attached hk)
  used := by
    intro l' hl'
    rcases List.mem_append.mp hl' with hl' | hl'
    · obtain ⟨k, hk⟩ := h.used l' hl'
      exact ⟨k, (hserved _ _).mpr (.inr hk)⟩
    · obtain ⟨k, hk⟩ := List.exists_mem_of_ne_nil keys hkeys
      obtain rfl := List.mem_singleton.mp hl'
      exact ⟨k, (hserved _ _).mpr (.inl ⟨hk, rfl⟩)⟩
  exclusive := by
    intro k k' i hk hk' hdir
    rcases (hserved k i).mp hk with ⟨hmem, rfl⟩ | hk <;>
      rcases (hserved k' _).mp hk' with ⟨hmem', heq⟩ | hk'
    · exact hone k hmem k' hmem' hdir
    · exact absurd (h.attached hk') hfresh
    · exact absurd (heq ▸ h.attached hk) hfresh
    · exact h.exclusive hk hk' hdir

/-- Releasing a target; its link goes unless a target of the other direction uses it. -/
theorem Wired.release (h : Wired id up links served) {k : κ} {i : ι} {links' : List ν}
    (hk : served k = some i)
    (hserved : ∀ k' j, served' k' = some j ↔ k' ≠ k ∧ served k' = some j)
    (hlinks : (∃ k', up k' ≠ up k ∧ served k' = some i) ∧ links' = links ∨
      (∀ k', up k' ≠ up k → served k' ≠ some i) ∧
        links'.Sublist links ∧ ∀ l, l ∈ links' ↔ l ∈ links ∧ id l ≠ i) :
    Wired id up links' served' := by
  have hsub : links'.Sublist links := by
    rcases hlinks with ⟨-, rfl⟩ | ⟨-, hsub, -⟩
    · exact List.Sublist.refl _
    · exact hsub
  refine ⟨h.distinct.sublist (hsub.map id), ?_, ?_, ?_⟩
  · intro k' j hk'
    obtain ⟨hne, hk'⟩ := (hserved k' j).mp hk'
    obtain ⟨l, hl, rfl⟩ := List.mem_map.mp (h.attached hk')
    rcases hlinks with ⟨-, rfl⟩ | ⟨hunused, -, hmem⟩
    · exact List.mem_map_of_mem hl
    · refine List.mem_map_of_mem ((hmem l).mpr ⟨hl, fun heq => ?_⟩)
      subst heq
      -- the link of the released target serves no other one, in either direction
      by_cases hdir : up k' = up k
      · exact hne (h.exclusive hk' hk hdir)
      · exact hunused k' hdir hk'
  · intro l hl
    obtain ⟨k', hk'⟩ := h.used l (hsub.subset hl)
    by_cases hne : k' = k
    · subst hne
      rw [hk] at hk'
      obtain rfl := Option.some.inj hk'
      rcases hlinks with ⟨⟨k₂, hdir, hk₂⟩, -⟩ | ⟨-, -, hmem⟩
      · refine ⟨k₂, (hserved _ _).mpr ⟨fun heq => hdir (by rw [heq]), hk₂⟩⟩
      · exact absurd rfl ((hmem l).mp hl).2
    · exact ⟨k', (hserved _ _).mpr ⟨hne, hk'⟩⟩
  · intro k' k'' j hk' hk'' hdir
    exact h.exclusive ((hserved _ _).mp hk').2 ((hserved _ _).mp hk'').2 hdir

/-! ## Sharing new links -/

/-- Two lists of targets side by side: a link for the first of both, one for the second of
both, and so on, with the rest of the longer list on its own. -/
def pairUp : List κ → List κ → List (List κ)
  | [], bs => bs.map (fun b => [b])
  | a :: as, [] => [a] :: pairUp as []
  | a :: as, b :: bs => [a, b] :: pairUp as bs

theorem pairUp_flatten (as bs : List κ) : (pairUp as bs).flatten.Perm (as ++ bs) := by
  fun_induction pairUp as bs with
  | case1 bs => induction bs <;> simp_all
  | case2 a as ih => simpa using ih
  | case3 a as b bs ih =>
    rw [List.flatten_cons, List.cons_append, List.cons_append, List.nil_append, List.cons_append]
    exact ((ih.cons b).trans List.perm_middle.symm).cons a

/-- A group holds something, and at most one target of each list. -/
theorem mem_pairUp {as bs group : List κ} (h : group ∈ pairUp as bs) :
    (∃ a ∈ as, ∃ b ∈ bs, group = [a, b]) ∨ ∃ c, group = [c] := by
  fun_induction pairUp as bs with
  | case1 bs =>
    obtain ⟨b, -, rfl⟩ := List.mem_map.mp h
    exact .inr ⟨b, rfl⟩
  | case2 a as ih =>
    rcases List.mem_cons.mp h with rfl | h
    · exact .inr ⟨a, rfl⟩
    · rcases ih h with ⟨_, _, b', hb', -⟩ | hone
      · cases hb'
      · exact .inr hone
  | case3 a as b bs ih =>
    rcases List.mem_cons.mp h with rfl | h
    · exact .inl ⟨a, List.mem_cons_self, b, List.mem_cons_self, rfl⟩
    · rcases ih h with ⟨a', ha', b', hb', rfl⟩ | hone
      · exact .inl ⟨a', List.mem_cons_of_mem a ha', b', List.mem_cons_of_mem b hb', rfl⟩
      · exact .inr hone

/-! ## The link of a target -/

variable [DecidableEq ι]

/-- The link that serves a target. -/
def resolve (id : ν → ι) (links : List ν) (served : κ → Option ι) (k : κ) : Option ν :=
  (served k).bind (fun i => links.find? (fun l => id l = i))

theorem resolve_isSome (h : Wired id up links served) {k : κ} :
    (resolve id links served k).isSome ↔ (served k).isSome := by
  unfold resolve
  cases hk : served k with
  | none => simp
  | some i =>
    obtain ⟨l, hl, rfl⟩ := List.mem_map.mp (h.attached hk)
    simp only [Option.bind_some, List.find?_isSome, decide_eq_true_eq, Option.isSome_some,
      iff_true]
    exact ⟨l, hl, rfl⟩

/-- A link found before other links are added is still found. -/
theorem resolve_append {k : κ} {l : ν} (h : resolve id links served k = some l)
    (hserved : served' k = served k) (more : List ν) :
    resolve id (links ++ more) served' k = some l := by
  unfold resolve at h ⊢
  rw [hserved]
  cases hk : served k with
  | none => simp [hk] at h
  | some i =>
    simp only [hk, Option.bind_some] at h ⊢
    rw [List.find?_append, h, Option.some_or]

/-- A link found among some of the links is the one found among all of them. -/
theorem resolve_of_sublist {k : κ} {l : ν} {links' : List ν} (hdistinct : (links.map id).Nodup)
    (hsub : links'.Sublist links) (hserved : served' k = served k)
    (h : resolve id links' served' k = some l) : resolve id links served k = some l := by
  unfold resolve at h ⊢
  rw [hserved] at h
  cases hk : served k with
  | none => simp [hk] at h
  | some i =>
    simp only [hk, Option.bind_some] at h ⊢
    have hid : id l = i := by simpa using List.find?_some h
    have hmem : l ∈ links := hsub.subset (List.mem_of_find?_eq_some h)
    cases hfind : links.find? (fun l' => id l' = i) with
    | none => exact absurd (decide_eq_true hid) (List.find?_eq_none.mp hfind l hmem)
    | some l' =>
      have hid' : id l' = i := by simpa using List.find?_some hfind
      have hmem' : l' ∈ links := List.mem_of_find?_eq_some hfind
      rw [List.inj_on_of_nodup_map hdistinct hmem' hmem (hid'.trans hid.symm)]

end Wiring
